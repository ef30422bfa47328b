import FleetControl.Json.Parser
import FleetControl.Json.Printer
import Mathlib.Data.List.TakeWhile
import Mathlib.Tactic.IntervalCases

/-!
# Strings and numbers in a text

A written string is read up to its closing quote, and a number up to whatever
may come after a value. Strings go one character at a time: what is written for
it is read as it, in front of any rest. A number is read from its digits alone
first; that it ends where a tail begins holds of its three parts in turn.
-/
namespace FleetControl.Json

/-! ## Strings -/

theorem hexValue?_hexDigit (n : Nat) : hexValue? (hexDigit n) = some (n % 16) := by
  have h : ∀ d < 16,
      hexValue? (Char.ofNat (if d < 10 then 48 + d else 87 + d)) = some d := by decide
  exact h _ (Nat.mod_lt n (by decide))

/-- A control character is read off its four hexadecimal digits. -/
theorem unicodeEscape_control {c : Char} (h : c.toNat < 0x20) (rest : List Char) :
    unicodeEscape ('0' :: '0' :: hexDigit (c.toNat / 16) :: hexDigit c.toNat :: rest) =
      some (c, rest) := by
  have hzero : hexValue? '0' = some 0 := rfl
  have hunit : ((0 * 16 + 0) * 16 + c.toNat / 16 % 16) * 16 + c.toNat % 16 = c.toNat := by omega
  have hlow : (decide (c.toNat < 0xD800) || decide (0xE000 ≤ c.toNat)) = true := by
    simp only [Bool.or_eq_true, decide_eq_true_eq]
    omega
  simp only [unicodeEscape, hexUnit, hzero, hexValue?_hexDigit, Option.bind_eq_bind,
    Option.bind_some, hunit, hlow, if_true, Char.ofNat_toNat]

/-- One written character is read as itself, whatever comes after it. -/
theorem stringBody_escapedChar (fuel : Nat) (acc : List Char) (c : Char) (rest : List Char) :
    stringBody (fuel + 1) acc (escapedChar c rest) = stringBody fuel (c :: acc) rest := by
  unfold escapedChar
  split
  -- a letter after the backslash is read by computation; the last case has none
  case h_8 h1 h2 h3 h4 h5 h6 h7 =>
    split
    · rename_i h
      rw [stringBody, unicodeEscape_control h]
      rfl
    · rename_i h
      rw [stringBody]
      · exact if_neg h
      all_goals simp_all
  all_goals rfl

theorem length_succ_le_length_escapedChar (c : Char) (rest : List Char) :
    rest.length + 1 ≤ (escapedChar c rest).length := by
  unfold escapedChar
  split
  case h_8 => split <;> simp
  all_goals simp

theorem length_le_length_foldr_escapedChar (cs rest : List Char) :
    cs.length + rest.length ≤ (cs.foldr escapedChar rest).length := by
  induction cs with
  | nil => simp
  | cons c cs ih =>
      have hone := length_succ_le_length_escapedChar c (cs.foldr escapedChar rest)
      simp only [List.foldr_cons, List.length_cons]
      omega

/-- A written string is read up to its closing quote. -/
theorem stringBody_foldr (cs acc rest : List Char) {fuel : Nat} (h : cs.length < fuel) :
    stringBody fuel acc (cs.foldr escapedChar ('"' :: rest)) =
      some (String.ofList (acc.reverse ++ cs), rest) := by
  induction cs generalizing acc fuel with
  | nil =>
      obtain ⟨fuel, rfl⟩ := Nat.exists_eq_succ_of_ne_zero h.ne'
      simp [stringBody]
  | cons c cs ih =>
      obtain ⟨fuel, rfl⟩ := Nat.exists_eq_succ_of_ne_zero (Nat.ne_zero_of_lt h)
      rw [List.foldr_cons, stringBody_escapedChar, ih _ (Nat.lt_of_succ_lt_succ h)]
      simp

/-- The body of a string, read with as much fuel as there are characters. -/
theorem stringBody_writeString (s : String) (rest : List Char) :
    ∃ body, writeString s rest = '"' :: body ∧
      stringBody (body.length + 1) [] body = some (s, rest) := by
  refine ⟨_, rfl, ?_⟩
  have hlen := length_le_length_foldr_escapedChar s.toList ('"' :: rest)
  rw [stringBody_foldr _ _ _ (by simp at hlen; omega)]
  simp

/-! ## Numbers -/

/-- What may come after a value in a text. -/
def IsTail (rest : List Char) : Prop := ∀ c ∈ rest.head?, c = ',' ∨ c = ']' ∨ c = '\x7d'

theorem takeWhile_append_tail {p : Char → Bool} {rest : List Char}
    (h : ∀ c ∈ rest.head?, p c = false) (cs : List Char) :
    (cs ++ rest).takeWhile p = cs.takeWhile p ∧
      (cs ++ rest).dropWhile p = cs.dropWhile p ++ rest := by
  induction cs with
  | nil =>
      cases rest with
      | nil => simp
      | cons c rest => simp [h c rfl]
  | cons c cs ih =>
      cases hc : p c <;> simp [hc, ih]

theorem IsTail.isDigit {rest : List Char} (h : IsTail rest) :
    ∀ c ∈ rest.head?, isDigit c = false := by
  intro c hc
  rcases h c hc with rfl | rfl | rfl <;> decide

theorem wholeDigits_append {cs rest ds cs' : List Char} (ht : IsTail rest)
    (h : wholeDigits cs = some (ds, cs')) : wholeDigits (cs ++ rest) = some (ds, cs' ++ rest) := by
  obtain ⟨htake, hdrop⟩ := takeWhile_append_tail ht.isDigit cs
  dsimp only [wholeDigits] at h ⊢
  rw [htake, hdrop]
  split at h
  · cases h
  · cases h
  · cases h
    rfl

/-- A tail starts neither a fraction nor an exponent. -/
theorem IsTail.fractionDigits {rest : List Char} (h : IsTail rest) :
    fractionDigits rest = some ([], rest) := by
  cases rest with
  | nil => rfl
  | cons c rest => rcases h c rfl with rfl | rfl | rfl <;> rfl

theorem IsTail.exponentDigits {rest : List Char} (h : IsTail rest) :
    exponentDigits rest = some ([], rest) := by
  cases rest with
  | nil => rfl
  | cons c rest => rcases h c rfl with rfl | rfl | rfl <;> rfl

theorem fractionDigits_append {cs rest ds cs' : List Char} (ht : IsTail rest)
    (h : fractionDigits cs = some (ds, cs')) :
    fractionDigits (cs ++ rest) = some (ds, cs' ++ rest) := by
  unfold Json.fractionDigits at h
  split at h
  · rename_i cs
    obtain ⟨htake, hdrop⟩ := takeWhile_append_tail ht.isDigit cs
    dsimp only at h
    split at h
    · cases h
    · rename_i hne
      cases h
      simp [Json.fractionDigits, htake, hdrop, hne]
  · rename_i hpoint
    cases h
    cases cs with
    | nil => exact ht.fractionDigits
    | cons c cs =>
        rw [List.cons_append, Json.fractionDigits]
        rintro cs' h
        cases h
        exact hpoint cs rfl

/-- The digits of an exponent end where a tail begins. -/
theorem exponent_append {mark cs rest ds cs' : List Char} (ht : IsTail rest)
    (h : (if (cs.takeWhile isDigit).isEmpty then none
      else some (mark ++ cs.takeWhile isDigit, cs.dropWhile isDigit)) = some (ds, cs')) :
    (if ((cs ++ rest).takeWhile isDigit).isEmpty then none
      else some (mark ++ (cs ++ rest).takeWhile isDigit, (cs ++ rest).dropWhile isDigit))
      = some (ds, cs' ++ rest) := by
  obtain ⟨htake, hdrop⟩ := takeWhile_append_tail ht.isDigit cs
  rw [htake, hdrop]
  split at h
  · cases h
  · rename_i hne
    cases h
    rw [if_neg hne]

theorem exponentDigits_append {cs rest ds cs' : List Char} (ht : IsTail rest)
    (h : exponentDigits cs = some (ds, cs')) :
    exponentDigits (cs ++ rest) = some (ds, cs' ++ rest) := by
  dsimp only [Json.exponentDigits] at h
  split at h
  case h_5 cs hplus hminus | h_6 cs hplus hminus =>
    -- a mark without a sign: its digits are there, so no sign can come in with the tail
    cases cs with
    | nil => cases h
    | cons c cs =>
        have hread := exponent_append ht h
        rw [List.cons_append, List.cons_append, Json.exponentDigits]
        · exact hread
        · rintro cs' h'
          cases h'
          exact hplus _ rfl
        · rintro cs' h'
          cases h'
          exact hminus _ rfl
  case h_7 =>
    cases h
    cases cs with
    | nil => exact ht.exponentDigits
    | cons c cs =>
        unfold Json.exponentDigits
        dsimp only
        split <;> simp_all
  all_goals exact exponent_append ht h

/-- A number ends where a tail begins. -/
theorem numberAt_append {negative : Bool} {cs rest : List Char} {j : Json} (ht : IsTail rest)
    (h : numberAt negative cs = some (j, [])) :
    numberAt negative (cs ++ rest) = some (j, rest) := by
  simp only [numberAt, Option.bind_eq_bind, Option.bind_eq_some_iff] at h ⊢
  obtain ⟨⟨whole, r1⟩, hwhole, ⟨fraction, r2⟩, hfraction, ⟨exponent, r3⟩, hexponent, hj⟩ := h
  refine ⟨_, wholeDigits_append ht hwhole, _, fractionDigits_append ht hfraction,
    _, exponentDigits_append ht hexponent, ?_⟩
  dsimp only at hj ⊢
  split at hj <;> cases hj <;> simp_all

theorem isDigit_of_mem_toDigits {n : Nat} {c : Char} (h : c ∈ Nat.toDigits 10 n) :
    isDigit c = true := by
  have hc := Nat.isDigit_of_mem_toDigits (by decide) (by decide) h
  simp only [Char.isDigit, Bool.and_eq_true, decide_eq_true_eq] at hc
  have hin : '0' ≤ c ∧ c ≤ '9' := hc
  simp [isDigit, Decimal.digitValue?, hin]

/-- Only zero itself starts with a zero. -/
theorem head?_toDigits {n : Nat} (h : 0 < n) : (Nat.toDigits 10 n).head? ≠ some '0' := by
  induction n using Nat.strong_induction_on with
  | _ n ih =>
      rw [Nat.toDigits_eq_if (by decide)]
      split
      · interval_cases n <;> decide
      · have hhead := ih (n / 10) (by omega) (by omega)
        cases hd : Nat.toDigits 10 (n / 10) with
        | nil => exact absurd hd Nat.toDigits_ne_nil
        | cons d ds => simpa [hd] using hhead

theorem natOfDigits_toDigits (n : Nat) : natOfDigits (Nat.toDigits 10 n) = n := by
  have h := Nat.ofDigitChars_ten_toDigits (n := n)
  simpa only [natOfDigits, Nat.ofDigitChars, Nat.mul_comm 10, Char.reduceToNat] using h

theorem wholeDigits_toDigits (n : Nat) :
    wholeDigits (Nat.toDigits 10 n) = some (Nat.toDigits 10 n, []) := by
  have htake : (Nat.toDigits 10 n).takeWhile isDigit = Nat.toDigits 10 n :=
    List.takeWhile_eq_self_iff.mpr fun c => isDigit_of_mem_toDigits
  have hdrop : (Nat.toDigits 10 n).dropWhile isDigit = [] :=
    List.dropWhile_eq_nil_iff.mpr fun c => isDigit_of_mem_toDigits
  dsimp only [wholeDigits]
  rw [htake, hdrop]
  split
  · rename_i h
    exact absurd h Nat.toDigits_ne_nil
  · rename_i h
    rcases Nat.eq_zero_or_pos n with rfl | hn
    · cases h
    · exact absurd (by rw [h]; rfl) (head?_toDigits hn)
  · rfl

/-- The digits of a number read as the number. -/
theorem numberAt_toDigits {negative : Bool} {n : Nat} (h : negative = true → n ≠ 0) :
    numberAt negative (Nat.toDigits 10 n) =
      some (.int (if negative then -(n : Int) else n), []) := by
  rw [numberAt, wholeDigits_toDigits]
  simpa [fractionDigits, exponentDigits, natOfDigits_toDigits] using h

/-- A text that reads as one number to its end. -/
def IsNumeral (cs : List Char) (j : Json) : Prop :=
  ∃ negative ds, cs = (if negative then '-' :: ds else ds) ∧ numberAt negative ds = some (j, [])

/-- The whole numbers are written as they are read. -/
theorem isNumeral_int (i : Int) : IsNumeral (toString i).toList (.int i) := by
  cases i with
  | ofNat n =>
      refine ⟨false, Nat.toDigits 10 n, ?_, numberAt_toDigits (by simp)⟩
      simp [Int.toString_eq_repr, Int.repr, Nat.repr_eq_ofList_toDigits]
  | negSucc n =>
      refine ⟨true, Nat.toDigits 10 (n + 1), ?_, numberAt_toDigits (by simp)⟩
      simp [Int.toString_eq_repr, Int.repr, Nat.repr_eq_ofList_toDigits]

/-- The digits before any point start with one. -/
theorem exists_digit {negative : Bool} {cs rest : List Char} {j : Json}
    (h : numberAt negative cs = some (j, rest)) : ∃ d ds, cs = d :: ds ∧ isDigit d = true := by
  simp only [numberAt, Option.bind_eq_bind, Option.bind_eq_some_iff] at h
  obtain ⟨⟨whole, r⟩, hwhole, -⟩ := h
  cases cs with
  | nil => cases hwhole
  | cons d ds =>
      cases hd : isDigit d with
      | true => exact ⟨d, ds, rfl, hd⟩
      | false => simp [wholeDigits, hd] at hwhole

theorem valueAt_digit {d : Char} (hd : isDigit d = true) (fuel : Nat) (cs : List Char) :
    valueAt (fuel + 1) (d :: cs) = numberAt false (d :: cs) := by
  have hskip : skipGaps (d :: cs) = d :: cs := by
    have hgap : isGap d = false := by
      by_contra h
      simp only [isGap, Bool.not_eq_false, Bool.or_eq_true, beq_iff_eq] at h
      rcases h with ((rfl | rfl) | rfl) | rfl <;> exact absurd hd (by decide)
    simp [skipGaps, hgap]
  rw [valueAt.eq_def]
  simp only [hskip]
  split
  case h_8 => rfl
  all_goals
    rename_i h
    cases h
    exact absurd hd (by decide)

theorem IsNumeral.valueAt {cs rest : List Char} {j : Json} (h : IsNumeral cs j) (ht : IsTail rest)
    (fuel : Nat) : valueAt (fuel + 1) (cs ++ rest) = some (j, rest) := by
  obtain ⟨negative, ds, rfl, hnum⟩ := h
  have hread := numberAt_append ht hnum
  cases negative with
  | true => exact hread
  | false =>
      obtain ⟨d, ds, rfl, hd⟩ := exists_digit hnum
      exact (valueAt_digit hd fuel _).trans hread

theorem IsNumeral.length_pos {cs : List Char} {j : Json} (h : IsNumeral cs j) : 0 < cs.length := by
  obtain ⟨negative, ds, rfl, hnum⟩ := h
  obtain ⟨d, ds, rfl, -⟩ := exists_digit hnum
  cases negative <;> simp

end FleetControl.Json
