import FleetControl.Proofs.Calendar
import FleetControl.Time.Timestamp
import Mathlib.Tactic.Ring

/-!
# Timestamps read back

The text of an instant reads as the instant, for every year of four digits and
down to the nanosecond. Digits are read in blocks of the width in which they
were written; each part of the text is read off the front and leaves the rest.
-/
namespace FleetControl

namespace Decimal

@[simp] theorem digitValue?_digitChar (n : Nat) : digitValue? (digitChar n) = some (n % 10) := by
  have h : ∀ d < 10, digitValue? (Char.ofNat (48 + d)) = some d := by decide
  exact h _ (Nat.mod_lt n (by decide))

/-- Reading as many digits as were written appends them to the number read before. -/
theorem takeDigits_fixed (w m value count n : Nat) (rest : List Char) :
    takeDigits (w + m) value count (fixed w n ++ rest) =
      takeDigits m (value * 10 ^ w + n % 10 ^ w) (count + w) rest := by
  induction w generalizing m n rest with
  | zero => simp [fixed, Nat.mod_one]
  | succ w ih =>
      have hvalue : (value * 10 ^ w + n / 10 % 10 ^ w) * 10 + n % 10 =
          value * 10 ^ (w + 1) + n % 10 ^ (w + 1) := by
        rw [Nat.pow_succ', Nat.mod_mul]
        ring
      rw [Nat.add_right_comm, fixed, List.append_assoc, Nat.add_assoc, ih]
      simp only [List.cons_append, List.nil_append, takeDigits, digitValue?_digitChar, hvalue]
      rw [Nat.add_assoc]

theorem read?_fixed {w n : Nat} (hw : 0 < w) (hn : n < 10 ^ w) (rest : List Char) :
    read? w (fixed w n ++ rest) = some (n, rest) := by
  obtain ⟨w, rfl⟩ := Nat.exists_eq_succ_of_ne_zero hw.ne'
  have h := takeDigits_fixed (w + 1) 0 0 0 n rest
  rw [Nat.add_zero] at h
  simp [read?, h, takeDigits, Nat.mod_eq_of_lt hn]

/-- What holds of the ten digits holds of every digit. -/
theorem forall_digitChar {P : Char → Prop} (h : ∀ d < 10, P (Char.ofNat (48 + d))) (n : Nat) :
    P (digitChar n) := h _ (Nat.mod_lt n (by decide))

end Decimal

namespace Timestamp

open Decimal

/-- No digit is a blank. -/
theorem skipBlanks_digitChar (n : Nat) (rest : List Char) :
    skipBlanks (digitChar n :: rest) = digitChar n :: rest := by
  have h : isBlank (digitChar n) = false :=
    forall_digitChar (P := fun c => isBlank c = false) (by decide) n
  simp [skipBlanks, h]

theorem number_fixed {n : Nat} (hn : n < 100) (rest : List Char) :
    number 2 (fixed 2 n ++ rest) = some (n, rest) := by
  have hskip : skipBlanks (fixed 2 n ++ rest) = fixed 2 n ++ rest := skipBlanks_digitChar _ _
  rw [number, hskip, read?_fixed (by decide) hn]

theorem literal_cons {c : Char} (hc : isBlank c = false) (rest : List Char) :
    literal c (c :: rest) = some rest := by
  simp [literal, skipBlanks, hc]

/-- A year of four digits is read without a sign. -/
theorem year_yearText {y : Int} (hy : 0 ≤ y ∧ y ≤ 9999) (rest : List Char) :
    year (yearText y ++ rest) = some (y, rest) := by
  have hread := read?_fixed (w := 4) (n := y.toNat) (by decide) (by omega) rest
  have hskip : skipBlanks (fixed 4 y.toNat ++ rest) = fixed 4 y.toNat ++ rest :=
    skipBlanks_digitChar _ _
  have hminus : digitChar (y.toNat / 10 / 10 / 10) ≠ '-' :=
    forall_digitChar (P := fun c => c ≠ '-') (by decide) _
  have hplus : digitChar (y.toNat / 10 / 10 / 10) ≠ '+' :=
    forall_digitChar (P := fun c => c ≠ '+') (by decide) _
  rw [yearText, if_pos hy, year, hskip]
  split
  · rename_i h
    exact absurd (List.cons.inj h).1 hminus
  · rename_i h
    exact absurd (List.cons.inj h).1 hplus
  · rw [hread]
    simp [hy.1]

/-- A point and up to nine digits before the `Z` count as nanoseconds. -/
theorem fraction_fixed {w k n : Nat} (hw : 0 < w) (h9 : w ≤ 9) (hk : k < 10 ^ w)
    (hn : k * 10 ^ (9 - w) = n) : fraction ('.' :: fixed w k ++ ['Z']) = some (n, ['Z']) := by
  obtain ⟨m, hm⟩ := Nat.exists_eq_add_of_le h9
  obtain ⟨w, rfl⟩ := Nat.exists_eq_succ_of_ne_zero hw.ne'
  have htake : takeDigits 9 0 0 (fixed (w + 1) k ++ ['Z']) = (k, w + 1, ['Z']) := by
    rw [hm, takeDigits_fixed]
    cases m <;> simp [takeDigits, Nat.mod_eq_of_lt hk, digitValue?]
  have hplaces : 8 - w = 9 - (w + 1) := by omega
  rw [← hn, ← hplaces]
  simp only [List.cons_append, fraction, htake]
  rfl

theorem fraction_fractionText {n : Nat} (hn : n < 1000000000) :
    fraction (fractionText n ++ ['Z']) = some (n, ['Z']) := by
  unfold fractionText
  split
  · rename_i h
    rw [h]
    rfl
  · split
    · exact fraction_fixed (by decide) (by decide) (by omega) (by omega)
    · split
      · exact fraction_fixed (by decide) (by decide) (by omega) (by omega)
      · exact fraction_fixed (by decide) (by decide) (by omega) (by omega)

/-- An instant that has a text with a year of four digits and no leap second. -/
structure IsWritable (t : Instant) : Prop where
  fraction_lt : t.fraction < nanosPerSecond
  year_nonneg : 0 ≤ (Date.ofDays (t.seconds / 86400)).year
  year_le : (Date.ofDays (t.seconds / 86400)).year ≤ 9999

theorem secondInRange_of_isWritable {t : Instant} (h : IsWritable t) :
    secondInRange t.seconds = true := by
  have hlow := h.year_nonneg
  have hhigh := h.year_le
  simp [secondInRange, yearInRange]
  omega

/-- An instant is made of its second and its fraction. -/
theorem ofParts_eq {t : Instant} (h : IsWritable t) :
    Instant.ofParts t.seconds (t.fraction % 1000000000).toNat = t := by
  have hlow : 0 ≤ t.fraction := Int.emod_nonneg _ (by decide)
  have hhigh : t.fraction < 1000000000 := h.fraction_lt
  have hpart : ((t.fraction % 1000000000).toNat : Int) = t.fraction := by omega
  rw [hpart]
  simp only [Instant.ofParts, Instant.seconds, Instant.fraction]
  congr 1
  omega

/-- The second of a day, taken apart into hours, minutes and seconds and put together again
with the date, is the second that was written. -/
theorem seconds_eq (t : Instant) :
    (Date.ofDays (t.seconds / 86400)).toDays * 86400
        + (((t.seconds % 86400).toNat / 3600 : Nat) : Int) * 3600
        + (((t.seconds % 86400).toNat / 60 % 60 : Nat) : Int) * 60
        + (((t.seconds % 86400).toNat % 60 : Nat) : Int) = t.seconds := by
  rw [Date.toDays_ofDays]
  omega

/-- The text of an instant reads as the instant. -/
theorem parse?_render {t : Instant} (h : IsWritable t) : parse? (render t) = some t := by
  have hleap : (if nanosPerSecond ≤ t.fraction then 1 else 0) = 0 :=
    if_neg (Int.not_le.mpr h.fraction_lt)
  have hmonth := Date.month_ofDays_le (t.seconds / 86400)
  have hday := Date.day_ofDays_le (t.seconds / 86400)
  have hvalid := Date.isValid_ofDays (t.seconds / 86400)
  have hsecond : (t.seconds % 86400).toNat < 86400 := by omega
  have hin := secondInRange_of_isWritable h
  rw [parse?, render, String.toList_ofList]
  simp only [chars, hleap, Nat.add_zero]
  refine Option.bind_eq_some_iff.mpr ⟨_, year_yearText ⟨h.year_nonneg, h.year_le⟩ _, ?_⟩
  refine Option.bind_eq_some_iff.mpr ⟨_, literal_cons (by decide) _, ?_⟩
  refine Option.bind_eq_some_iff.mpr ⟨_, number_fixed (by omega) _, ?_⟩
  refine Option.bind_eq_some_iff.mpr ⟨_, literal_cons (by decide) _, ?_⟩
  refine Option.bind_eq_some_iff.mpr ⟨_, number_fixed (by omega) _, ?_⟩
  refine Option.bind_eq_some_iff.mpr ⟨_, rfl, ?_⟩
  refine Option.bind_eq_some_iff.mpr ⟨_, number_fixed (by omega) _, ?_⟩
  refine Option.bind_eq_some_iff.mpr ⟨_, literal_cons (by decide) _, ?_⟩
  refine Option.bind_eq_some_iff.mpr ⟨_, number_fixed (by omega) _, ?_⟩
  refine Option.bind_eq_some_iff.mpr ⟨_, literal_cons (by decide) _, ?_⟩
  refine Option.bind_eq_some_iff.mpr ⟨_, number_fixed (by omega) _, ?_⟩
  refine Option.bind_eq_some_iff.mpr ⟨_, fraction_fractionText (by rw [nanosPerSecond]; omega), ?_⟩
  refine Option.bind_eq_some_iff.mpr ⟨(0, []), rfl, ?_⟩
  have hsixty : ¬(t.seconds % 86400).toNat % 60 = 60 := by omega
  have hdate : (⟨(Date.ofDays (t.seconds / 86400)).year, (Date.ofDays (t.seconds / 86400)).month,
      (Date.ofDays (t.seconds / 86400)).day⟩ : Date) = Date.ofDays (t.seconds / 86400) := rfl
  have hyear : yearInRange (Date.ofDays (t.seconds / 86400)).year = true := hin
  simp only [hdate, hsixty, if_false, Int.sub_zero, seconds_eq, hin, if_true, hvalid, hyear]
  rw [if_pos (by simp [skipBlanks]; omega), nanosPerSecond, Int.zero_mul, Int.add_zero,
    ofParts_eq h]

end Timestamp

end FleetControl
