import FleetControl.Proofs.Tokens

/-!
# Values read back from their text

The text of a value reads as the value. Nothing in a written text is blank
outside strings, so each bracket, comma and colon is found where it was put;
what ends a number is that a tail begins. The reader takes a step for every
value, and each value has at least one character, so the length of the text is
fuel enough.
-/
namespace FleetControl.Json

/-- A value that has a text: its numbers are numerals and no object has two members of one name. -/
inductive IsPlain : Json → Prop
  | null : IsPlain .null
  | bool (b : Bool) : IsPlain (.bool b)
  | int (i : Int) : IsPlain (.int i)
  | real {text : String} (numeral : IsNumeral text.toList (.real text)) : IsPlain (.real text)
  | string (s : String) : IsPlain (.string s)
  | array {items : List Json} (plain : ∀ x ∈ items, IsPlain x) : IsPlain (.array items)
  | object {members : List (String × Json)} (distinct : (members.map Prod.fst).Nodup)
      (plain : ∀ m ∈ members, IsPlain m.2) : IsPlain (.object members)

/-- The text of a value is longer than what comes after it. -/
def TakesRoom (j : Json) : Prop := ∀ rest, rest.length < (write j rest).length

/-- With a step for every character, the text of a value is read as the value. -/
def ReadsBack (j : Json) : Prop :=
  ∀ fuel rest, IsTail rest → (write j rest).length ≤ fuel + rest.length →
    valueAt fuel (write j rest) = some (j, rest)

theorem length_writeString (s : String) (rest : List Char) :
    rest.length < (writeString s rest).length := by
  have h := length_le_length_foldr_escapedChar s.toList ('"' :: rest)
  simp only [writeString, List.length_cons] at h ⊢
  omega

theorem length_writeItems {xs : List Json} (h : ∀ x ∈ xs, x.TakesRoom) (rest : List Char) :
    rest.length ≤ (writeItems xs rest).length := by
  induction xs with
  | nil => exact Nat.le_refl _
  | cons x xs ih =>
      have hx := h x List.mem_cons_self (writeItems xs rest)
      have hxs := ih fun y hy => h y (List.mem_cons_of_mem x hy)
      simp only [writeItems, List.length_cons]
      omega

theorem length_writeMembers {ms : List (String × Json)} (h : ∀ m ∈ ms, m.2.TakesRoom)
    (rest : List Char) : rest.length ≤ (writeMembers ms rest).length := by
  induction ms with
  | nil => exact Nat.le_refl _
  | cons m ms ih =>
      have hv := h m List.mem_cons_self (writeMembers ms rest)
      have hms := ih fun y hy => h y (List.mem_cons_of_mem m hy)
      have hname := length_writeString m.1 (':' :: write m.2 (writeMembers ms rest))
      simp only [writeMembers, List.length_cons] at hname ⊢
      omega

theorem IsPlain.takesRoom {j : Json} (h : j.IsPlain) : j.TakesRoom := by
  induction h with
  | null =>
      intro rest
      simp only [write, List.length_cons]
      omega
  | bool b =>
      intro rest
      cases b <;> simp only [write, List.length_cons] <;> omega
  | int i =>
      intro rest
      have hpos := (isNumeral_int i).length_pos
      rw [write, List.length_append]
      omega
  | real numeral =>
      intro rest
      have hpos := numeral.length_pos
      rw [write, List.length_append]
      omega
  | string s => exact length_writeString s
  | @array items _ ih =>
      intro rest
      cases items with
      | nil =>
          simp only [write, List.length_cons]
          omega
      | cons x xs =>
          have hx := ih x List.mem_cons_self (writeItems xs (']' :: rest))
          have hxs := length_writeItems (fun y hy => ih y (List.mem_cons_of_mem x hy))
            (']' :: rest)
          simp only [write, List.length_cons] at hxs ⊢
          omega
  | @object members _ _ ih =>
      intro rest
      cases members with
      | nil =>
          simp only [write, List.length_cons]
          omega
      | cons m ms =>
          have hv := ih m List.mem_cons_self (writeMembers ms ('\x7d' :: rest))
          have hms := length_writeMembers (fun y hy => ih y (List.mem_cons_of_mem m hy))
            ('\x7d' :: rest)
          have hname := length_writeString m.1
            (':' :: write m.2 (writeMembers ms ('\x7d' :: rest)))
          simp only [write, List.length_cons] at hms hname ⊢
          omega

/-- A member of a new name goes to the end. -/
theorem setMember_of_nodup {before ms : List (String × Json)} {m : String × Json}
    (h : ((before ++ m :: ms).map Prod.fst).Nodup) : setMember m.1 m.2 before = before ++ [m] := by
  induction before with
  | nil => rfl
  | cons k before ih =>
      simp only [List.cons_append, List.map_cons, List.nodup_cons] at h
      have hne : m.1 ≠ k.1 := fun he => h.1 (by simp [he])
      simp [setMember, hne, ih h.2]

theorem isTail_cons {c : Char} (hc : c = ',' ∨ c = ']' ∨ c = '\x7d') (rest : List Char) :
    IsTail (c :: rest) := by
  rintro d ⟨⟩
  exact hc

theorem isTail_writeItems (xs : List Json) (rest : List Char) :
    IsTail (writeItems xs (']' :: rest)) := by
  cases xs with
  | nil => exact isTail_cons (by decide) rest
  | cons x xs => exact isTail_cons (by decide) _

/-- The items of an array from one on are read up to the closing bracket. -/
theorem itemsAt_write {x : Json} {xs : List Json} (hroom : ∀ y ∈ x :: xs, y.TakesRoom)
    (hback : ∀ y ∈ x :: xs, y.ReadsBack) (fuel : Nat) (before : List Json) (rest : List Char)
    (hfuel : (write x (writeItems xs (']' :: rest))).length ≤ fuel + rest.length) :
    itemsAt fuel before (write x (writeItems xs (']' :: rest))) =
      some (.array (before.reverse ++ x :: xs), rest) := by
  induction xs generalizing x fuel before with
  | nil =>
      have hx := hroom x List.mem_cons_self (writeItems [] (']' :: rest))
      have hlen : (writeItems [] (']' :: rest)).length = rest.length + 1 := rfl
      obtain ⟨fuel, rfl⟩ : ∃ n, fuel = n + 1 := ⟨fuel - 1, by omega⟩
      rw [itemsAt, hback x List.mem_cons_self fuel _ (isTail_writeItems [] rest) (by omega)]
      simp [skipGaps, isGap, writeItems]
  | cons y ys ih =>
      have hx := hroom x List.mem_cons_self (writeItems (y :: ys) (']' :: rest))
      have hys := length_writeItems (fun z hz => hroom z (List.mem_cons_of_mem x hz)) (']' :: rest)
      have hlen : (writeItems (y :: ys) (']' :: rest)).length =
        (write y (writeItems ys (']' :: rest))).length + 1 := rfl
      rw [List.length_cons] at hys
      obtain ⟨fuel, rfl⟩ : ∃ n, fuel = n + 1 := ⟨fuel - 1, by omega⟩
      rw [itemsAt, hback x List.mem_cons_self fuel _ (isTail_writeItems (y :: ys) rest) (by omega)]
      have hnext := ih (fun z hz => hroom z (List.mem_cons_of_mem x hz))
        (fun z hz => hback z (List.mem_cons_of_mem x hz)) fuel (x :: before) (by omega)
      simpa [skipGaps, isGap, writeItems] using hnext

/-- A member before a comma is read up to the comma. -/
theorem membersAt_comma {v : Json} (hback : v.ReadsBack) {fuel : Nat} {rest : List Char}
    (hfuel : (write v (',' :: rest)).length ≤ fuel + (',' :: rest).length) (name : String)
    (before : List (String × Json)) :
    membersAt (fuel + 1) before (writeString name (':' :: write v (',' :: rest))) =
      membersAt fuel (setMember name v before) rest := by
  obtain ⟨body, hbody, hread⟩ := stringBody_writeString name (':' :: write v (',' :: rest))
  have hvalue := hback fuel (',' :: rest) (isTail_cons (by decide) rest) hfuel
  rw [hbody, membersAt]
  simp [skipGaps, isGap, hread, hvalue]

/-- The last member is read up to the closing brace. -/
theorem membersAt_brace {v : Json} (hback : v.ReadsBack) {fuel : Nat} {rest : List Char}
    (hfuel : (write v ('\x7d' :: rest)).length ≤ fuel + ('\x7d' :: rest).length) (name : String)
    (before : List (String × Json)) :
    membersAt (fuel + 1) before (writeString name (':' :: write v ('\x7d' :: rest))) =
      some (.object (setMember name v before), rest) := by
  obtain ⟨body, hbody, hread⟩ := stringBody_writeString name (':' :: write v ('\x7d' :: rest))
  have hvalue := hback fuel ('\x7d' :: rest) (isTail_cons (by decide) rest) hfuel
  rw [hbody, membersAt]
  simp [skipGaps, isGap, hread, hvalue]

/-- The members of an object from one on are read up to the closing brace. -/
theorem membersAt_write {m : String × Json} {ms : List (String × Json)}
    (hroom : ∀ n ∈ m :: ms, n.2.TakesRoom) (hback : ∀ n ∈ m :: ms, n.2.ReadsBack)
    (fuel : Nat) (before : List (String × Json)) (rest : List Char)
    (hdistinct : ((before ++ m :: ms).map Prod.fst).Nodup)
    (hfuel : (writeString m.1 (':' :: write m.2 (writeMembers ms ('\x7d' :: rest)))).length ≤
      fuel + rest.length) :
    membersAt fuel before (writeString m.1 (':' :: write m.2 (writeMembers ms ('\x7d' :: rest)))) =
      some (.object (before ++ m :: ms), rest) := by
  induction ms generalizing m fuel before with
  | nil =>
      have hv := hroom m List.mem_cons_self ('\x7d' :: rest)
      have hname := length_writeString m.1 (':' :: write m.2 ('\x7d' :: rest))
      rw [writeMembers] at hfuel ⊢
      simp only [List.length_cons] at hname hv
      obtain ⟨fuel, rfl⟩ : ∃ n, fuel = n + 1 := ⟨fuel - 1, by omega⟩
      rw [membersAt_brace (hback m List.mem_cons_self) (by rw [List.length_cons]; omega),
        setMember_of_nodup hdistinct]
  | cons n ms ih =>
      have htail : writeMembers (n :: ms) ('\x7d' :: rest) =
        ',' :: writeString n.1 (':' :: write n.2 (writeMembers ms ('\x7d' :: rest))) := rfl
      rw [htail] at hfuel ⊢
      have hnext := ih (fun k hk => hroom k (List.mem_cons_of_mem m hk))
        (fun k hk => hback k (List.mem_cons_of_mem m hk)) (fuel - 1) (before ++ [m])
        (by simpa using hdistinct)
      have hlater := length_writeMembers (fun k hk => hroom k (List.mem_cons_of_mem m hk))
        ('\x7d' :: rest)
      rw [htail] at hlater
      generalize writeString n.1 (':' :: write n.2 (writeMembers ms ('\x7d' :: rest))) = text at *
      have hv := hroom m List.mem_cons_self (',' :: text)
      have hname := length_writeString m.1 (':' :: write m.2 (',' :: text))
      simp only [List.length_cons] at hname hv hlater
      obtain ⟨fuel, rfl⟩ : ∃ n, fuel = n + 1 := ⟨fuel - 1, by omega⟩
      rw [membersAt_comma (hback m List.mem_cons_self) (by rw [List.length_cons]; omega),
        setMember_of_nodup hdistinct]
      simpa using hnext (by omega)

/-- No value starts with a bracket that would close an array before it. -/
theorem ReadsBack.ne_bracket {j : Json} (hback : j.ReadsBack) {tail : List Char} (ht : IsTail tail)
    (rest : List Char) : skipGaps (write j tail) ≠ ']' :: rest := by
  intro h
  have hread := hback ((write j tail).length + 1) tail ht (by omega)
  simp [valueAt, h, numberAt, wholeDigits, isDigit, Decimal.digitValue?] at hread

/-- What does not close an array at once is read item by item. -/
theorem valueAt_bracket {rest : List Char} (hne : ∀ after, skipGaps rest ≠ ']' :: after)
    (fuel : Nat) : valueAt (fuel + 1) ('[' :: rest) = itemsAt fuel [] rest := by
  have hskip : skipGaps ('[' :: rest) = '[' :: rest := rfl
  rw [valueAt.eq_def]
  simp only [hskip]

/-- A text that takes up room is never read without fuel. -/
theorem TakesRoom.readsBack {j : Json} (hroom : j.TakesRoom)
    (h : ∀ fuel rest, IsTail rest → (write j rest).length ≤ fuel + 1 + rest.length →
      valueAt (fuel + 1) (write j rest) = some (j, rest)) : j.ReadsBack := by
  intro fuel rest ht hfuel
  have hlt := hroom rest
  obtain ⟨fuel, rfl⟩ : ∃ n, fuel = n + 1 := ⟨fuel - 1, by omega⟩
  exact h fuel rest ht hfuel

theorem IsPlain.readsBack {j : Json} (h : j.IsPlain) : j.ReadsBack := by
  induction h with
  | null => exact IsPlain.null.takesRoom.readsBack fun _ _ _ _ => rfl
  | bool b => exact (IsPlain.bool b).takesRoom.readsBack fun _ _ _ _ => by cases b <;> rfl
  | int i =>
      refine (IsPlain.int i).takesRoom.readsBack fun fuel rest ht _ => ?_
      exact (isNumeral_int i).valueAt ht fuel
  | real numeral =>
      refine (IsPlain.real numeral).takesRoom.readsBack fun fuel rest ht _ => ?_
      exact numeral.valueAt ht fuel
  | string s =>
      refine (IsPlain.string s).takesRoom.readsBack fun fuel rest _ _ => ?_
      obtain ⟨body, hbody, hread⟩ := stringBody_writeString s rest
      rw [write, hbody, valueAt]
      simp [skipGaps, isGap, hread]
  | @array items hplain ih =>
      refine (IsPlain.array hplain).takesRoom.readsBack fun fuel rest _ hfuel => ?_
      cases items with
      | nil => rfl
      | cons x xs =>
          rw [write] at hfuel ⊢
          rw [List.length_cons] at hfuel
          rw [valueAt_bracket ((ih x List.mem_cons_self).ne_bracket (isTail_writeItems xs rest))]
          exact itemsAt_write (fun y hy => (hplain y hy).takesRoom) ih fuel [] rest (by omega)
  | @object members hdistinct hplain ih =>
      refine (IsPlain.object hdistinct hplain).takesRoom.readsBack fun fuel rest _ hfuel => ?_
      cases members with
      | nil => rfl
      | cons m ms =>
          rw [write] at hfuel ⊢
          rw [List.length_cons] at hfuel
          rw [valueAt.eq_def]
          exact membersAt_write (fun n hn => (hplain n hn).takesRoom) ih fuel [] rest hdistinct
            (by omega)

/-- The text of a value reads as the value. -/
theorem parse?_render {j : Json} (h : j.IsPlain) : parse? (render j) = some j := by
  have hread := h.readsBack ((write j []).length + 1) [] (by simp [IsTail]) (by omega)
  rw [parse?, render, String.toList_ofList]
  simp only [hread, Option.bind_eq_bind, Option.bind_some]
  rfl

end FleetControl.Json
