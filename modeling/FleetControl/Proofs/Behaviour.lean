import FleetControl.World

/-!
# What programs keep

A call can end in more than one way: with a reply, with a fault, and in a world that
others have changed in the meantime. A behaviour says what may happen at each call.
`Ends` is a run to an outcome under a behaviour. `Keeps` looks at all runs at once:
whatever happens, every call changes the state as allowed and the outcome is as wanted.
-/
namespace FleetControl

/-- What may happen at a call: the answer to it and the state it leaves. -/
abbrev Behaviour (σ : Type) := (c : Call) → σ → Outcome c.Reply → σ → Prop

/-- The part of a behaviour in which every call gets its reply. -/
def Behaviour.flawless {σ : Type} (B : Behaviour σ) : Behaviour σ := fun c s r s' =>
  B c s r s' ∧ ∃ a, r = .ok a

/-- What may happen in a world: others change it as `outside` allows, and then the call
is answered, or fails with a fault from `raises`, before or after its effect. -/
def World.Possible (outside : World → World → Prop) (raises : Fault → Prop) :
    Behaviour World := fun c w r w' =>
  ∃ v, outside w v ∧ (World.answer c v = (r, w') ∨
    ∃ f, raises f ∧ r = .error f ∧ (w' = v ∨ w' = (World.answer c v).2))

namespace World

theorem tables_eq {w : World} {s : Store} (hs : w.store = some s) : w.tables = s := by
  rw [tables, hs]
  rfl

/-- What an operation leaves of a store is what it made of it. -/
theorem store_useStore {α : Type} {w : World} {operation : Store → Outcome α × Store}
    {s' : Store} (h : (w.useStore operation).2.store = some s') :
    ∃ s, w.store = some s ∧ s' = (operation s).2 := by
  cases hs : w.store with
  | none => simp [useStore, hs] at h
  | some s =>
      simp only [useStore, hs] at h
      split at h
      · cases h
      · rename_i r store he
        cases h
        exact ⟨s, rfl, by rw [he]⟩

/-- Asking a store for something leaves the world as it is. -/
theorem answer_ask {w : World} {s : Store} {c : StoreCall} {a : c.Reply}
    (hs : w.store = some s) (hc : s.answer w.now c = (.ok a, s)) :
    answer (.store c) w = (.ok a, w) := by
  have he : ({ w with store := some s } : World) = w := by rw [← hs]
  simp only [answer, useStore, hs, hc, he]

/-- What a call of the store that is answered leaves of the world. -/
theorem ask_cases {v w : World} {q : StoreCall} {a : q.Reply}
    (h : answer (.store q) v = (.ok a, w)) :
    v.tables.answer v.now q = (.ok a, w.tables) ∧ w.provider = v.provider ∧ w.locks = v.locks := by
  cases hs : v.store with
  | none => simp [answer, useStore, hs] at h
  | some s =>
      simp only [answer, useStore, hs] at h
      split at h
      · cases h
      · rename_i r s' _ he
        obtain ⟨rfl, rfl⟩ := Prod.mk.inj h
        rw [tables_eq hs]
        exact ⟨he, rfl, rfl⟩

/-! Every call has its own part of the world. -/

theorem answer_store_eq (q : StoreCall) (w : World) :
    (answer (.store q) w).2 = { w with store := (answer (.store q) w).2.store } := by
  simp only [answer, useStore]
  split
  · rfl
  · split <;> rfl

theorem answer_post_eq (n : Notification) (w : World) :
    (answer (.post n) w).2 = { w with outbox := (answer (.post n) w).2.outbox } := by
  simp only [answer, post]
  split <;> rfl

theorem answer_release_eq (name : String) (token : Token) (w : World) :
    (answer (.release name token) w).2 =
      { w with locks := (answer (.release name token) w).2.locks } := by
  simp only [answer, release]
  split <;> rfl

/-- Only calls of the store write it. -/
theorem store_answer {c : Call} (h : ∀ q, c ≠ .store q) (w : World) :
    (answer c w).2.store = w.store := by
  cases c with
  | store q => exact absurd rfl (h q)
  | post n => rw [answer_post_eq]
  | release name token => rw [answer_release_eq]
  | now | shuffle | note | provider | acquire => rfl

/-- Only calls of the provider change it. -/
theorem provider_answer {c : Call} (h : ∀ q, c ≠ .provider q) (w : World) :
    (answer c w).2.provider = w.provider := by
  cases c with
  | provider q => exact absurd rfl (h q)
  | store q => rw [answer_store_eq]
  | post n => rw [answer_post_eq]
  | release name token => rw [answer_release_eq]
  | now | shuffle | note | acquire => rfl

/-- What the answers and the others keep is kept whatever happens. -/
theorem Possible.preserves {outside : World → World → Prop} {raises : Fault → Prop}
    {I : World → Prop} {c : Call} {w w' : World} {r : Outcome c.Reply}
    (hb : Possible outside raises c w r w') (ho : ∀ v, outside w v → I w → I v)
    (ha : ∀ v, I v → I (answer c v).2) (h : I w) : I w' := by
  obtain ⟨v, hv, hb | ⟨f, -, -, rfl | rfl⟩⟩ := hb
  · have := ha v (ho v hv h)
    rwa [hb] at this
  · exact ho _ hv h
  · exact ha v (ho v hv h)

/-- Others who do no more than is allowed. -/
theorem Possible.weaken {outside outside' : World → World → Prop} {raises : Fault → Prop}
    {c : Call} {w w' : World} {r : Outcome c.Reply} (h : Possible outside raises c w r w')
    (ho : ∀ v, outside w v → outside' w v) : Possible outside' raises c w r w' := by
  obtain ⟨v, hv, h⟩ := h
  exact ⟨v, ho v hv, h⟩

end World

namespace Program

variable {α β σ : Type} {B : Behaviour σ} {G G' : σ → σ → Prop}

/-- A run of a program to its outcome. -/
inductive Ends (B : Behaviour σ) : Program α → σ → Outcome α → σ → Prop where
  | done (r : Outcome α) (s : σ) : Ends B (done r) s r s
  | call {c : Call} {next : Outcome c.Reply → Program α} {s s' t : σ} {r : Outcome c.Reply}
      {out : Outcome α} (answer : B c s r s') (rest : Ends B (next r) s' out t) :
      Ends B (call c next) s out t

/-- Some calls of a program, from one state to another, and what is then left of it. -/
inductive Leads (B : Behaviour σ) : Program α → σ → Program α → σ → Prop where
  | refl (p : Program α) (s : σ) : Leads B p s p s
  | call {c : Call} {next : Outcome c.Reply → Program α} {q : Program α} {s s' t : σ}
      {r : Outcome c.Reply} (answer : B c s r s') (rest : Leads B (next r) s' q t) :
      Leads B (call c next) s q t

/-- Whatever happens, every call changes the state as `G` allows and the outcome is as
`Q` wants it. -/
def Keeps (B : Behaviour σ) (G : σ → σ → Prop) (Q : Outcome α → σ → Prop) :
    Program α → σ → Prop
  | done r, s => Q r s
  | call c next, s => ∀ r s', B c s r s' → G s s' ∧ (next r).Keeps B G Q s'

/-- What the first part of a sequence has to end with for the sequence to keep `Q`. -/
def Then (B : Behaviour σ) (G : σ → σ → Prop) (Q : Outcome β → σ → Prop)
    (f : α → Program β) : Outcome α → σ → Prop
  | .ok a, s => (f a).Keeps B G Q s
  | .error e, s => Q (.error e) s

@[simp] theorem keeps_done {Q : Outcome α → σ → Prop} {r : Outcome α} {s : σ} :
    (done r).Keeps B G Q s ↔ Q r s := Iff.rfl

theorem keeps_call {Q : Outcome α → σ → Prop} {c : Call} {next : Outcome c.Reply → Program α}
    {s : σ} : (call c next).Keeps B G Q s ↔
      ∀ r s', B c s r s' → G s s' ∧ (next r).Keeps B G Q s' := Iff.rfl

theorem keeps_perform {c : Call} {Q : Outcome c.Reply → σ → Prop} {s : σ} :
    (perform c).Keeps B G Q s ↔ ∀ r s', B c s r s' → G s s' ∧ Q r s' := Iff.rfl

theorem keeps_ask {c : StoreCall} {Q : Outcome c.Reply → σ → Prop} {s : σ} :
    (ask c).Keeps B G Q s ↔ ∀ r s', B (.store c) s r s' → G s s' ∧ Q r s' := Iff.rfl

/-- A call that only looks leaves the world as it is. -/
theorem keeps_look {raises : Fault → Prop} {w : World} {c : Call} {a : c.Reply}
    {Q : Outcome c.Reply → World → Prop}
    (hw : World.answer c w = (.ok a, w)) (ha : Q (.ok a) w) (hf : ∀ f, Q (.error f) w) :
    (perform c).Keeps (World.Possible Eq raises) (fun _ _ => True) Q w := by
  rw [keeps_perform]
  rintro r w' ⟨_, rfl, hb | ⟨f, -, rfl, rfl | rfl⟩⟩
  · cases hw.symm.trans hb
    exact ⟨trivial, ha⟩
  · exact ⟨trivial, hf f⟩
  · rw [hw]
    exact ⟨trivial, hf f⟩

theorem keeps_bind {p : Program α} {f : α → Program β} {Q : Outcome β → σ → Prop} {s : σ} :
    (p.bind f).Keeps B G Q s ↔ p.Keeps B G (Then B G Q f) s := by
  induction p generalizing s with
  | done r => cases r <;> rfl
  | call c next ih =>
      simp only [bind, keeps_call]
      exact forall₃_congr fun r t _ => and_congr_right fun _ => ih r

/-- What a program has to end with for an attempt at it to keep `Q`. -/
def Tried (Q : Outcome (Except ControlError α) → σ → Prop) : Outcome α → σ → Prop
  | .ok a, s => Q (.ok (.ok a)) s
  | .error (.error e), s => Q (.ok (.error e)) s
  | .error (.crash payload), s => Q (.error (.crash payload)) s

theorem keeps_attempt {p : Program α} {Q : Outcome (Except ControlError α) → σ → Prop} {s : σ} :
    p.attempt.Keeps B G Q s ↔ p.Keeps B G (Tried Q) s := by
  induction p generalizing s with
  | done r => rcases r with (_ | _) | _ <;> rfl
  | call c next ih =>
      simp only [attempt, keeps_call]
      exact forall₃_congr fun r t _ => and_congr_right fun _ => ih r

/-- What a program has to end with for containing it to keep `Q`. -/
def Contained (Q : Outcome (Except ControlError α) → σ → Prop) : Outcome α → σ → Prop
  | .ok a, s => Q (.ok (.ok a)) s
  | .error f, s => Q (.ok (.error f.contained)) s

theorem keeps_contain {p : Program α} {Q : Outcome (Except ControlError α) → σ → Prop} {s : σ} :
    p.contain.Keeps B G Q s ↔ p.Keeps B G (Contained Q) s := by
  induction p generalizing s with
  | done r => cases r <;> rfl
  | call c next ih =>
      simp only [contain, keeps_call]
      exact forall₃_congr fun r t _ => and_congr_right fun _ => ih r

/-- A weaker end and weaker demands on the calls are kept as well. -/
theorem Keeps.mono {Q Q' : Outcome α → σ → Prop} {p : Program α} {s : σ}
    (h : p.Keeps B G Q s) (hG : ∀ s t, G s t → G' s t) (hQ : ∀ r t, Q r t → Q' r t) :
    p.Keeps B G' Q' s := by
  induction p generalizing s with
  | done r => exact hQ r s h
  | call c next ih =>
      intro r t hb
      obtain ⟨hg, hn⟩ := h r t hb
      exact ⟨hG s t hg, ih r hn⟩

theorem Keeps.imp {Q Q' : Outcome α → σ → Prop} {p : Program α} {s : σ} (h : p.Keeps B G Q s)
    (hQ : ∀ r t, Q r t → Q' r t) : p.Keeps B G Q' s := h.mono (fun _ _ => id) hQ

theorem Keeps.and {Q Q' : Outcome α → σ → Prop} {p : Program α} {s : σ} (h : p.Keeps B G Q s)
    (h' : p.Keeps B G' Q' s) :
    p.Keeps B (fun s t => G s t ∧ G' s t) (fun r t => Q r t ∧ Q' r t) s := by
  induction p generalizing s with
  | done r => exact ⟨h, h'⟩
  | call c next ih =>
      intro r t hb
      obtain ⟨hg, hn⟩ := h r t hb
      obtain ⟨hg', hn'⟩ := h' r t hb
      exact ⟨⟨hg, hg'⟩, ih r hn hn'⟩

/-- What is kept of a part of the state is kept in the whole. -/
theorem Keeps.along {τ : Type} (part : τ → σ) {C : Behaviour τ}
    (hC : ∀ c t r t', C c t r t' → B c (part t) r (part t')) {Q : Outcome α → σ → Prop}
    {p : Program α} {t : τ} (h : p.Keeps B G Q (part t)) :
    p.Keeps C (fun t t' => G (part t) (part t')) (fun r t => Q r (part t)) t := by
  induction p generalizing t with
  | done r => exact h
  | call c next ih =>
      intro r t' hb
      obtain ⟨hg, hn⟩ := h r (part t') (hC c t r t' hb)
      exact ⟨hg, ih r hn⟩

/-- What no call breaks is kept. -/
theorem keeps_of_preserved {J : σ → Prop} (hJ : ∀ c s r t, J s → B c s r t → J t)
    (p : Program α) {s : σ} (hs : J s) : p.Keeps B (fun _ t => J t) (fun _ t => J t) s := by
  induction p generalizing s with
  | done r => exact hs
  | call c next ih => exact fun r t hb => ⟨hJ c s r t hs hb, ih r (hJ c s r t hs hb)⟩

/-- Allowed changes that add up to allowed changes lead to the end. -/
theorem Keeps.reached {Q : Outcome α → σ → Prop} {p : Program α} {s : σ}
    (h : p.Keeps B G Q s) (hr : ∀ s, G s s) (ht : ∀ s t u, G s t → G t u → G s u) :
    p.Keeps B G (fun r t => Q r t ∧ G s t) s := by
  induction p generalizing s with
  | done r => exact ⟨h, hr s⟩
  | call c next ih =>
      intro r t hb
      obtain ⟨hg, hn⟩ := h r t hb
      exact ⟨hg, (ih r hn).mono (fun _ _ => id) fun _ u hu => ⟨hu.1, ht s t u hg hu.2⟩⟩

/-- Each run of a program that keeps `Q` ends as `Q` wants it. -/
theorem Keeps.ends {Q : Outcome α → σ → Prop} {p : Program α} {s t : σ} {r : Outcome α}
    (h : p.Keeps B G Q s) (he : p.Ends B s r t) : Q r t := by
  induction he with
  | done => exact h
  | call hb _ ih => exact ih (h _ _ hb).2

/-- What no allowed change breaks holds at the end. -/
theorem Keeps.preserves {I : σ → Prop} {Q : Outcome α → σ → Prop} {p : Program α} {s t : σ}
    {r : Outcome α} (h : p.Keeps B G Q s)
    (hI : ∀ c s r s', I s → B c s r s' → G s s' → I s') (he : p.Ends B s r t) (hs : I s) : I t := by
  induction he with
  | done => exact hs
  | call hb _ ih =>
      obtain ⟨hg, hn⟩ := h _ _ hb
      exact ih hn (hI _ _ _ _ hs hb hg)

/-- What is left of a program that keeps `Q` keeps it. -/
theorem Keeps.leads {Q : Outcome α → σ → Prop} {p q : Program α} {s t : σ}
    (h : p.Keeps B G Q s) (hp : p.Leads B s q t) : q.Keeps B G Q t := by
  induction hp with
  | refl => exact h
  | call hb _ ih => exact ih (h _ _ hb).2

/-- Following some calls of a program as a handler does, to what is left of it. -/
def follow (h : Handler σ) : Nat → Program α → σ → Program α × σ
  | n + 1, call c next, s => follow h n (next (h c s).1) (h c s).2
  | _, p, s => (p, s)

theorem leads_follow {h : Handler σ} (hB : ∀ c s, B c s (h c s).1 (h c s).2) (n : Nat)
    (p : Program α) (s : σ) : p.Leads B s (p.follow h n s).1 (p.follow h n s).2 := by
  induction n generalizing p s with
  | zero => cases p <;> exact .refl _ s
  | succ n ih =>
      cases p with
      | done r => exact .refl _ s
      | call c next => exact .call (hB c s) (ih _ _)

/-- What leads on in a state leads on in a part of it. -/
theorem Leads.along {τ : Type} {C : Behaviour τ} (part : τ → σ)
    (hC : ∀ c t r t', C c t r t' → B c (part t) r (part t')) {p q : Program α} {t t' : τ}
    (hp : p.Leads C t q t') : p.Leads B (part t) q (part t') := by
  induction hp with
  | refl p t => exact .refl p _
  | call hb _ ih => exact .call (hC _ _ _ _ hb) ih

/-- Following a program is one of its runs. -/
theorem ends_run (outside : World → World → Prop) (raises : Fault → Prop)
    (ho : ∀ w, outside w w) (p : Program α) (w : World) :
    p.Ends (World.Possible outside raises) w (p.run World.answer w).1
      (p.run World.answer w).2 := by
  induction p generalizing w with
  | done r => exact .done r w
  | call c next ih => exact .call ⟨w, ho w, .inl rfl⟩ (ih _ _)

/-- A run remains one where more may happen. -/
theorem Ends.mono {B' : Behaviour σ} {p : Program α} {s t : σ} {r : Outcome α}
    (he : p.Ends B s r t) (hB : ∀ c s r t, B c s r t → B' c s r t) : p.Ends B' s r t := by
  induction he with
  | done r s => exact .done r s
  | call hb _ ih => exact .call (hB _ _ _ _ hb) ih

/-- A run remains one where more may happen as long as something is kept. -/
theorem Ends.mono_of {B' : Behaviour σ} {I : σ → Prop} {p : Program α} {s t : σ} {r : Outcome α}
    (he : p.Ends B s r t) (hB : ∀ c s r t, I s → B c s r t → I t ∧ B' c s r t) (h : I s) :
    p.Ends B' s r t := by
  induction he with
  | done r s => exact .done r s
  | call hb _ ih =>
      obtain ⟨ht, hb'⟩ := hB _ _ _ _ h hb
      exact .call hb' (ih ht)

/-- What no call breaks holds at the end. -/
theorem Ends.preserves {I : σ → Prop} {p : Program α} {s t : σ} {r : Outcome α}
    (he : p.Ends B s r t) (hI : ∀ c s r s', I s → B c s r s' → I s') (h : I s) : I t := by
  induction he with
  | done => exact h
  | call hb _ ih => exact ih (hI _ _ _ _ h hb)

/-- What the others keep and no answer breaks holds at the end. -/
theorem Ends.preserves_answered {outside : World → World → Prop} {raises : Fault → Prop}
    {I : World → Prop} {p : Program α} {w w' : World} {r : Outcome α}
    (he : p.Ends (World.Possible outside raises) w r w') (ho : ∀ u v, outside u v → I u → I v)
    (ha : ∀ c v, I v → I (World.answer c v).2) (h : I w) : I w' :=
  he.preserves (fun c _ _ _ hv hb => hb.preserves (ho _) (ha c) hv) h

/-- Where every call has some answer, a program comes to an end. -/
theorem exists_ends (hB : ∀ c s, ∃ r s', B c s r s') (p : Program α) (s : σ) :
    ∃ r t, p.Ends B s r t := by
  induction p generalizing s with
  | done r => exact ⟨r, s, .done r s⟩
  | call c next ih =>
      obtain ⟨r, s', hb⟩ := hB c s
      obtain ⟨out, t, he⟩ := ih r s'
      exact ⟨out, t, .call hb he⟩

/-- A sequence ends with the fault of its first part, or as its second part does. -/
theorem Ends.of_bind {p : Program α} {f : α → Program β} {s t : σ} {r : Outcome β}
    (he : (p.bind f).Ends B s r t) :
    (∃ e, p.Ends B s (.error e) t ∧ r = .error e) ∨
      ∃ a s', p.Ends B s (.ok a) s' ∧ (f a).Ends B s' r t := by
  induction p generalizing s with
  | done q =>
      cases q with
      | ok a => exact .inr ⟨a, s, .done _ s, he⟩
      | error e =>
          cases he
          exact .inl ⟨e, .done _ _, rfl⟩
  | call c next ih =>
      obtain - | ⟨hb, hrest⟩ := he
      obtain ⟨e, hp, hr⟩ | ⟨a, s', hp, hf⟩ := ih _ hrest
      · exact .inl ⟨e, .call hb hp, hr⟩
      · exact .inr ⟨a, s', .call hb hp, hf⟩

/-- An attempt ends as the program does, with its error in hand. -/
theorem Ends.of_attempt {p : Program α} {s t : σ} {r : Outcome (Except ControlError α)}
    (he : p.attempt.Ends B s r t) : ∃ q, p.Ends B s q t ∧ (Program.done q).attempt = .done r := by
  induction p generalizing s with
  | done q =>
      refine ⟨q, ?_⟩
      rcases q with (e | payload) | a <;> cases he <;> exact ⟨.done _ _, rfl⟩
  | call c next ih =>
      obtain - | ⟨hb, hrest⟩ := he
      obtain ⟨q, hq, hr⟩ := ih _ hrest
      exact ⟨q, .call hb hq, hr⟩

/-- Containing a program ends as it does, with what its fault stands for. -/
theorem Ends.of_contain {p : Program α} {s t : σ} {r : Outcome (Except ControlError α)}
    (he : p.contain.Ends B s r t) : ∃ q, p.Ends B s q t ∧ (Program.done q).contain = .done r := by
  induction p generalizing s with
  | done q =>
      refine ⟨q, ?_⟩
      cases q <;> cases he <;> exact ⟨.done _ _, rfl⟩
  | call c next ih =>
      obtain - | ⟨hb, hrest⟩ := he
      obtain ⟨q, hq, hr⟩ := ih _ hrest
      exact ⟨q, .call hb hq, hr⟩

theorem Ends.of_perform {c : Call} {s t : σ} {r : Outcome c.Reply}
    (he : (perform c).Ends B s r t) : B c s r t := by
  obtain - | ⟨hb, hrest⟩ := he
  cases hrest
  exact hb

theorem bind_ite {c : Prop} [Decidable c] (p q : Program α) (f : α → Program β) :
    (if c then p else q).bind f = if c then p.bind f else q.bind f := by
  split <;> rfl

/-! ## Whatever is answered -/

/-- An outcome is a value, or a fault of some kind. -/
def FailsOnly (E : Fault → Prop) : Outcome α → Prop
  | .ok _ => True
  | .error f => E f

/-- Every call has a property, and so has the value at the end. If calls fail only with
faults of `E`, so does the program. -/
def Meets (P : Call → Prop) (E : Fault → Prop) (Q : α → Prop) : Program α → Prop
  | done (.ok a) => Q a
  | done (.error f) => E f
  | call c next => P c ∧ ∀ r, FailsOnly E r → (next r).Meets P E Q

/-- Every call has a property, and calls that fail only so make the program fail only so. -/
abbrev Within (P : Call → Prop) (E : Fault → Prop) (p : Program α) : Prop :=
  p.Meets P E fun _ => True

/-- All calls of a program have a property, whatever they are answered. -/
abbrev Only (P : Call → Prop) (p : Program α) : Prop := p.Within P fun _ => True

variable {P P' : Call → Prop} {E : Fault → Prop} {Q Q' : α → Prop}

theorem FailsOnly.mono {E' : Fault → Prop} {r : Outcome α} (h : FailsOnly E r)
    (hE : ∀ f, E f → E' f) : FailsOnly E' r := by
  cases r with
  | ok a => trivial
  | error f => exact hE f h

@[simp] theorem meets_fail {e : ControlError} : (fail e).Meets P E Q ↔ E (.error e) := Iff.rfl

@[simp] theorem within_perform {c : Call} : (perform c).Within P E ↔ P c := by
  refine ⟨fun h => h.1, fun h => ⟨h, fun r hr => ?_⟩⟩
  cases r with
  | ok a => trivial
  | error f => exact hr

theorem within_orFail {e : ControlError} {a : Option α} (h : a = none → E (.error e)) :
    (orFail e a).Within P E := by
  cases a with
  | none => exact h rfl
  | some x => trivial

theorem within_ofOutcome {r : Outcome α} (h : FailsOnly E r) : (ofOutcome r).Within P E := by
  cases r with
  | ok a => trivial
  | error f => exact h

theorem Meets.mono {p : Program α} (h : p.Meets P E Q) (hP : ∀ c, P c → P' c)
    (hQ : ∀ a, Q a → Q' a) : p.Meets P' E Q' := by
  induction p with
  | done r =>
      cases r with
      | ok a => exact hQ a h
      | error f => exact h
  | call c next ih => exact ⟨hP c h.1, fun r hr => ih r (h.2 r hr)⟩

theorem Meets.bind {p : Program α} {f : α → Program β} {Q' : β → Prop} (hp : p.Meets P E Q)
    (hf : ∀ a, Q a → (f a).Meets P E Q') : (p.bind f).Meets P E Q' := by
  induction p with
  | done r =>
      cases r with
      | ok a => exact hf a hp
      | error e => exact hp
  | call c next ih => exact ⟨hp.1, fun r hr => ih r (hp.2 r hr)⟩

/-- A sequence whose second part makes no use of what the first one meets. -/
theorem Meets.seq {p : Program α} {f : α → Program β} {Q' : β → Prop}
    (hp : p.Within P E) (hf : ∀ a, (f a).Meets P E Q') : (p.bind f).Meets P E Q' :=
  hp.bind fun a _ => hf a

theorem Within.seq {p : Program α} {f : α → Program β} (hp : p.Within P E)
    (hf : ∀ a, (f a).Within P E) : (p.bind f).Within P E := Meets.seq hp hf

theorem Meets.attempt {p : Program α} (h : p.Meets P E Q) :
    p.attempt.Meets P E fun r => ∀ e, r = .error e → E (.error e) := by
  induction p with
  | done r =>
      rcases r with (e | payload) | a
      · intro e' he
        cases he
        exact h
      · exact h
      · intro e he
        cases he
  | call c next ih => exact ⟨h.1, fun r hr => ih r (h.2 r hr)⟩

theorem Meets.contain {p : Program α} (h : p.Meets P E Q) :
    p.contain.Meets P E fun r => ∀ e, r = .error e → ∃ f, E f ∧ e = f.contained := by
  induction p with
  | done r =>
      rcases r with f | a
      · intro e he
        cases he
        exact ⟨f, h, rfl⟩
      · intro e he
        cases he
  | call c next ih => exact ⟨h.1, fun r hr => ih r (h.2 r hr)⟩

/-- Where each call keeps `J` and fails only with faults of `E`, a program ends with them. -/
theorem Meets.keeps {p : Program α} {J : σ → Prop} (h : p.Meets P E Q)
    (hB : ∀ c s r s', P c → J s → B c s r s' → G s s' ∧ J s' ∧ FailsOnly E r)
    {s : σ} (hs : J s) :
    p.Keeps B G (fun r t => J t ∧ (∀ a, r = .ok a → Q a) ∧ FailsOnly E r) s := by
  induction p generalizing s with
  | done r =>
      cases r with
      | ok a =>
          refine ⟨hs, fun b hb => ?_, trivial⟩
          cases hb
          exact h
      | error f =>
          refine ⟨hs, fun b hb => ?_, h⟩
          cases hb
  | call c next ih =>
      intro r s' hb
      obtain ⟨hg, hj, he⟩ := hB c s r s' h.1 hs hb
      exact ⟨hg, ih r (h.2 r he) hj⟩

@[simp] theorem only_done (r : Outcome α) : (done r).Only P := by
  cases r <;> trivial

@[simp] theorem only_fail (e : ControlError) : (fail e : Program α).Only P := trivial

@[simp] theorem only_perform {c : Call} : (perform c).Only P ↔ P c := within_perform

@[simp] theorem only_orFail (e : ControlError) (a : Option α) : (orFail e a).Only P := by
  cases a <;> trivial

theorem Meets.only {p : Program α} (h : p.Meets P (fun _ => True) Q) : p.Only P :=
  Meets.mono h (fun _ => id) fun _ _ => trivial

theorem Only.mono {p : Program α} (h : p.Only P) (hP : ∀ c, P c → P' c) : p.Only P' :=
  Meets.mono h hP fun _ => id

theorem Only.bind {p : Program α} {f : α → Program β} (hp : p.Only P)
    (hf : ∀ a, (f a).Only P) : (p.bind f).Only P := Within.seq hp hf

theorem Only.attempt {p : Program α} (h : p.Only P) : p.attempt.Only P := (Meets.attempt h).only

/-- A program changes the state as each of its calls may. -/
theorem Only.keeps {p : Program α} (h : p.Only P)
    (hG : ∀ c s r s', P c → B c s r s' → G s s') (s : σ) :
    p.Keeps B G (fun _ _ => True) s := by
  refine (Meets.keeps (J := fun _ => True) h (fun c s r s' hc _ hb => ?_) trivial).imp
    fun _ _ _ => trivial
  refine ⟨hG c s r s' hc hb, trivial, ?_⟩
  cases r <;> trivial

end Program

end FleetControl
