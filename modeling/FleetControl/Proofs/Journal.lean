import FleetControl.Pass
import FleetControl.Proofs.Behaviour

/-!
# Journals of calls

What a program does to others is the calls that it makes. A journal keeps each call with its
answer and with the states around it. A rule says what may be entered after what; a program
follows a rule if all its calls do, whatever they are answered.
-/
namespace FleetControl

/-- A call that was made and its answer, with the states before and after it. -/
structure Entry (σ : Type) where
  before : σ
  call : Call
  reply : Outcome call.Reply
  after : σ

/-- What may be entered after what was entered before, the last entry first. -/
abbrev Rule (σ : Type) := List (Entry σ) → Entry σ → Prop

/-- A state and the calls that led to it, the last one first. -/
structure Journal (σ : Type) where
  state : σ
  log : List (Entry σ)

variable {σ : Type}

namespace Entry

/-- An entry that knows nothing of the world around the call. -/
abbrev bare (c : Call) (r : Outcome c.Reply) : Entry Unit := ⟨(), c, r, ()⟩

/-- What a program knows of its own call. -/
abbrev seen (e : Entry σ) : Entry Unit := .bare e.call e.reply

end Entry

/-- What a program knows of its own calls. -/
abbrev heard (log : List (Entry σ)) : List (Entry Unit) := log.map Entry.seen

/-- Every entry of a log is allowed after those before it. -/
def Rule.Admits (R : Rule σ) : List (Entry σ) → Prop
  | [] => True
  | e :: past => R past e ∧ R.Admits past

theorem Rule.Admits.of_append {R : Rule σ} {later past : List (Entry σ)} {e : Entry σ}
    (h : R.Admits (later ++ e :: past)) : R past e := by
  induction later with
  | nil => exact h.1
  | cons _ later ih => exact ih h.2

/-- Entries that are allowed after anything may be added. -/
theorem Rule.Admits.append {R : Rule σ} {later past : List (Entry σ)} (h : R.Admits past)
    (hl : ∀ e ∈ later, ∀ past, R past e) : R.Admits (later ++ past) := by
  induction later with
  | nil => exact h
  | cons e later ih =>
      exact ⟨hl e List.mem_cons_self _, ih fun e he => hl e (List.mem_cons_of_mem _ he)⟩

theorem Rule.Admits.mono {R R' : Rule σ} {log : List (Entry σ)} (h : R.Admits log)
    (hR : ∀ past e, R past e → R' past e) : R'.Admits log := by
  induction log with
  | nil => trivial
  | cons e past ih => exact ⟨hR past e h.1, ih h.2⟩

namespace Journal

/-- A journal without entries. -/
def start (s : σ) : Journal σ := ⟨s, []⟩

/-- The journal after one more call. -/
def enter (j : Journal σ) (c : Call) (r : Outcome c.Reply) (s : σ) : Journal σ :=
  ⟨s, ⟨j.state, c, r, s⟩ :: j.log⟩

/-- One entry more, which is allowed. -/
def Adds (R : Rule σ) (j j' : Journal σ) : Prop := ∃ e, j'.log = e :: j.log ∧ R j.log e

end Journal

/-- A behaviour with a journal of all calls. -/
def Behaviour.recorded (B : Behaviour σ) : Behaviour (Journal σ) := fun c j r j' =>
  ∃ s, B c j.state r s ∧ j' = j.enter c r s

/-- The states along a log, from the first to the last, with a possible call between them. -/
inductive Traces (B : Behaviour σ) (s : σ) : List (Entry σ) → σ → Prop where
  | nil : Traces B s [] s
  | cons {log : List (Entry σ)} {t : σ} {c : Call} {r : Outcome c.Reply} {t' : σ}
      (past : Traces B s log t) (answer : B c t r t') : Traces B s (⟨t, c, r, t'⟩ :: log) t'

/-- Each entry along a log is a possible call. -/
theorem Traces.possible {B : Behaviour σ} {s t : σ} {log : List (Entry σ)} (h : Traces B s log t) {e : Entry σ}
    (he : e ∈ log) : B e.call e.before e.reply e.after := by
  induction h with
  | nil => cases he
  | cons past answer ih =>
      obtain rfl | he := List.mem_cons.mp he
      · exact answer
      · exact ih he

namespace Program

variable {α β : Type} {B : Behaviour σ} {R R' : Rule σ} {E : Journal σ → Prop}
  {j j' : Journal σ} {P : Call → Prop} {p : Program α}

/-- What is wanted of a value and of the end in a fault. -/
def Wants (E : Journal σ → Prop) (Q : α → Journal σ → Prop) : Outcome α → Journal σ → Prop
  | .ok a, j => Q a j
  | .error _, j => E j

/-- Whatever happens, every call is as `R` allows, and the end is as `Q` wants it of a value
and `E` of a fault. -/
abbrev Follows (B : Behaviour σ) (R : Rule σ) (E : Journal σ → Prop)
    (Q : α → Journal σ → Prop) (p : Program α) (j : Journal σ) : Prop :=
  p.Keeps B.recorded (Journal.Adds R) (Wants E Q) j

variable {Q Q' : α → Journal σ → Prop}

theorem follows_call {c : Call} {next : Outcome c.Reply → Program α} :
    (call c next).Follows B R E Q j ↔ ∀ r s, B c j.state r s →
      R j.log ⟨j.state, c, r, s⟩ ∧ (next r).Follows B R E Q (j.enter c r s) := by
  constructor
  · intro h r s hb
    obtain ⟨⟨e, he, hR⟩, hn⟩ := h r _ ⟨s, hb, rfl⟩
    cases he
    exact ⟨hR, hn⟩
  · rintro h r _ ⟨s, hb, rfl⟩
    obtain ⟨hR, hn⟩ := h r s hb
    exact ⟨⟨_, rfl, hR⟩, hn⟩

theorem follows_perform {c : Call} {Q : c.Reply → Journal σ → Prop} :
    (perform c).Follows B R E Q j ↔ ∀ r s, B c j.state r s →
      R j.log ⟨j.state, c, r, s⟩ ∧ Wants E Q r (j.enter c r s) := follows_call

theorem Follows.mono (h : p.Follows B R E Q j) (hR : ∀ past e, R past e → R' past e)
    {E' : Journal σ → Prop} (hE : ∀ j', E j' → E' j') (hQ : ∀ a j', Q a j' → Q' a j') :
    p.Follows B R' E' Q' j := by
  refine Keeps.mono h (fun _ _ ⟨e, he, hr⟩ => ⟨e, he, hR _ e hr⟩) ?_
  rintro (f | a) j' hq
  · exact hE j' hq
  · exact hQ a j' hq

theorem Follows.imp (h : p.Follows B R E Q j) (hQ : ∀ a j', Q a j' → Q' a j') :
    p.Follows B R E Q' j := h.mono (fun _ _ => id) (fun _ => id) hQ

/-- The journal at the end goes on from the one at the start. -/
theorem Follows.later (h : p.Follows B R E Q j) :
    p.Follows B R E (fun a j' => Q a j' ∧ j.log <:+ j'.log) j := by
  induction p generalizing j with
  | done r =>
      cases r with
      | ok a => exact ⟨h, List.suffix_refl _⟩
      | error f => exact h
  | call c next ih =>
      refine follows_call.mpr fun r s hb => ?_
      obtain ⟨hR, hn⟩ := follows_call.mp h r s hb
      exact ⟨hR, (ih r hn).imp fun a j' hq => ⟨hq.1, (List.suffix_cons _ _).trans hq.2⟩⟩

theorem Follows.bind {f : α → Program β} {Q' : β → Journal σ → Prop} (h : p.Follows B R E Q j)
    (hf : ∀ a j', Q a j' → j.log <:+ j'.log → (f a).Follows B R E Q' j') :
    (p.bind f).Follows B R E Q' j := by
  refine keeps_bind.mpr (Keeps.imp h.later ?_)
  rintro (e | a) j' hq
  · exact hq
  · exact hf a j' hq.1 hq.2

/-- What is wanted once faults are made into errors. -/
def Tries (E : Journal σ → Prop) (Q : α → Journal σ → Prop) :
    Except ControlError α → Journal σ → Prop
  | .ok a, j => Q a j
  | .error _, j => E j

theorem Follows.attempt (h : p.Follows B R E Q j) : p.attempt.Follows B R E (Tries E Q) j := by
  induction p generalizing j with
  | done r => rcases r with (_ | _) | _ <;> exact h
  | call c next ih =>
      refine follows_call.mpr fun r s hb => ?_
      obtain ⟨hR, hn⟩ := follows_call.mp h r s hb
      exact ⟨hR, ih r hn⟩

/-- Nothing that was contained ends in a fault. -/
theorem Follows.contain {E' : Journal σ → Prop} (h : p.Follows B R E Q j) :
    p.contain.Follows B R E' (Tries E Q) j := by
  induction p generalizing j with
  | done r => cases r <;> exact h
  | call c next ih =>
      refine follows_call.mpr fun r s hb => ?_
      obtain ⟨hR, hn⟩ := follows_call.mp h r s hb
      exact ⟨hR, ih r hn⟩

theorem Tries.same {r : Except ControlError α} (h : Tries E (fun _ => E) r j) : E j := by
  cases r <;> exact h

/-- Calls that are allowed after everything that they can follow. -/
theorem Meets.follows {Q : α → Prop} (h : p.Meets P (fun _ => True) Q)
    (hP : ∀ j c r s, P c → E j → B c j.state r s →
      R j.log ⟨j.state, c, r, s⟩ ∧ E (j.enter c r s)) (hj : E j) :
    p.Follows B R E (fun a j' => Q a ∧ E j') j := by
  induction p generalizing j with
  | done r =>
      cases r with
      | ok a => exact ⟨h, hj⟩
      | error f => exact hj
  | call c next ih =>
      refine follows_call.mpr fun r s hb => ?_
      obtain ⟨hR, hE⟩ := hP j c r s h.1 hj hb
      refine ⟨hR, ih r (h.2 r ?_) hE⟩
      cases r <;> trivial

/-- If every entry that one rule allows keeps `J` and is allowed by another rule, a program that
follows the one follows the other and keeps `J`. -/
theorem Follows.adapt {J : Journal σ → Prop} (h : p.Follows B R E Q j)
    (hJ : ∀ j c r s, J j → B c j.state r s → R j.log ⟨j.state, c, r, s⟩ →
      R' j.log ⟨j.state, c, r, s⟩ ∧ J (j.enter c r s)) (hj : J j) :
    p.Follows B R' (fun j' => E j' ∧ J j') (fun a j' => Q a j' ∧ J j') j := by
  induction p generalizing j with
  | done r => cases r <;> exact ⟨h, hj⟩
  | call c next ih =>
      refine follows_call.mpr fun r s hb => ?_
      obtain ⟨hR, hn⟩ := follows_call.mp h r s hb
      obtain ⟨hR', hj'⟩ := hJ j c r s hj hb hR
      exact ⟨hR', ih r hn hj'⟩

/-- Work under a lock is allowed if the work is, and what the lock takes. -/
theorem follows_exclusively {name : String} {body : Program α}
    (hl : ∀ j c r s, P c → E j → B c j.state r s →
      R j.log ⟨j.state, c, r, s⟩ ∧ E (j.enter c r s))
    (ha : P (.acquire name)) (hr : ∀ token, P (.release name token))
    (hbody : ∀ j, E j → body.Follows B R E (fun _ => E) j) (hj : E j) :
    (exclusively name body).Follows B R E (fun _ => E) j := by
  have hcall : ∀ c j, P c → E j → (perform c).Follows B R E (fun _ => E) j := by
    refine fun c j hc hj => follows_perform.mpr fun r s hb => ?_
    obtain ⟨hR, hE⟩ := hl j c r s hc hj hb
    refine ⟨hR, ?_⟩
    cases r <;> exact hE
  refine .bind (hcall _ _ ha hj) fun found j₁ h₁ _ => ?_
  cases found with
  | none => exact h₁
  | some token =>
      refine .bind (hbody j₁ h₁).contain fun outcome j₂ h₂ _ => ?_
      refine .bind (hcall _ _ (hr token) h₂.same).attempt fun _ j₃ h₃ _ => ?_
      cases outcome <;> exact h₃.same

/-- A pass is allowed if reading, locking and its work on each item are. -/
theorem follows_pass {c : Controller}
    (hl : ∀ j c r s, P c → E j → B c j.state r s →
      R j.log ⟨j.state, c, r, s⟩ ∧ E (j.enter c r s))
    (ha : ∀ name, P (.acquire name)) (hr : ∀ name token, P (.release name token))
    (hshuffle : ∀ ids, P (.shuffle ids)) (hcandidates : c.candidates.Only P)
    (hprocess : ∀ id j, E j → (c.process id).Follows B R E (fun _ => E) j) (hj : E j) :
    c.pass.Follows B R E (fun _ => E) j := by
  have hattempt : ∀ id j, E j → (c.attempt id).Follows B R E (fun _ => E) j := by
    intro id j hj
    have hlocked : ∀ name, (exclusively name (c.process id)).Follows B R E (fun _ => E) j :=
      fun name => follows_exclusively hl (ha name) (hr name) (hprocess id) hj
    rw [Controller.attempt]
    split
    · refine .bind (hlocked _).attempt fun outcome j₁ h₁ _ => ?_
      split <;> exact h₁.same
    · refine .bind (hprocess id j hj).contain fun outcome j₁ h₁ _ => ?_
      split <;> exact h₁.same
  have hall : ∀ ids report j, E j → (c.attemptAll ids report).Follows B R E (fun _ => E) j := by
    intro ids
    induction ids with
    | nil => exact fun report j hj => hj
    | cons id ids ih =>
        exact fun report j hj => .bind (hattempt id j hj) fun a j₁ h₁ _ => ih _ j₁ h₁
  refine .bind ((hcandidates.follows hl hj).imp fun _ _ hq => hq.2).attempt
    fun found j₁ h₁ _ => ?_
  cases found with
  | error e => exact h₁
  | ok ids =>
      have hshuffled : (perform (.shuffle ids)).Follows B R E (fun _ => E) j₁ := by
        have honly : (perform (.shuffle ids)).Only P := only_perform.mpr (hshuffle ids)
        exact (honly.follows hl h₁).imp fun _ _ hq => hq.2
      exact .bind hshuffled fun order j₂ h₂ _ => hall _ _ j₂ h₂

/-- The log of a run is allowed if the program follows the rule. -/
theorem Keeps.admits {Q : Outcome α → Journal σ → Prop} {r : Outcome α}
    (h : p.Keeps B.recorded (Journal.Adds R) Q j) (he : p.Ends B.recorded j r j')
    (hj : R.Admits j.log) : R.Admits j'.log := by
  have hstep : ∀ j j' : Journal σ, Journal.Adds R j j' → R.Admits j.log → R.Admits j'.log := by
    rintro j j' ⟨e, he, hR⟩ hj
    rw [he]
    exact ⟨hR, hj⟩
  have hall := (Keeps.mono h hstep fun _ _ => id).reached (fun _ => id) fun _ _ _ hst htu =>
    htu ∘ hst
  exact (hall.ends he).2 hj

/-- What is added to a log by a run is allowed, whatever the log was before. -/
theorem Keeps.allows {Q : Outcome α → Journal σ → Prop} {r : Outcome α}
    (h : p.Keeps B.recorded (Journal.Adds R) Q j) (he : p.Ends B.recorded j r j')
    {later past : List (Entry σ)} {e : Entry σ} (hlog : j'.log = later ++ e :: past)
    (hpast : j.log <:+ past) : R past e := by
  -- The entries that were there before are not after all of them.
  have hbefore : ∀ log : List (Entry σ), log <:+ j.log →
      Rule.Admits (fun past e => j.log <:+ past → R past e) log := by
    intro log
    induction log with
    | nil => exact fun _ => trivial
    | cons e past ih =>
        intro hlog
        refine ⟨fun hpast => ?_, ih ((List.suffix_cons _ _).trans hlog)⟩
        have hlength := (hlog.trans hpast).length_le
        rw [List.length_cons] at hlength
        omega
  have hweak : p.Keeps B.recorded (Journal.Adds fun past e => j.log <:+ past → R past e) Q j :=
    Keeps.mono h (fun _ _ ⟨e, hadds, hR⟩ => ⟨e, hadds, fun _ => hR⟩) fun _ _ => id
  have hadmits := hweak.admits he (hbefore j.log (List.suffix_refl _))
  rw [hlog] at hadmits
  exact hadmits.of_append hpast

/-- The log of a run leads from its first state to its last. -/
theorem Ends.traces {s : σ} {r : Outcome α} (he : p.Ends B.recorded j r j')
    (hj : Traces B s j.log j.state) : Traces B s j'.log j'.state := by
  induction he with
  | done => exact hj
  | call answer _ ih =>
      obtain ⟨t, hb, rfl⟩ := answer
      exact ih (.cons hj hb)

/-- The log of a run goes on from the one that it began with. -/
theorem Ends.suffix {r : Outcome α} (he : p.Ends B.recorded j r j') : j.log <:+ j'.log := by
  refine he.preserves (I := fun j' => j.log <:+ j'.log) ?_ (List.suffix_refl _)
  rintro c j₁ r _ h ⟨s, -, rfl⟩
  exact h.trans (List.suffix_cons _ _)

/-- A run goes on from any log as it does from an empty one. -/
theorem Ends.of_start {s : σ} {past : List (Entry σ)} {r : Outcome α}
    (he : p.Ends B.recorded ⟨s, past⟩ r j') :
    ∃ log, j'.log = log ++ past ∧ p.Ends B.recorded (.start s) r ⟨j'.state, log⟩ := by
  have hall : ∀ {j : Journal σ}, p.Ends B.recorded j r j' → ∀ now, j.log = now ++ past →
      ∃ log, j'.log = log ++ past ∧ p.Ends B.recorded ⟨j.state, now⟩ r ⟨j'.state, log⟩ := by
    clear he
    intro j he
    induction he with
    | done r j => exact fun now hj => ⟨now, hj, .done r _⟩
    | call hb _ ih =>
        obtain ⟨s', hb, rfl⟩ := hb
        intro now hj
        obtain ⟨log, hlog, hrest⟩ := ih (_ :: now) (congrArg (_ :: ·) hj)
        exact ⟨log, hlog, .call ⟨s', hb, rfl⟩ hrest⟩
  exact hall he [] rfl

/-- What a run adds to a log leads from where the run began to where it ended. -/
theorem Ends.since {r : Outcome α} (he : p.Ends B.recorded j r j') :
    ∃ log, j'.log = log ++ j.log ∧ Traces B j.state log j'.state := by
  have hsame : p.Ends B.recorded ⟨j.state, j.log⟩ r j' := he
  obtain ⟨log, hlog, hrun⟩ := hsame.of_start
  exact ⟨log, hlog, hrun.traces .nil⟩

/-- A run in which no call has failed. -/
theorem Ends.flawless {r : Outcome α} (he : p.Ends B.recorded j r j')
    (hok : ∀ e ∈ j'.log, e.reply.isOk = true) : p.Ends B.flawless.recorded j r j' := by
  induction he with
  | done r j => exact .done r j
  | @call c next j _ t q out hb hrest ih =>
      obtain ⟨s', hb, rfl⟩ := hb
      have hq : q.isOk = true :=
        hok ⟨j.state, c, q, s'⟩ (hrest.suffix.subset List.mem_cons_self)
      refine .call ⟨s', ⟨hb, ?_⟩, rfl⟩ (ih hok)
      cases q with
      | ok a => exact ⟨a, rfl⟩
      | error f => cases hq

/-- What holds wherever a run ends is kept by the program. -/
theorem follows_of_ends (h : ∀ r j', p.Ends B.recorded j r j' → Wants E Q r j') :
    p.Follows B (fun _ _ => True) E Q j := by
  induction p generalizing j with
  | done r => exact h r j (.done r j)
  | call c next ih =>
      refine follows_call.mpr fun r s hb => ⟨trivial, ih r fun r' j' he => ?_⟩
      exact h r' j' (.call ⟨s, hb, rfl⟩ he)

theorem Traces.append_iff {s t : σ} {later past : List (Entry σ)} :
    Traces B s (later ++ past) t ↔ ∃ u, Traces B s past u ∧ Traces B u later t := by
  constructor
  · intro h
    induction later generalizing t with
    | nil => exact ⟨t, h, .nil⟩
    | cons e later ih =>
        cases h with
        | cons hlog answer =>
            obtain ⟨u, hu, hl⟩ := ih hlog
            exact ⟨u, hu, .cons hl answer⟩
  · rintro ⟨u, hu, hl⟩
    induction hl with
    | nil => exact hu
    | cons _ answer ih => exact .cons ih answer

/-- Following a program as a handler does is one of its runs. -/
theorem ends_handler {τ : Type} {C : Behaviour τ} {h : Handler τ}
    (hC : ∀ c t, C c t (h c t).1 (h c t).2) (p : Program α) (t : τ) :
    p.Ends C t (p.run h t).1 (p.run h t).2 := by
  induction p generalizing t with
  | done r => exact .done r t
  | call c next ih => exact .call (hC c t) (ih _ _)

/-- A run that records its calls, before which others change the world. -/
def meddling (acts : List (Entry World) → Call → World → World) : Handler (Journal World) :=
  fun c j =>
    let (r, w) := World.answer c (acts j.log c j.state)
    (r, j.enter c r w)

/-- A run that records its calls, some of which fail instead of being answered. -/
def failing (fails : List (Entry World) → Call → Option Fault) : Handler (Journal World) :=
  fun c j =>
    match fails j.log c with
    | some f => (.error f, j.enter c (.error f) j.state)
    | none => ((World.answer c j.state).1,
        j.enter c (World.answer c j.state).1 (World.answer c j.state).2)

/-- Following a program so is one of its runs, where the others may leave the world alone. -/
theorem ends_failing {fails : List (Entry World) → Call → Option Fault}
    {outside : World → World → Prop} {raises : Fault → Prop} {I : World → Prop}
    (ho : ∀ w, I w → outside w w) (ha : ∀ c w, I w → I (World.answer c w).2)
    (hf : ∀ log c f, fails log c = some f → raises f) (p : Program α) {j : Journal World}
    (hj : I j.state) :
    p.Ends (World.Possible outside raises).recorded j (p.run (failing fails) j).1
      (p.run (failing fails) j).2 := by
  induction p generalizing j with
  | done r => exact .done r j
  | call c next ih =>
      rw [run_call]
      cases hc : fails j.log c with
      | some f =>
          have he : failing fails c j = (.error f, j.enter c (.error f) j.state) := by
            simp only [failing, hc]
          rw [he]
          have hb : World.Possible outside raises c j.state (.error f) j.state :=
            ⟨j.state, ho _ hj, .inr ⟨f, hf _ _ f hc, rfl, .inl rfl⟩⟩
          exact .call ⟨_, hb, rfl⟩ (ih _ hj)
      | none =>
          have he : failing fails c j = ((World.answer c j.state).1,
              j.enter c (World.answer c j.state).1 (World.answer c j.state).2) := by
            simp only [failing, hc]
          rw [he]
          have hb : World.Possible outside raises c j.state (World.answer c j.state).1
              (World.answer c j.state).2 := ⟨j.state, ho _ hj, .inl rfl⟩
          exact .call ⟨_, hb, rfl⟩ (ih _ (ha c _ hj))

/-- A run that records its calls, in which none fails and nobody interferes. -/
def undisturbed (p : Program α) (j : Journal World) : Journal World :=
  (p.run (failing fun _ _ => none) j).2

/-- Such a run is possible where the others may leave the world alone. -/
theorem ends_undisturbed {outside : World → World → Prop} {raises : Fault → Prop}
    (ho : ∀ w, outside w w) (p : Program α) (j : Journal World) :
    p.Ends (World.Possible outside raises).recorded j (p.run (failing fun _ _ => none) j).1
      (p.undisturbed j) :=
  ends_failing (I := fun _ => True) (fun w _ => ho w) (fun _ _ _ => trivial) (by simp) p trivial

end Program

end FleetControl
