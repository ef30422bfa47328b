import FleetControl.Proofs.Exclusion
import FleetControl.Proofs.Journal

/-!
# Workers who rely on each other

Any number of workers make passes in one world, and at every moment any of them may go on by
one call. A pact says what each worker guarantees of its own calls, depending on the locks that
it holds, and what it may rely on in return, while others make theirs. If whatever one worker
guarantees is what all others rely on, and if every pass keeps to the pact on its own, then all
of them do together.
-/
namespace FleetControl

open Program

/-- What a worker has seen: the world that its last call found, the one that it left, and the
locks that the worker has taken and not given back. -/
structure Sight where
  found : World
  world : World
  held : List (String × Token)

/-- What workers guarantee and rely on, by the locks that they hold. -/
structure Pact where
  /-- What is true of every world. -/
  fine : World → Prop
  rely : List (String × Token) → World → World → Prop
  guarantee : List (String × Token) → World → World → Prop
  rely_refl : ∀ held w, rely held w w
  rely_trans : ∀ held u v w, rely held u v → rely held v w → rely held u w
  fine_of_guarantee : ∀ held w w', guarantee held w w' → fine w → fine w'
  /-- What is guaranteed is relied on by those who hold other locks. -/
  rely_of_guarantee : ∀ held held' w w',
    (∀ name a b, (name, a) ∈ held → (name, b) ∉ held') → guarantee held w w' → rely held' w w'

namespace Pact

variable {P : Pact} {raises : Fault → Prop} {α : Type}

/-- What may happen to a worker at a call: others do what it relies on, and then the call is
answered. -/
def sees (P : Pact) (raises : Fault → Prop) : Behaviour Sight := fun c s r s' =>
  (P.rely s.held s.world s'.found ∧ P.fine s'.found) ∧
    World.Possible Eq raises c s'.found r s'.world ∧ s'.held = Worker.heldAfter s.held c r

/-- Every call is as guaranteed. -/
def rule (P : Pact) : Rule Sight := fun _ e => P.guarantee e.before.held e.after.found e.after.world

/-- A program keeps to the pact, whatever others do that it relies on. -/
abbrev Honours (P : Pact) (raises : Fault → Prop) (p : Program α) (s : Sight) : Prop :=
  p.Keeps (P.sees raises) (fun s s' => P.guarantee s.held s'.found s'.world)
    (fun _ _ => True) s

/-- A program keeps to the pact, and ends with a value as `Q` wants it. -/
abbrev Minds (P : Pact) (raises : Fault → Prop) (Q : α → Journal Sight → Prop)
    (p : Program α) (j : Journal Sight) : Prop :=
  p.Follows (P.sees raises) P.rule (fun _ => True) Q j

theorem Minds.honours {p : Program α} {Q : α → Journal Sight → Prop} {j : Journal Sight}
    (h : P.Minds raises Q p j) : P.Honours raises p j.state := by
  induction p generalizing j with
  | done r => trivial
  | call c next ih =>
      intro r s hb
      obtain ⟨hg, hn⟩ := follows_call.mp h r s hb
      exact ⟨hg, ih r hn⟩

/-- What was relied on before a call may have happened already. -/
theorem Honours.shift {p : Program α} {s : Sight} (h : P.Honours raises p s) {u v : World}
    (hv : P.rely s.held s.world v) : P.Honours raises p ⟨u, v, s.held⟩ := by
  cases p with
  | done r => trivial
  | call c next =>
      rintro r s' ⟨⟨hrely, hfine⟩, hb⟩
      exact h r s' ⟨⟨P.rely_trans _ _ _ _ hv hrely, hfine⟩, hb⟩

end Pact

/-- Workers in one world. -/
structure Team (ι : Type) where
  worker : ι → Worker
  world : World

namespace Team

variable {ι : Type} {P : Pact} {outside : World → World → Prop} {raises : Fault → Prop}
  {runs : Controller → Prop} {t t' : Team ι}

/-- The workers with the locks that they share. -/
def crew (t : Team ι) : Crew ι := ⟨t.worker, t.world.locks⟩

/-- What is left of the pass of a worker. -/
def rest (t : Team ι) (i : ι) : Program PassReport :=
  (t.worker i).stage.program (t.worker i).controller

/-- What a worker knows when it comes to look at the world. -/
def sight (t : Team ι) (i : ι) : Sight := ⟨t.world, t.world, (t.worker i).held⟩

/-- The workers keep to the pact. -/
structure Kept (P : Pact) (raises : Fault → Prop) (t : Team ι) : Prop where
  safe : t.crew.Safe
  fine : P.fine t.world
  honours : ∀ i, P.Honours raises (t.rest i) (t.sight i)

/-- What others and controllers have to be like for workers to keep to a pact. -/
structure Fits (P : Pact) (outside : World → World → Prop) (raises : Fault → Prop)
    (runs : Controller → Prop) : Prop where
  locks : ∀ w v, outside w v → v.locks = w.locks
  fine : ∀ w v, outside w v → P.fine w → P.fine v
  rely : ∀ held w v, outside w v → P.rely held w v
  honest : ∀ c, runs c → c.Honest
  honours : ∀ c, runs c → ∀ s, P.Honours raises c.pass s

/-- Nobody has begun a pass, and nobody holds a lock. -/
theorem kept_of_isFresh (h : t.crew.IsFresh) (hw : P.fine t.world) : t.Kept P raises where
  safe := Crew.safe_of_isFresh h
  fine := hw
  honours i := by
    obtain ⟨-, -, r, hr⟩ := h i
    have hrest : t.rest i = .done r := by
      have hstage : (t.worker i).stage = .ended r := hr
      rw [rest, hstage]
      rfl
    rw [hrest]
    trivial

variable [DecidableEq ι]

/-- One thing happens. -/
inductive Step (outside : World → World → Prop) (raises : Fault → Prop)
    (runs : Controller → Prop) : Team ι → Team ι → Prop where
  /-- The others change the world. -/
  | change {t : Team ι} {v : World} (h : outside t.world v) :
      Step outside raises runs t ⟨t.worker, v⟩
  /-- A worker whose pass is over begins a pass of a controller. -/
  | start {t : Team ι} (i : ι) {c : Controller} (h : runs c) {r : Outcome PassReport}
      (hi : (t.worker i).stage = .ended r) :
      Step outside raises runs t ⟨Function.update t.worker i
        { t.worker i with controller := c, stage := .listing c.candidates }, t.world⟩
  /-- A worker goes on without a call. -/
  | go {t : Team ι} (i : ι) {next : Stage}
      (hm : (t.worker i).stage.move (t.worker i).controller = .go next) :
      Step outside raises runs t
        ⟨Function.update t.worker i { t.worker i with stage := next }, t.world⟩
  /-- A worker makes its next call. -/
  | call {t : Team ι} (i : ι) {c : Call} {next : Outcome c.Reply → Stage}
      (hm : (t.worker i).stage.move (t.worker i).controller = .call c next)
      {r : Outcome c.Reply} {w : World} (hb : World.Possible Eq raises c t.world r w) :
      Step outside raises runs t
        ⟨Function.update t.worker i ((t.worker i).after c r (next r)), w⟩

/-- Any number of steps. -/
abbrev Run (outside : World → World → Prop) (raises : Fault → Prop) (runs : Controller → Prop) :
    Team ι → Team ι → Prop := Relation.ReflTransGen (Step outside raises runs)

/-- What remains for a worker that has changed, and for the others. -/
theorem honours_update {i : ι} {x : Worker} {w : World}
    (hi : P.Honours raises (x.stage.program x.controller) ⟨w, w, x.held⟩)
    (hj : ∀ j, j ≠ i → P.Honours raises (t.rest j) ⟨w, w, (t.worker j).held⟩) (j : ι) :
    P.Honours raises ((⟨Function.update t.worker i x, w⟩ : Team ι).rest j)
      ((⟨Function.update t.worker i x, w⟩ : Team ι).sight j) := by
  by_cases h : j = i
  · subst h
    simpa [rest, sight] using hi
  · simpa [rest, sight, h] using hj j h

/-- The next call of a worker is as guaranteed, and the others can rely on that. -/
theorem Kept.call (h : t.Kept P raises) {i : ι} {c : Call} {next : Outcome c.Reply → Stage}
    (hm : (t.worker i).stage.move (t.worker i).controller = .call c next)
    {r : Outcome c.Reply} {w : World} (hb : World.Possible Eq raises c t.world r w) :
    P.guarantee (t.worker i).held t.world w ∧
      (⟨Function.update t.worker i ((t.worker i).after c r (next r)), w⟩ : Team ι).Kept P
        raises := by
  have hcall := h.honours i
  rw [rest, Stage.program_eq, hm] at hcall
  obtain ⟨hguarantee, hnext⟩ := hcall r ⟨t.world, w, Worker.heldAfter (t.worker i).held c r⟩
    ⟨⟨P.rely_refl _ _, h.fine⟩, hb, rfl⟩
  refine ⟨hguarantee, h.safe.step (.call i hm (hb.answers fun _ _ hv => hv ▸ rfl)),
    P.fine_of_guarantee _ _ _ hguarantee h.fine, honours_update ?_ fun j hj => ?_⟩
  · exact Pact.Honours.shift hnext (P.rely_refl _ _)
  · -- nobody else holds a lock that the worker holds
    refine (h.honours j).shift (P.rely_of_guarantee _ _ _ _ (fun name a b ha hb => ?_) hguarantee)
    exact hj (h.safe.holdings.eq_of_holds ha hb).symm

/-- Every step keeps to the pact, and changes the world as others or workers may. -/
theorem Kept.step (h : t.Kept P raises) (hf : Fits P outside raises runs)
    (hs : Step outside raises runs t t') : t'.Kept P raises ∧
      (t'.world = t.world ∨ outside t.world t'.world ∨
        ∃ held, P.guarantee held t.world t'.world) := by
  cases hs with
  | @change v hv =>
      have hcrew : (⟨t.worker, v⟩ : Team ι).crew = t.crew :=
        congrArg (Crew.mk t.worker) (hf.locks _ _ hv)
      refine ⟨⟨hcrew ▸ h.safe, hf.fine _ _ hv h.fine, fun i => ?_⟩, .inr (.inl hv)⟩
      exact (h.honours i).shift (hf.rely _ _ _ hv)
  | start i hc hi =>
      refine ⟨⟨h.safe.step (.start i (hf.honest _ hc) hi), h.fine, ?_⟩, .inl rfl⟩
      exact honours_update (hf.honours _ hc _) fun j _ => h.honours j
  | go i hm =>
      refine ⟨⟨h.safe.step (.go i hm), h.fine, ?_⟩, .inl rfl⟩
      refine honours_update ?_ fun j _ => h.honours j
      have hgo := h.honours i
      rwa [rest, Stage.program_eq, hm] at hgo
  | call i hm hb =>
      obtain ⟨hguarantee, hkept⟩ := h.call hm hb
      exact ⟨hkept, .inr (.inr ⟨_, hguarantee⟩)⟩

/-- Workers that keep to a pact do so over any number of steps, and what others and workers
keep of the world is kept. -/
theorem Kept.run (h : t.Kept P raises) (hf : Fits P outside raises runs)
    (hs : Run outside raises runs t t') {L : World → World → Prop} (hrefl : ∀ w, L w w)
    (htrans : ∀ u v w, L u v → L v w → L u w) (ho : ∀ w v, outside w v → L w v)
    (hg : ∀ held w v, P.guarantee held w v → L w v) :
    t'.Kept P raises ∧ L t.world t'.world := by
  induction hs with
  | refl => exact ⟨h, hrefl _⟩
  | tail _ hstep ih =>
      obtain ⟨hkept, hsame | hv | ⟨held, hv⟩⟩ := ih.1.step hf hstep
      · exact ⟨hkept, hsame ▸ ih.2⟩
      · exact ⟨hkept, htrans _ _ _ ih.2 (ho _ _ hv)⟩
      · exact ⟨hkept, htrans _ _ _ ih.2 (hg _ _ _ hv)⟩

end Team

end FleetControl
