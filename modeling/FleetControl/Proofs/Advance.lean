import FleetControl.Proofs.Custody

/-!
# Advancing one item

A course says what the parts of a life cycle make of an item, one state at a time and
without the world. From it follows what advancing makes of the item, whatever the calls on
the way are answered: every version that is stored is sound and follows the one before it,
and no other item is written.
-/
namespace FleetControl

open Program

/-! ## Programs about one item -/

variable {α : Type} {k : ItemKind} {id : ItemId} {E E' : Fault → Prop} {Q : α → Prop}
  {i i' x y : Item k}

/-- What is stored under the id of the item is then the item. -/
theorem Item.Possible.of_update {r : Outcome Unit}
    (h : Item.Possible k id E (.store (.updateItem k y)) i r i') (hy : y.id = id) :
    i' = y ∨ (i' = i ∧ ∃ f, r = .error f) := by
  cases h with
  | written => exact .inl rfl
  | writtenOther hne => exact absurd hy hne
  | spared hc => simp [Call.spares] at hc
  | failed => exact .inr ⟨rfl, _, rfl⟩
  | failedLate => exact .inl rfl

namespace Program

variable {G : Item k → Item k → Prop}

/-- A program that stores only versions between which all changes are allowed ends with one
of them. -/
theorem Meets.keeps_stored {D : Item k → Prop} {p : Program α}
    (h : p.Meets (Call.Stores D) E' Q) (hE : ∀ f, E f → E' f)
    (hD : ∀ y z, D y → D z → G y z) (hi : D i) :
    p.Keeps (Item.Possible k id E) G
      (fun r t => D t ∧ (∀ a, r = .ok a → Q a) ∧ FailsOnly E' r) i := by
  refine h.keeps (fun c y r z hc hy hb => ?_) hi
  have hz : D z := by
    rcases hb.eq_or_of_stores hc with rfl | ⟨-, hz⟩
    · exact hy
    · exact hz
  exact ⟨hD y z hy hz, hz, hb.failsOnly.mono hE⟩

/-- Programs about other items leave the item alone. -/
theorem Only.keeps_other {p : Program α} {j : ItemId} (hj : j ≠ id)
    (h : p.Only (Call.Stores fun y : Item k => y.id = j)) (hi : G i i) :
    p.Keeps (Item.Possible k id E) G (fun _ t => t = i) i := by
  refine (Meets.keeps (J := (· = i)) h (fun c y r z hc hy hb => ?_) rfl).imp fun _ _ hq => hq.1
  subst hy
  have hz : z = y := by
    rcases hb.eq_or_of_stores hc with hz | ⟨hid, hz⟩
    · exact hz
    · exact absurd (hz.symm.trans hid) hj
  subst hz
  exact ⟨hi, rfl, hb.failsOnly.mono fun _ _ => trivial⟩

end Program

/-- Items keep their ids in every step. -/
theorem Item.id_afterStep (x : Item k) (now : Instant) (d : Decision k.State) :
    (x.afterStep now d).id = x.id := by
  cases d <;> rfl

theorem Call.stores_of_isRead {D : Item k → Prop} {c : Call} (h : c.isRead = true) :
    c.Stores D := by
  rintro y rfl
  cases h

theorem Call.Stores.mono {D D' : Item k → Prop} {c : Call} (h : c.Stores D)
    (hD : ∀ y, D y → D' y) : c.Stores D' := fun y hc => hD y (h y hc)

theorem within_update {D : Item k → Prop} (h : D y) :
    (ask (.updateItem k y)).Within (Call.Stores D) E := by
  refine within_ask.mpr fun z hz => ?_
  cases hz
  exact h

namespace Lifecycle

variable {l : Lifecycle k} {now : Instant}

/-- What advancing does with an item that it has read. -/
def work (l : Lifecycle k) (item : Item k) (now : Instant) : Program (Progress k.State) :=
  if item.isTerminal then done (.ok .skipped)
  else (l.isPaused item).bind fun paused =>
    if paused then (ask (.updateItem k (item.touch now))).bind fun _ => done (.ok .paused)
    else (ofOutcome l.timeout).bind fun limit =>
      if limit < now.since (l.timeoutBasis item) then l.timeOut item now
      else l.takeStep item now

theorem advance_eq (l : Lifecycle k) (id : ItemId) (now : Instant) :
    l.advance id now = (ask (.getItem k id)).bind fun
      | none => fail (.notFound k.label id)
      | some item => l.work item now := rfl

/-- What a step may give back: an item whose stored version is sound and follows all drafts. -/
def Settles (Sound : Item k → Prop) (Drafts Follows : Item k → Item k → Prop) (x : Item k)
    (now : Instant) (result : Item k × Decision k.State) : Prop :=
  result.1.id = x.id ∧ (Sound x → ∀ z, Drafts x z →
    Sound (result.1.afterStep now result.2) ∧ Follows z (result.1.afterStep now result.2))

/-- What the parts of a life cycle make of an item. `Drafts x` are the versions of `x` that
may be stored before its state is done with it, and `Follows x` those that may be stored
after it. An invariant is only broken for items that are not sound. -/
structure Course (l : Lifecycle k) (Sound : Item k → Prop)
    (Drafts Follows : Item k → Item k → Prop) : Prop where
  refl : ∀ x, Follows x x
  draft_refl : ∀ x, Drafts x x
  draft_id : ∀ x y, Drafts x y → y.id = x.id
  draft : ∀ x y z, Sound x → Drafts x y → Drafts x z → Sound z ∧ Follows y z
  touch : ∀ x now, x.state ≠ k.terminal → Sound x → Sound (x.touch now) ∧ Follows x (x.touch now)
  expire : ∀ x now, x.state ≠ k.terminal → Sound x →
    Sound (x.afterTimeout now (l.timeoutTarget x.state) (l.timeoutMessage x)) ∧
      Follows x (x.afterTimeout now (l.timeoutTarget x.state) (l.timeoutMessage x))
  timeout : FailsOnly (·.isBreach = false) l.timeout
  isPaused : ∀ E : Fault → Prop, (∀ f, f.isBreach = false → E f) →
    ∀ x, (l.isPaused x).Within (·.isRead = true) E
  onTimeout : ∀ E : Fault → Prop, (∀ f, f.isBreach = false → E f) →
    ∀ x source, (l.onTimeout x source).Within (Call.Stores (Drafts x)) E
  step : ∀ E : Fault → Prop, (∀ f, f.isBreach = false → E f) →
    ∀ x now, x.state ≠ k.terminal → (Sound x ∨ ∀ f, E f) →
      (l.step x now).Meets (Call.Stores (Drafts x)) E (Settles Sound Drafts Follows x now)

namespace Course

variable {Sound : Item k → Prop} {Drafts Follows : Item k → Item k → Prop}

/-- The end of a timeout, whether or not what follows it fails. -/
theorem within_timedOut (h : l.Course Sound Drafts Follows)
    (hE : ∀ f, f.isBreach = false → E f) (x : Item k) (source : k.State)
    (progress : Progress k.State) :
    ((l.onTimeout x source).attempt.bind fun _ => done (.ok progress)).Within
      (Call.Stores (Drafts x)) E :=
  .bind (Meets.attempt (h.onTimeout E hE x source)) fun _ _ => trivial

/-- Working on an item stores versions of this item only. -/
theorem only_work (h : l.Course Sound Drafts Follows) (x : Item k) (now : Instant) :
    (l.work x now).Only (Call.Stores fun y : Item k => y.id = x.id) := by
  rw [work]
  split
  · trivial
  · rename_i hx
    have hx : x.state ≠ k.terminal := fun he => hx (Item.isTerminal_iff.mpr he)
    refine .bind (Only.mono (h.isPaused _ (fun _ _ => trivial) x) fun _ =>
      Call.stores_of_isRead) fun paused => ?_
    split
    · exact .bind (within_update (Eq.refl x.id)) fun _ => trivial
    · refine .bind (within_ofOutcome (h.timeout.mono fun _ _ => trivial)) fun limit => ?_
      split
      · refine Only.bind (within_update (Eq.refl x.id)) fun _ => ?_
        refine Only.mono (h.within_timedOut (fun _ _ => trivial) _ _ _) fun c hc => ?_
        exact hc.mono fun y => h.draft_id (x.afterTimeout now _ _) y
      · refine Meets.bind (p := l.step x now)
          (Meets.mono (h.step _ (fun _ _ => trivial) x now hx (.inr fun _ => trivial))
            (fun c hc => hc.mono (h.draft_id x)) fun _ => id) fun result hr => ?_
        refine Only.bind (within_update ?_) fun _ => ?_
        · exact (Item.id_afterStep _ _ _).trans hr.1
        · split <;> trivial

/-- A version that may be stored is stored, or the call fails. -/
theorem keeps_update {G : Item k → Item k → Prop} {Good : Item k → Prop} (hx : Good x)
    (hxx : G x x) (hy : Good y) (hxy : G x y) (hid : y.id = id) :
    (ask (.updateItem k y)).Keeps (Item.Possible k id E) G
      (fun r t => Good t ∧ (∀ u, r = .ok u → t = y) ∧ FailsOnly E r) x := by
  refine keeps_ask.mpr fun r t hb => ?_
  have hfault := hb.failsOnly
  rcases hb.of_update hid with rfl | ⟨rfl, f, rfl⟩
  · exact ⟨hxy, hy, fun _ _ => rfl, hfault⟩
  · refine ⟨hxx, hx, ?_, hfault⟩
    rintro u hu
    cases hu

/-- An item whose cluster is paused is stored with a new date. -/
theorem keeps_touch (h : l.Course Sound Drafts Follows) (hi : Sound i) (hid : i.id = id)
    (hx : i.state ≠ k.terminal) (now : Instant) :
    ((ask (.updateItem k (i.touch now))).bind fun _ =>
      done (.ok (.paused : Progress k.State))).Keeps (Item.Possible k id E)
        (fun y z => Sound z ∧ Follows y z) (fun r t => Sound t ∧ FailsOnly E r) i := by
  have htouch := h.touch i now hx hi
  rw [keeps_bind]
  refine (keeps_update hi ⟨hi, h.refl i⟩ htouch.1 htouch hid).imp ?_
  rintro (f | u) t ⟨ht, -, hf⟩
  · exact ⟨ht, hf⟩
  · exact ⟨ht, trivial⟩

/-- A timeout is stored before anything follows it. -/
theorem keeps_timeOut (h : l.Course Sound Drafts Follows) (hE : ∀ f, f.isBreach = false → E f)
    (hi : Sound i) (hid : i.id = id) (hx : i.state ≠ k.terminal) (now : Instant) :
    (l.timeOut i now).Keeps (Item.Possible k id E) (fun y z => Sound z ∧ Follows y z)
      (fun r t => Sound t ∧ FailsOnly E r) i := by
  have hexp := h.expire i now hx hi
  rw [timeOut, bind_eq, keeps_bind]
  refine (keeps_update hi ⟨hi, h.refl i⟩ hexp.1 hexp hid).imp ?_
  rintro (f | u) t ⟨ht, hok, hf⟩
  · exact ⟨ht, hf⟩
  · obtain rfl := hok u rfl
    refine ((h.within_timedOut hE _ _ _).keeps_stored (fun _ h => h) ?_ (h.draft_refl _)).imp ?_
    · intro y z hy hz
      exact h.draft _ y z hexp.1 hy hz
    · intro r z hr
      exact ⟨(h.draft _ _ z hexp.1 (h.draft_refl _) hr.1).1, hr.2.2⟩

/-- A step stores drafts of the item and then what it gives back. -/
theorem keeps_takeStep (h : l.Course Sound Drafts Follows) (hE : ∀ f, f.isBreach = false → E f)
    (hi : Sound i) (hid : i.id = id) (hx : i.state ≠ k.terminal) (now : Instant) :
    (l.takeStep i now).Keeps (Item.Possible k id E) (fun y z => Sound z ∧ Follows y z)
      (fun r t => Sound t ∧ FailsOnly E r) i := by
  rw [takeStep, bind_eq, keeps_bind]
  refine ((h.step E hE i now hx (.inl hi)).keeps_stored (fun _ h => h) ?_
    (h.draft_refl i)).imp ?_
  · intro y z hy hz
    exact h.draft i y z hi hy hz
  rintro (f | ⟨changed, d⟩) t ⟨ht, hok, hf⟩
  · exact ⟨(h.draft i i t hi (h.draft_refl i) ht).1, hf⟩
  · obtain ⟨hcid, hsettles⟩ := hok _ rfl
    have hstored := hsettles hi t ht
    have htt := h.draft i t t hi ht ht
    have hyid : (changed.afterStep now d).id = id :=
      (Item.id_afterStep _ _ _).trans (hcid.trans hid)
    simp only [Then, bind_eq, keeps_bind]
    refine (keeps_update htt.1 htt hstored.1 hstored hyid).imp ?_
    rintro (f | u) s ⟨hs, -, hf⟩
    · exact ⟨hs, hf⟩
    · simp only [Then]
      split <;> exact ⟨hs, trivial⟩

/-- Working on a sound item stores sound versions only, each following the one before, and
breaks no invariant. -/
theorem keeps_work (h : l.Course Sound Drafts Follows) (hE : ∀ f, f.isBreach = false → E f)
    (hi : Sound i) (hid : i.id = id) (now : Instant) :
    (l.work i now).Keeps (Item.Possible k id E) (fun y z => Sound z ∧ Follows y z)
      (fun r t => Sound t ∧ FailsOnly E r) i := by
  rw [work]
  split
  · exact ⟨hi, trivial⟩
  · rename_i hx
    have hx : i.state ≠ k.terminal := fun he => hx (Item.isTerminal_iff.mpr he)
    rw [keeps_bind]
    -- whether the cluster is paused is only read
    have hp : (l.isPaused i).Meets (Call.Stores (i = ·)) E fun _ => True :=
      Meets.mono (h.isPaused E hE i) (fun _ => Call.stores_of_isRead) fun _ h => h
    refine (hp.keeps_stored (fun _ h => h) ?_ rfl).imp ?_
    · rintro _ _ rfl rfl
      exact ⟨hi, h.refl i⟩
    rintro (f | paused) _ ⟨rfl, -, hf⟩
    · exact ⟨hi, hf⟩
    simp only [Then]
    split
    · exact h.keeps_touch hi hid hx now
    · cases hlimit : l.timeout with
      | error f =>
          have hf := h.timeout
          rw [hlimit] at hf
          exact ⟨hi, hE f hf⟩
      | ok limit =>
          simp only [ofOutcome, Program.bind]
          split
          · exact h.keeps_timeOut hE hi hid hx now
          · exact h.keeps_takeStep hE hi hid hx now

/-- Advancing any item of the kind: the one that nobody else writes stays sound, changes only
as allowed, and is never found broken. -/
theorem keeps_advance (h : l.Course Sound Drafts Follows) (hE : ∀ f, f.isBreach = false → E f)
    (hi : Sound i) (j : ItemId) (now : Instant) :
    (l.advance j now).Keeps (Item.Possible k id E) (fun y z => Sound z ∧ Follows y z)
      (fun r t => Sound t ∧ (j = id → FailsOnly E r)) i := by
  rw [advance_eq, keeps_bind]
  refine keeps_ask.mpr fun r t hb => ?_
  have hfault := hb.failsOnly
  have ht : t = i := by
    rcases hb.eq_or_stored with ht | ⟨-, hc⟩
    · exact ht
    · cases hc
  subst ht
  refine ⟨⟨hi, h.refl t⟩, ?_⟩
  cases hb with
  | read hid =>
      exact (h.keeps_work hE hi hid now).imp fun _ _ hq => ⟨hq.1, fun _ => hq.2⟩
  | readOther hj hx =>
      rename_i found
      cases found with
      | none => exact ⟨hi, fun he => absurd he hj⟩
      | some y =>
          have hw := h.only_work y now
          rw [hx y rfl] at hw
          refine (hw.keeps_other hj ⟨hi, h.refl t⟩).imp ?_
          rintro r _ rfl
          exact ⟨hi, fun he => absurd he hj⟩
  | spared hc => simp [Call.spares] at hc
  | failed hf =>
      exact ⟨hi, fun _ => hf⟩

end Course

end Lifecycle

end FleetControl
