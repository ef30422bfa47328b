import FleetControl.Proofs.Launching
import FleetControl.Proofs.Rollout

/-!
# What an advance reports

The progress that an advance reports is what it has stored: of an item that nobody else writes,
the stored version is the one that the report tells. An advance that ends with an error has
stored nothing, but for the hosts that an event tracks. This is looked at for the item alone,
where a call that fails has no effect on it, and then carried over to the world.
-/
namespace FleetControl

open Program

/-! ## The item -/

section

variable {k : ItemKind} {id : ItemId} {α : Type}

/-- Two versions of an item that have come equally far. -/
def Item.Alike (x y : Item k) : Prop := y.state = x.state ∧ y.header = x.header

theorem Item.Alike.refl (x : Item k) : Item.Alike x x := ⟨rfl, rfl⟩

/-- What an advance at an instant tells of the item as it was and as it is stored then. -/
def Progress.Tells (now : Instant) (i t : Item k) : Progress k.State → Prop
  | .skipped => i.isTerminal = true ∧ t = i
  | .paused => t = i.touch now
  | .stayed => Item.Alike (i.touch now) t
  | .transitioned source target | .timedOut source target =>
      i.state = source ∧ t.state = target ∧ source ≠ target ∧
        t.header.stateStartTime = now ∧ t.header.lastWorkedOn = now ∧ t.id = i.id

/-- What an outcome tells. An error leaves one of the versions that may be stored on the way. -/
def Progress.Accounts (Drafts : Item k → Item k → Prop) (now : Instant) (i : Item k) :
    Outcome (Progress k.State) → Item k → Prop
  | .ok p, t => p.Tells now i t
  | .error (.error _), t => Drafts i t
  | .error (.crash _), _ => True

theorem Progress.accounts_of_draft {Drafts : Item k → Item k → Prop} {now : Instant} {i t : Item k}
    (h : Drafts i t) (f : Fault) : Progress.Accounts Drafts now i (.error f) t := by
  cases f with
  | error e => exact h
  | crash payload => trivial

/-- What may happen to the item where a call that fails has no effect on it. -/
def Item.Atomic (k : ItemKind) (id : ItemId) : Behaviour (Item k) := fun c i r i' =>
  Item.Possible k id (fun _ => True) c i r i' ∧ ∀ f, r = .error f → i' = i

/-- What a step decides: it stays, or moves on to another state, and leaves the rest to the end
of the advance. -/
def Moves (x : Item k) (result : Item k × Decision k.State) : Prop :=
  Item.Alike x result.1 ∧
    ∀ target status error, result.2 = .move target status error → x.state ≠ target

/-- What the parts of a life cycle do to an item that is not terminal. `Drafts x` are the
versions of `x` that a step may store on its way. -/
structure Lifecycle.Reports (l : Lifecycle k) (Drafts : Item k → Item k → Prop) : Prop where
  draft_refl : ∀ x, Drafts x x
  isPaused : ∀ x, (l.isPaused x).Only fun c => ∃ q, c = .store q ∧ q.isRead = true
  timeoutTarget : ∀ s, s ≠ k.terminal → s ≠ l.timeoutTarget s
  onTimeout : ∀ x source, (l.onTimeout x source).Only (Call.Stores (Item.Alike x))
  step : ∀ x now, x.state ≠ k.terminal →
    (l.step x now).Meets (Call.Stores (Drafts x)) (fun _ => True) (Moves x)

namespace Program

variable {D : Item k → Prop} {Q : α → Prop} {i y : Item k} {p : Program α}

/-- A program that stores certain versions only leaves one of them. -/
theorem Meets.keeps_atomic (h : p.Meets (Call.Stores D) (fun _ => True) Q) (hi : D i) :
    p.Keeps (Item.Atomic k id) (fun _ _ => True) (fun r t => D t ∧ ∀ a, r = .ok a → Q a) i := by
  refine (h.keeps (J := D) (fun c s r s' hc hs hb => ⟨trivial, ?_, ?_⟩) hi).imp
    fun _ _ hq => ⟨hq.1, hq.2.1⟩
  · rcases hb.1.eq_or_of_stores hc with rfl | ⟨-, hs'⟩
    · exact hs
    · exact hs'
  · cases r <;> trivial

/-- A version is stored, or the call fails without an effect. -/
theorem keeps_update_atomic (hy : y.id = id) :
    (ask (.updateItem k y)).Keeps (Item.Atomic k id) (fun _ _ => True)
      (fun r t => (∀ u, r = .ok u → t = y) ∧ ∀ f, r = .error f → t = i) i := by
  refine keeps_ask.mpr fun r t hb => ⟨trivial, fun u hr => ?_, hb.2⟩
  rcases hb.1.of_update hy with rfl | ⟨-, f, hf⟩
  · rfl
  · cases hr.symm.trans hf

end Program

namespace Lifecycle.Reports

variable {l : Lifecycle k} {Drafts : Item k → Item k → Prop} {i : Item k}

/-- A timeout stands, whatever becomes of what follows it. -/
theorem keeps_timeOut (h : l.Reports Drafts) (hid : i.id = id) (hi : i.state ≠ k.terminal)
    (now : Instant) :
    (l.timeOut i now).Keeps (Item.Atomic k id) (fun _ _ => True)
      (Progress.Accounts Drafts now i) i := by
  have hstored : (i.afterTimeout now (l.timeoutTarget i.state) (l.timeoutMessage i)).id = id := hid
  rw [timeOut, bind_eq, keeps_bind]
  refine (keeps_update_atomic hstored).imp ?_
  rintro (f | u) t ⟨hok, hfailed⟩
  · rw [hfailed f rfl]
    exact Progress.accounts_of_draft (h.draft_refl i) f
  · obtain rfl := hok u rfl
    simp only [Then, bind_eq, keeps_bind, keeps_attempt]
    refine ((h.onTimeout _ _).keeps_atomic (Item.Alike.refl _)).imp ?_
    have htells : ∀ t, Item.Alike (i.afterTimeout now (l.timeoutTarget i.state)
        (l.timeoutMessage i)) t →
          (Progress.timedOut i.state (l.timeoutTarget i.state)).Tells now i t := by
      rintro t ⟨hstate, hheader⟩
      refine ⟨rfl, hstate, h.timeoutTarget _ hi, ?_, ?_, (congrArg ItemHeader.id hheader).trans rfl⟩
      · rw [hheader]
        rfl
      · rw [hheader]
        rfl
    rintro ((e | payload) | u) t ⟨halike, -⟩
    · exact htells t halike
    · trivial
    · exact htells t halike

/-- A step is stored with what it has decided, or nothing but its drafts. -/
theorem keeps_takeStep (h : l.Reports Drafts) (hid : i.id = id) (hi : i.state ≠ k.terminal)
    (now : Instant) :
    (l.takeStep i now).Keeps (Item.Atomic k id) (fun _ _ => True)
      (Progress.Accounts Drafts now i) i := by
  rw [takeStep, bind_eq, keeps_bind]
  refine ((h.step i now hi).keeps_atomic (h.draft_refl i)).imp ?_
  rintro (f | ⟨changed, d⟩) t ⟨ht, hmoves⟩
  · exact Progress.accounts_of_draft ht f
  · obtain ⟨⟨hstate, hheader⟩, hmove⟩ := hmoves _ rfl
    have hchanged : (changed.afterStep now d).id = id :=
      (Item.id_afterStep _ _ _).trans ((congrArg ItemHeader.id hheader).trans hid)
    simp only [Then, bind_eq, keeps_bind]
    refine (keeps_update_atomic hchanged).imp ?_
    rintro (f | u) t' ⟨hok, hfailed⟩
    · rw [hfailed f rfl]
      exact Progress.accounts_of_draft ht f
    · obtain rfl := hok u rfl
      cases d with
      | stay => exact ⟨hstate, congrArg (fun header => { header with lastWorkedOn := now }) hheader⟩
      | move target status error =>
          exact ⟨rfl, rfl, hmove target status error rfl, rfl, rfl, hchanged.trans hid.symm⟩

theorem keeps_work (h : l.Reports Drafts) (hid : i.id = id) (now : Instant) :
    (l.work i now).Keeps (Item.Atomic k id) (fun _ _ => True)
      (Progress.Accounts Drafts now i) i := by
  have hfault : ∀ f, Progress.Accounts Drafts now i (.error f) i :=
    Progress.accounts_of_draft (h.draft_refl i)
  rw [work]
  split
  · rename_i hterminal
    exact ⟨hterminal, rfl⟩
  · rename_i hterminal
    have hi : i.state ≠ k.terminal := fun he => hterminal (Item.isTerminal_iff.mpr he)
    rw [keeps_bind]
    -- whether the cluster is paused is only read
    have hread : (l.isPaused i).Only (Call.Stores (i = ·)) :=
      (h.isPaused i).mono fun c hc => by
        obtain ⟨q, rfl, hq⟩ := hc
        exact Call.stores_of_isRead hq
    refine (Meets.keeps_atomic hread rfl).imp ?_
    rintro (f | paused) _ ⟨rfl, -⟩
    · exact hfault f
    simp only [Then]
    split
    · have htouched : (i.touch now).id = id := hid
      rw [keeps_bind]
      refine (keeps_update_atomic htouched).imp ?_
      rintro (f | u) t ⟨hok, hfailed⟩
      · rw [hfailed f rfl]
        exact hfault f
      · exact hok u rfl
    · cases l.timeout with
      | error f => exact hfault f
      | ok limit =>
          simp only [ofOutcome, Program.bind]
          split
          · exact h.keeps_timeOut hid hi now
          · exact h.keeps_takeStep hid hi now

/-- The item that is advanced is stored as the outcome tells. -/
theorem keeps_advance (h : l.Reports Drafts) (now : Instant) :
    (l.advance id now).Keeps (Item.Atomic k id) (fun _ _ => True)
      (Progress.Accounts Drafts now i) i := by
  rw [advance_eq, keeps_bind]
  refine keeps_ask.mpr fun r t hb => ⟨trivial, ?_⟩
  obtain ⟨hb, -⟩ := hb
  cases hb with
  | read hid => exact h.keeps_work hid now
  | readOther hj => exact absurd rfl hj
  | spared hc => simp [Call.spares] at hc
  | failed => exact Progress.accounts_of_draft (h.draft_refl i) _

end Lifecycle.Reports

end

/-! ## The parts of the two life cycles -/

theorem only_clusterIsPaused_asks (name : String) :
    (clusterIsPaused name).Only fun c => ∃ q, c = .store q ∧ q.isRead = true :=
  within_clusterIsPaused ⟨_, rfl, rfl⟩ trivial

/-- What an advance that ends with an error may have stored. -/
def Item.Spared : {k : ItemKind} → Item k → Item k → Prop
  | .upgrade, event, changed => Replacement.Retracks event changed
  | .check, check, changed => changed = check

theorem Replacement.Decides.ne {s target : UpgradeState} {status : Option ItemStatus}
    {error : Option String} (h : Decides s (.move target status error)) : s ≠ target := by
  cases h <;> exact nofun

theorem Replacement.reports (config : ReplacementSettings) :
    (lifecycle config).Reports Item.Spared where
  draft_refl := Retracks.refl
  isPaused event := only_clusterIsPaused_asks event.cluster
  timeoutTarget s hs := by
    cases s with
    | completed => exact absurd rfl hs
    | _ => exact nofun
  onTimeout event source := by
    refine Meets.mono (within_onTimeout (fun _ _ => trivial) event source) (fun c hc => ?_)
      fun _ h => h
    exact stores_of_acts hc
  step event now hs := by
    refine Meets.mono (meets_step (fun _ _ => trivial) config event fun hc => absurd hc hs)
      (fun c hc => (stores_of_actsOrStores hs hc).mono fun _ => Drafts.retracks) ?_
    rintro ⟨changed, d⟩ ⟨⟨ids, rfl⟩, hd⟩
    refine ⟨⟨rfl, rfl⟩, ?_⟩
    rintro target status error rfl
    exact Decides.ne hd

theorem ImageCheck.reports (config : ImageCheckSettings) :
    (lifecycle config).Reports Item.Spared where
  draft_refl _ := rfl
  isPaused check := only_clusterIsPaused_asks check.cluster
  timeoutTarget s hs := by
    cases s with
    | completed => exact absurd rfl hs
    | _ => exact nofun
  onTimeout check source := by
    refine Meets.mono (within_onTimeout (fun _ _ => trivial) config check) (fun c hc => ?_)
      fun _ h => h
    refine (stores_of_tidiesOrStores hc).mono fun y hy => ?_
    rcases hy with rfl | ⟨-, rfl⟩ <;> exact ⟨rfl, rfl⟩
  step check now hs := by
    refine Meets.mono (meets_step (fun _ _ => trivial) config check now
      (fun hc => absurd hc hs) fun _ _ _ => trivial) (fun _ => stores_of_stepActs) ?_
    rintro ⟨changed, d⟩ h
    obtain ⟨hheader, -, -, hstate, -⟩ := h.identity
    refine ⟨⟨hstate, hheader⟩, ?_⟩
    rintro target status error rfl he
    rcases h.rises with hstay | ⟨_, _, _, hmove, hlt⟩
    · cases hstay
    · cases hmove
      rw [he] at hlt
      exact absurd hlt (Nat.lt_irrefl _)

theorem reports_lifecycle (config : Config) (k : ItemKind) :
    (config.lifecycle k).Reports Item.Spared := by
  cases k with
  | upgrade => exact Replacement.reports _
  | check => exact ImageCheck.reports _

/-! ## The world -/

/-- What may happen in a world whose store keeps its contract that every call is atomic on its
own: a call of the store that fails has no effect. Other calls may fail before or after theirs. -/
def World.Transactional (outside : World → World → Prop) (raises : Fault → Prop) :
    Behaviour World := fun c w r w' =>
  ∃ v, outside w v ∧ (World.answer c v = (r, w') ∨ ∃ f, raises f ∧ r = .error f ∧
    (w' = v ∨ ((∀ q, c ≠ .store q) ∧ w' = (World.answer c v).2)))

/-- A call that fails has no effect on the store. -/
theorem Store.answer_of_error {s : Store} {clock : Outcome Instant} {c : StoreCall} {f : Fault}
    (h : (s.answer clock c).1 = .error f) : (s.answer clock c).2 = s := by
  have hsettle : ∀ {r : Outcome Store}, (s.settle r).1 = .error f → (s.settle r).2 = s := by
    intro r hr
    cases r with
    | ok s' => cases hr
    | error g => rfl
  cases c with
  | createDeploy d =>
      simp only [Store.answer] at h ⊢
      split at h
      · cases h
      · rfl
  | _ => first | exact hsettle h | rfl | cases h

namespace World

section

variable {k : ItemKind} {id : ItemId} {i : Item k} {w w' : World} {c : Call}
  {outside : World → World → Prop} {raises : Fault → Prop}

/-- A call of the store that fails leaves the item as it is. -/
theorem Shows.of_error (h : Shows id w i) {q : StoreCall} {r : Outcome q.Reply} {f : Fault}
    (ha : World.answer (.store q) w = (r, w')) (hr : r = .error f) : Shows id w' i := by
  intro s' hs'
  have hw' : w' = (World.answer (.store q) w).2 := by rw [ha]
  subst hw'
  obtain ⟨s, hs, rfl⟩ := store_useStore hs'
  have hq : (s.answer w.now q).1 = .error f := by
    have hfst := congrArg Prod.fst ha
    rw [World.answer, fst_useStore, hs] at hfst
    exact hfst.trans hr
  rw [Store.answer_of_error hq]
  exact h s hs

/-- What may happen to the item in a world where nobody else writes it. -/
theorem Shows.transactional (h : Shows id w i)
    (ho : ∀ u v (x : Item k), outside u v → Shows id u x → Shows id v x) {r : Outcome c.Reply}
    (hb : Transactional outside raises c w r w') :
    ∃ i', Shows id w' i' ∧ Item.Atomic k id c i r i' := by
  obtain ⟨v, hv, hb⟩ := hb
  have hshows : Shows id v i := ho w v i hv h
  -- a call that is none of the store leaves the item as it is
  have hother : ∀ {r : Outcome c.Reply} {w' : World}, (∀ q, c ≠ .store q) →
      Possible Eq raises c v r w' → Shows id w' i := by
    intro r w' hc hb
    obtain ⟨i', hi', hp⟩ := hshows.possible hb
    rcases hp.eq_or_stored with rfl | ⟨-, rfl⟩
    · exact hi'
    · exact absurd rfl (hc _)
  rcases hb with hb | ⟨f, hf, rfl, rfl | ⟨hc, rfl⟩⟩
  · obtain ⟨i', hi', hp⟩ := hshows.answer (c := c) (E := fun _ => True) fun _ _ => trivial
    rw [hb] at hi' hp
    cases r with
    | ok a => exact ⟨i', hi', hp, fun _ hr => by cases hr⟩
    | error f =>
        refine ⟨i, ?_, .failed trivial, fun _ _ => rfl⟩
        by_cases hc : ∃ q, c = .store q
        · obtain ⟨q, rfl⟩ := hc
          exact hshows.of_error hb rfl
        · exact hother (fun q hq => hc ⟨q, hq⟩) ⟨v, rfl, .inl hb⟩
  · exact ⟨i, hshows, .failed trivial, fun _ _ => rfl⟩
  · refine ⟨i, ?_, .failed trivial, fun _ _ => rfl⟩
    exact hother hc ⟨v, rfl, .inr ⟨f, hf, rfl, .inr rfl⟩⟩

end

end World

section

variable {k : ItemKind} {id : ItemId} {i : Item k} {α : Type} {w w' : World} {r : Outcome α}
  {outside : World → World → Prop} {raises : Fault → Prop}

/-- What a program keeps of the item, it keeps in a world where nobody else writes it. -/
theorem Program.Keeps.shown {p : Program α} {Q : Outcome α → Item k → Prop}
    (h : p.Keeps (Item.Atomic k id) (fun _ _ => True) Q i)
    (ho : ∀ u v (x : Item k), outside u v → World.Shows id u x → World.Shows id v x)
    (he : p.Ends (World.Transactional outside raises) w r w') (hw : World.Shows id w i) :
    ∃ t, World.Shows id w' t ∧ Q r t := by
  induction he generalizing i with
  | done r w => exact ⟨i, hw, h⟩
  | call hb _ ih =>
      obtain ⟨i', hi', hp⟩ := hw.transactional ho hb
      exact ih (h _ _ hp).2 hi'

/-- The world with an item stored in place of an older version. -/
def World.put (w : World) (i : Item k) : World :=
  { w with store := w.store.map fun s => s.putItem k i }

/-- A call that only asks the store leaves the world as the others have made it. -/
theorem World.Transactional.of_asks {q : StoreCall} {r : Outcome q.Reply}
    (hb : World.Transactional outside raises (.store q) w r w') (hq : q.isRead = true) :
    outside w w' := by
  obtain ⟨v, hv, hb | ⟨f, -, rfl, rfl | ⟨hc, -⟩⟩⟩ := hb
  · cases hs : v.store with
    | none =>
        have ha : World.answer (.store q) v = (.error (.error World.storeLost), v) := by
          simp only [World.answer, World.useStore, hs]
        cases ha.symm.trans hb
        exact hv
    | some s =>
        obtain ⟨a, ha⟩ : ∃ a, s.answer v.now q = (.ok a, s) := Store.answer_of_isRead hq
        cases (World.answer_ask hs ha).symm.trans hb
        exact hv
  · exact hv
  · exact absurd rfl (hc q)

/-- An item that is stored changes nothing else. -/
theorem World.Transactional.of_update {y : Item k} {u : Unit}
    (hb : World.Transactional outside raises (.store (.updateItem k y)) w (.ok u) w') :
    ∃ v, outside w v ∧ w' = v.put y := by
  obtain ⟨v, hv, hb | ⟨f, -, hr, -⟩⟩ := hb
  · refine ⟨v, hv, ?_⟩
    cases hs : v.store with
    | none => simp [World.answer, World.useStore, hs] at hb
    | some s =>
        simp only [World.answer, World.useStore, hs, Store.answer] at hb
        cases hu : s.updateItem k y with
        | error e =>
            rw [hu] at hb
            cases hb
        | ok s' =>
            rw [hu] at hb
            cases hb
            simp only [World.put, hs, (Store.updateItem_eq_ok_iff.mp hu).2, Option.map_some]
  · cases hr

/-- What the world is like when an advance says that it has done nothing or next to nothing. -/
def Idles (outside : World → World → Prop) (w : World) (i : Item k) (now : Instant) :
    Outcome (Progress k.State) → World → Prop
  | .ok .skipped, w' => outside w w'
  | .ok .paused, w' => ∃ v, Relation.ReflTransGen outside w v ∧ w' = v.put (i.touch now)
  | _, _ => True

/-- Nothing is asked of a program. -/
theorem Program.within_any (p : Program α) : p.Within (fun _ => True) fun _ => True := by
  induction p with
  | done r => cases r <;> trivial
  | call c next ih => exact ⟨trivial, fun r _ => ih r⟩

/-- A timeout and a step are never told as an advance that has done nothing. -/
theorem Lifecycle.meets_timeOut (l : Lifecycle k) (i : Item k) (now : Instant) :
    (l.timeOut i now).Meets (fun _ => True) (fun _ => True) fun p => p ≠ .skipped ∧ p ≠ .paused :=
  Meets.seq (within_any (ask _)) fun _ => Meets.seq (within_any (attempt _)) fun _ =>
    ⟨nofun, nofun⟩

theorem Lifecycle.meets_takeStep (l : Lifecycle k) (i : Item k) (now : Instant) :
    (l.takeStep i now).Meets (fun _ => True) (fun _ => True) fun p =>
      p ≠ .skipped ∧ p ≠ .paused := by
  refine Meets.seq (within_any (l.step i now)) ?_
  rintro ⟨changed, d⟩
  refine Meets.seq (within_any (ask _)) fun _ => ?_
  cases d <;> exact ⟨nofun, nofun⟩

theorem idles_of_meets {p : Program (Progress k.State)} {v : World} {now : Instant}
    (h : p.Meets (fun _ => True) (fun _ => True) fun a => a ≠ .skipped ∧ a ≠ .paused) :
    p.Keeps (World.Transactional outside raises) (fun _ _ => True) (Idles outside w i now) v := by
  refine (h.keeps (J := fun _ => True) (fun c s r s' _ _ _ => ⟨trivial, trivial, ?_⟩)
    trivial).imp ?_
  · cases r <;> trivial
  · rintro (f | p) v ⟨-, hp, -⟩
    · trivial
    · obtain ⟨hskipped, hpaused⟩ := hp p rfl
      cases p with
      | skipped => exact absurd rfl hskipped
      | paused => exact absurd rfl hpaused
      | _ => trivial

theorem idles_advance {l : Lifecycle k} {Drafts : Item k → Item k → Prop} (h : l.Reports Drafts)
    (ho : ∀ u v (x : Item k), outside u v → World.Shows id u x → World.Shows id v x) (now : Instant)
    (hw : World.Shows id w i) :
    (l.advance id now).Keeps (World.Transactional outside raises) (fun _ _ => True)
      (Idles outside w i now) w := by
  rw [Lifecycle.advance_eq, keeps_bind]
  refine keeps_ask.mpr fun r v hb => ⟨trivial, ?_⟩
  have hv : outside w v := hb.of_asks rfl
  obtain ⟨_, -, hp, -⟩ := hw.transactional ho hb
  cases hp with
  | readOther hj => exact absurd rfl hj
  | spared hc => simp [Call.spares] at hc
  | failed => trivial
  | read =>
      simp only [Then, Lifecycle.work]
      split
      · exact hv
      · rw [keeps_bind]
        -- until it is known whether the cluster is paused, only the others act
        refine (Meets.keeps (J := Relation.ReflTransGen outside w) (h.isPaused i) ?_
          (.single hv)).imp ?_
        · rintro c u r u' ⟨q, rfl, hq⟩ hu hb
          refine ⟨trivial, hu.tail (hb.of_asks hq), ?_⟩
          cases r <;> trivial
        rintro (f | paused) u ⟨hu, -⟩
        · trivial
        simp only [Then]
        split
        · rw [keeps_bind]
          refine keeps_ask.mpr fun r u' hb => ⟨trivial, ?_⟩
          cases r with
          | error f => trivial
          | ok a =>
              obtain ⟨v', hv', rfl⟩ := hb.of_update
              exact ⟨v', hu.tail hv', rfl⟩
        · cases l.timeout with
          | error f => trivial
          | ok limit =>
              simp only [ofOutcome, Program.bind]
              split
              · exact idles_of_meets (l.meets_timeOut i now)
              · exact idles_of_meets (l.meets_takeStep i now)

end

/-- The new check as it is stored. -/
def freshCheck : HealthCheck := .new "check" "web" "prod" .manuallyTriggered "image" .epoch

theorem shows_probing : World.Shows "check" probing freshCheck := by
  rintro s hs
  cases hs
  exact ⟨keyed_probing.items .check, rfl⟩

/-- An advance of the new check in which some calls fail instead of being answered. -/
def advanceProbing (fails : Call → Option Fault) :
    Outcome (Progress HealthCheckState) × World :=
  let answer : Handler World := fun c w =>
    match fails c with
    | some f => (.error f, w)
    | none => World.answer c w
  ((Config.lifecycle {} .check).advance "check" .epoch).run answer probing

/-- No item can be stored. -/
def unstorable : Call → Option Fault
  | .store (.updateItem _ _) => some (.error (.database "connection lost"))
  | _ => none

theorem ends_advanceProbing (fails : Call → Option Fault) :
    ((Config.lifecycle {} .check).advance "check" .epoch).Ends
      (World.Transactional Eq fun _ => True) probing (advanceProbing fails).1
      (advanceProbing fails).2 := by
  refine ends_handler (fun c w => ⟨w, rfl, ?_⟩) _ _
  cases fails c with
  | some f => exact .inr ⟨f, trivial, rfl, .inl rfl⟩
  | none => exact .inl rfl

/-- After an advance of an item that nobody else writes the item is stored as the outcome tells.
If the advance was skipped, nothing but what others have done has changed, and if the cluster was
paused, nothing else but the date of the item. After an error a check is stored as it was, and an
event but for its hosts. Any call may fail; that one of the store has no effect then is the
store's own contract, by which every call is atomic on its own, and other calls may have had
theirs. -/
theorem advance_reports_stored (config : Config) {k : ItemKind} {id : ItemId} {now : Instant}
    {outside : World → World → Prop} {raises : Fault → Prop} {w w' : World} {i : Item k}
    {r : Outcome (Progress k.State)}
    (ho : ∀ u v (x : Item k), outside u v → World.Shows id u x → World.Shows id v x)
    (hw : World.Shows id w i)
    (he : ((config.lifecycle k).advance id now).Ends (World.Transactional outside raises) w r w') :
    (∃ t, World.Shows id w' t ∧ Progress.Accounts Item.Spared now i r t) ∧
      Idles outside w i now r w' := by
  have h := reports_lifecycle config k
  exact ⟨(h.keeps_advance now).shown ho he hw, (idles_advance h ho now hw).ends he⟩

/-- The law of reports for an advance of the new check, and for one in which the check cannot be
stored at its end. -/
theorem advance_reports_stored_probing :
    ((advanceProbing fun _ => none).1 = .ok (.transitioned .init .launching) ∧
      ∃ t : HealthCheck, World.Shows "check" (advanceProbing fun _ => none).2 t ∧
        t.state = HealthCheckState.launching) ∧
    ((advanceProbing unstorable).1 = .error (.error (.database "connection lost")) ∧
      World.Shows "check" (advanceProbing unstorable).2 freshCheck) := by
  have hothers : ∀ (u v : World) (x : HealthCheck), u = v → World.Shows "check" u x →
      World.Shows "check" v x := by
    rintro u _ x rfl hx
    exact hx
  have hlaw := fun fails => advance_reports_stored {} hothers shows_probing
    (ends_advanceProbing fails)
  constructor
  · have hok : (advanceProbing fun _ => none).1 = .ok (.transitioned .init .launching) := by
      decide +kernel
    obtain ⟨⟨t, ht, htells⟩, -⟩ := hlaw fun _ => none
    rw [hok] at htells
    exact ⟨hok, t, ht, htells.2.1⟩
  · have herror : (advanceProbing unstorable).1 =
        .error (.error (.database "connection lost")) := by
      decide +kernel
    obtain ⟨⟨t, ht, htells⟩, -⟩ := hlaw unstorable
    rw [herror] at htells
    have hsame : t = freshCheck := htells
    rw [hsame] at ht
    exact ⟨herror, ht⟩

end FleetControl
