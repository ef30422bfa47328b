import FleetControl.Proofs.Adoption
import FleetControl.Proofs.Stillness

/-!
# The course of images

Workers with any controllers, interleaved call by call. Only checks give images, so whatever
fails, no cluster comes to an older image, and when a check is over and has qualified its image,
its cluster has this image or one no older.
-/
namespace FleetControl

open Program

/-! ## All controllers -/

namespace Call

theorem sparesImages_of_isHarmless {c : Call} (h : c.isHarmless = true) : c.SparesImages := by
  unfold SparesImages
  split
  · cases h
  · cases h
  · cases h
  · trivial

end Call

open ImageCheck

/-- Processing an item makes only calls that its parts make. -/
theorem Lifecycle.only_process {k : ItemKind} {l : Lifecycle k} {P : Call → Prop}
    (hreads : ∀ c, c.isRead = true → P c) (hstores : ∀ i, P (.store (.updateItem k i)))
    (hp : ∀ i, (l.isPaused i).Only P) (hs : ∀ i now, (l.step i now).Only P)
    (ht : ∀ i source, (l.onTimeout i source).Only P) (id : ItemId) :
    (l.controller.process id).Only P := by
  refine .bind (only_perform.mpr (hreads _ rfl)) fun now => .bind ?_ fun _ => only_done _
  rw [Lifecycle.advance_eq]
  refine .bind (only_ask.mpr (hreads _ rfl)) fun found => ?_
  cases found with
  | none => exact only_fail _
  | some item =>
      dsimp only
      rw [Lifecycle.work]
      split
      · exact only_done _
      refine .bind (hp item) fun paused => ?_
      split
      · exact .bind (only_ask.mpr (hstores _)) fun _ => only_done _
      refine .bind (only_done _) fun limit => ?_
      split
      · exact .bind (only_ask.mpr (hstores _)) fun _ => .bind (ht _ _).attempt fun _ => only_done _
      · refine .bind (hs item now) fun result => .bind (only_ask.mpr (hstores _)) fun _ => ?_
        split <;> exact only_done _

namespace Replacement

theorem spares_process (config : ReplacementSettings) (id : ItemId) :
    ((controller config).process id).Only Call.SparesImages := by
  have hacts : ∀ {c : Call}, acts c = true → c.SparesImages := by
    intro c h
    unfold acts at h
    split at h <;> first | trivial | exact Call.sparesImages_of_isRead h
  refine Lifecycle.only_process (fun _ => Call.sparesImages_of_isRead) (by intro _; trivial)
    (fun event => only_clusterIsPaused (fun _ => Call.sparesImages_of_isRead) _)
    (fun event now => ?_) (fun event source => ?_) id
  · refine (Meets.only (meets_step (fun _ _ => trivial) config event fun _ _ => trivial)).mono ?_
    rintro c (hc | ⟨changed, rfl, -⟩)
    · exact hacts hc
    · trivial
  · exact Only.mono (within_onTimeout (fun _ _ => trivial) event source) fun _ => hacts

end Replacement

/-- A controller that some configuration switches on. -/
def Controller.IsScheduled (c : Controller) : Prop :=
  ∃ config : Config, ∃ worker ∈ config.workers, worker.controller = c

theorem minds_pass {raises : Fault → Prop} {j : Journal Sight} {c : Controller}
    (hcandidates : c.candidates.Only Call.SparesImages)
    (hprocess : ∀ id j, imagePact.Minds raises (fun _ _ => True) (c.process id) j) :
    imagePact.Minds raises (fun _ _ => True) c.pass j :=
  follows_pass (P := Call.SparesImages) (E := fun _ => True)
    (fun _ _ _ _ hc _ hb => ⟨hb.2.1.grants hc, trivial⟩) (fun _ => trivial)
    (fun _ _ => trivial) (fun _ => trivial) hcandidates (fun id j _ => hprocess id j) trivial

/-- All controllers keep to the pact. -/
theorem Controller.IsScheduled.honours {c : Controller} (h : c.IsScheduled)
    (raises : Fault → Prop) (s : Sight) : imagePact.Honours raises c.pass s := by
  have hread : ∀ {c : Call}, c.isRead = true → c.SparesImages := Call.sparesImages_of_isRead
  suffices hpass : imagePact.Minds raises (fun _ _ => True) c.pass (.start s) from hpass.honours
  obtain ⟨config, worker, h, rfl⟩ := h
  refine Config.of_mem_workers
    (P := fun c => imagePact.Minds raises (fun _ _ => True) c.pass (.start s)) h ?_ ?_ ?_ ?_ ?_
  · exact minds_pass (only_ask.mpr (hread rfl)) fun id j =>
      minds_of_spares (Replacement.spares_process _ id)
  · exact minds_pass (only_ask.mpr (hread rfl)) fun id j => ImageCheck.minds_process _ id
  · exact minds_pass (only_ask.mpr (hread rfl)) fun id j =>
      minds_of_spares ((Promotion.only_process _ id).mono fun _ hc =>
        Call.sparesImages_of_isHarmless (Promotion.isHarmless_of_actsOrLocks hc))
  · refine minds_pass (.bind (only_ask.mpr (hread rfl)) fun _ => only_done _) fun id j =>
      minds_of_spares ?_
    refine Only.mono (Decommission.within_process id) fun c hc => ?_
    unfold Decommission.acts at hc
    split at hc <;> first | trivial | exact hread hc
  · exact minds_pass (only_ask.mpr (hread rfl)) fun id j =>
      minds_of_spares (Only.mono (TagCoverage.within_process _ id) fun _ hc =>
        Call.sparesImages_of_isHarmless (TagCoverage.isHarmless_of_acts hc))

theorem Controller.IsScheduled.honest {c : Controller} (h : c.IsScheduled) : c.Honest := by
  obtain ⟨config, worker, h, rfl⟩ := h
  exact honest_workers config h

/-! ## The course of images -/

/-- Others may do anything but change images on record, change the images of clusters, and
store checks that are not new. -/
structure Store.Beside (s s' : Store) : Prop where
  images : ∀ id image, s.images.get? id = some image → s'.images.get? id = some image
  imageOf : ∀ cluster, s'.imageOf cluster = s.imageOf cluster
  checks : ∀ id check, s'.getItem .check id = some check →
    s.getItem .check id = some check ∨ check.state = HealthCheckState.init

theorem Store.Beside.grants {s s' : Store} (h : s.Beside s') (held : List (String × Token)) :
    s.Grants held s' := by
  refine grants_of_same h.images h.imageOf fun id check hcheck happroved => ?_
  refine (h.checks id check hcheck).imp_right fun hinit => ?_
  cases hinit.symm.trans happroved.state

/-- Others who leave the locks alone as well. -/
structure World.Beside (w v : World) : Prop where
  store : w.Moves Store.Beside v
  locks : v.locks = w.locks

theorem fits_imagePact (raises : Fault → Prop) :
    Team.Fits imagePact World.Beside raises Controller.IsScheduled where
  locks _ _ h := h.locks
  fine _ _ h hw := imagePact.fine_of_guarantee [] _ _ (h.store.mono fun _ _ hs => hs.grants []) hw
  rely held _ _ h := h.store.mono fun _ _ hs =>
    ⟨(hs.grants held).toAdvances, fun cluster _ _ => hs.imageOf cluster⟩
  honest _ h := h.honest
  honours _ h s := h.honours raises s

namespace Team

variable {ι : Type} [DecidableEq ι]

/-- A worker does the next thing, and begins a pass of a controller if there is none. -/
def turn (c : Controller) (t : Team ι) (i : ι) : Team ι :=
  match (t.worker i).stage.move (t.worker i).controller with
  | .call q next =>
      let (r, w) := World.answer q t.world
      ⟨Function.update t.worker i ((t.worker i).after q r (next r)), w⟩
  | .go next => ⟨Function.update t.worker i { t.worker i with stage := next }, t.world⟩
  | .stop => ⟨Function.update t.worker i
      { t.worker i with controller := c, stage := .listing c.candidates }, t.world⟩

theorem run_turns {outside : World → World → Prop} {raises : Fault → Prop}
    {runs : Controller → Prop} {c : Controller} (hc : runs c) (turns : List ι) (t : Team ι) :
    Run outside raises runs t (turns.foldl (turn c) t) := by
  induction turns generalizing t with
  | nil => exact .refl
  | cons i turns ih =>
      refine Relation.ReflTransGen.trans (.single ?_) (ih (turn c t i))
      unfold turn
      split
      · rename_i hm
        exact .call i hm ⟨t.world, rfl, .inl rfl⟩
      · rename_i hm
        exact .go i hm
      · rename_i hm
        obtain ⟨r, hr⟩ := Stage.ended_of_stop hm
        exact .start i hc hr

/-- A cluster with an image, and a new check of a newer one, that two workers look after. -/
def checking : Team Bool :=
  let cluster : Cluster := ⟨"web", "prod", .normal, some "old", 0, ⟨[], [], none⟩, .epoch⟩
  let check := HealthCheck.new "check" "web" "prod" .manuallyTriggered "new" .epoch
  let store := Store.empty.putItem .check check
  let images := (store.images.insert "old" ⟨"old", ⟨1000⟩⟩).insert "new" ⟨"new", ⟨2000⟩⟩
  let world := { World.initial .epoch (.seeded 0) with
    store := some { store with
      clusters := store.clusters.insert "web" cluster
      images := images } }
  ⟨fun _ => ⟨controller {}, .ended (.ok (.start 0)), [], []⟩, world⟩

/-- The probe host checks in, and its agent serves. -/
def checkIn (w : World) : World :=
  let id := Provider.launchedId 0
  let host : Host := ⟨id, "web", .running, false, .epoch, .epoch⟩
  let agent : Agent := ⟨id, "prod", .servingBuild, .succeeded, .normal, none, none, .epoch⟩
  { w with store := w.store.map fun s => (s.insertHost host).putAgent agent }

theorem beside_checkIn (w : World) : w.Beside (checkIn w) where
  store s' hs' := by
    obtain ⟨s, hs, rfl⟩ := Option.map_eq_some_iff.mp hs'
    exact ⟨s, hs, fun _ _ => id, fun _ => rfl, fun _ _ => .inl⟩
  locks := rfl

/-- One worker launches the probe host, and begins its next pass. Meanwhile the other one
brings the check to its end. -/
def checked : Team Bool :=
  let launched := (List.replicate 15 true).foldl (turn (controller {})) checking
  (List.replicate 41 false).foldl (turn (controller {})) ⟨launched.worker, checkIn launched.world⟩

theorem isScheduled_controller : (controller {}).IsScheduled :=
  ⟨{}, _, List.mem_cons_of_mem _ List.mem_cons_self, rfl⟩

theorem run_checked : Run World.Beside (fun _ => False) Controller.IsScheduled checking checked :=
  ((run_turns isScheduled_controller _ _).tail (.change (beside_checkIn _))).trans
    (run_turns isScheduled_controller _ _)

/-- However any number of workers with any controllers interleave, whatever calls fail and
whatever others do who leave the images alone: the image of a cluster never gives way to an
older one, and the cluster of a check that is over and has qualified its image has this image
or one no older. -/
theorem images_never_go_back (raises : Fault → Prop) {t₀ t t' : Team ι}
    (hfresh : t₀.crew.IsFresh) (hpictured : t₀.world.Has Store.Pictured)
    (hnew : t₀.world.Has fun s => ∀ id check, s.getItem .check id = some check →
      check.state = HealthCheckState.init)
    (hrun : Run World.Beside raises Controller.IsScheduled t₀ t)
    (hrun' : Run World.Beside raises Controller.IsScheduled t t') :
    t.world.Moves (fun s s' => ∀ cluster date, s.HasImageSince cluster date →
      s'.HasImageSince cluster date) t'.world ∧ t'.world.Has Store.Adopted := by
  have hfits := fits_imagePact raises
  have hkept₀ : t₀.Kept imagePact raises := by
    refine kept_of_isFresh hfresh fun s hs => ⟨hpictured s hs, fun id check hcheck happroved => ?_⟩
    cases (hnew s hs id check hcheck).symm.trans happroved.state
  have hadvances : ∀ {t t' : Team ι}, t.Kept imagePact raises →
      Run World.Beside raises Controller.IsScheduled t t' →
        t'.Kept imagePact raises ∧ t.world.Moves Store.Advances t'.world := fun hkept hrun =>
    hkept.run hfits hrun (World.Moves.refl Store.Advances.refl)
      (fun _ _ _ => World.Moves.trans fun _ _ _ => Store.Advances.trans)
      (fun _ _ h => h.store.mono fun _ _ hs => (hs.grants []).toAdvances)
      fun _ _ _ h => h.mono fun _ _ hs => hs.toAdvances
  obtain ⟨hkept, -⟩ := hadvances hkept₀ hrun
  obtain ⟨hkept', hmoves⟩ := hadvances hkept hrun'
  exact ⟨hmoves.mono fun _ _ h => h.since, fun s hs => (hkept'.fine s hs).2⟩

/-- The check is over and has given its image to the cluster. -/
theorem images_never_go_back_checked : ∃ check : HealthCheck, Approved check ∧
    checked.world.tables.getItem .check "check" = some check ∧
      checking.world.tables.imageOf "web" = some "old" ∧
        checked.world.tables.HasImage check.cluster check.details.imageId := by
  have hfresh : checking.crew.IsFresh := fun _ => ⟨rfl, rfl, _, rfl⟩
  have hpictured : checking.world.Has Store.Pictured := by
    rintro s hs cluster id hid
    cases hs
    rw [Store.imageOf, Table.get?_insert] at hid
    split at hid
    · cases hid
      exact ⟨_, rfl⟩
    · cases hid
  have hnew : checking.world.Has fun s => ∀ id check, s.getItem .check id = some check →
      check.state = HealthCheckState.init := by
    rintro s hs id check hcheck
    cases hs
    have hput := (Store.getItem_putItem .empty .check _ id).symm.trans hcheck
    split at hput <;> cases hput
    rfl
  obtain ⟨-, hadopted⟩ :=
    images_never_go_back (fun _ => False) hfresh hpictured hnew .refl run_checked
  have hend : (checked.world.store.bind (·.getItem .check "check")).any (fun check =>
      decide (check.state = HealthCheckState.completed ∧ check.header.status = some .qualified ∧
        check.details.kind ≠ .timeTriggered)) = true := by
    decide +kernel
  obtain ⟨check, hcheck, happroved⟩ := (Option.any_eq_true _ _).mp hend
  obtain ⟨s, hs, hcheck⟩ := Option.bind_eq_some_iff.mp hcheck
  obtain ⟨hstate, hstatus, hkind⟩ := of_decide_eq_true happroved
  rw [World.tables_eq hs]
  exact ⟨check, ⟨hstate, hstatus, hkind⟩, hcheck, rfl,
    hadopted s hs "check" check hcheck ⟨hstate, hstatus, hkind⟩⟩

end Team

end FleetControl
