import FleetControl.Proofs.Conduct
import FleetControl.Proofs.Leaving
import FleetControl.Proofs.Teamwork

/-!
# Giving images to clusters

A check gives its image to its cluster under the lock of the cluster's image, unless the image
that the cluster has is at least as new. While it holds the lock it relies on nobody else
changing this image, and it guarantees the same for the images whose locks it does not hold.
No cluster comes to an older image so, and no check is stored as over and qualified before its
cluster has its image or one no older.
-/
namespace FleetControl

open Program

namespace ImageCheck

/-- The lock under which the image of a cluster changes. -/
def imageLock (cluster : String) : String := lockOf imageLockPrefix cluster

/-- A check that is over and whose cluster was to have its image. -/
structure Approved (check : HealthCheck) : Prop where
  state : check.state = HealthCheckState.completed
  status : check.header.status = some .qualified
  kind : check.details.kind ≠ .timeTriggered

end ImageCheck

open ImageCheck

namespace Store

/-- The image that a cluster has. -/
def imageOf (s : Store) (cluster : String) : Option String :=
  (s.clusters.get? cluster).bind Cluster.imageId

/-- A cluster has an image that is on record and was not published before a date. -/
def HasImageSince (s : Store) (cluster : String) (date : Instant) : Prop :=
  ∃ id image, s.imageOf cluster = some id ∧ s.images.get? id = some image ∧
    date ≤ image.publishDate

/-- An image is on record, and a cluster has it or one that is no older. -/
def HasImage (s : Store) (cluster image : String) : Prop :=
  ∃ record, s.images.get? image = some record ∧ s.HasImageSince cluster record.publishDate

/-- The images of all clusters are on record. -/
def Pictured (s : Store) : Prop :=
  ∀ cluster id, s.imageOf cluster = some id → ∃ image, s.images.get? id = some image

/-- The clusters have the images that they were to have. -/
def Adopted (s : Store) : Prop :=
  ∀ id check, s.getItem .check id = some check → Approved check →
    s.HasImage check.cluster check.details.imageId

/-- Images stay on record, and no cluster comes to an older one. -/
structure Advances (s s' : Store) : Prop where
  images : ∀ id image, s.images.get? id = some image → s'.images.get? id = some image
  since : ∀ cluster date, s.HasImageSince cluster date → s'.HasImageSince cluster date

/-- What a worker relies on: the images whose locks it holds stay as they are. -/
structure Relies (held : List (String × Token)) (s s' : Store) : Prop extends Advances s s' where
  locked : ∀ cluster token, (imageLock cluster, token) ∈ held →
    s'.imageOf cluster = s.imageOf cluster

/-- What a worker guarantees: only images whose locks it holds change. -/
structure Grants (held : List (String × Token)) (s s' : Store) : Prop extends Advances s s' where
  pictured : s.Pictured → s'.Pictured
  adopted : s.Adopted → s'.Adopted
  locked : ∀ cluster, s'.imageOf cluster = s.imageOf cluster ∨
    ∃ token, (imageLock cluster, token) ∈ held

variable {s s' t : Store} {held : List (String × Token)} {cluster image : String}
  {clock : Outcome Instant} {q : StoreCall}

theorem Advances.refl (s : Store) : s.Advances s := ⟨fun _ _ => id, fun _ _ => id⟩

theorem Advances.trans (h : s.Advances s') (h' : s'.Advances t) : s.Advances t :=
  ⟨fun id image hi => h'.images id image (h.images id image hi),
    fun cluster date hs => h'.since cluster date (h.since cluster date hs)⟩

theorem HasImage.advances (h : s.HasImage cluster image) (ha : s.Advances s') :
    s'.HasImage cluster image := by
  obtain ⟨record, hr, hs⟩ := h
  exact ⟨record, ha.images _ _ hr, ha.since _ _ hs⟩

/-- Where the images of clusters are the same, only approved checks matter. -/
theorem grants_of_same
    (hi : ∀ id image, s.images.get? id = some image → s'.images.get? id = some image)
    (hc : ∀ cluster, s'.imageOf cluster = s.imageOf cluster)
    (hy : ∀ id check, s'.getItem .check id = some check → Approved check →
      s.getItem .check id = some check ∨ s.HasImage check.cluster check.details.imageId) :
    s.Grants held s' := by
  have hadvances : s.Advances s' := by
    refine ⟨hi, fun cluster date h => ?_⟩
    obtain ⟨id, image, himage, hrecord, hdate⟩ := h
    exact ⟨id, image, (hc cluster).trans himage, hi id image hrecord, hdate⟩
  refine { hadvances with
    pictured := fun hp cluster id h => ?_
    adopted := fun ha id check hcheck happroved => ?_
    locked := fun cluster => .inl (hc cluster) }
  · obtain ⟨image, hrecord⟩ := hp cluster id ((hc cluster).symm.trans h)
    exact ⟨image, hi id image hrecord⟩
  · rcases hy id check hcheck happroved with hold | hhas
    · exact (ha id check hold happroved).advances hadvances
    · exact hhas.advances hadvances

theorem Grants.refl (held : List (String × Token)) (s : Store) : s.Grants held s :=
  grants_of_same (fun _ _ h => h) (fun _ => rfl) fun _ _ h _ => .inl h

/-- Changing something else about a cluster. -/
theorem imageOf_modify {change : Cluster → Cluster} (h : ∀ c, (change c).imageId = c.imageId)
    (name cluster : String) :
    imageOf { s with clusters := s.clusters.modify name change } cluster = s.imageOf cluster := by
  simp only [imageOf, Table.get?_modify]
  split
  · cases s.clusters.get? cluster with
    | none => rfl
    | some c => exact h c
  · rfl

/-- A check that is stored needs its image if it is approved. -/
theorem grants_putItem {k : ItemKind} {i : Item k}
    (h : ∀ check : HealthCheck, (⟨k, i⟩ : Σ k, Item k) = ⟨.check, check⟩ → Approved check →
      s.HasImage check.cluster check.details.imageId) : s.Grants held (s.putItem k i) := by
  cases k with
  | upgrade =>
      refine grants_of_same (fun _ _ h => h) (fun _ => rfl) fun id check hcheck _ => .inl ?_
      rwa [getItem_putItem_of_ne s i id (by decide)] at hcheck
  | check =>
      refine grants_of_same (fun _ _ h => h) (fun _ => rfl) fun id check hcheck happroved => ?_
      rw [getItem_putItem] at hcheck
      split at hcheck
      · cases hcheck
        exact .inr (h _ rfl happroved)
      · exact .inl hcheck

end Store

namespace Call

/-- Whether a call neither gives a cluster an image nor stores an approved check. -/
def SparesImages : Call → Prop
  | .store (.setClusterImage _ _) => False
  | .store (.insertItem .check check) | .store (.updateItem .check check) => ¬Approved check
  | _ => True

theorem sparesImages_of_isRead {c : Call} (h : c.isRead = true) : c.SparesImages := by
  unfold SparesImages
  split
  · cases h
  · cases h
  · cases h
  · trivial

end Call

namespace Store

variable {s s' : Store} {held : List (String × Token)} {clock : Outcome Instant} {q : StoreCall}

/-- What a call makes of a store if it spares the images. -/
theorem Effect.grants (he : Effect s clock q s') (hq : (Call.store q).SparesImages) :
    s.Grants held s' := by
  cases he with
  | nothing => exact .refl held s
  | @insertItem k i h | @updateItem k i h =>
      refine grants_putItem fun check hi happroved => ?_
      cases hi
      exact absurd happroved hq
  | setClusterImage => exact absurd hq id
  | setClusterState =>
      refine grants_of_same (fun _ _ h => h) (fun cluster => ?_) fun _ _ h _ => .inl h
      exact imageOf_modify (by intro _; rfl) _ cluster
  | @drainHosts env ids now hc =>
      obtain ⟨hosts, agents, he⟩ := s.drainHosts_eq now env ids
      rw [he]
      exact grants_of_same (fun _ _ h => h) (fun _ => rfl) fun _ _ h _ => .inl h
  | _ => exact grants_of_same (fun _ _ h => h) (fun _ => rfl) fun _ _ h _ => .inl h

/-- The image of a cluster after it was set. -/
theorem imageOf_setImage {cluster image : String} {now : Instant}
    (h : s.clusters.contains cluster = true) (other : String) :
    imageOf { s with clusters := s.clusters.modify cluster fun c =>
      { c with imageId := some image, lastUpdate := now } } other =
      if other = cluster then some image else s.imageOf other := by
  simp only [imageOf, Table.get?_modify]
  split
  · rename_i he
    subst he
    obtain ⟨c, hc⟩ := Option.isSome_iff_exists.mp h
    rw [hc]
    rfl
  · rfl

/-- What is known before a cluster is given an image: both are on record, and the image that
the cluster has is no newer. -/
structure Outdated (s : Store) (cluster image : String) (candidate : Image) : Prop where
  image : s.images.get? image = some candidate
  older : ∀ id old, s.imageOf cluster = some id → s.images.get? id = some old →
    old.publishDate ≤ candidate.publishDate

/-- A cluster that is given a newer image has it then, and advances. -/
theorem Effect.grants_setImage {cluster image : String} {candidate : Image} {token : Token}
    (he : Effect s clock (.setClusterImage cluster image) s')
    (hs : s.Outdated cluster image candidate)
    (hl : (imageLock cluster, token) ∈ held) : s.Grants held s' := by
  cases he with
  | nothing => exact .refl held s
  | @setClusterImage _ _ now _ hc =>
      have himage : ∀ other, imageOf { s with clusters := s.clusters.modify cluster fun c =>
          { c with imageId := some image, lastUpdate := now } } other =
            if other = cluster then some image else s.imageOf other := imageOf_setImage hc
      have hadvances : s.Advances { s with clusters := s.clusters.modify cluster fun c =>
          { c with imageId := some image, lastUpdate := now } } := by
        refine ⟨fun _ _ => id, fun other date h => ?_⟩
        obtain ⟨id, record, hid, hrecord, hdate⟩ := h
        by_cases hother : other = cluster
        · subst hother
          refine ⟨image, candidate, (himage other).trans (if_pos rfl), hs.image, ?_⟩
          exact Int.le_trans hdate (hs.older id record hid hrecord)
        · exact ⟨id, record, ((himage other).trans (if_neg hother)).trans hid, hrecord, hdate⟩
      refine { hadvances with
        pictured := fun hp other id h => ?_
        adopted := fun ha id check hcheck happroved => ?_
        locked := fun other => ?_ }
      · rw [himage] at h
        split at h
        · cases h
          exact ⟨candidate, hs.image⟩
        · exact hp other id h
      · exact (ha id check hcheck happroved).advances hadvances
      · by_cases hother : other = cluster
        · exact .inr ⟨token, hother ▸ hl⟩
        · exact .inl ((himage other).trans (if_neg hother))

/-- A cluster that was given an image has it. -/
theorem hasImage_of_setImage {cluster image : String} {candidate : Image} {u : Unit}
    (ha : s.answer clock (.setClusterImage cluster image) = (.ok u, s'))
    (hc : s.images.get? image = some candidate) : s'.HasImage cluster image := by
  simp only [answer] at ha
  cases hset : s.setClusterImage clock cluster image with
  | error f =>
      rw [hset] at ha
      cases ha
  | ok t =>
      rw [hset] at ha
      obtain rfl : t = s' := (Prod.mk.inj ha).2
      obtain ⟨hcontains, now, -, rfl⟩ := eq_of_changeCluster hset
      exact ⟨candidate, hc, image, candidate,
        (imageOf_setImage hcontains cluster).trans (if_pos rfl), hc, Int.le_refl _⟩

end Store

/-! ## What workers owe each other -/

namespace World

/-- The store is lost or changes so. -/
def Moves (R : Store → Store → Prop) (w w' : World) : Prop :=
  ∀ s', w'.store = some s' → ∃ s, w.store = some s ∧ R s s'

/-- What holds of the store as long as there is one. -/
def Has (I : Store → Prop) (w : World) : Prop := ∀ s, w.store = some s → I s

variable {R : Store → Store → Prop} {I : Store → Prop} {u v w : World} {raises : Fault → Prop}
  {c : Call} {r : Outcome c.Reply} {held : List (String × Token)}

theorem Moves.refl (h : ∀ s, R s s) (w : World) : w.Moves R w := fun s hs => ⟨s, hs, h s⟩

theorem Moves.trans (h : ∀ s t u, R s t → R t u → R s u) (huv : Moves R u v)
    (hvw : Moves R v w) : Moves R u w := by
  intro s hs
  obtain ⟨t, ht, hts⟩ := hvw s hs
  obtain ⟨r, hr, hrt⟩ := huv t ht
  exact ⟨r, hr, h _ _ _ hrt hts⟩

theorem Moves.mono {R' : Store → Store → Prop} (h : Moves R v w) (hR : ∀ s s', R s s' → R' s s') :
    Moves R' v w := by
  intro s hs
  obtain ⟨t, ht, hts⟩ := h s hs
  exact ⟨t, ht, hR _ _ hts⟩

theorem Has.moves (hv : Has I v) (h : Moves R v w) (hI : ∀ s s', R s s' → I s → I s') :
    Has I w := by
  intro s hs
  obtain ⟨t, ht, hts⟩ := h s hs
  exact hI t s hts (hv t ht)

/-- What a call that spares the images makes of a world. -/
theorem Possible.grants (h : World.Possible Eq raises c v r w) (hc : c.SparesImages) :
    Moves (Store.Grants held) v w := by
  rcases h.store_cases fun _ hv => hv ▸ rfl with he | ⟨q, rfl, he⟩
  · intro s hs
    exact ⟨s, he ▸ hs, .refl held s⟩
  · intro s' hs'
    obtain ⟨s, clock, hs, heffect⟩ := he s' hs'
    exact ⟨s, hs, heffect.grants hc⟩

end World

namespace ImageCheck

open World

/-- Clusters advance, and the image of a cluster changes only under its lock. -/
def imagePact : Pact where
  fine := Has fun s => s.Pictured ∧ s.Adopted
  rely held := Moves (Store.Relies held)
  guarantee held := Moves (Store.Grants held)
  rely_refl _ := Moves.refl fun s => ⟨.refl s, fun _ _ _ => rfl⟩
  rely_trans _ _ _ _ := Moves.trans fun _ _ _ h h' =>
    ⟨h.toAdvances.trans h'.toAdvances, fun cluster token hl =>
      (h'.locked cluster token hl).trans (h.locked cluster token hl)⟩
  fine_of_guarantee _ _ _ h hw := hw.moves h fun _ _ hg hs => ⟨hg.pictured hs.1, hg.adopted hs.2⟩
  rely_of_guarantee _ _ _ _ hapart h := h.mono fun _ _ hg =>
    ⟨hg.toAdvances, fun cluster token hl =>
      (hg.locked cluster).resolve_right fun ⟨other, ho⟩ => hapart _ other token ho hl⟩

section

variable {raises : Fault → Prop} {j : Journal Sight} {α : Type} {I : Store → Prop}
  {cluster image : String} {held : List (String × Token)}

/-- Programs that spare the images keep to the pact, and what cannot be lost while clusters
advance is not. -/
theorem follows_sparing {p : Program α} {P : α → Prop}
    (hp : p.Meets Call.SparesImages (fun _ => True) P)
    (hI : ∀ s s', s.Advances s' → I s → I s') (hj : j.state.world.Has I) :
    p.Follows (imagePact.sees raises) imagePact.rule (fun j' => j'.state.world.Has I)
      (fun a j' => P a ∧ j'.state.world.Has I) j := by
  refine hp.follows (fun j c r s hc hj hb => ?_) hj
  obtain ⟨⟨hrely, -⟩, hb, -⟩ := hb
  have hgrants : Moves (Store.Grants j.state.held) s.found s.world := hb.grants hc
  refine ⟨hgrants, ?_⟩
  exact (hj.moves hrely fun s s' h => hI s s' h.toAdvances).moves hgrants
    fun s s' h => hI s s' h.toAdvances

theorem minds_sparing {p : Program α} {P : α → Prop}
    (hp : p.Meets Call.SparesImages (fun _ => True) P)
    (hI : ∀ s s', s.Advances s' → I s → I s') (hj : j.state.world.Has I) :
    imagePact.Minds raises (fun a j' => P a ∧ j'.state.world.Has I) p j :=
  (follows_sparing hp hI hj).mono (fun _ _ => id) (fun _ _ => trivial) fun _ _ => id

theorem minds_of_spares {p : Program α} (hp : p.Only Call.SparesImages) :
    imagePact.Minds raises (fun _ _ => True) p j :=
  (minds_sparing hp (I := fun _ => True) (fun _ _ _ h => h) fun _ _ => trivial).imp
    fun _ _ _ => trivial

/-- A call that only looks at the store finds all images on record, and what was relied on. -/
theorem minds_read {q : StoreCall} {J : q.Reply → Store → Prop} (hq : q.isRead = true)
    (hI : ∀ s s', s.Relies j.state.held s' → I s → I s') (hj : j.state.world.Has I)
    (hJ : ∀ a s clock, s.Pictured → I s → (s.answer clock q).1 = .ok a → J a s) :
    imagePact.Minds raises
      (fun a j' => j'.state.held = j.state.held ∧ j'.state.world.Has (J a)) (ask q) j := by
  refine follows_perform.mpr fun r s hb => ?_
  obtain ⟨⟨hrely, hfine⟩, hb, hheld⟩ := hb
  refine ⟨hb.grants (Call.sparesImages_of_isRead hq), ?_⟩
  cases r with
  | error f => trivial
  | ok a =>
      obtain ⟨t, clock, hfound, hworld, ha⟩ := hb.store_of_isRead (fun _ hv => hv ▸ rfl) hq
      refine ⟨hheld, fun t' ht' => ?_⟩
      cases hworld.symm.trans ht'
      exact hJ a t clock (hfine t hfound).1 (hj.moves hrely hI t hfound) ha

theorem minds_orFail {e : ControlError} {a : Option α} {Q : α → Journal Sight → Prop}
    (h : ∀ x, a = some x → Q x j) : imagePact.Minds raises Q (orFail e a) j := by
  cases a with
  | none => trivial
  | some x => exact h x rfl

/-! ## Giving a cluster an image -/

/-- What is known once the record of a cluster was read under the lock of its image. -/
structure Looked (cluster : String) (current : Option String) (s : Store) : Prop where
  image : s.imageOf cluster = current
  recorded : ∀ id, current = some id → ∃ record, s.images.get? id = some record

theorem Looked.relies {s s' : Store} {current : Option String} {token : Token}
    (h : Looked cluster current s) (hl : (imageLock cluster, token) ∈ held)
    (hr : s.Relies held s') : Looked cluster current s' := by
  refine ⟨(hr.locked cluster token hl).trans h.image, fun id hid => ?_⟩
  obtain ⟨record, hrecord⟩ := h.recorded id hid
  exact ⟨record, hr.images id record hrecord⟩

/-- What is known once the image that a cluster has was read as well. -/
structure Compared (cluster image : String) (candidate : Image) (current : Option Image)
    (s : Store) : Prop where
  image : s.images.get? image = some candidate
  found : ∀ id, s.imageOf cluster = some id → ∃ record, s.images.get? id = some record ∧
    current = some record
  known : ∀ record, current = some record → ∃ id, s.imageOf cluster = some id ∧
    s.images.get? id = some record

theorem Compared.relies {s s' : Store} {candidate : Image} {current : Option Image}
    {token : Token} (h : Compared cluster image candidate current s)
    (hl : (imageLock cluster, token) ∈ held) (hr : s.Relies held s') :
    Compared cluster image candidate current s' := by
  have hsame := hr.locked cluster token hl
  refine ⟨hr.images _ _ h.image, fun id hid => ?_, fun record hrecord => ?_⟩
  · obtain ⟨record, hrecord, hcurrent⟩ := h.found id (hsame.symm.trans hid)
    exact ⟨record, hr.images _ _ hrecord, hcurrent⟩
  · obtain ⟨id, hid, hfound⟩ := h.known record hrecord
    exact ⟨id, hsame.trans hid, hr.images _ _ hfound⟩

/-- Whether the image that a cluster has is no older than a candidate. -/
def isRecent (candidate : Image) (current : Option Image) : Bool :=
  current.any fun current => decide (candidate.publishDate ≤ current.publishDate)

/-- A cluster that has an image no older needs no other one. -/
theorem Compared.hasImage {s : Store} {candidate : Image} {current : Option Image}
    (h : Compared cluster image candidate current s) (hc : isRecent candidate current = true) :
    s.HasImage cluster image := by
  obtain ⟨record, hrecord, hdate⟩ := (Option.any_eq_true _ _).mp hc
  obtain ⟨id, hid, hfound⟩ := h.known record hrecord
  exact ⟨candidate, h.image, id, record, hid, hfound, of_decide_eq_true hdate⟩

/-- A cluster that has an older image, or none, may be given another one. -/
theorem Compared.outdated {s : Store} {candidate : Image} {current : Option Image}
    (h : Compared cluster image candidate current s) (hc : ¬isRecent candidate current = true) :
    s.Outdated cluster image candidate := by
  refine ⟨h.image, fun id old hid hold => ?_⟩
  obtain ⟨record, hrecord, rfl⟩ := h.found id hid
  cases hold.symm.trans hrecord
  have hnot : ¬candidate.publishDate ≤ old.publishDate := by simpa [isRecent] using hc
  exact Int.le_of_lt (Int.not_le.mp hnot)

/-- The image that the cluster has is read under the lock. -/
theorem minds_currentImage {current : Option String} {candidate : Image} {token : Token}
    (hl : (imageLock cluster, token) ∈ j.state.held)
    (hj : j.state.world.Has fun s => Looked cluster current s ∧
      s.images.get? image = some candidate) :
    imagePact.Minds raises (fun found j' => j'.state.held = j.state.held ∧
      j'.state.world.Has (Compared cluster image candidate found)) (currentImage current) j := by
  cases current with
  | none =>
      refine ⟨rfl, fun s hs => ?_⟩
      obtain ⟨hlooked, hcandidate⟩ := hj s hs
      refine ⟨hcandidate, fun id hid => ?_, fun record hrecord => by cases hrecord⟩
      cases hlooked.image.symm.trans hid
  | some id =>
      refine minds_read (q := .getImage id)
        (J := fun found s => Compared cluster image candidate found s) rfl
        (fun s s' hr h => ⟨h.1.relies hl hr, hr.images _ _ h.2⟩) hj
        fun found s clock _ hs ha => ?_
      obtain ⟨hlooked, hcandidate⟩ := hs
      obtain ⟨record, hrecord⟩ := hlooked.recorded id rfl
      have hfound : some record = found := hrecord.symm.trans (Except.ok.inj ha)
      subst hfound
      refine ⟨hcandidate, fun id' hid' => ?_, fun record' hrecord' => ?_⟩
      · cases hlooked.image.symm.trans hid'
        exact ⟨record, hrecord, rfl⟩
      · cases hrecord'
        exact ⟨id, hlooked.image, hrecord⟩

/-- An image is set under the lock once it is known to be newer. -/
theorem minds_setImage {candidate : Image} {token : Token}
    (hl : (imageLock cluster, token) ∈ j.state.held) {current : Option Image}
    (hj : j.state.world.Has (Compared cluster image candidate current))
    (hc : ¬isRecent candidate current = true) :
    imagePact.Minds raises (fun _ j' => j'.state.world.Has (·.HasImage cluster image))
      (ask (.setClusterImage cluster image)) j := by
  refine follows_perform.mpr fun r s hb => ?_
  obtain ⟨⟨hrely, -⟩, hb, -⟩ := hb
  have hfound := hj.moves hrely fun t t' hr h => h.relies hl hr
  refine ⟨?_, ?_⟩
  · intro t' ht'
    rcases hb.store_cases fun _ hv => hv ▸ rfl with he | ⟨q, hq, he⟩
    · exact ⟨t', he ▸ ht', .refl _ _⟩
    · cases hq
      obtain ⟨t, clock, ht, heffect⟩ := he t' ht'
      exact ⟨t, ht, heffect.grants_setImage ((hfound t ht).outdated hc) hl⟩
  · cases r with
    | error f => trivial
    | ok u =>
        obtain ⟨_, t, t', clock, rfl, ht, ha, ht'⟩ := hb.store_of_ok
        intro t'' ht''
        cases ht'.symm.trans ht''
        exact Store.hasImage_of_setImage ha (hfound t ht).image

/-- Adopting an image under the lock leaves the cluster with this image or one no older. -/
theorem minds_adoptImage {token : Token} (hl : (imageLock cluster, token) ∈ j.state.held) :
    imagePact.Minds raises (fun _ j' => j'.state.world.Has (·.HasImage cluster image))
      (adoptImage cluster image) j := by
  rw [adoptImage_eq]
  refine .bind (Q := fun record j₁ => j₁.state.held = j.state.held ∧
    j₁.state.world.Has (Looked cluster record.imageId)) ?_ ?_
  · refine .bind (minds_read (I := fun _ => True) (J := fun found s => ∀ record,
      found = some record → Looked cluster record.imageId s) rfl (fun _ _ _ => id)
      (fun _ _ => trivial) fun found s clock hp _ ha => ?_) ?_
    · rintro record rfl
      have hget : s.clusters.get? cluster = some record := Except.ok.inj ha
      have himage : s.imageOf cluster = record.imageId := by rw [Store.imageOf, hget]; rfl
      exact ⟨himage, fun id hid => hp cluster id (himage.trans hid)⟩
    · rintro found j₁ ⟨hheld, hlooked⟩ -
      exact minds_orFail fun record hr => ⟨hheld, fun s hs => hlooked s hs record hr⟩
  rintro record j₁ ⟨h₁, hlooked⟩ -
  refine .bind (minds_read (I := Looked cluster record.imageId) (J := fun found s =>
    Looked cluster record.imageId s ∧ s.images.get? image = found) rfl
    (fun s s' hr h => h.relies (h₁ ▸ hl) hr) hlooked fun found s clock _ hs ha => ?_) ?_
  · have hget : s.images.get? image = found := Except.ok.inj ha
    exact ⟨hs, hget⟩
  rintro found j₂ ⟨h₂, hfound⟩ -
  refine .bind (Q := fun candidate j₃ => j₃.state.held = j.state.held ∧
    j₃.state.world.Has fun s => Looked cluster record.imageId s ∧
      s.images.get? image = some candidate) ?_ ?_
  · refine minds_orFail ?_
    rintro candidate rfl
    exact ⟨h₂.trans h₁, hfound⟩
  rintro candidate j₃ ⟨h₃, hcandidate⟩ -
  refine .bind (minds_currentImage (h₃ ▸ hl) hcandidate) ?_
  rintro current j₄ ⟨h₄, hcompared⟩ -
  split
  · rename_i hc
    exact fun s hs => (hcompared s hs).hasImage hc
  · rename_i hc
    exact minds_setImage ((h₄.trans h₃) ▸ hl) hcompared hc

/-- Work under the lock of an image is done by one who holds it. -/
theorem minds_offer :
    imagePact.Minds raises (fun found j' => found.isSome = true →
      j'.state.world.Has (·.HasImage cluster image))
      (exclusively (imageLock cluster) (adoptImage cluster image)) j := by
  refine .bind (Q := fun found j₁ => ∀ token, found = some token →
    (imageLock cluster, token) ∈ j₁.state.held) ?_ ?_
  · refine follows_perform.mpr fun r s hb => ?_
    obtain ⟨-, hb, hheld⟩ := hb
    refine ⟨hb.grants trivial, ?_⟩
    cases r with
    | error f => trivial
    | ok found =>
        rintro token rfl
        change (imageLock cluster, token) ∈ s.held
        rw [hheld]
        exact List.mem_cons_self
  intro found j₁ hlock _
  cases found with
  | none => exact fun h => nomatch h
  | some token =>
      refine .bind (minds_adoptImage (hlock token rfl)).contain fun outcome j₂ h₂ _ => ?_
      -- whatever came of the work, giving the lock back leaves it so
      have hhas : j₂.state.world.Has fun s =>
          ∀ u, outcome = .ok u → s.HasImage cluster image := by
        cases outcome with
        | error e => exact fun _ _ u hu => by cases hu
        | ok u => exact fun s hs _ _ => h₂ s hs
      have hrelease : (perform (.release (imageLock cluster) token)).Only Call.SparesImages :=
        only_perform.mpr trivial
      refine .bind (((follows_sparing hrelease (fun _ _ ha h u hu => (h u hu).advances ha)
        hhas).imp fun _ _ hq => hq.2).attempt.mono (fun _ _ => id) (fun _ _ => trivial)
          fun _ _ hq => hq.same) fun _ j₃ h₃ _ => ?_
      cases outcome with
      | error e => trivial
      | ok u => exact fun _ s hs => h₃ s hs u rfl

/-! ## Health checks -/

variable {check : HealthCheck} {now : Instant}

/-- The version of a check that a step leads to can be stored: if it is approved, the cluster
has its image. -/
def Settled (now : Instant) (result : HealthCheck × Decision HealthCheckState)
    (j : Journal Sight) : Prop :=
  Approved (result.1.afterStep now result.2) →
    j.state.world.Has (·.HasImage result.1.cluster result.1.details.imageId)

theorem minds_imageIsBusy (check : HealthCheck) :
    imagePact.Minds raises (fun busy j' => busy = false →
      check.header.status = some .qualified → check.details.kind ≠ .timeTriggered →
        j'.state.world.Has (·.HasImage check.cluster check.details.imageId))
      (imageIsBusy check) j := by
  rw [imageIsBusy]
  split
  · refine .bind (Q := fun adopted j' => adopted = true →
      j'.state.world.Has (·.HasImage check.cluster check.details.imageId)) ?_ ?_
    · exact .bind minds_offer fun found j' h _ => h
    · intro adopted j' h _ hbusy _ _
      exact h (by simpa using hbusy)
  · rename_i hoffers
    intro _ hqualified hkind
    simp [hqualified, hkind] at hoffers

/-- In COMPLETING the cluster has the image of the check before the check is over. -/
theorem minds_completing (hs : check.state = HealthCheckState.completing) :
    imagePact.Minds raises (Settled now) (completing check) j := by
  rw [completing_eq]
  refine .bind (minds_imageIsBusy check) fun busy j₁ h₁ _ => ?_
  split
  · intro happroved
    cases hs.symm.trans happroved.state
  rename_i hbusy
  have hhas : j₁.state.world.Has fun s => check.header.status = some .qualified →
      check.details.kind ≠ .timeTriggered → s.HasImage check.cluster check.details.imageId :=
    fun s hs hstatus hkind => h₁ (by simpa using hbusy) hstatus hkind s hs
  have hprobe : MayRelease Call.SparesImages check := fun _ _ => ⟨trivial, trivial⟩
  refine .bind (minds_sparing (meets_releaseProbe hprobe)
    (fun _ _ ha h hstatus hkind => (h hstatus hkind).advances ha) hhas) ?_
  rintro changed j₂ ⟨rfl | ⟨rfl, -⟩, h₂⟩ - ⟨-, hstatus, hkind⟩ s hs
  · exact h₂ s hs hstatus hkind
  · exact h₂ s hs hstatus hkind

theorem spares_init (config : ImageCheckSettings) (now : Instant)
    (hs : check.state = HealthCheckState.init) :
    (init config check now).Meets Call.SparesImages (fun _ => True) (Steps check now .init) := by
  refine .seq (within_request.mpr trivial) fun launched => ?_
  split
  · exact (meets_fail (fun _ _ => trivial) _ hs _ _ (.unlaunched _)).mono
      (fun _ => Call.sparesImages_of_isRead) fun _ => id
  · exact .seq (within_ask.mpr trivial) fun _ => .launched _

/-- No step but that of COMPLETING leads to an approved check. -/
theorem Steps.not_approved {result : HealthCheck × Decision HealthCheckState}
    (h : Steps check now check.state result) (hc : check.state ≠ HealthCheckState.completing)
    (hd : check.state ≠ HealthCheckState.completed) :
    ¬Approved (result.1.afterStep now result.2) := by
  rintro ⟨hstate, hstatus, -⟩
  obtain ⟨header, cluster, envId, state, details⟩ := check
  simp only at h hc hd
  cases h with
  | unlaunched message => cases hstatus
  | wait hs h =>
      obtain ⟨start, complete, rfl⟩ := h
      exact hd hstate
  | finished | unneeded => exact hc rfl
  | _ => cases hstate

/-- What a step gives back can be stored. -/
theorem minds_step (config : ImageCheckSettings) (check : HealthCheck) (now : Instant) :
    imagePact.Minds raises (Settled now) (step config check now) j := by
  have hreads : ∀ {s : HealthCheckState} {p : Program (HealthCheck × Decision HealthCheckState)},
      check.state = s → s ≠ .completing → s ≠ .completed →
        p.Meets Call.SparesImages (fun _ => True) (Steps check now s) →
          imagePact.Minds raises (Settled now) p j := by
    rintro s p rfl hc hd hp
    refine (minds_sparing hp (I := fun _ => True) (fun _ _ _ => id) fun _ _ => trivial).imp ?_
    exact fun result _ hq happroved => absurd happroved (hq.1.not_approved hc hd)
  have hlooks : ∀ {p : Program (HealthCheck × Decision HealthCheckState)} {s : HealthCheckState},
      p.Meets (·.isRead = true) (fun _ => True) (Steps check now s) →
        p.Meets Call.SparesImages (fun _ => True) (Steps check now s) :=
    fun h => h.mono (fun _ => Call.sparesImages_of_isRead) fun _ => id
  have hE : ∀ f : Fault, f.isBreach = false → True := fun _ _ => trivial
  simp only [step]
  split <;> rename_i hs
  · exact hreads hs (by decide) (by decide) (spares_init config now hs)
  · exact hreads hs (by decide) (by decide)
      (hlooks (meets_launching hE config now hs fun _ _ => trivial))
  · exact hreads hs (by decide) (by decide)
      (hlooks (meets_pendingVerify hE config now hs fun _ _ => trivial))
  · exact minds_completing hs
  · trivial

/-- A version of a check may be stored if its cluster has its image where it has to. -/
theorem minds_update {y : HealthCheck}
    (h : Approved y → j.state.world.Has (·.HasImage y.cluster y.details.imageId)) :
    imagePact.Minds raises (fun _ _ => True) (ask (.updateItem .check y)) j := by
  refine follows_perform.mpr fun r s hb => ⟨fun t' ht' => ?_, by cases r <;> trivial⟩
  obtain ⟨⟨hrely, -⟩, hb, -⟩ := hb
  rcases hb.store_cases fun _ hv => hv ▸ rfl with he | ⟨q, hq, he⟩
  · exact ⟨t', he ▸ ht', .refl _ _⟩
  · cases hq
    obtain ⟨t, clock, ht, heffect⟩ := he t' ht'
    refine ⟨t, ht, ?_⟩
    cases heffect with
    | nothing => exact .refl _ _
    | updateItem =>
        refine Store.grants_putItem fun check hcheck happroved => ?_
        cases hcheck
        exact (h happroved).moves hrely (fun _ _ hr hi => hi.advances hr.toAdvances) t ht

theorem minds_update_of_not {y : HealthCheck} (h : ¬Approved y) :
    imagePact.Minds raises (fun _ _ => True) (ask (.updateItem .check y)) j :=
  minds_update fun happroved => absurd happroved h

/-- What follows a timeout gives no image. -/
theorem spares_onTimeout (config : ImageCheckSettings) (hs : check.header.status = some .timeout) :
    (onTimeout config check).Only Call.SparesImages := by
  have hreleased : ¬Approved (released check) := by
    rintro ⟨-, hstatus, -⟩
    cases hs.symm.trans hstatus
  refine within_onTimeout_of (meets_cleanUp (fun _ => hreleased) fun _ _ _ => ⟨trivial, trivial⟩) ?_
  exact fun _ _ => Only.mono (within_alert (fun _ _ => trivial) _ _ _ _)
    fun _ => Call.sparesImages_of_isRead

/-- Working on a check keeps to the pact. -/
theorem minds_work (config : ImageCheckSettings) (check : HealthCheck) (now : Instant) :
    imagePact.Minds raises (fun _ _ => True) ((lifecycle config).work check now) j := by
  rw [Lifecycle.work]
  split
  · trivial
  rename_i hterminal
  have hactive : check.state ≠ HealthCheckState.completed := fun he =>
    hterminal (Item.isTerminal_iff.mpr he)
  refine .bind (minds_of_spares (only_clusterIsPaused (fun _ => Call.sparesImages_of_isRead) _))
    fun paused j₁ _ _ => ?_
  split
  · exact .bind (minds_update_of_not fun h => hactive h.state) fun _ _ _ _ => trivial
  cases (lifecycle config).timeout with
  | error f => trivial
  | ok limit =>
      simp only [ofOutcome, Program.bind]
      split
      · refine .bind (minds_update_of_not fun h => ?_) fun _ j₂ _ _ => ?_
        · cases h.status
        · exact .bind (minds_of_spares (Only.attempt (spares_onTimeout config rfl)))
            fun _ _ _ _ => trivial
      · refine .bind (minds_step config check now) ?_
        rintro ⟨changed, d⟩ j₂ hsettled -
        refine .bind (minds_update fun happroved => ?_) fun _ j₃ _ _ => ?_
        · cases d <;> exact hsettled happroved
        · cases d <;> trivial

theorem minds_process (config : ImageCheckSettings) (id : ItemId) :
    imagePact.Minds raises (fun _ _ => True) ((controller config).process id) j := by
  refine .bind (minds_of_spares (only_perform.mpr trivial)) fun now j₁ _ _ => ?_
  refine .bind (Q := fun _ _ => True) ?_ fun _ _ _ _ => trivial
  rw [Lifecycle.advance_eq]
  refine .bind (minds_of_spares (only_ask.mpr trivial)) fun found j₂ _ _ => ?_
  cases found with
  | none => trivial
  | some check => exact minds_work config check now

end

end ImageCheck

end FleetControl
