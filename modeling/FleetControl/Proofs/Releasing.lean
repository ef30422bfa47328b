import FleetControl.Simulation.Gate
import Mathlib.Logic.Relation

/-!
# Locks and the tokens that free them

A lock is used through guards, which are given back or dropped, and through releases with any
token whatever. A dropped guard gives its lock back in the background, at any later time and
after any other use, or never. A history of all uses, the last one first, says who holds what:
a name is held by the token of the acquisition that is still outstanding, and by nothing else.
-/
namespace FleetControl

/-- What came of one use of a lock. -/
inductive LockEvent where
  | taken (name : String) (token : Token)
  | refused (name : String)
  /-- A release that succeeded, whether or not the name was held. -/
  | freed (name : String) (token : Token)
  /-- A release that failed because another token holds the name. -/
  | rejected (name : String) (token : Token)

namespace LockEvent

/-- The token that was issued. -/
def issued? : LockEvent → Option Token
  | taken _ token => some token
  | _ => none

/-- An acquisition of a name that no release with its token has ended. -/
def Outstanding (log : List LockEvent) (name : String) (token : Token) : Prop :=
  ∃ later past, log = later ++ taken name token :: past ∧ freed name token ∉ later

/-- What came of trying to take a name. -/
def ofAcquire (name : String) : Option Token → LockEvent
  | some token => taken name token
  | none => refused name

/-- What came of trying to give a name back, from whether that failed. -/
def ofRelease {ε α : Type} (name : String) (token : Token) : Except ε α → LockEvent
  | .ok _ => freed name token
  | .error _ => rejected name token

variable {log : List LockEvent} {e : LockEvent} {name : String} {token : Token}

@[simp] theorem not_outstanding_nil : ¬ Outstanding [] name token := by
  rintro ⟨later, past, he, -⟩
  cases later <;> cases he

/-- An acquisition is outstanding if it is the last use, or was so and is not ended by it. -/
theorem outstanding_cons : Outstanding (e :: log) name token ↔
    e = taken name token ∨ (Outstanding log name token ∧ e ≠ freed name token) := by
  constructor
  · rintro ⟨later, past, he, hfree⟩
    cases later with
    | nil =>
        cases he
        exact .inl rfl
    | cons e' later =>
        cases he
        exact .inr ⟨⟨later, past, rfl, fun hm => hfree (List.mem_cons_of_mem _ hm)⟩,
          fun he => hfree (he ▸ List.mem_cons_self)⟩
  · rintro (rfl | ⟨⟨later, past, rfl, hfree⟩, he⟩)
    · exact ⟨[], log, rfl, List.not_mem_nil⟩
    · exact ⟨e :: later, past, rfl, fun hm =>
        (List.mem_cons.mp hm).elim (fun h => he h.symm) hfree⟩

end LockEvent

open LockEvent

namespace LockTable

variable {t t' : LockTable} {log : List LockEvent} {name : String} {token : Token}

/-- What each use does to the table. -/
def Does (t : LockTable) : LockEvent → LockTable → Prop
  | .taken name token, t' => t.acquire name = (some token, t')
  | .refused name, t' => t.acquire name = (none, t')
  | .freed name token, t' => t.release? name token = some t'
  | .rejected name token, t' => t.release? name token = none ∧ t' = t

/-- A table is what the history of its uses makes it. -/
structure Ledger (t : LockTable) (log : List LockEvent) : Prop where
  held : ∀ name token, t.holder? name = some token ↔ Outstanding log name token
  issued : ∀ name token, taken name token ∈ log → ∃ n < t.issued, token = .issued n
  /-- No token is issued twice. -/
  distinct : (log.filterMap issued?).Nodup

theorem ledger_of_empty (h : t.held = .empty) : t.Ledger [] where
  held name token := by simp [holder?, h]
  issued name token hm := by cases hm
  distinct := List.nodup_nil

theorem issued_release? (h : t.release? name token = some t') : t'.issued = t.issued := by
  simp only [release?] at h
  split at h
  · cases h
    rfl
  · split at h <;> cases h
    rfl

theorem Ledger.take (h : t.Ledger log) (ha : t.acquire name = (some token, t')) :
    t'.Ledger (taken name token :: log) := by
  obtain ⟨hfree, rfl, rfl⟩ := eq_of_taken ha
  refine ⟨fun n u => ?_, fun n u hm => ?_, ?_⟩
  · show (t.held.insert name (.issued t.issued)).get? n = some u ↔ _
    rw [Table.get?_insert, outstanding_cons, ← h.held n u]
    by_cases hn : n = name
    · subst hn
      simp [hfree]
    · simp [hn, Ne.symm hn, holder?]
  · obtain he | hm := List.mem_cons.mp hm
    · cases he
      exact ⟨t.issued, Nat.lt_succ_self _, rfl⟩
    · obtain ⟨k, hk, rfl⟩ := h.issued n u hm
      exact ⟨k, Nat.lt_succ_of_lt hk, rfl⟩
  · show (Token.issued t.issued :: log.filterMap issued?).Nodup
    refine List.nodup_cons.mpr ⟨fun hm => ?_, h.distinct⟩
    obtain ⟨e, he, hi⟩ := List.mem_filterMap.mp hm
    cases e with
    | taken n u =>
        cases hi
        obtain ⟨k, hk, heq⟩ := h.issued n _ he
        cases heq
        exact Nat.lt_irrefl _ hk
    | _ => cases hi

theorem Ledger.free (h : t.Ledger log) (hr : t.release? name token = some t') :
    t'.Ledger (freed name token :: log) := by
  refine ⟨fun n u => ?_, fun n u hm => ?_, h.distinct⟩
  · rw [holder?_release? hr, outstanding_cons, ← h.held n u]
    by_cases hn : n = name
    · subst hn
      have hholder : t.holder? n = some u → u = token := fun hu =>
        Classical.not_not.mp fun hne => by
          rw [release?_eq_none_iff.mpr ⟨u, hu, hne⟩] at hr
          cases hr
      simp only [if_true, reduceCtorEq, false_or, false_iff, not_and]
      intro hu hne
      exact hne (by rw [hholder hu])
    · have hne : freed name token ≠ freed n u := fun he => hn (by cases he; rfl)
      simp [hn, hne]
  · rw [issued_release? hr]
    exact h.issued n u ((List.mem_cons.mp hm).resolve_left (by simp))

/-- A use that changes nothing. -/
theorem Ledger.idle (h : t.Ledger log) {e : LockEvent} (ht : ∀ n u, e ≠ taken n u)
    (hf : ∀ n u, e ≠ freed n u) : t.Ledger (e :: log) where
  held n u := by
    rw [h.held, outstanding_cons]
    simp [ht, hf]
  issued n u hm := h.issued n u ((List.mem_cons.mp hm).resolve_left fun he => ht n u he.symm)
  distinct := by
    have hnone : e.issued? = none := by
      cases e with
      | taken n u => exact absurd rfl (ht n u)
      | _ => rfl
    rw [List.filterMap_cons_none hnone]
    exact h.distinct

/-- Every use keeps the table as its history says. -/
theorem Ledger.does (h : t.Ledger log) {e : LockEvent} (hd : t.Does e t') :
    t'.Ledger (e :: log) := by
  cases e with
  | taken name token => exact h.take hd
  | refused name =>
      rw [(held_of_refused hd).2]
      exact h.idle (fun _ _ => nofun) fun _ _ => nofun
  | freed name token => exact h.free hd
  | rejected name token =>
      obtain ⟨-, rfl⟩ := hd
      exact h.idle (fun _ _ => nofun) fun _ _ => nofun

theorem does_acquire (t : LockTable) (name : String) :
    t.Does (.ofAcquire name (t.acquire name).1) (t.acquire name).2 := by
  cases hn : t.acquire name with
  | mk found t' => cases found <;> exact hn

end LockTable

namespace World

variable {w : World} {name : String} {token : Token}

theorem acquire_of_held (h : w.locks.isHeld name = true) : w.acquire name = (.ok none, w) := by
  obtain ⟨holder, hh⟩ := LockTable.isHeld_iff.mp h
  rw [acquire, LockTable.acquire_of_held hh]

theorem acquire_of_free (h : w.locks.isHeld name = false) :
    ∃ token w', w.acquire name = (.ok (some token), w') := by
  cases hh : w.locks.holder? name with
  | none =>
      rw [acquire, LockTable.acquire_of_free hh]
      exact ⟨_, _, rfl⟩
  | some holder =>
      rw [LockTable.isHeld_iff.mpr ⟨holder, hh⟩] at h
      cases h

theorem release_of_free (h : w.locks.holder? name = none) :
    w.release name token = (.ok (), w) := by
  have hr : w.locks.release? name token = some w.locks := by
    simp only [LockTable.holder?] at h
    simp only [LockTable.release?, h]
  rw [release, hr]

/-- The holder's token frees its name and no other. -/
theorem release_of_holder (h : w.locks.holder? name = some token) :
    ∃ w', w.release name token = (.ok (), w') ∧
      ∀ n, w'.locks.holder? n = if n = name then none else w.locks.holder? n := by
  cases hr : w.locks.release? name token with
  | none =>
      obtain ⟨holder, hh, hne⟩ := LockTable.release?_eq_none_iff.mp hr
      exact absurd (Option.some.inj (hh.symm.trans h)) hne
  | some t =>
      rw [release, hr]
      exact ⟨_, rfl, LockTable.holder?_release? hr⟩

theorem release_of_other {holder : Token} (h : w.locks.holder? name = some holder)
    (hne : holder ≠ token) :
    w.release name token = (.error (.error (.lock (.heldElsewhere name))), w) := by
  rw [release, LockTable.release?_eq_none_iff.mpr ⟨holder, h, hne⟩]

theorem does_release (w : World) (name : String) (token : Token) :
    w.locks.Does (.ofRelease name token (w.release name token).1)
      (w.release name token).2.locks := by
  rw [release]
  split
  · assumption
  · exact ⟨by assumption, rfl⟩

end World

namespace Simulation

theorem Scene.does_tryRelease (s : Scene) (name : String) (token : Token) (answer : Answer) :
    s.world.locks.Does (.ofRelease name token (s.tryRelease name token answer).1)
      (s.tryRelease name token answer).2.world.locks := by
  rw [Scene.tryRelease]
  split
  · assumption
  · exact ⟨by assumption, rfl⟩

theorem Scene.guards_tryRelease (s : Scene) (name : String) (token : Token) (answer : Answer) :
    (s.tryRelease name token answer).2.guards = s.guards ∧
      (s.tryRelease name token answer).2.errands = s.errands := by
  rw [Scene.tryRelease]
  split <;> exact ⟨rfl, rfl⟩

/-- A world in which scripts and workers use locks, with all uses so far. -/
structure Usage where
  scene : Scene
  log : List LockEvent

namespace Usage

/-- One use of a lock, or one thing that befalls a guard. -/
inductive Step : Usage → Usage → Prop where
  | take {s s' : Scene} {log : List LockEvent} {name handle : String} {g : Guard}
      (h : s.perform (.acquire name handle) = (.ok (.acquired g), s')) :
      Step ⟨s, log⟩ ⟨s', taken name g.token :: log⟩
  | refuse {s s' : Scene} {log : List LockEvent} {name handle : String}
      (h : s.perform (.acquire name handle) = (.ok .held, s')) :
      Step ⟨s, log⟩ ⟨s', refused name :: log⟩
  | release {s : Scene} {log : List LockEvent} {handle : String} {g : Guard}
      (hg : s.guards.get? handle = some g) :
      Step ⟨s, log⟩ ⟨(s.perform (.releaseGuard handle)).2,
        ofRelease g.resource g.token (s.perform (.releaseGuard handle)).1 :: log⟩
  | drop {s : Scene} {log : List LockEvent} (handle : String) :
      Step ⟨s, log⟩ ⟨(s.perform (.dropGuard handle)).2, log⟩
  /-- A guard is dropped where nothing can run in the background. -/
  | lose {s : Scene} {log : List LockEvent} (handle : String) :
      Step ⟨s, log⟩ ⟨s.withGuards (s.guards.erase handle), log⟩
  /-- The lock of a dropped guard is given back, whatever else is waiting. -/
  | giveBack {s rest : Scene} {log : List LockEvent} {before after : List Errand} {g : Guard}
      (h : s.errands = before ++ .giveBack g :: after)
      (hrest : rest = { s with errands := before ++ after }) :
      Step ⟨s, log⟩ ⟨rest.runErrand (.giveBack g),
        ofRelease g.resource g.token (rest.tryRelease g.resource g.token .dropped).1 :: log⟩
  /-- Somebody presents a token, wherever it comes from. -/
  | present {s : Scene} {log : List LockEvent} (name : String) (token : Token) :
      Step ⟨s, log⟩ ⟨(s.tryRelease name token .nothing).2,
        ofRelease name token (s.tryRelease name token .nothing).1 :: log⟩
  | workerTakes {s : Scene} {log : List LockEvent} (name : String) :
      Step ⟨s, log⟩ ⟨s.withWorld (s.world.acquire name).2,
        ofAcquire name (s.world.locks.acquire name).1 :: log⟩
  | workerReleases {s : Scene} {log : List LockEvent} (name : String) (token : Token) :
      Step ⟨s, log⟩ ⟨s.withWorld (s.world.release name token).2,
        ofRelease name token (s.world.release name token).1 :: log⟩

/-- Nothing is held or waits to be given back. -/
structure Fresh (s : Scene) : Prop where
  held : s.world.locks.held = .empty
  guards : s.guards = .empty
  errands : s.errands = []

/-- What a fresh scene can come to. -/
def Reachable (u : Usage) : Prop := ∃ s, Fresh s ∧ Relation.ReflTransGen Step ⟨s, []⟩ u

/-- The table is what the uses make it, and every guard stems from an acquisition. -/
structure Sound (u : Usage) : Prop where
  ledger : u.scene.world.locks.Ledger u.log
  guards : ∀ handle g, u.scene.guards.get? handle = some g → taken g.resource g.token ∈ u.log
  errands : ∀ g, .giveBack g ∈ u.scene.errands → taken g.resource g.token ∈ u.log

theorem sound_of_fresh {s : Scene} (h : Fresh s) : Sound ⟨s, []⟩ where
  ledger := LockTable.ledger_of_empty h.held
  guards handle g hg := by
    rw [h.guards] at hg
    cases hg
  errands g hg := by
    rw [h.errands] at hg
    cases hg

/-- A use that begins no guard and no errand. -/
theorem Sound.use {s s' : Scene} {log : List LockEvent} (h : Sound ⟨s, log⟩) {e : LockEvent}
    (hd : s.world.locks.Does e s'.world.locks)
    (hg : ∀ handle g, s'.guards.get? handle = some g → s.guards.get? handle = some g)
    (he : ∀ g, Errand.giveBack g ∈ s'.errands → .giveBack g ∈ s.errands) :
    Sound ⟨s', e :: log⟩ where
  ledger := h.ledger.does hd
  guards handle g hm := List.mem_cons_of_mem _ (h.guards handle g (hg handle g hm))
  errands g hm := List.mem_cons_of_mem _ (h.errands g (he g hm))

/-- A guard leaves, with or without a trace. -/
theorem Sound.lose {s : Scene} {log : List LockEvent} (h : Sound ⟨s, log⟩) (handle : String) :
    Sound ⟨s.withGuards (s.guards.erase handle), log⟩ where
  ledger := h.ledger
  guards handle' g hg := by
    have hget : (s.guards.erase handle).get? handle' = some g := hg
    rw [Table.get?_erase] at hget
    split at hget
    · cases hget
    · exact h.guards handle' g hget
  errands := h.errands

/-- Any token may be presented for any name. -/
theorem Sound.release {s : Scene} {log : List LockEvent} (h : Sound ⟨s, log⟩) (name : String)
    (token : Token) (answer : Answer) :
    Sound ⟨(s.tryRelease name token answer).2,
      ofRelease name token (s.tryRelease name token answer).1 :: log⟩ := by
  obtain ⟨hguards, herrands⟩ := s.guards_tryRelease name token answer
  refine h.use (s.does_tryRelease name token answer) ?_ ?_
  · rw [hguards]
    exact fun _ _ => id
  · rw [herrands]
    exact fun _ => id

/-- A script that takes a lock gets a guard with the token that was issued. -/
theorem Sound.take {s s' : Scene} {log : List LockEvent} {name handle : String} {g : Guard}
    (h : Sound ⟨s, log⟩) (ha : s.perform (.acquire name handle) = (.ok (.acquired g), s')) :
    Sound ⟨s', taken name g.token :: log⟩ := by
  cases hq : s.world.locks.acquire name with
  | mk found t =>
      cases found with
      | none =>
          simp only [Scene.perform, hq] at ha
          cases ha
      | some token =>
          simp only [Scene.perform, hq] at ha
          cases ha
          refine ⟨h.ledger.take hq, fun handle' g hg => ?_, fun g hg => ?_⟩
          · have hget : (s.guards.insert handle ⟨name, token⟩).get? handle' = some g := hg
            rw [Table.get?_insert] at hget
            split at hget
            · cases hget
              exact List.mem_cons_self
            · exact List.mem_cons_of_mem _ (h.guards handle' g hget)
          · exact List.mem_cons_of_mem _ (h.errands g hg)

theorem Sound.refuse {s s' : Scene} {log : List LockEvent} {name handle : String}
    (h : Sound ⟨s, log⟩) (ha : s.perform (.acquire name handle) = (.ok .held, s')) :
    Sound ⟨s', refused name :: log⟩ := by
  cases hq : s.world.locks.acquire name with
  | mk found t =>
      cases found with
      | none =>
          simp only [Scene.perform, hq] at ha
          cases ha
          rw [(LockTable.held_of_refused hq).2] at hq
          exact h.use hq (fun _ _ => id) fun _ => id
      | some token =>
          simp only [Scene.perform, hq] at ha
          cases ha

theorem Sound.drop {s : Scene} {log : List LockEvent} (h : Sound ⟨s, log⟩) (handle : String) :
    Sound ⟨(s.perform (.dropGuard handle)).2, log⟩ := by
  cases hg : s.guards.get? handle with
  | none => simpa only [Scene.perform, hg] using h
  | some g =>
      simp only [Scene.perform, hg]
      obtain ⟨hledger, hguards, herrands⟩ := h.lose handle
      refine ⟨hledger, hguards, fun g' hm => ?_⟩
      obtain hm | hm := List.mem_append.mp hm
      · exact herrands g' hm
      · cases List.mem_singleton.mp hm
        exact h.guards handle g hg

/-- Every step keeps the books. -/
theorem Sound.step {u u' : Usage} (h : Sound u) (hs : Step u u') : Sound u' := by
  cases hs with
  | take ha => exact h.take ha
  | refuse ha => exact h.refuse ha
  | @release s log handle g hg =>
      simp only [Scene.perform, hg]
      exact (h.lose handle).release g.resource g.token .nothing
  | drop handle => exact h.drop handle
  | lose handle => exact h.lose handle
  | @giveBack s rest log before after g he hrest =>
      have hrest : Sound ⟨rest, log⟩ := by
        subst hrest
        refine ⟨h.ledger, h.guards, fun g' hm => h.errands g' ?_⟩
        rw [he, List.mem_append, List.mem_cons]
        exact (List.mem_append.mp hm).imp_right .inr
      exact hrest.release g.resource g.token .dropped
  | present name token => exact h.release name token .nothing
  | @workerTakes s log name =>
      exact h.use (s.world.locks.does_acquire name) (fun _ _ => id) fun _ => id
  | @workerReleases s log name token =>
      exact h.use (s.world.does_release name token) (fun _ _ => id) fun _ => id

theorem sound_of_reachable {u : Usage} (h : Reachable u) : Sound u := by
  obtain ⟨s, hs, hrun⟩ := h
  induction hrun with
  | refl => exact sound_of_fresh hs
  | tail _ hstep ih => exact ih.step hstep

/-- An acquisition and an earlier one have different tokens. -/
theorem Sound.ne_of_later {u : Usage} (h : Sound u) {later past : List LockEvent}
    {name : String} {a b : Token} (hlog : u.log = later ++ taken name b :: past)
    (ha : taken name a ∈ past) : b ≠ a := by
  have hdistinct := h.ledger.distinct
  have hnow : (taken name b).issued? = some b := rfl
  rw [hlog, List.filterMap_append, List.filterMap_cons_some hnow] at hdistinct
  have hb := (List.nodup_cons.mp (List.nodup_append.mp hdistinct).2.1).1
  rintro rfl
  exact hb (List.mem_filterMap.mpr ⟨_, ha, rfl⟩)

/-- However guards are given back, dropped and lost, and whatever tokens are presented: a name
is held exactly while one acquisition of it, and no other, is outstanding; a held name is
refused; a release frees nothing but what its own token holds; and so the token of an earlier
acquisition, however late or often it comes, never frees a later holder's lock. -/
theorem held_while_outstanding {u : Usage} (h : Reachable u) :
    (∀ name, (u.scene.world.locks.isHeld name = true ↔ ∃ token, Outstanding u.log name token) ∧
      ∀ token, u.scene.world.locks.holder? name = some token ↔ Outstanding u.log name token) ∧
    (∀ name a b, Outstanding u.log name a → Outstanding u.log name b → a = b) ∧
    (u.log.filterMap issued?).Nodup ∧
    (∀ name, (u.scene.world.locks.isHeld name = true →
        u.scene.world.acquire name = (.ok none, u.scene.world)) ∧
      (u.scene.world.locks.isHeld name = false →
        ∃ token w, u.scene.world.acquire name = (.ok (some token), w))) ∧
    (∀ name token,
      (u.scene.world.locks.holder? name = none →
        u.scene.world.release name token = (.ok (), u.scene.world)) ∧
      (u.scene.world.locks.holder? name = some token →
        ∃ w, u.scene.world.release name token = (.ok (), w) ∧ ∀ n, w.locks.holder? n =
          if n = name then none else u.scene.world.locks.holder? n) ∧
      ∀ holder, u.scene.world.locks.holder? name = some holder → holder ≠ token →
        u.scene.world.release name token =
          (.error (.error (.lock (.heldElsewhere name))), u.scene.world)) ∧
    (∀ g, (.giveBack g ∈ u.scene.errands ∨ ∃ handle, u.scene.guards.get? handle = some g) →
      taken g.resource g.token ∈ u.log) ∧
    ∀ later past name a b, u.log = later ++ taken name b :: past → taken name a ∈ past →
      u.scene.world.locks.holder? name = some b →
      u.scene.world.release name a =
          (.error (.error (.lock (.heldElsewhere name))), u.scene.world) ∧
        u.scene.runErrand (.giveBack ⟨name, a⟩) = u.scene := by
  have hsound := sound_of_reachable h
  have hheld := hsound.ledger.held
  refine ⟨fun name => ⟨?_, hheld name⟩, fun name a b ha hb => ?_, hsound.ledger.distinct,
    fun name => ⟨World.acquire_of_held, World.acquire_of_free⟩,
    fun name token => ⟨World.release_of_free, World.release_of_holder,
      fun holder => World.release_of_other⟩, fun g hg => ?_, fun later past name a b hlog ha hb => ?_⟩
  · simp only [LockTable.isHeld_iff, hheld]
  · rw [← hheld] at ha hb
    exact Option.some.inj (ha.symm.trans hb)
  · obtain hg | ⟨handle, hg⟩ := hg
    · exact hsound.errands g hg
    · exact hsound.guards handle g hg
  · have hne := hsound.ne_of_later hlog ha
    refine ⟨World.release_of_other hb hne, ?_⟩
    have hr := LockTable.release?_eq_none_iff.mpr ⟨b, hb, hne⟩
    simp only [Scene.runErrand, Scene.tryRelease, hr]

/-! ## A lock given back too late -/

/-- Nobody has used a lock. -/
def unused : Usage := ⟨.initial .epoch 0, []⟩

/-- A script has taken a lock. -/
def firstTaken : Usage :=
  ⟨(unused.scene.perform (.acquire "a" "first")).2, [taken "a" (.issued 0)]⟩

/-- Its guard is dropped, and waits to give the lock back. -/
def firstDropped : Usage := ⟨(firstTaken.scene.perform (.dropGuard "first")).2, firstTaken.log⟩

/-- The lock is freed with the token of the guard. -/
def freedByToken : Usage :=
  ⟨(firstDropped.scene.tryRelease "a" (.issued 0) .nothing).2,
    freed "a" (.issued 0) :: firstDropped.log⟩

/-- The lock is taken again. -/
def secondTaken : Usage :=
  ⟨(freedByToken.scene.perform (.acquire "a" "second")).2,
    taken "a" (.issued 1) :: freedByToken.log⟩

/-- Only now the lock is given back for the guard that was dropped. -/
def overtaken : Usage :=
  ⟨({ secondTaken.scene with errands := [] }).runErrand (.giveBack ⟨"a", .issued 0⟩),
    rejected "a" (.issued 0) :: secondTaken.log⟩

theorem reachable_overtaken : Reachable overtaken := by
  have htake : Step unused firstTaken := .take (g := ⟨"a", .issued 0⟩) rfl
  have hdrop : Step firstTaken firstDropped := .drop "first"
  have hfree : Step firstDropped freedByToken := .present "a" (.issued 0)
  have htake' : Step freedByToken secondTaken := .take (g := ⟨"a", .issued 1⟩) rfl
  have hwaiting : secondTaken.scene.errands = [] ++ .giveBack ⟨"a", .issued 0⟩ :: [] := rfl
  have hgive : Step secondTaken overtaken := .giveBack hwaiting rfl
  have hrun : Relation.ReflTransGen Step unused overtaken :=
    ((((Relation.ReflTransGen.single htake).tail hdrop).tail hfree).tail htake').tail hgive
  exact ⟨unused.scene, ⟨rfl, rfl, rfl⟩, hrun⟩

/-- The lock that was taken again stays held. -/
theorem held_while_outstanding_overtaken : Reachable overtaken ∧
    overtaken.log = [rejected "a" (.issued 0), taken "a" (.issued 1), freed "a" (.issued 0),
      taken "a" (.issued 0)] ∧
    overtaken.scene.world.locks.holder? "a" = some (.issued 1) ∧
    overtaken.scene.world.release "a" (.issued 0) =
      (.error (.error (.lock (.heldElsewhere "a"))), overtaken.scene.world) := by
  have hholder : overtaken.scene.world.locks.holder? "a" = some (.issued 1) := by decide +kernel
  refine ⟨reachable_overtaken, rfl, hholder, ?_⟩
  have hlaw := (held_while_outstanding reachable_overtaken).2.2.2.2.2.2
  have hearlier : taken "a" (.issued 0) ∈ freedByToken.log :=
    List.mem_cons_of_mem _ List.mem_cons_self
  have hlog : overtaken.log =
      [rejected "a" (.issued 0)] ++ taken "a" (.issued 1) :: freedByToken.log := rfl
  exact (hlaw _ _ _ _ _ hlog hearlier hholder).1

end Usage

end Simulation

end FleetControl
