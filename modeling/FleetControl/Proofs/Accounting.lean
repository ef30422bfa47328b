import FleetControl.Proofs.Bracketing
import FleetControl.Proofs.Journal
import FleetControl.Proofs.Stage

/-!
# What a pass accounts for

The locks and the random order work, though taking a lock may fail; all other calls may be
answered in any way. A pass then attempts each listed candidate once, in some order, counts what
became of each attempt, and leaves no lock behind if the work on the candidates uses locks in
brackets.

The locks that are held before some work are the base on which it stands. Work in brackets never
uncovers its base, and it ends with the same names held by the same tokens.
-/
namespace FleetControl

open Program

namespace LockTable

variable {s t : LockTable} {name : String} {token : Token}

/-- Every name that is held in one table is held by the same token in another. -/
def Covers (t base : LockTable) : Prop :=
  ∀ name token, base.holder? name = some token → t.holder? name = some token

theorem holder?_of_held_eq (h : t.held = s.held) (n : String) : t.holder? n = s.holder? n := by
  simp only [holder?, h]

theorem Covers.of_held_eq {base : LockTable} (hs : s.Covers base) (h : t.held = s.held) :
    t.Covers base := by
  intro n holder hn
  rw [holder?_of_held_eq h]
  exact hs n holder hn

theorem Covers.acquire {base : LockTable} (h : t.Covers base) :
    (t.acquire name).2.Covers base := by
  intro n holder hn
  have ht := h n holder hn
  by_cases hname : n = name
  · subst hname
    rwa [acquire_of_held ht]
  · rwa [holder?_acquire_of_ne t hname]

/-- Taking a free name and giving it back with its token holds what was held before. -/
theorem release?_of_acquire {t' u : LockTable} (h : t.acquire name = (some token, t'))
    (hu : u.held = t'.held) : ∃ u', u.release? name token = some u' ∧ u'.held = t.held := by
  obtain ⟨hf, rfl, rfl⟩ := eq_of_taken h
  have hget : u.held.get? name = some (.issued t.issued) := by
    rw [hu]
    exact Table.get?_insert_self _ _ _
  refine ⟨{ u with held := u.held.erase name }, by simp [release?, hget], ?_⟩
  refine Table.ext_get? fun n => ?_
  rw [Table.get?_erase, hu]
  split
  · rename_i hn
    rw [hn]
    exact hf.symm
  · rename_i hn
    exact Table.get?_insert_of_ne _ _ hn

end LockTable

namespace World

/-- What may happen where the locks and the random order work. Taking a lock can fail before its
effect; everything else is answered in any way and changes anything but the locks. -/
def Locking : Behaviour World
  | .acquire name, w, r, w' => w.acquire name = (r, w') ∨ (∃ e, r = .error (.error e)) ∧ w' = w
  | .release name token, w, r, w' => w.release name token = (r, w')
  | .shuffle ids, w, r, w' => answer (.shuffle ids) w = (r, w')
  | .now, w, _, w' | .post _, w, _, w' | .note _, w, _, w' | .store _, w, _, w'
  | .provider _, w, _, w' => w'.locks = w.locks

theorem Locking.locks_eq {c : Call} {w w' : World} {r : Outcome c.Reply}
    (h : Locking c w r w') (hc : c.isLockless = true) : w'.locks = w.locks := by
  cases c with
  | shuffle ids =>
      cases h
      rfl
  | acquire | release => cases hc
  | _ => exact h

/-- What the world itself answers is possible. -/
theorem locking_answer (c : Call) (w : World) : Locking c w (answer c w).1 (answer c w).2 := by
  cases c with
  | acquire name => exact .inl rfl
  | release | shuffle => rfl
  | now | post | note | store | provider => exact locks_answer rfl

theorem exists_recorded (c : Call) (j : Journal World) : ∃ r j', Locking.recorded c j r j' :=
  ⟨_, _, _, locking_answer c j.state, rfl⟩

theorem Locking.of_acquire {name : String} {w w' : World} {r : Outcome (Option Token)}
    (h : Locking (.acquire name) w r w') :
    (∃ token, w.locks.acquire name = (token, w'.locks) ∧ r = .ok token ∧
        w' = (w.acquire name).2) ∨
      ∃ e, r = .error (.error e) ∧ w' = w := by
  obtain h | ⟨⟨e, he⟩, hw⟩ := h
  · cases h
    exact .inl ⟨_, rfl, rfl, rfl⟩
  · exact .inr ⟨e, he, hw⟩

theorem Locking.of_shuffle {ids : List String} {w w' : World} {r : Outcome (List String)}
    (h : Locking (.shuffle ids) w r w') :
    r = .ok (w.selector.shuffle ids).1 ∧ w' = { w with selector := (w.selector.shuffle ids).2 } := by
  cases h
  exact ⟨rfl, rfl⟩

end World

/-! ## Brackets close -/

/-- Work in brackets keeps all locks on which it stands, and ends with the same locks held. -/
theorem Program.Bracketed.follows {α : Type} {p : Program α} (h : p.Bracketed) {base : LockTable}
    {j : Journal World} (hb : j.state.locks.Covers base) :
    p.Follows World.Locking (fun _ e => e.before.locks.Covers base)
      (fun j' => j'.state.locks.held = j.state.locks.held)
      (fun _ j' => j'.state.locks.held = j.state.locks.held) j := by
  induction h generalizing j with
  | done r => cases r <;> rfl
  | call hc rest ih =>
      refine follows_call.mpr fun r w hw => ⟨hb, ?_⟩
      have hl : w.locks = j.state.locks := hw.locks_eq hc
      have hrest := ih r (j := j.enter _ r w) (by rwa [Journal.enter, hl])
      simpa only [Journal.enter, hl] using hrest
  | @exclusively α body name _ ih =>
      have htake : (perform (.acquire name)).Follows World.Locking
          (fun _ e => e.before.locks.Covers base)
          (fun j' => j'.state.locks.held = j.state.locks.held)
          (fun token j' => j.state.locks.acquire name = (token, j'.state.locks)) j := by
        refine follows_perform.mpr fun r w hw => ⟨hb, ?_⟩
        obtain ⟨token, ha, rfl, -⟩ | ⟨e, rfl, rfl⟩ := hw.of_acquire
        · exact ha
        · rfl
      refine .bind htake fun found j₁ ha _ => ?_
      cases found with
      | none =>
          show j₁.state.locks.held = j.state.locks.held
          rw [(LockTable.held_of_refused ha).2]
      | some token =>
          have hb₁ : j₁.state.locks.Covers base := by
            have hc : (j.state.locks.acquire name).2.Covers base := hb.acquire
            rwa [ha] at hc
          refine .bind (ih hb₁).contain fun outcome j₂ hsame _ => ?_
          have h₂ : j₂.state.locks.held = j₁.state.locks.held := hsame.same
          obtain ⟨t, ht, heq⟩ := LockTable.release?_of_acquire ha h₂
          have hgive : (perform (.release name token)).Follows World.Locking
              (fun _ e => e.before.locks.Covers base)
              (fun j' => j'.state.locks.held = j.state.locks.held)
              (fun _ j' => j'.state.locks.held = j.state.locks.held) j₂ := by
            refine follows_perform.mpr fun r w hw => ⟨hb₁.of_held_eq h₂, ?_⟩
            have hrelease : j₂.state.release name token
                = (.ok (), { j₂.state with locks := t }) := by rw [World.release, ht]
            cases hrelease.symm.trans hw
            exact heq
          refine .bind hgive.attempt fun _ j₃ h₃ _ => ?_
          cases outcome <;> exact h₃.same
  | bind _ rest ih ihrest =>
      refine .bind (ih hb) fun a j₁ h₁ _ => ?_
      exact (ihrest a (hb.of_held_eq h₁)).mono (fun _ _ => id) (fun _ h => h.trans h₁)
        fun _ _ h => h.trans h₁
  | attempt _ ih => exact (ih hb).attempt.mono (fun _ _ => id) (fun _ => id) fun _ _ h => h.same
  | contain _ ih => exact (ih hb).contain.mono (fun _ _ => id) (fun _ => id) fun _ _ h => h.same

section

variable {α : Type} {p : Program α} {w : World} {out : Outcome α} {j' : Journal World}

/-- After work in brackets the same names are held by the same tokens. -/
theorem Program.Bracketed.held_eq (h : p.Bracketed)
    (he : p.Ends World.Locking.recorded (.start w) out j') : j'.state.locks.held = w.locks.held := by
  have hself : w.locks.Covers w.locks := fun _ _ => id
  have hw := (h.follows (j := .start w) hself).ends he
  cases out <;> exact hw

/-- What is held before work in brackets stays held all the time. -/
theorem Program.Bracketed.covers (h : p.Bracketed)
    (he : p.Ends World.Locking.recorded (.start w) out j') {e : Entry World} (hm : e ∈ j'.log) :
    e.before.locks.Covers w.locks := by
  have hself : w.locks.Covers w.locks := fun _ _ => id
  have hall := (h.follows (j := .start w) hself).admits he trivial
  obtain ⟨later, past, hlog⟩ := List.append_of_mem hm
  rw [hlog] at hall
  exact hall.of_append

/-- A lock that was taken in work in brackets is free after it. -/
theorem Program.Bracketed.free_of_taken (h : p.Bracketed)
    (he : p.Ends World.Locking.recorded (.start w) out j') {v v' : World} {name : String}
    {token : Token} (hm : ⟨v, .acquire name, .ok (some token), v'⟩ ∈ j'.log) :
    j'.state.locks.isHeld name = false := by
  have hv := ((he.traces .nil).possible hm).of_acquire
  obtain ⟨found, ha, hr, -⟩ | ⟨e, hr, -⟩ := hv <;> cases hr
  have hfree := (LockTable.eq_of_taken ha).1
  cases hn : w.locks.holder? name with
  | none => simpa [LockTable.isHeld, LockTable.holder?, Table.contains, h.held_eq he] using hn
  | some holder =>
      have hkept := h.covers he hm name holder hn
      rw [hfree] at hkept
      cases hkept

end

/-! ## Every candidate counts -/

namespace Controller

/-- What becomes of a candidate and of what was entered before. -/
inductive Handles (c : Controller) (id : String) (j : Journal World) :
    Attempt → Journal World → Prop where
  /-- A controller without locks of its own for candidates goes to work at once. -/
  | unlocked {r : Outcome Unit} {j' : Journal World} (hp : c.lockPrefix = none)
      (work : (c.process id).Ends World.Locking.recorded j r j') :
      Handles c id j (attemptOf r) j'
  | refused {pre : String} (hp : c.lockPrefix = some pre) (e : ControlError) :
      Handles c id j .failed
        (j.enter (.acquire (lockOf pre id)) (.error (.error e)) j.state)
  | contended {pre : String} (hp : c.lockPrefix = some pre)
      (held : j.state.locks.isHeld (lockOf pre id) = true) :
      Handles c id j .contended (j.enter (.acquire (lockOf pre id)) (.ok none) j.state)
  | locked {pre : String} {token : Token} {r : Outcome Unit} {j' : Journal World}
      (hp : c.lockPrefix = some pre)
      (taken : (j.state.acquire (lockOf pre id)).1 = .ok (some token))
      (work : (c.process id).Ends World.Locking.recorded
        (j.enter (.acquire (lockOf pre id)) (.ok (some token))
          (j.state.acquire (lockOf pre id)).2) r j') :
      Handles c id j (attemptOf r)
        (j'.enter (.release (lockOf pre id) token) (j'.state.release (lockOf pre id) token).1
          (j'.state.release (lockOf pre id) token).2)

/-- One candidate after the other is handled. -/
inductive HandlesAll (c : Controller) :
    List String → Journal World → List Attempt → Journal World → Prop where
  | nil (j : Journal World) : HandlesAll c [] j [] j
  | cons {id : String} {ids : List String} {a : Attempt} {as : List Attempt}
      {j j₁ j₂ : Journal World} (first : c.Handles id j a j₁) (rest : c.HandlesAll ids j₁ as j₂) :
      HandlesAll c (id :: ids) j (a :: as) j₂

variable {c : Controller} {id : String} {j j' : Journal World}

theorem HandlesAll.length_eq {ids : List String} {as : List Attempt}
    (h : c.HandlesAll ids j as j') : as.length = ids.length := by
  induction h with
  | nil => rfl
  | cons _ _ ih => simp [ih]

/-- Giving a lock back never stops what follows. -/
theorem ends_givingBack {α : Type} {name : String} {token : Token} {after : Program α}
    {r : Outcome α} (he : ((perform (.release name token)).attempt.bind fun _ => after).Ends
      World.Locking.recorded j r j') :
    after.Ends World.Locking.recorded (j.enter (.release name token)
      (j.state.release name token).1 (j.state.release name token).2) r j' := by
  obtain ⟨f, hgive, -⟩ | ⟨_, j₁, hgive, hrest⟩ := Ends.of_bind he
  · obtain ⟨q, hq, hf⟩ := hgive.of_attempt
    obtain ⟨w, hw, -⟩ := hq.of_perform
    have hq' : (j.state.release name token).1 = q := congrArg Prod.fst hw
    subst hq'
    rw [World.release] at hf
    split at hf <;> cases hf
  · obtain ⟨q, hq, -⟩ := hgive.of_attempt
    obtain ⟨w, hw, rfl⟩ := hq.of_perform
    have hw' : j.state.release name token = (q, w) := hw
    rw [hw']
    exact hrest

/-- Work under a lock fails to take it, is refused, or takes it, is done and gives it back. -/
theorem ends_exclusively {α : Type} {name : String} {body : Program α} {r : Outcome (Option α)}
    (he : (exclusively name body).Ends World.Locking.recorded j r j') :
    (∃ e, r = .error (.error e) ∧
        j' = j.enter (.acquire name) (.error (.error e)) j.state) ∨
      (r = .ok none ∧ j.state.locks.isHeld name = true ∧
        j' = j.enter (.acquire name) (.ok none) j.state) ∨
      ∃ token q j₁, (j.state.acquire name).1 = .ok (some token) ∧
        body.Ends World.Locking.recorded
          (j.enter (.acquire name) (.ok (some token)) (j.state.acquire name).2) q j₁ ∧
        j' = j₁.enter (.release name token) (j₁.state.release name token).1
          (j₁.state.release name token).2 ∧
        ((∃ a, q = .ok a ∧ r = .ok (some a)) ∨
          ∃ f, q = .error f ∧ r = .error (.error f.contained)) := by
  obtain ⟨f, htake, rfl⟩ | ⟨found, j₁, htake, hrest⟩ := Ends.of_bind he
  · obtain ⟨w, hw, rfl⟩ := htake.of_perform
    obtain ⟨token, -, hr, -⟩ | ⟨e, hr, rfl⟩ := hw.of_acquire <;> cases hr
    exact .inl ⟨e, rfl, rfl⟩
  · obtain ⟨w, hw, rfl⟩ := htake.of_perform
    obtain ⟨found', ha, hr, hw'⟩ | ⟨e, hr, -⟩ := hw.of_acquire <;> cases hr
    cases found with
    | none =>
        cases hrest
        obtain ⟨hheld, hsame⟩ := LockTable.held_of_refused ha
        have hstate : w = j.state := by
          rw [hw', World.acquire, ha, hsame]
        rw [hstate]
        exact .inr (.inl ⟨rfl, hheld, rfl⟩)
    | some token =>
        have htaken : (j.state.acquire name).1 = .ok (some token) := by
          simp only [World.acquire, ha]
        subst hw'
        refine .inr (.inr ⟨token, ?_⟩)
        obtain ⟨f, hbody, -⟩ | ⟨outcome, j₂, hbody, hafter⟩ := Ends.of_bind hrest
        · obtain ⟨q, -, hq⟩ := hbody.of_contain
          cases q <;> cases hq
        · obtain ⟨q, hq, hcontained⟩ := hbody.of_contain
          have hlast := ends_givingBack hafter
          refine ⟨q, j₂, htaken, hq, ?_⟩
          cases q <;> cases hcontained <;> cases hlast
          all_goals refine ⟨rfl, ?_⟩
          · exact .inr ⟨_, rfl, rfl⟩
          · exact .inl ⟨_, rfl, rfl⟩

/-- Every attempt has a result, whatever the work on the candidate comes to. -/
theorem handles_of_ends {out : Outcome Attempt}
    (he : (c.attempt id).Ends World.Locking.recorded j out j') :
    ∃ a, out = .ok a ∧ c.Handles id j a j' := by
  rw [attempt] at he
  cases hp : c.lockPrefix with
  | none =>
      simp only [hp] at he
      obtain ⟨f, hwork, -⟩ | ⟨outcome, j₁, hwork, hrest⟩ := Ends.of_bind he
      · obtain ⟨q, -, hq⟩ := hwork.of_contain
        cases q <;> cases hq
      · obtain ⟨q, hq, hcontained⟩ := hwork.of_contain
        cases q <;> cases hcontained <;> cases hrest
        · exact ⟨_, rfl, .unlocked hp hq⟩
        · exact ⟨_, rfl, .unlocked hp hq⟩
  | some pre =>
      simp only [hp] at he
      obtain ⟨f, hwork, -⟩ | ⟨outcome, j₁, hwork, hrest⟩ := Ends.of_bind he
      · obtain ⟨q, hq, hf⟩ := hwork.of_attempt
        obtain ⟨e, rfl, -⟩ | ⟨rfl, -⟩ | ⟨_, _, _, -, -, -, ⟨a, -, rfl⟩ | ⟨_, -, rfl⟩⟩ :=
          ends_exclusively hq <;> cases hf
      · obtain ⟨q, hq, hf⟩ := hwork.of_attempt
        obtain ⟨e, rfl, rfl⟩ | ⟨rfl, hheld, rfl⟩ |
          ⟨token, q', j₂, htaken, hbody, rfl, ⟨u, rfl, rfl⟩ | ⟨g, rfl, rfl⟩⟩ :=
            ends_exclusively hq <;> cases hf <;> cases hrest
        · exact ⟨_, rfl, .refused hp e⟩
        · exact ⟨_, rfl, .contended hp hheld⟩
        · exact ⟨_, rfl, .locked hp htaken hbody⟩
        · exact ⟨_, rfl, .locked hp htaken hbody⟩

theorem handlesAll_of_ends {ids : List String} {report : PassReport} {out : Outcome PassReport}
    (he : (c.attemptAll ids report).Ends World.Locking.recorded j out j') :
    ∃ as, c.HandlesAll ids j as j' ∧ out = .ok (as.foldl PassReport.count report) := by
  induction ids generalizing j report with
  | nil =>
      cases he
      exact ⟨[], .nil _, rfl⟩
  | cons id ids ih =>
      obtain ⟨f, hfirst, -⟩ | ⟨a, j₁, hfirst, hrest⟩ := Ends.of_bind he
      · obtain ⟨a, ha, -⟩ := handles_of_ends hfirst
        cases ha
      · obtain ⟨a', ha, hhandles⟩ := handles_of_ends hfirst
        cases ha
        obtain ⟨as, hall, hout⟩ := ih hrest
        exact ⟨a :: as, .cons hhandles hall, hout⟩

end Controller

/-- Counting some attempts adds the numbers of those that ended in each way. -/
theorem PassReport.foldl_count (as : List Attempt) (r : PassReport) :
    as.foldl PassReport.count r = ⟨r.candidates, r.processed + as.count .processed,
      r.contended + as.count .contended, r.failed + as.count .failed⟩ := by
  induction as generalizing r with
  | nil => rfl
  | cons a as ih =>
      rw [List.foldl_cons, ih]
      cases a <;> simp [PassReport.count] <;> omega

/-- Every attempt ended in one of the three ways. -/
theorem Attempt.sum_count (as : List Attempt) :
    as.count .processed + as.count .contended + as.count .failed = as.length := by
  induction as with
  | nil => rfl
  | cons a as ih => cases a <;> simp <;> omega

namespace Controller

variable {c : Controller} {j j' : Journal World}

/-- What a pass comes to from where its listing has ended. -/
def Accounts (c : Controller) (j : Journal World) (out : Outcome PassReport)
    (j' : Journal World) : Outcome (List String) → Prop
  | .ok ids => ∃ order selector as, j.state.selector.shuffle ids = (order, selector) ∧
      order.Perm ids ∧
      c.HandlesAll order
        (j.enter (.shuffle ids) (.ok order) { j.state with selector := selector }) as j' ∧
      as.length = ids.length ∧
      ids.length = as.count .processed + as.count .contended + as.count .failed ∧
      out = .ok ⟨ids.length, as.count .processed, as.count .contended, as.count .failed⟩
  | .error (.error _) => out = .ok (.start 0) ∧ j' = j
  | .error (.crash payload) => out = .error (.crash payload) ∧ j' = j

/-- A pass lists candidates and accounts for what was listed. -/
theorem accounts_of_ends {out : Outcome PassReport}
    (he : c.pass.Ends World.Locking.recorded j out j') :
    ∃ listed j₁, c.candidates.Ends World.Locking.recorded j listed j₁ ∧
      c.Accounts j₁ out j' listed := by
  obtain ⟨f, hlist, rfl⟩ | ⟨found, j₁, hlist, hrest⟩ := Ends.of_bind he
  · obtain ⟨q, hq, hf⟩ := hlist.of_attempt
    rcases q with (e | payload) | ids <;> cases hf
    exact ⟨_, j', hq, rfl, rfl⟩
  · obtain ⟨q, hq, hf⟩ := hlist.of_attempt
    rcases q with (e | payload) | ids <;> cases hf
    · cases hrest
      exact ⟨_, j', hq, rfl, rfl⟩
    · refine ⟨_, j₁, hq, ?_⟩
      obtain ⟨f, hshuffle, -⟩ | ⟨order, j₂, hshuffle, hattempts⟩ := Ends.of_bind hrest
      · obtain ⟨w, hw, -⟩ := hshuffle.of_perform
        cases hw.of_shuffle.1
      · obtain ⟨w, hw, rfl⟩ := hshuffle.of_perform
        obtain ⟨horder, rfl⟩ := hw.of_shuffle
        cases horder
        obtain ⟨as, hall, rfl⟩ := handlesAll_of_ends hattempts
        have hperm := j₁.state.selector.shuffle_perm ids
        have hlength := hall.length_eq.trans hperm.length_eq
        refine ⟨_, _, as, rfl, hperm, hall, hlength, ?_, ?_⟩
        · rw [Attempt.sum_count, hlength]
        · simp only [PassReport.foldl_count, PassReport.start, hperm.length_eq, Nat.zero_add]

/-- Whatever fails, a pass ends. It attempts what was listed, each occurrence once, in an order
that the selector draws, and its report counts the attempts by how they ended. Where locks are
used in brackets, as by every controller that can be switched on, the pass gives back what it
takes and leaves what others hold. -/
theorem pass_accounts :
    (∀ config : Config, ∀ worker ∈ config.workers, worker.controller.Bracketed) ∧
    ∀ (c : Controller) (w : World),
      (∃ out j', c.pass.Ends World.Locking.recorded (.start w) out j') ∧
      ∀ out j', c.pass.Ends World.Locking.recorded (.start w) out j' →
        (∃ listed j₁, c.candidates.Ends World.Locking.recorded (.start w) listed j₁ ∧
          c.Accounts j₁ out j' listed) ∧
        (c.Bracketed → j'.state.locks.held = w.locks.held ∧
          ∀ v name token v', ⟨v, .acquire name, .ok (some token), v'⟩ ∈ j'.log →
            w.locks.isHeld name = false ∧ j'.state.locks.isHeld name = false) := by
  refine ⟨fun config worker => bracketed_workers config, fun c w => ⟨?_, fun out j' he => ?_⟩⟩
  · exact exists_ends World.exists_recorded c.pass (.start w)
  · refine ⟨accounts_of_ends he, fun hc => ?_⟩
    have hheld := hc.pass.held_eq he
    refine ⟨hheld, fun v name token v' hm => ?_⟩
    have hfree := hc.pass.free_of_taken he hm
    refine ⟨?_, hfree⟩
    rwa [LockTable.isHeld, ← hheld]

/-- A controller with a candidate for each way in which an attempt can end. -/
def motley : Controller where
  name := "motley"
  lockPrefix := some "ITEM"
  candidates := pure ["calm", "wild", "held", "lost", "calm"]
  process id := do
    let _ ← exclusively "INNER" readClock
    if id = "wild" then Program.crash none

theorem bracketed_motley : motley.Bracketed where
  candidates := .done _
  process id := by
    refine .bind (.exclusively _ (bracketed_perform rfl)) fun _ => ?_
    split <;> exact .done _

/-- A world in which somebody else holds the lock of one of the candidates. -/
def motleyWorld : World :=
  { World.initial .epoch default with
    locks := ⟨Table.empty.insert "ITEM-held" (.foreign "other"), 0⟩ }

/-- The lock of one candidate cannot be taken at all. -/
def losesLock (_ : List (Entry World)) : Call → Option Fault
  | .acquire name => if name = "ITEM-lost" then some (.error (.lock (.connection name))) else none
  | _ => none

def motleyRun : Outcome PassReport × Journal World :=
  motley.pass.run (failing losesLock) (.start motleyWorld)

theorem ends_motley :
    motley.pass.Ends World.Locking.recorded (.start motleyWorld) motleyRun.1 motleyRun.2 := by
  refine ends_handler (fun c j => ?_) _ _
  cases hc : losesLock j.log c with
  | none =>
      simp only [failing, hc]
      exact ⟨_, World.locking_answer c j.state, rfl⟩
  | some f =>
      simp only [failing, hc]
      unfold losesLock at hc
      split at hc
      · split at hc <;> cases hc
        exact ⟨_, .inr ⟨⟨_, rfl⟩, rfl⟩, rfl⟩
      · cases hc

/-- A pass in which some attempt ends in each of the ways. Whoever gets to work takes a second
lock. -/
theorem pass_accounts_motley : motleyRun.1.toOption = some ⟨5, 2, 1, 2⟩ ∧
    motleyRun.2.state.locks.held = motleyWorld.locks.held ∧ motleyRun.2.state.locks.issued = 6 := by
  have hrun := (pass_accounts.2 motley motleyWorld).2 _ _ ends_motley
  have hheld := (hrun.2 bracketed_motley).1
  exact ⟨by decide +kernel, hheld, by decide +kernel⟩

end Controller

end FleetControl
