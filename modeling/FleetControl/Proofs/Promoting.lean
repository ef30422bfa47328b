import FleetControl.Proofs.Footprint
import FleetControl.Proofs.Journal

/-!
# How an attempt to promote proceeds

An attempt knows its own calls and their answers only. It reads the environment, looks for a
candidate, takes the lock of the environment and reads it again. Whatever it is answered, it
writes only between taking the lock and giving it back, each write right after the reading
that allows it. If the second reading finds another deploy than the first one, nothing is left
to do but to give the lock back.
-/
namespace FleetControl

open Program

namespace Call

/-- An answer about one record is about the record that was asked for, and giving a lock back
crashes only with a fault from `raises`. -/
def IsProper (raises : Fault → Prop) : (c : Call) → Outcome c.Reply → Prop
  | .store (.getEnvironment id), .ok (some env) => env.id = id
  | .store (.getDeploy id), .ok (some d) => d.id = id
  | .release _ _, .error (.crash payload) => raises (.crash payload)
  | _, _ => True

/-- Calls are answered in any proper way. -/
def proper (raises : Fault → Prop) : Behaviour Unit := fun c _ r _ => c.IsProper raises r

/-- Whether a call records a new deploy. -/
def creates : Call → Bool
  | .store (.createDeploy _) => true
  | _ => false

theorem not_creates_of_isQuery {c : Call} (h : c.isQuery = true) : c.creates = false := by
  unfold creates
  split
  · cases h
  · rfl

end Call

namespace Entry

/-- The environment that was read. -/
def environment? (id : EnvId) : Entry Unit → Option Environment
  | ⟨_, .store (.getEnvironment id'), .ok found, _⟩ => if id' = id then found else none
  | _ => none

/-- The token held after a call, if this one was held before it. -/
def tokenAfter (before : Option Token) : Entry Unit → Option Token
  | ⟨_, .acquire _, .ok (some token), _⟩ => some token
  | ⟨_, .release _ _, _, _⟩ => none
  | _ => before

theorem tokenAfter_of_isLockless {c : Call} {r : Outcome c.Reply} (before : Option Token)
    (h : c.isLockless = true) : (bare c r).tokenAfter before = before := by
  cases c <;> first | rfl | cases h

end Entry

namespace Call

theorem isLockless_of_isQuery {c : Call} (h : c.isQuery = true) : c.isLockless = true := by
  cases c <;> first | rfl | cases h

end Call

namespace Promotion

/-! ## What an attempt knows -/

/-- The token of the lock that was taken and not given back. -/
def held : List (Entry Unit) → Option Token
  | [] => none
  | e :: past => e.tokenAfter (held past)

/-- The deploy that the first reading of the environment found to be the current one. -/
def observed (id : EnvId) : List (Entry Unit) → Option (Option String)
  | [] => none
  | e :: past => (observed id past).or ((e.environment? id).map Environment.deployId)

/-- A reading of the environment under the lock found another deploy than the first reading. -/
def Mismatched (id : EnvId) : List (Entry Unit) → Prop
  | [] => False
  | e :: past => Mismatched id past ∨ (held past).isSome = true ∧
      ∃ env ∈ e.environment? id, ∃ o ∈ observed id past, env.deployId ≠ o

instance decidableMismatched (id : EnvId) :
    (log : List (Entry Unit)) → Decidable (Mismatched id log)
  | [] => isFalse not_false
  | _ :: past =>
      have := decidableMismatched id past
      inferInstanceAs (Decidable (_ ∨ _))

/-- What an attempt may call after what it has called: it reads freely and takes the lock when
it does not hold it. Under the lock it records a deploy right after it has read that the
environment has the observed one, switches the promotion settings right after it has read
that they are automatic, and tells so right after that. -/
inductive Script (id : EnvId) (past : List (Entry Unit)) : Call → Prop where
  | looks {c : Call} (hc : c.isQuery = true) : Script id past c
  | takes (hfree : held past = none) : Script id past (.acquire (lockOf lockPrefix id))
  | gives {token : Token} (hheld : held past = some token) :
      Script id past (.release (lockOf lockPrefix id) token)
  | creates {d : NewDeploy} {env : Environment} {older : List (Entry Unit)}
      (hpast : past = .bare (.store (.getEnvironment id)) (.ok (some env)) :: older)
      (hheld : (held older).isSome = true) (hsaw : observed id past = some env.deployId)
      (hd : d.envId = id) : Script id past (.store (.createDeploy d))
  | switches {rule : PromotionRule} {older : List (Entry Unit)}
      (hpast : past = .bare (.store (.promoteConfig id)) (.ok (some rule)) :: older)
      (hheld : (held older).isSome = true) (hauto : rule.kind = .auto) :
      Script id past (.store (.setPromoteKind id .manual))
  | tells {n : Notification} {older : List (Entry Unit)}
      (hpast : past = .bare (.store (.setPromoteKind id .manual)) (.ok ()) :: older)
      (hheld : (held older).isSome = true) : Script id past (.post n)

/-- The script, which after a mismatch only gives the lock back and has not recorded a deploy
before. -/
def script (id : EnvId) : Rule Unit := fun past e =>
  Script id past e.call ∧
    (Mismatched id past → ∃ name token, e.call = .release name token) ∧
    (Mismatched id (e :: past) → ∀ a ∈ e :: past, a.call.creates = false)

/-- The last call was to give the lock back, and it crashed with a fault from `raises`. -/
def Collapsed (raises : Fault → Prop) (log : List (Entry Unit)) : Prop :=
  ∃ name token payload past, raises (.crash payload) ∧
    log = .bare (.release name token) (.error (.crash payload)) :: past

/-- How an attempt may end in a fault. -/
def Fails (raises : Fault → Prop) (id : EnvId) (j : Journal Unit) : Prop :=
  Mismatched id j.log → Collapsed raises j.log

/-- How an attempt may end with a result. -/
def Finishes (id : EnvId) (a : Result) (j : Journal Unit) : Prop :=
  Mismatched id j.log → a = .abandoned

/-- Whatever it is properly answered, a part of an attempt keeps to the script. -/
abbrev Obeys {α : Type} (raises : Fault → Prop) (id : EnvId) (p : Program α)
    (Q : α → Journal Unit → Prop) (j : Journal Unit) : Prop :=
  p.Follows (Call.proper raises) (script id) (Fails raises id) Q j

/-- What is left of an attempt that has only to give the lock back, or nothing, before it ends
as abandoned. Only a crash of that last call keeps it from ending so. -/
inductive Closes : Program Result → Prop where
  | done : Closes (.done (.ok .abandoned))
  | release {name : String} {token : Token} {next : Outcome Unit → Program Result}
      (h : ∀ r, (∀ payload, r ≠ .error (.crash payload)) → next r = .done (.ok .abandoned)) :
      Closes (.call (.release name token) next)

section

variable {id : EnvId} {log past : List (Entry Unit)} {e : Entry Unit} {c : Call}
  {r : Outcome c.Reply} {t : Option Token} {o : Option String}

theorem mismatched_cons_of_free (h : held past = none) :
    Mismatched id (e :: past) ↔ Mismatched id past := by
  simp [Mismatched, h]

theorem mismatched_cons_of_unread (h : e.environment? id = none) :
    Mismatched id (e :: past) ↔ Mismatched id past := by
  simp [Mismatched, h]

/-- The first reading is the one that counts. -/
theorem observed_cons (h : observed id past = some o) : observed id (e :: past) = some o := by
  rw [observed, h, Option.some_or]

@[simp] theorem environment?_read {env : Environment} :
    (Entry.bare (.store (.getEnvironment id)) (.ok (some env))).environment? id = some env := by
  simp [Entry.environment?]

/-- An attempt that has read the environment and seen nothing else since, with the token of
the lock if it holds it. -/
structure Observing (id : EnvId) (t : Option Token) (o : Option String)
    (log : List (Entry Unit)) : Prop where
  holds : held log = t
  saw : observed id log = some o
  agrees : ¬Mismatched id log
  fresh : ∀ e ∈ log, e.call.creates = false

/-- An attempt that holds the lock and has found nothing wrong. -/
structure Settled (id : EnvId) (token : Token) (log : List (Entry Unit)) : Prop where
  holds : held log = some token
  agrees : ¬Mismatched id log

theorem Observing.settled {token : Token} (h : Observing id (some token) o log) :
    Settled id token log := ⟨h.holds, h.agrees⟩

/-- What the script allows is allowed as long as nothing else was seen. -/
theorem script_of_agrees (hs : Script id past e.call) (h : ¬Mismatched id past)
    (h' : ¬Mismatched id (e :: past)) : script id past e :=
  ⟨hs, fun hm => absurd hm h, fun hm => absurd hm h'⟩

theorem Observing.cons (h : Observing id t o past) (ht : e.tokenAfter t = t)
    (hm : ¬Mismatched id (e :: past)) (hc : e.call.creates = false) :
    Observing id t o (e :: past) where
  holds := by rw [held, h.holds, ht]
  saw := observed_cons h.saw
  agrees := hm
  fresh := List.forall_mem_cons.mpr ⟨hc, h.fresh⟩

/-- Looking around without the lock is allowed and changes nothing. -/
theorem Observing.look (h : Observing id none o log) (hc : c.isQuery = true) :
    script id log (.bare c r) ∧ Observing id none o (.bare c r :: log) := by
  have hm : ¬Mismatched id (.bare c r :: log) := by
    rw [mismatched_cons_of_free h.holds]
    exact h.agrees
  exact ⟨script_of_agrees (.looks hc) h.agrees hm,
    h.cons (Entry.tokenAfter_of_isLockless _ (Call.isLockless_of_isQuery hc)) hm
      (Call.not_creates_of_isQuery hc)⟩

/-- Reading the environment again under the lock is allowed. Unless that finds another deploy
the attempt is settled. -/
theorem Observing.reread {token : Token} {r : Outcome (Option Environment)}
    (h : Observing id (some token) o log) :
    script id log (.bare (.store (.getEnvironment id)) r) ∧
      (∀ e ∈ Entry.bare (.store (.getEnvironment id)) r :: log, e.call.creates = false) ∧
      ((∀ fresh, r = .ok (some fresh) → fresh.deployId = o) →
        Settled id token (.bare (.store (.getEnvironment id)) r :: log)) := by
  have hfresh : ∀ e ∈ Entry.bare (.store (.getEnvironment id)) r :: log,
      e.call.creates = false := List.forall_mem_cons.mpr ⟨rfl, h.fresh⟩
  refine ⟨⟨.looks rfl, fun hm => absurd hm h.agrees, fun _ => hfresh⟩, hfresh, fun hr => ?_⟩
  refine ⟨h.holds, ?_⟩
  rintro (hm | ⟨-, env, he, o', ho, hne⟩)
  · exact h.agrees hm
  · cases h.saw.symm.trans ho
    rcases r with f | _ | fresh
    · cases he
    · simp [Entry.environment?] at he
    · cases environment?_read.symm.trans he
      exact hne (hr env rfl)

/-- A call of the script that neither reads the environment nor concerns the lock leaves an
attempt settled. -/
theorem Settled.act {token : Token} (h : Settled id token log) (hs : Script id log c)
    (hc : c.isLockless = true) (hr : (Entry.bare c r).environment? id = none) :
    script id log (.bare c r) ∧ Settled id token (.bare c r :: log) := by
  have hm : ¬Mismatched id (.bare c r :: log) := by
    rw [mismatched_cons_of_unread hr]
    exact h.agrees
  exact ⟨script_of_agrees hs h.agrees hm,
    by rw [held, h.holds, Entry.tokenAfter_of_isLockless _ hc], hm⟩

end

/-! ## Under the lock -/

section

variable {α : Type} {raises : Fault → Prop} {id : EnvId} {token : Token} {o : Option String}
  {j : Journal Unit}

/-- What work under the lock leaves: the lock is still held, and if another deploy was seen,
nothing was recorded and `M` holds. -/
def Leaves (id : EnvId) (token : Token) (M : Prop) (j : Journal Unit) : Prop :=
  held j.log = some token ∧
    (Mismatched id j.log → M ∧ ∀ e ∈ j.log, e.call.creates = false)

theorem Settled.leaves {M : Prop} (h : Settled id token j.log) : Leaves id token M j :=
  ⟨h.holds, fun hm => absurd hm h.agrees⟩

/-- Taking the lock keeps to the script. -/
theorem obeys_acquire (hj : Observing id none o j.log) :
    Obeys raises id (perform (.acquire (lockOf lockPrefix id))) (fun found j' =>
      ¬Mismatched id j'.log ∧
        ∀ token, found = some token → Observing id (some token) o j'.log) j := by
  refine follows_perform.mpr fun r _ _ => ?_
  have hm : ¬Mismatched id (.bare (.acquire (lockOf lockPrefix id)) r :: j.log) := by
    rw [mismatched_cons_of_free hj.holds]
    exact hj.agrees
  refine ⟨script_of_agrees (.takes hj.holds) hj.agrees hm, ?_⟩
  cases r with
  | error f => exact fun h => absurd h hm
  | ok found =>
      refine ⟨hm, ?_⟩
      rintro token rfl
      exact ⟨rfl, observed_cons hj.saw, hm, List.forall_mem_cons.mpr ⟨rfl, hj.fresh⟩⟩

/-- So does giving it back, after a mismatch too. -/
theorem obeys_release (hheld : held j.log = some token)
    (hfresh : Mismatched id j.log → ∀ e ∈ j.log, e.call.creates = false) :
    Obeys raises id (perform (.release (lockOf lockPrefix id) token)).attempt
      (fun _ j' => Mismatched id j'.log → Mismatched id j.log) j := by
  refine follows_call.mpr fun r _ hb =>
    ⟨⟨.gives hheld, fun _ => ⟨_, _, rfl⟩, fun hm => ?_⟩, ?_⟩
  · rw [mismatched_cons_of_unread rfl] at hm
    exact List.forall_mem_cons.mpr ⟨rfl, hfresh hm⟩
  · rcases r with (e | payload) | _
    · exact (mismatched_cons_of_unread rfl).mp
    · exact fun _ => ⟨_, _, payload, _, hb, rfl⟩
    · exact (mismatched_cons_of_unread rfl).mp

/-- Work between taking the lock and giving it back. -/
theorem obeys_exclusively {body : Program α} {P : α → Prop} (hj : Observing id none o j.log)
    (hbody : ∀ token j', Observing id (some token) o j'.log →
      body.Follows (Call.proper raises) (script id) (Leaves id token False)
        (fun a => Leaves id token (P a)) j') :
    Obeys raises id (exclusively (lockOf lockPrefix id) body)
      (fun a j' => Mismatched id j'.log → ∃ v, a = some v ∧ P v) j := by
  refine .bind (obeys_acquire hj) fun found j₁ h₁ _ => ?_
  cases found with
  | none => exact fun hm => absurd hm h₁.1
  | some token =>
      have hworked : Obeys raises id body.contain
          (Tries (Leaves id token False) fun a => Leaves id token (P a)) j₁ :=
        (hbody token j₁ (h₁.2 token rfl)).contain
      refine .bind hworked fun outcome j₂ hleft _ => ?_
      have hgiven : Obeys raises id (perform (.release (lockOf lockPrefix id) token)).attempt
          (fun _ j' => Mismatched id j'.log → Mismatched id j₂.log) j₂ := by
        cases outcome <;> exact obeys_release hleft.1 fun hm => (hleft.2 hm).2
      refine .bind hgiven fun _ j₃ hback _ => ?_
      cases outcome with
      | error e => exact fun hm => (hleft.2 (hback hm)).1.elim
      | ok a => exact fun hm => ⟨a, rfl, (hleft.2 (hback hm)).1⟩

/-- Switching to manual promotion keeps to the script. -/
theorem follows_endAutomation {env : Environment} (henv : env.id = id) (failed : String)
    (hj : Settled id token j.log) :
    (endAutomation env failed).Follows (Call.proper raises) (script id)
      (fun j' => Settled id token j'.log) (fun _ j' => Settled id token j'.log) j := by
  subst henv
  refine follows_call.mpr fun r _ _ => ?_
  obtain ⟨hs, hread⟩ := hj.act (r := r) (.looks rfl) rfl rfl
  refine ⟨hs, ?_⟩
  rcases r with f | found
  · exact hread
  by_cases hauto : found.any (fun c => c.kind == .auto) = true
  · obtain ⟨rule, rfl, hkind⟩ : ∃ rule, found = some rule ∧ rule.kind = .auto := by
      simpa [Option.any_eq_true] using hauto
    have hheld : (held j.log).isSome = true := by rw [hj.holds]; rfl
    simp only [Program.bind, hauto, if_true]
    refine follows_call.mpr fun r _ _ => ?_
    obtain ⟨hs, hset⟩ := hread.act (r := r) (.switches rfl hheld hkind) rfl rfl
    refine ⟨hs, ?_⟩
    cases r with
    | error f => exact hset
    | ok u =>
        refine follows_call.mpr fun r _ _ => ?_
        have hheld' := congrArg Option.isSome hread.holds
        obtain ⟨hs, htold⟩ := hset.act (r := r) (.tells rfl hheld') rfl rfl
        refine ⟨hs, ?_⟩
        cases r <;> exact htold
  · simp only [Program.bind, hauto]
    exact hread

/-- Recording the candidate keeps to the script. -/
theorem obeys_promoteCandidate {env : Environment} (henv : env.id = id)
    {candidate : NewDeploy} (hcandidate : candidate.envId = id) (thenDisable : Option String)
    (hj : Observing id none o j.log) :
    Obeys raises id (promoteCandidate env o candidate thenDisable) (Finishes id) j := by
  subst henv
  refine .bind (obeys_exclusively (P := (· = .abandoned)) hj fun token j₁ hin => ?_)
    fun outcome j₂ h _ => ?_
  · refine follows_call.mpr fun r _ _ => ?_
    obtain ⟨hs, hread, hsettled⟩ := hin.reread (r := r)
    refine ⟨hs, ?_⟩
    rcases r with f | _ | fresh
    · exact (hsettled nofun).leaves
    · exact (hsettled nofun).leaves
    simp only [Program.bind, orFail, bind_eq, pure_eq]
    split
    · exact ⟨hin.holds, fun _ => ⟨rfl, hread⟩⟩
    · rename_i hsame
      have hsame : fresh.deployId = o := by simpa using hsame
      have hs : Settled env.id token
          (.bare (.store (.getEnvironment env.id)) (.ok (some fresh)) :: j₁.log) := by
        refine hsettled ?_
        rintro _ ⟨⟩
        exact hsame
      refine follows_call.mpr fun r _ _ => ?_
      have hcreate : Script env.id (.bare (.store (.getEnvironment env.id)) (.ok (some fresh)) ::
          j₁.log) (.store (.createDeploy candidate)) := by
        refine .creates rfl (by rw [hin.holds]; rfl) ?_ hcandidate
        rw [hsame]
        exact observed_cons hin.saw
      obtain ⟨hs, hcreated⟩ := hs.act (r := r) hcreate rfl rfl
      refine ⟨hs, ?_⟩
      cases r with
      | error f => exact hcreated.leaves
      | ok deploy =>
          cases thenDisable with
          | none => exact hcreated.leaves
          | some failed =>
              change ((endAutomation env failed).bind _).Follows _ _ _ _ _
              refine .bind ((follows_endAutomation rfl failed hcreated).mono (fun _ _ h => h)
                (fun _ h => h.leaves) fun _ _ h => h) fun _ j₃ h₃ _ => ?_
              exact h₃.leaves
  · intro hm
    obtain ⟨v, rfl, rfl⟩ := h hm
    rfl

/-- Only switching to manual promotion keeps to the script. -/
theorem obeys_stopPromoting {env : Environment} (henv : env.id = id) (failed : String)
    (hj : Observing id none o j.log) :
    Obeys raises id (stopPromoting env failed) (Finishes id) j := by
  subst henv
  refine .bind (obeys_exclusively (P := fun _ => False) hj fun token j₁ hin => ?_)
    fun outcome j₂ h _ hm => ?_
  · exact (follows_endAutomation rfl failed hin.settled).mono (fun _ _ h => h)
      (fun _ h => h.leaves) fun _ _ h => h.leaves
  · obtain ⟨v, -, hv⟩ := h hm
    exact hv.elim

end

/-! ## The attempt -/

section

variable {α : Type} {raises : Fault → Prop} {id : EnvId} {o : Option String} {j : Journal Unit}

/-- Looking for something without the lock keeps to the script. -/
theorem obeys_search {p : Program α} {Q : α → Prop}
    (hp : p.Meets (·.isQuery = true) (fun _ => True) Q) (hj : Observing id none o j.log) :
    Obeys raises id p (fun a j' => Q a ∧ Observing id none o j'.log) j :=
  (hp.follows (E := fun j' => Observing id none o j'.log) (fun _ _ _ _ hc h _ => h.look hc)
    hj).mono (fun _ _ h => h) (fun _ h hm => absurd hm h.agrees) fun _ _ h => h

theorem obeys_look {c : StoreCall} (hc : c.isRead = true) (hj : Observing id none o j.log) :
    Obeys raises id (ask c) (fun _ j' => Observing id none o j'.log) j :=
  (obeys_search (only_ask.mpr hc) hj).imp fun _ _ h => h.2

/-- Going back to an earlier build keeps to the script. -/
theorem obeys_revert (config : PromotionSettings) {env : Environment} (henv : env.id = id)
    {failed : Deploy} (hfailed : o = some failed.id) (hj : Observing id none o j.log) :
    Obeys raises id (revert config env failed) (Finishes id) j := by
  subst henv hfailed
  refine .bind (obeys_look rfl hj) fun history j₁ h₁ _ => ?_
  split
  · exact obeys_stopPromoting rfl failed.id h₁
  · rename_i target _
    refine .bind (obeys_promoteCandidate rfl rfl (some failed.id) h₁) fun a j₂ h₂ _ => ?_
    split
    · exact fun hm => nomatch h₂ hm
    · exact h₂

theorem obeys_promoteNext (config : PromotionSettings) {env : Environment}
    (henv : env.id = id) (current : Option Deploy) (settings : PromotionRule)
    (predStage : String) (now : Instant) (hj : Observing id none env.deployId j.log) :
    Obeys raises id (promoteNext config env current settings predStage now) (Finishes id) j := by
  rw [promoteNext_eq]
  refine .bind (obeys_search (meets_findCandidate _ env _ _ _ _) hj) fun candidate j₁ h₁ _ => ?_
  cases candidate with
  | none => exact fun hm => absurd hm h₁.2.agrees
  | some d => exact obeys_promoteCandidate henv ((h₁.1 d rfl).trans henv) none h₁.2

theorem obeys_promoteFrom (config : PromotionSettings) {env : Environment}
    (henv : env.id = id) (settings : PromotionRule) (predStage : String) (now : Instant)
    (hj : Observing id none env.deployId j.log) :
    Obeys raises id (promoteFrom config env settings predStage now) (Finishes id) j := by
  rw [promoteFrom_eq]
  have hcurrent : Obeys raises id (currentDeploy env)
      (fun current j' => Observing id none env.deployId j'.log ∧
        ∀ d, current = some d → env.deployId = some d.id) j := by
    rw [currentDeploy]
    cases hid : env.deployId with
    | none => exact ⟨hid ▸ hj, by simp⟩
    | some deploy =>
        refine follows_perform.mpr fun r _ hb => ?_
        obtain ⟨hs, hj'⟩ := (hid ▸ hj).look (r := r) rfl
        refine ⟨hs, ?_⟩
        cases r with
        | error f => exact fun hm => absurd hm hj'.agrees
        | ok found =>
            refine ⟨hj', ?_⟩
            rintro d rfl
            exact congrArg some (Eq.symm hb)
  refine .bind hcurrent fun current j₁ h₁ _ => ?_
  rw [actOn]
  split
  · exact fun hm => absurd hm h₁.1.agrees
  · split
    · exact obeys_stopPromoting henv _ h₁.1
    · rename_i failed hfailed _
      have hid := h₁.2 failed (Option.eq_some_of_filter_eq_some hfailed)
      exact obeys_revert config henv hid h₁.1
    · exact obeys_promoteNext config henv _ settings predStage now h₁.1

/-- An attempt keeps to the script; after a mismatch it ends as abandoned, unless giving the
lock back crashes. -/
theorem obeys_promote (config : PromotionSettings) (id : EnvId) (now : Instant) :
    Obeys raises id (promote config id now) (Finishes id) (.start ()) := by
  refine follows_call.mpr fun r _ hb => ?_
  have hm : ¬Mismatched id [.bare (.store (.getEnvironment id)) r] := by
    rw [mismatched_cons_of_free rfl]
    exact not_false
  refine ⟨script_of_agrees (.looks rfl) not_false hm, ?_⟩
  rcases r with f | _ | env
  · exact fun h => absurd h hm
  · exact fun h => absurd h hm
  have hlook : Observing id none env.deployId
      [.bare (.store (.getEnvironment id)) (.ok (some env))] :=
    ⟨rfl, by rw [observed, environment?_read]; rfl, hm, List.forall_mem_singleton.mpr rfl⟩
  simp only [Program.bind]
  split
  · exact fun h => absurd h hm
  refine .bind (obeys_look rfl hlook) fun found j₁ h₁ _ => ?_
  have hend : ∀ a, Finishes id a j₁ := fun _ h => absurd h h₁.agrees
  split
  · exact hend _
  · split
    · exact hend _
    · split
      · exact hend _
      · exact obeys_promoteFrom config hb _ _ now h₁

/-- After a mismatch an attempt has only to give the lock back, or has ended. -/
theorem closes_of_mismatched {p : Program Result}
    (h : Obeys raises id p (Finishes id) j)
    (hm : Mismatched id j.log) : Closes p ∨ Collapsed raises j.log := by
  -- an error is a proper answer to any call
  have hfault : ∀ c, Call.proper raises c () (.error (.error World.storeLost)) () := fun c => by
    cases c <;> first | trivial | (rename_i q; cases q <;> trivial)
  rcases p with (f | a) | ⟨c, next⟩
  · exact .inr (h hm)
  · obtain rfl : a = .abandoned := h hm
    exact .inl .done
  obtain ⟨name, token, rfl⟩ : ∃ name token, c = .release name token :=
    (follows_call.mp h _ () (hfault c)).1.2.1 hm
  refine .inl (.release fun r hr => ?_)
  have hproper : Call.proper raises (.release name token) () r () := by
    rcases r with (e | payload) | _
    · trivial
    · exact absurd rfl (hr payload)
    · trivial
  have hnext := (follows_call.mp h r () hproper).2
  have hm' : Mismatched id (.bare (.release name token) r :: j.log) := .inl hm
  cases hp : next r with
  | call c' next' =>
      -- the lock is not held any more, so nothing else may be called
      rw [hp] at hnext
      obtain ⟨hs, hgive, -⟩ := (follows_call.mp hnext _ () (hfault c')).1
      obtain ⟨name', token', rfl⟩ := hgive hm'
      cases hs with
      | looks hc => cases hc
      | gives hheld => cases hheld
  | done out =>
      rw [hp] at hnext
      cases out with
      | ok a => rw [show a = .abandoned from hnext hm']
      | error f =>
          obtain ⟨_, _, payload, _, -, he⟩ := hnext hm'
          cases he
          exact absurd rfl (hr payload)

end

end Promotion

end FleetControl
