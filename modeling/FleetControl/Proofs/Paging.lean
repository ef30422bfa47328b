import FleetControl.Proofs.Advance
import FleetControl.Proofs.Selection

/-!
# When on-call is paged

A failed check pages on-call if enough checks of its cluster have failed one after the other. How
many have is read off a window onto the newest checks of the cluster. The window is wide enough
for the finished checks that count and as many others again, and two more: where more checks than
that are not over, they hide a finished one, and on-call is not paged.
-/
namespace FleetControl

/-! ## A window onto a list -/

section

variable {α : Type} {date : α → Instant} {p : α → Bool} {xs : List α}

/-- A window finds the first ones that pass a test exactly if few that do not pass stand before
each of them. -/
theorem le_length_filter_take {n k : Nat} (h : xs.Pairwise fun a b => date b < date a) :
    n ≤ ((xs.take (n + k)).filter p).length ↔ n ≤ (xs.filter p).length ∧
      ∀ a ∈ (xs.filter p).take n,
        (xs.filter fun b => !p b && decide (date a < date b)).length ≤ k := by
  induction xs generalizing n k with
  | nil => simp
  | cons x xs ih =>
      obtain ⟨hx, hxs⟩ := List.pairwise_cons.mp h
      cases n with
      | zero => simp
      | succ n =>
          cases hp : p x with
          | true =>
              have hfirst : (xs.filter fun b => !p b && decide (date x < date b)) = [] := by
                refine List.filter_eq_nil_iff.mpr fun b hb => ?_
                have hnot : ¬date x < date b := by
                  have := hx b hb
                  simp only [Instant.lt_iff] at this ⊢
                  omega
                simp [hnot]
              have hnext := ih (n := n) (k := k) hxs
              rw [Nat.add_right_comm, List.take_succ_cons]
              simp only [List.filter_cons, hp, if_true, List.length_cons, List.take_succ_cons,
                Nat.succ_le_succ_iff, hnext, List.mem_cons, forall_eq_or_imp, Bool.not_true,
                Bool.false_and, Bool.false_eq_true, if_false, hfirst, List.length_nil,
                Nat.zero_le, true_and]
          | false =>
              have hone : ∀ a ∈ (xs.filter p).take (n + 1),
                  ((x :: xs).filter fun b => !p b && decide (date a < date b)).length =
                    (xs.filter fun b => !p b && decide (date a < date b)).length + 1 := by
                intro a ha
                have hnewer := hx a (List.mem_filter.mp (List.mem_of_mem_take ha)).1
                simp [hp, hnewer]
              rw [List.filter_cons_of_neg (by simp [hp])]
              cases k with
              | zero =>
                  rw [Nat.add_zero, List.take_succ_cons, List.filter_cons_of_neg (by simp [hp])]
                  have hshort := List.length_filter_le p (xs.take n)
                  have htake := List.length_take_le n xs
                  refine ⟨fun h => by omega, fun ⟨hmany, hfew⟩ => ?_⟩
                  obtain ⟨a, ha⟩ : ∃ a, a ∈ (xs.filter p).take (n + 1) :=
                    List.exists_mem_of_length_pos (by rw [List.length_take]; omega)
                  have := hfew a ha
                  rw [hone a ha] at this
                  omega
              | succ k =>
                  rw [← Nat.add_assoc, List.take_succ_cons, List.filter_cons_of_neg (by simp [hp]),
                    ih hxs]
                  refine and_congr_right fun _ => forall₂_congr fun a ha => ?_
                  rw [hone a ha, Nat.succ_le_succ_iff]

/-- What a window shows of the first ones that pass a test, if it shows so many. -/
theorem take_filter_take {n m : Nat} (h : n ≤ ((xs.take m).filter p).length) :
    ((xs.take m).filter p).take n = (xs.filter p).take n := by
  have hprefix := (List.take_prefix m xs).filter p
  rw [List.prefix_iff_eq_take.mp hprefix, List.take_take, Nat.min_eq_left h]

end

namespace ImageCheck

open Program

/-! ## Failures in a row -/

section

variable {s : Store} {cluster : String} {id : ItemId} {times : Nat}

/-- The checks of a cluster, newest first. -/
def history (cluster : String) (s : Store) : List HealthCheck :=
  Store.newestFirst (fun c => c.header.createdAt)
    (s.checks.values.filter fun c => c.cluster == cluster)

/-- Whether a check counts when another one fails: it is over. -/
def counts (id : ItemId) (other : HealthCheck) : Bool := other.id != id && other.isTerminal

/-- The finished checks of a cluster but for one, newest first. -/
def finished (cluster : String) (id : ItemId) (s : Store) : List HealthCheck :=
  (history cluster s).filter (counts id)

/-- With the failure of a check, so many checks of the cluster have failed in a row: there are
enough finished ones, and the newest of them all ended without qualifying. -/
structure FailedInARow (times : Nat) (cluster : String) (id : ItemId) (s : Store) : Prop where
  enough : times - 1 ≤ (finished cluster id s).length
  failed : ∀ other ∈ (finished cluster id s).take (times - 1),
    other.header.status ≠ some .qualified

/-- The checks that do not count, the failed one among them, and are newer than another. -/
def crowd (cluster : String) (id : ItemId) (s : Store) (other : HealthCheck) : List HealthCheck :=
  (history cluster s).filter fun c =>
    !counts id c && decide (other.header.createdAt < c.header.createdAt)

/-- None of the finished checks that count is hidden by newer ones that do not. -/
def InView (times : Nat) (cluster : String) (id : ItemId) (s : Store) : Prop :=
  ∀ other ∈ (finished cluster id s).take (times - 1), (crowd cluster id s other).length ≤ times

/-- No two checks of a cluster were created at the same time. -/
def CreatedApart (cluster : String) (s : Store) : Prop :=
  ((history cluster s).map fun c => c.header.createdAt).Nodup

/-- What is made of the newest checks when one has failed. -/
def judges (previous : Nat) (id : ItemId) (recent : List HealthCheck) : Bool :=
  let seen := (recent.filter (counts id)).take previous
  seen.length == previous && seen.all fun other => other.header.status != some .qualified

theorem pairwise_history (h : CreatedApart cluster s) :
    (history cluster s).Pairwise fun a b => b.header.createdAt < a.header.createdAt := by
  refine (Store.pairwise_newestFirst _ _).imp₂ (fun a b hle hne => ?_) (List.pairwise_map.mp h)
  have hapart : a.header.createdAt.position ≠ b.header.createdAt.position := fun he =>
    hne (by cases ha : a.header.createdAt; cases hb : b.header.createdAt; simp_all)
  rw [Instant.le_iff] at hle
  rw [Instant.lt_iff]
  omega

theorem judges_iff (h : CreatedApart cluster s) :
    judges (times - 1) id ((history cluster s).take ((times - 1) * 2 + 1)) = true ↔
      FailedInARow times cluster id s ∧ InView times cluster id s := by
  obtain rfl | htimes : times = 0 ∨ 0 < times := by omega
  · simp only [judges, Nat.zero_sub, List.take_zero]
    exact iff_of_true rfl ⟨⟨Nat.zero_le _, by simp⟩, by simp [InView]⟩
  · have hwindow := le_length_filter_take (n := times - 1) (k := times) (p := counts id)
      (pairwise_history h)
    rw [← show (times - 1) * 2 + 1 = times - 1 + times by omega] at hwindow
    simp only [judges, Bool.and_eq_true, beq_iff_eq, List.length_take, List.all_eq_true, bne_iff_ne]
    constructor
    · rintro ⟨hlength, hall⟩
      have hmany : times - 1 ≤ (((history cluster s).take ((times - 1) * 2 + 1)).filter
          (counts id)).length := by omega
      rw [take_filter_take hmany] at hall
      exact ⟨⟨(hwindow.mp hmany).1, hall⟩, (hwindow.mp hmany).2⟩
    · rintro ⟨⟨henough, hfailed⟩, hview⟩
      have hmany := hwindow.mpr ⟨henough, hview⟩
      rw [take_filter_take hmany]
      exact ⟨Nat.min_eq_left hmany, hfailed⟩

end

/-! ## Alerts -/

section

variable {config : ImageCheckSettings} {check : HealthCheck} {cluster : String} {id : ItemId}
  {raises : Fault → Prop} {j : Journal World} {α : Type}

/-- A call that tells nobody anything. -/
def Silent (c : Call) : Prop := ∀ n, c ≠ .post n

/-- Nobody was told anything so far. -/
def Quiet (log : List (Entry World)) : Prop := ∀ e ∈ log, Silent e.call

/-- A notification is for on-call where on-call is to be paged, and otherwise for the readers of
mail. -/
structure Addressed (times : Nat) (cluster : String) (id : ItemId) (n : Notification) (s : Store)
    (record : Cluster) : Prop where
  paged (h : FailedInARow times cluster id s) (hview : InView times cluster id s) :
    n.recipients = record.recipients.pager
  mailed (h : ¬(FailedInARow times cluster id s ∧ InView times cluster id s)) :
    n.recipients = record.recipients.email

/-- The only notification is about the failed check, and is addressed as the records of the
moment want it. -/
def Alerts (times : Nat) (cluster : String) (id : ItemId) : Rule World := fun past e =>
  ∀ n, e.call = .post n → Quiet past ∧ ∃ record,
    e.before.tables.clusters.get? cluster = some record ∧
    (CreatedApart cluster e.before.tables → Addressed times cluster id n e.before.tables record)

/-- Whatever fails, the program alerts at most once and as it should. -/
abbrev Alarms (raises : Fault → Prop) (times : Nat) (cluster : String) (id : ItemId)
    (p : Program α) (Q : α → Journal World → Prop) (j : Journal World) : Prop :=
  p.Follows (World.Possible Eq raises) (Alerts times cluster id) (fun _ => True) Q j

/-- A program that tells nobody anything. -/
theorem alarms_of_silent {times : Nat} {p : Program α} {Q : α → Prop}
    (h : p.Meets Silent (fun _ => True) Q) (hj : Quiet j.log) :
    Alarms raises times cluster id p (fun a j' => Q a ∧ Quiet j'.log) j := by
  have hfollows := h.follows (B := World.Possible Eq raises) (R := Alerts times cluster id)
    (E := fun j => Quiet j.log) ?_ hj
  · exact Follows.mono hfollows (fun _ _ h => h) (fun _ _ => trivial) fun _ _ h => h
  · intro j₁ c r w hc hquiet _
    refine ⟨fun n hn => absurd hn (hc n), fun e he => ?_⟩
    obtain rfl | he := List.mem_cons.mp he
    · exact hc
    · exact hquiet e he

/-- Looking something up, which finds what the tables hold. -/
theorem alarms_look {times : Nat} {q : StoreCall} (hq : q.isRead = true) (hj : Quiet j.log) :
    Alarms raises times cluster id (ask q) (fun a j' => Quiet j'.log ∧
      j'.state.tables = j.state.tables ∧ ∃ clock, (j.state.tables.answer clock q).1 = .ok a) j := by
  refine follows_perform.mpr fun r w hb => ⟨fun n hn => (by cases hn), ?_⟩
  cases r with
  | error f => trivial
  | ok a =>
      obtain ⟨_, rfl, ha | ⟨f, -, hf, -⟩⟩ := hb
      · obtain ⟨s, hs, rfl, hfound⟩ := World.found_of_ask hq ha
        refine ⟨fun e he => ?_, rfl, j.state.now, World.tables_eq hs ▸ hfound⟩
        obtain rfl | he := List.mem_cons.mp he
        · exact fun n hn => by cases hn
        · exact hj e he
      · cases hf

theorem failedInARow_eq (config : ImageCheckSettings) (check : HealthCheck) :
    failedInARow config check = (ofOutcome (lookback (config.failuresBeforePage - 1))).bind
      fun limit => (ask (.recentItems .check check.cluster limit)).bind fun recent =>
        done (.ok (judges (config.failuresBeforePage - 1) check.id recent)) := rfl

/-- An alert says whether on-call is paged, once the records are read. -/
theorem alarms_alert {subject message : String} (hj : Quiet j.log) :
    Alarms raises config.failuresBeforePage check.cluster check.id
      (alert config check subject message)
      (fun _ j' => ∃ e ∈ j'.log, ∃ n, e.call = .post n) j := by
  have hcluster : Alarms raises config.failuresBeforePage check.cluster check.id
      (requireCluster check.cluster) (fun record j' => Quiet j'.log ∧
        j'.state.tables.clusters.get? check.cluster = some record) j := by
    refine .bind (alarms_look rfl hj) ?_
    rintro (- | record) j₁ ⟨hquiet, ht, clock, hfound⟩ -
    · trivial
    · exact ⟨hquiet, ht ▸ Except.ok.inj hfound⟩
  have hjudged : ∀ (record : Cluster) (j₁ : Journal World), Quiet j₁.log →
      j₁.state.tables.clusters.get? check.cluster = some record →
      Alarms raises config.failuresBeforePage check.cluster check.id (failedInARow config check)
        (fun page j' => Quiet j'.log ∧
          j'.state.tables.clusters.get? check.cluster = some record ∧
          (CreatedApart check.cluster j'.state.tables → (page = true ↔
            FailedInARow config.failuresBeforePage check.cluster check.id j'.state.tables ∧
              InView config.failuresBeforePage check.cluster check.id j'.state.tables))) j₁ := by
    intro record j₁ hquiet hrecord
    rw [failedInARow_eq, lookback]
    split
    · show Alarms _ _ _ _ ((ask _).bind _) _ _
      refine .bind (alarms_look rfl hquiet) ?_
      rintro recent j₂ ⟨hquiet, ht, clock, hfound⟩ -
      rw [← ht] at hrecord hfound
      refine ⟨hquiet, hrecord, fun hapart => ?_⟩
      rw [← judges_iff hapart, ← Except.ok.inj hfound]
      rfl
    · trivial
  refine .bind hcluster fun record j₁ h₁ _ =>
    .bind (hjudged record j₁ h₁.1 h₁.2) fun page j₂ h₂ _ => ?_
  obtain ⟨hquiet, hrecord, hpage⟩ := h₂
  refine follows_perform.mpr fun r w hb => ⟨?_, ?_⟩
  · rintro n hn
    cases hn
    refine ⟨hquiet, record, hrecord, fun hapart => ⟨fun h hview => ?_, fun h => ?_⟩⟩
    · exact if_pos ((hpage hapart).mpr ⟨h, hview⟩)
    · exact if_neg (mt (hpage hapart).mp h)
  · cases r with
    | error f => trivial
    | ok u => exact ⟨_, List.mem_cons_self, _, rfl⟩

/-- What comes before nobody is told anything does not matter. -/
theorem Alarms.after {times : Nat} {β : Type} {p : Program α} {f : α → Program β}
    {Q : β → Journal World → Prop} (hp : p.Only Silent) (hj : Quiet j.log)
    (hf : ∀ a j', Quiet j'.log → Alarms raises times cluster id (f a) Q j') :
    Alarms raises times cluster id (p.bind f) Q j :=
  .bind (alarms_of_silent hp hj) fun a j' h _ => hf a j' h.2

/-- What a step gives back of a check: its header is the same, and an alert was sent if the check
has failed. -/
def Owns (check : HealthCheck) (result : HealthCheck × Decision HealthCheckState)
    (j : Journal World) : Prop :=
  result.1.header = check.header ∧ ∀ target error, result.2 = .move target (some .failed) error →
    ∃ e ∈ j.log, ∃ n, e.call = .post n

/-- Failing sends an alert. -/
theorem alarms_fail {changed : HealthCheck} {subject message : String}
    (hheader : changed.header = check.header) (hcluster : changed.cluster = check.cluster)
    (hj : Quiet j.log) :
    Alarms raises config.failuresBeforePage check.cluster check.id
      (fail config changed subject message) (Owns check) j := by
  rw [← hcluster, show check.id = changed.id from congrArg ItemHeader.id hheader.symm]
  exact .bind (alarms_alert hj) fun _ _ htold _ => ⟨hheader, fun _ _ _ => htold⟩

theorem silent_store (q : StoreCall) : Silent (.store q) := fun _ h => by cases h

theorem silent_provider (q : ProviderCall) : Silent (.provider q) := fun _ h => by cases h

theorem alarms_init {now : Instant} (hj : Quiet j.log) :
    Alarms raises config.failuresBeforePage check.cluster check.id (init config check now)
      (Owns check) j := by
  refine .after (only_request.mpr (silent_provider _)) hj fun launched j₁ h₁ => ?_
  split
  · exact alarms_fail rfl rfl h₁
  · exact .after (only_ask.mpr (silent_store _)) h₁ fun _ _ _ => ⟨rfl, fun _ _ h => by cases h⟩

theorem alarms_launching {now : Instant} (hj : Quiet j.log) :
    Alarms raises config.failuresBeforePage check.cluster check.id (launching config check now)
      (Owns check) j := by
  refine .after (only_orFail _ _) hj fun probe j₁ h₁ =>
    .after (only_request.mpr (silent_provider _)) h₁ fun terminated j₂ h₂ => ?_
  split
  · exact alarms_fail rfl rfl h₂
  · refine .after (only_ask.mpr (silent_store _)) h₂ fun host j₃ h₃ => ?_
    split
    · exact ⟨rfl, fun _ _ h => by cases h⟩
    · exact alarms_fail rfl rfl h₃
    · exact alarms_fail rfl rfl h₃
    all_goals
      refine .after (within_requireCluster (silent_store _) trivial) h₃ fun record j₄ h₄ =>
        .after (within_ofOutcome (failsOnly_ofSetting (fun _ _ => trivial) _)) h₄
          fun grace j₅ h₅ => ?_
      dsimp only
      split
      · exact alarms_fail rfl rfl h₅
      · exact ⟨rfl, fun _ _ h => by cases h⟩

theorem alarms_pendingVerify (hj : Quiet j.log) :
    Alarms raises config.failuresBeforePage check.cluster check.id (pendingVerify config check)
      (Owns check) j := by
  refine .after (only_orFail _ _) hj fun probe j₁ h₁ =>
    .after (only_ask.mpr (silent_store _)) h₁ fun agents j₂ h₂ => ?_
  split
  · exact ⟨rfl, fun _ _ h => by cases h⟩
  · dsimp only
    split
    · exact alarms_fail rfl rfl h₂
    · refine ⟨rfl, fun _ _ h => ?_⟩
      dsimp only at h
      split at h <;> cases h

theorem silent_imageIsBusy (check : HealthCheck) : (imageIsBusy check).Only Silent := by
  refine within_imageIsBusy (fun q _ => silent_store q) (fun c hc => ?_)
    (fun _ _ => silent_store _) (fun _ _ => trivial) fun _ _ => trivial
  rintro n rfl
  cases hc

theorem alarms_completing (hj : Quiet j.log) :
    Alarms raises config.failuresBeforePage check.cluster check.id (completing check)
      (Owns check) j := by
  have hmeets := meets_completing_of .epoch (silent_imageIsBusy check)
    fun _ _ => ⟨silent_provider _, silent_store _⟩
  refine Follows.imp (alarms_of_silent hmeets hj) fun result j' h => ?_
  refine ⟨h.1.identity.1, fun target error he => ?_⟩
  cases h.1 with
  | failed hs => rcases hs with hs | hs <;> cases hs
  | wait | finished | unneeded => cases he

/-- A step alerts if it fails the check, and at no other time. -/
theorem alarms_step {now : Instant} (hj : Quiet j.log) :
    Alarms raises config.failuresBeforePage check.cluster check.id (step config check now)
      (Owns check) j := by
  rw [step]
  split
  · exact alarms_init hj
  · exact alarms_launching hj
  · exact alarms_pendingVerify hj
  · exact alarms_completing hj
  · trivial

theorem alarms_onTimeout (hj : Quiet j.log) :
    Alarms raises config.failuresBeforePage check.cluster check.id (onTimeout config check)
      (fun _ _ => True) j := by
  have hclean : (cleanUp check).Only Silent := Meets.only <|
    meets_cleanUp (fun _ => silent_store _) fun _ _ _ => ⟨silent_provider _, silent_store _⟩
  rw [onTimeout_eq]
  refine .after hclean hj fun released j₁ h₁ => .bind (alarms_alert h₁) fun _ j₂ _ _ => ?_
  cases released <;> trivial

/-- What an advance reports of a check: an alert was sent if the check has turned out failed. -/
def Reports (check : HealthCheck) (progress : Progress HealthCheckState) (j : Journal World) :
    Prop :=
  ∀ source target changed, progress = .transitioned source target →
    j.state.tables.getItem .check check.id = some changed →
    check.header.status ≠ some .failed → changed.header.status = some .failed →
    ∃ e ∈ j.log, ∃ n, e.call = .post n

theorem alarms_timeOut {now : Instant} (hj : Quiet j.log) :
    Alarms raises config.failuresBeforePage check.cluster check.id
      ((lifecycle config).timeOut check now) (Reports check) j := by
  refine .after (only_ask.mpr (silent_store _)) hj fun _ j₁ h₁ => ?_
  let timedOut := check.afterTimeout now (timeoutTarget check.state) (timeoutMessage check)
  have htimeout : Alarms raises config.failuresBeforePage timedOut.cluster timedOut.id
      (onTimeout config timedOut) (fun _ _ => True) j₁ := alarms_onTimeout h₁
  exact .bind htimeout.attempt fun _ _ _ _ => fun _ _ _ h => by cases h

/-- What is stored of a check is then the check. -/
theorem alarms_update {times : Nat} {changed : HealthCheck} (hid : changed.id = id) :
    Alarms raises times cluster id (ask (.updateItem .check changed))
      (fun _ j' => j'.state.tables.getItem .check id = some changed) j := by
  refine follows_perform.mpr fun r w hb => ⟨fun n hn => (by cases hn), ?_⟩
  cases r with
  | error f => trivial
  | ok u =>
      obtain ⟨_, rfl, ha | ⟨f, -, hf, -⟩⟩ := hb
      · have hs := (World.ask_cases ha).1
        simp only [Store.answer] at hs
        cases hu : j.state.tables.updateItem .check changed with
        | error e =>
            rw [hu] at hs
            cases hs
        | ok s' =>
            rw [hu] at hs
            have ht : s' = w.tables := congrArg Prod.snd hs
            show w.tables.getItem .check id = some changed
            rw [← ht, (Store.updateItem_eq_ok_iff.mp hu).2, Store.getItem_putItem, if_pos hid.symm]
      · cases hf

theorem alarms_takeStep {now : Instant} (hj : Quiet j.log) :
    Alarms raises config.failuresBeforePage check.cluster check.id
      ((lifecycle config).takeStep check now) (Reports check) j := by
  refine .bind (alarms_step hj) ?_
  rintro ⟨changed, d⟩ j₁ ⟨hheader, htold⟩ -
  have hid : (changed.afterStep now d).id = check.id :=
    (changed.id_afterStep now d).trans (congrArg ItemHeader.id hheader)
  refine .bind (alarms_update hid) fun _ j₂ hstored hlater => ?_
  cases d with
  | stay => exact fun _ _ _ h => by cases h
  | move target status error =>
      intro _ _ found _ hfound hbefore hfailed
      obtain rfl := Option.some.inj (hstored.symm.trans hfound)
      have hstatus : status = some .failed := by
        cases status with
        | some status => exact hfailed
        | none => exact absurd (hheader ▸ hfailed) hbefore
      obtain ⟨e, he, hpost⟩ := htold target error (by rw [hstatus])
      exact ⟨e, hlater.subset he, hpost⟩

theorem alarms_advance {now : Instant} (hc : j.state.tables.getItem .check id = some check)
    (hj : Quiet j.log) : Alarms raises config.failuresBeforePage check.cluster check.id
      ((lifecycle config).advance id now) (Reports check) j := by
  rw [Lifecycle.advance_eq]
  refine .bind (alarms_look rfl hj) ?_
  rintro found j₁ ⟨h₁, -, clock, hfound⟩ -
  obtain rfl : found = some check := (Except.ok.inj hfound).symm.trans hc
  dsimp only
  rw [Lifecycle.work]
  split
  · exact fun _ _ _ h => by cases h
  · refine Alarms.after (within_clusterIsPaused (silent_store _) trivial) h₁ fun paused j₂ h₂ => ?_
    split
    · exact Alarms.after (only_ask.mpr (silent_store _)) h₂ fun _ _ _ _ _ _ h => by cases h
    · refine Alarms.after (within_ofOutcome (failsOnly_ofSetting (fun _ _ => trivial) _)) h₂
        fun limit j₃ h₃ => ?_
      split
      · exact alarms_timeOut h₃
      · exact alarms_takeStep h₃

/-- Whatever fails in an advance of a check, it sends one alert at most. The alert is for on-call
if the check is the last of so many failures in a row and few enough checks are under way to leave
the failures in view; otherwise it is for the readers of mail. A check that turns out failed is
never stored without an alert. -/
theorem alerts_address {w : World} {j' : Journal World} {now : Instant}
    {r : Outcome (Progress HealthCheckState)} (hc : w.tables.getItem .check id = some check)
    (he : ((lifecycle config).advance id now).Ends (World.Possible Eq raises).recorded
      (.start w) r j') :
    (∀ later e past n, j'.log = later ++ e :: past → e.call = .post n → Quiet past ∧
      ∃ record, e.before.tables.clusters.get? check.cluster = some record ∧
        (CreatedApart check.cluster e.before.tables →
          Addressed config.failuresBeforePage check.cluster check.id n e.before.tables record)) ∧
    ∀ source target changed, r = .ok (.transitioned source target) →
      j'.state.tables.getItem .check check.id = some changed →
      check.header.status ≠ some .failed → changed.header.status = some .failed →
      ∃ e ∈ j'.log, ∃ n, e.call = .post n := by
  have halarms : Alarms raises config.failuresBeforePage check.cluster check.id
      ((lifecycle config).advance id now) (Reports check) (.start w) :=
    alarms_advance hc fun _ he => by cases he
  constructor
  · intro later e past n hlog hcall
    exact halarms.allows he hlog (List.nil_suffix) n hcall
  · rintro source target changed rfl hfound hbefore hfailed
    exact halarms.ends he source target changed rfl hfound hbefore hfailed

/-- A check of a cluster that was created at an instant and has not begun. -/
def waiting (id : ItemId) (created : Int) : HealthCheck :=
  HealthCheck.new id "web" "prod" .manuallyTriggered "image-1" ⟨created⟩

/-- A cluster without hosts to launch, where one check has failed and others are waiting. -/
def launchless (others : List HealthCheck) : World :=
  let ended : HealthCheck := { waiting "check-0" 0 with
    state := HealthCheckState.completed
    header := { (waiting "check-0" 0).header with status := some .failed } }
  let cluster : Cluster :=
    ⟨"web", "prod", .normal, none, 600, ⟨["team"], ["on-call"], none⟩, .epoch⟩
  { World.initial .epoch (.seeded 0) with
    store := some { Store.empty with
      clusters := Table.empty.insert cluster.name cluster
      checks := (ended :: waiting "check-9" 9 :: others).foldl (fun t c => t.insert c.id c) .empty }
    provider := { Provider.empty with failLaunches := true } }

/-- What an advance of the last check makes of it. -/
def relaunched (others : List HealthCheck) : Outcome (Progress HealthCheckState) × Journal World :=
  ((lifecycle { failuresBeforePage := 2 }).advance "check-9" .epoch).run (failing fun _ _ => none)
    (.start (launchless others))

/-- With one other check under way, the second failure in a row pages on-call. -/
theorem alerts_address_launchless :
    (relaunched [waiting "check-1" 1]).1 = .ok (.transitioned .init .completed) ∧
    (∃ e ∈ (relaunched [waiting "check-1" 1]).2.log, ∃ n, e.call = .post n) ∧
    (relaunched [waiting "check-1" 1]).2.state.outbox.map Notification.recipients =
      [["on-call"]] := by
  have hc : (launchless [waiting "check-1" 1]).tables.getItem .check "check-9" =
      some (waiting "check-9" 9) := by cbv
  have hr : (relaunched [waiting "check-1" 1]).1 = .ok (.transitioned .init .completed) := by cbv
  have hstored : ((relaunched [waiting "check-1" 1]).2.state.tables.getItem .check "check-9").map
      (fun c => c.header.status) = some (some .failed) := by cbv
  obtain ⟨changed, hfound, hfailed⟩ := Option.map_eq_some_iff.mp hstored
  have he : ((lifecycle { failuresBeforePage := 2 }).advance "check-9" .epoch).Ends
      (World.Possible Eq fun _ => False).recorded (.start (launchless [waiting "check-1" 1]))
      (relaunched [waiting "check-1" 1]).1 (relaunched [waiting "check-1" 1]).2 :=
    ends_undisturbed (fun _ => rfl) _ _
  exact ⟨hr, (alerts_address hc he).2 _ _ _ hr hfound (fun h => by cases h) hfailed, by cbv⟩

/-- Two other checks under way hide the first of two failures in a row, and the second does not
page on-call. -/
theorem failures_hidden :
    CreatedApart "web" (launchless [waiting "check-1" 1, waiting "check-2" 2]).tables ∧
    FailedInARow 2 "web" "check-9" (launchless [waiting "check-1" 1, waiting "check-2" 2]).tables ∧
    (relaunched [waiting "check-1" 1, waiting "check-2" 2]).1 =
      .ok (.transitioned .init .completed) ∧
    (relaunched [waiting "check-1" 1, waiting "check-2" 2]).2.state.outbox.map
      Notification.recipients = [["team"]] := by
  have hdates : (history "web" (launchless [waiting "check-1" 1, waiting "check-2" 2]).tables).map
      (fun c => c.header.createdAt) = [⟨9⟩, ⟨2⟩, ⟨1⟩, ⟨0⟩] := by cbv
  have hends : (finished "web" "check-9"
      (launchless [waiting "check-1" 1, waiting "check-2" 2]).tables).map
      (fun c => c.header.status) = [some .failed] := by cbv
  refine ⟨?_, ⟨?_, fun other ho => ?_⟩, by cbv, by cbv⟩
  · rw [CreatedApart, hdates]
    decide
  · rw [← List.length_map (fun c : HealthCheck => c.header.status), hends]
    decide
  · have hstatus := List.mem_map_of_mem (f := fun c : HealthCheck => c.header.status)
      (List.mem_of_mem_take ho)
    rw [hends, List.mem_singleton] at hstatus
    rw [hstatus]
    decide

end

end ImageCheck

end FleetControl
