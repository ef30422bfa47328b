import FleetControl.Proofs.Launching
import FleetControl.Proofs.Vetting

/-!
# What an image has qualified by

A check in PENDING_VERIFY asks for the agents on its probe host and qualifies if there are any
and all of them serve, whatever environments they are of. So an image is given to a cluster only
after all agents on a host with that image were seen serving at once. An agent of the check's own
environment need not have been among them: the check never looks for one.
-/
namespace FleetControl

open Program

/-- The agents on a host were asked for and were all serving, and there were some. -/
structure Entry.Vouches (host : HostId) (e : Entry World) : Prop where
  asks : e.call = .store (.agentsByHost host)
  answered : e.reply.isOk = true
  some : e.after.tables.agentsOn host ≠ []
  serve : ∀ a ∈ e.after.tables.agentsOn host, a.isServing = true

namespace ImageCheck

variable {id : ItemId} {raises : Fault → Prop} {check x y z : HealthCheck} {now : Instant}
  {log past : List (Entry World)} {j : Journal World} {host : HostId} {e : Entry World}

/-- The agents on a host were seen serving. -/
def Vouched (log : List (Entry World)) (host : HostId) : Prop := ∃ e ∈ log, e.Vouches host

/-- A host is one that a check began with, or was launched with its image. -/
def Probes (check : HealthCheck) (log : List (Entry World)) (host : HostId) : Prop :=
  check.details.hostId = some host ∨ ∃ e ∈ log, host ∈ e.launched ∧
    e.call = .provider (.launchHosts check.cluster 1 (some check.details.imageId))

/-- What is true of a version of a check that began as another. -/
structure Trusted (check : HealthCheck) (log : List (Entry World)) (x : HealthCheck) :
    Prop where
  cluster : x.cluster = check.cluster
  image : x.details.imageId = check.details.imageId
  probes : ∀ host, x.details.hostId = some host → Probes check log host
  vouched : x.header.status = some .qualified →
    ∃ host, x.details.hostId = some host ∧ Vouched log host

/-- An image is given only to the cluster of the check, and only the image of the check, after
all agents on its probe host were seen serving. -/
def giving (check : HealthCheck) : Rule World := fun past e =>
  ∀ cluster image, e.call = .store (.setClusterImage cluster image) →
    cluster = check.cluster ∧ image = check.details.imageId ∧
      ∃ host, Probes check past host ∧ Vouched past host

/-- The stored version of the check is trusted. -/
structure Upholds (id : ItemId) (check x : HealthCheck) (j : Journal World) : Prop where
  id_eq : x.id = id
  shows : World.Shows id j.state x
  trusted : Trusted check j.log x

/-- Some version of the check is stored and trusted. -/
def Upheld (id : ItemId) (check : HealthCheck) (j : Journal World) : Prop :=
  ∃ x, Upholds id check x j

theorem Probes.mono {host : HostId} (h : Probes check past host) (hp : past <:+ log) :
    Probes check log host :=
  h.imp_right fun ⟨e, he, hl⟩ => ⟨e, hp.subset he, hl⟩

theorem Trusted.cons (h : Trusted check log x) (e : Entry World) : Trusted check (e :: log) x where
  cluster := h.cluster
  image := h.image
  probes host hx := (h.probes host hx).mono (List.suffix_cons _ _)
  vouched hx := by
    obtain ⟨host, hhost, e', he', hv⟩ := h.vouched hx
    exact ⟨host, hhost, e', List.mem_cons_of_mem _ he', hv⟩

/-- Whether a call neither stores a check nor gives an image. -/
def holdsBack : Call → Bool
  | .store (.updateItem .check _) | .store (.setClusterImage _ _) => false
  | _ => true

theorem holdsBack_of_isRead {c : Call} (h : c.isRead = true) : holdsBack c = true := by
  unfold holdsBack
  split
  · cases h
  · cases h
  · rfl

/-- A call that stores no check leaves a trusted version trusted. -/
theorem Upholds.enter (h : Upholds id check x j) {c : Call}
    (hc : ∀ y, c ≠ .store (.updateItem .check y)) {r : Outcome c.Reply} {w : World}
    (hb : apart .check id raises c j.state r w) : Upholds id check x (j.enter c r w) := by
  obtain ⟨x', hshows, hp⟩ := h.shows.possible_untouched hb
  obtain rfl | ⟨-, hstores⟩ := hp.eq_or_stored
  · exact ⟨h.id_eq, hshows, h.trusted.cons _⟩
  · exact absurd hstores (hc x')

/-- A call that gives nothing either is allowed. -/
theorem Upholds.call (h : Upholds id check x j) {c : Call} (hc : holdsBack c = true)
    {r : Outcome c.Reply} {w : World} (hb : apart .check id raises c j.state r w) :
    giving check j.log ⟨j.state, c, r, w⟩ ∧ Upholds id check x (j.enter c r w) := by
  refine ⟨?_, h.enter ?_ hb⟩
  · rintro cluster image rfl
    cases hc
  · rintro y rfl
    cases hc

/-- The image of a check that has qualified may be given. -/
theorem Upholds.gives (h : Upholds id check x j) (hq : x.header.status = some .qualified)
    {r : Outcome Unit} {w : World} :
    giving check j.log ⟨j.state, .store (.setClusterImage x.cluster x.details.imageId), r, w⟩ := by
  rintro cluster image hcall
  cases hcall
  obtain ⟨host, hhost, hvouched⟩ := h.trusted.vouched hq
  exact ⟨h.trusted.cluster, h.trusted.image, host, h.trusted.probes host hhost, hvouched⟩

/-- Programs that store nothing and give nothing. -/
theorem upholds_meets {α : Type} {p : Program α} {Q : α → Prop} (h : Upholds id check x j)
    (hp : p.Meets (holdsBack · = true) (fun _ => True) Q) :
    p.Follows (apart .check id raises) (giving check) (Upheld id check)
      (fun a j' => Q a ∧ Upholds id check x j') j := by
  have hfollows : p.Follows (apart .check id raises) (giving check) (Upholds id check x)
      (fun a j' => Q a ∧ Upholds id check x j') j :=
    hp.follows (fun j c r w hc hj hb => hj.call hc hb) h
  exact hfollows.mono (fun _ _ h => h) (fun j' hj => ⟨x, hj⟩) fun _ _ h => h

/-- Programs that only look. -/
theorem upholds_reads {α : Type} {p : Program α} {Q : α → Prop} (h : Upholds id check x j)
    (hp : p.Meets (·.isRead = true) (fun _ => True) Q) :
    p.Follows (apart .check id raises) (giving check) (Upheld id check)
      (fun a j' => Q a ∧ Upholds id check x j') j :=
  upholds_meets h (hp.mono (fun _ => holdsBack_of_isRead) fun _ h => h)

/-- Storing a trusted version. -/
theorem upholds_store (h : Upholds id check x j) (hid : y.id = id)
    (hy : Trusted check j.log y) :
    (ask (.updateItem .check y)).Follows (apart .check id raises) (giving check)
      (Upheld id check) (fun _ j' => Upholds id check y j') j := by
  refine follows_perform.mpr fun r w hb => ⟨fun _ _ he => (by cases he), ?_⟩
  obtain ⟨x', hshows, hp⟩ := h.shows.possible_untouched hb
  obtain rfl | ⟨rfl, f, rfl⟩ := hp.of_update hid
  · have hupholds : Upholds id check x' (j.enter (.store (.updateItem .check x')) r w) :=
      ⟨hid, hshows, hy.cons _⟩
    cases r with
    | ok u => exact hupholds
    | error f => exact ⟨_, hupholds⟩
  · exact ⟨x', h.id_eq, hshows, h.trusted.cons _⟩

/-! ## The states -/

/-- What a step hands over to be stored. -/
def Delivers (id : ItemId) (check x : HealthCheck) (now : Instant)
    (result : HealthCheck × Decision HealthCheckState) (j : Journal World) : Prop :=
  Upholds id check x j ∧ result.1.id = id ∧
    Trusted check j.log (result.1.afterStep now result.2)

/-- What a step gives back is trusted, if a host that it launched probes the image and a host by
which the image qualifies has vouched for it. -/
theorem Steps.trusted {s : HealthCheckState} {result : HealthCheck × Decision HealthCheckState}
    (h : Steps x now s result) (hx : Trusted check log x)
    (hl : s = .init → ∀ probe, result.1 = launchedOn x probe now → Probes check log probe)
    (hq : s = .pendingVerify → result.2 = .enter .completing .qualified →
      ∃ host, x.details.hostId = some host ∧ Vouched log host) :
    Trusted check log (result.1.afterStep now result.2) := by
  cases h with
  | unlaunched message => exact ⟨hx.cluster, hx.image, hx.probes, fun hs => by cases hs⟩
  | launched probe =>
      refine ⟨hx.cluster, hx.image, fun host hhost => ?_, fun hs => by cases hs⟩
      cases hhost
      exact hl rfl probe rfl
  | wait _ hr =>
      obtain ⟨start, complete, rfl⟩ := hr
      exact ⟨hx.cluster, hx.image, hx.probes, hx.vouched⟩
  | checkedIn => exact ⟨hx.cluster, hx.image, hx.probes, fun hs => by cases hs⟩
  | failed _ hr message =>
      obtain ⟨start, complete, rfl⟩ := hr
      exact ⟨hx.cluster, hx.image, hx.probes, fun hs => by cases hs⟩
  | qualified hr =>
      obtain ⟨start, complete, rfl⟩ := hr
      exact ⟨hx.cluster, hx.image, hx.probes, fun _ => hq rfl rfl⟩
  | finished => exact ⟨hx.cluster, hx.image, hx.probes, hx.vouched⟩
  | unneeded => exact ⟨hx.cluster, hx.image, hx.probes, hx.vouched⟩

/-- A step whose result is trusted whenever it ends so. -/
theorem delivers_of_steps {s : HealthCheckState}
    {result : HealthCheck × Decision HealthCheckState} (h : Steps x now s result)
    (hx : Upholds id check x j)
    (hl : s = .init → ∀ probe, result.1 = launchedOn x probe now → Probes check j.log probe)
    (hq : s = .pendingVerify → result.2 = .enter .completing .qualified →
      ∃ host, x.details.hostId = some host ∧ Vouched j.log host) :
    Delivers id check x now result j :=
  ⟨hx, h.id_eq.trans hx.id_eq, h.trusted hx.trusted hl hq⟩

/-- Failing alerts and gives the check back. -/
theorem upholds_fail (config : ImageCheckSettings) (subject message : String)
    (h : Upholds id check x j) :
    (fail config y subject message).Follows (apart .check id raises) (giving check)
      (Upheld id check) (fun result j' => Upholds id check x j' ∧ result =
        (y, .fail (if y.state = HealthCheckState.init then .completed else .completing) message))
      j :=
  .bind (upholds_reads h (within_alert (fun _ _ => trivial) _ _ _ _)) fun _ _ h' _ => ⟨h'.2, rfl⟩

/-- A probe host is launched with the image of the check. -/
theorem delivers_init (config : ImageCheckSettings) (now : Instant)
    (hs : x.state = HealthCheckState.init) (h : Upholds id check x j) :
    (init config x now).Follows (apart .check id raises) (giving check) (Upheld id check)
      (Delivers id check x now) j := by
  refine .bind (Q := fun launched j₁ => Upholds id check x j₁ ∧
      ∀ probe ∈ launched, Probes check j₁.log probe)
    (follows_perform.mpr fun r w hb => ?_) fun launched j₁ h₁ _ => ?_
  · obtain ⟨hgives, hup⟩ := h.call (c := .provider _) rfl hb
    refine ⟨hgives, ?_⟩
    cases r with
    | ok launched =>
        refine ⟨hup, fun probe hprobe => .inr ⟨_, List.mem_cons_self, hprobe, ?_⟩⟩
        rw [← h.trusted.cluster, ← h.trusted.image]
    | error f => exact ⟨x, hup⟩
  · obtain ⟨hup, hprobes⟩ := h₁
    split
    · refine (upholds_fail config _ _ hup).imp fun result j₂ hq => ?_
      obtain ⟨hup₂, rfl⟩ := hq
      rw [if_pos hs]
      refine delivers_of_steps (.unlaunched _) hup₂ (fun _ probe he => ?_) fun hp => by cases hp
      exact hup₂.trusted.probes probe (congrArg (fun c => c.details.hostId) he)
    · rename_i probe others
      have hinsert : (ask (.insertHost ⟨probe, x.cluster, .provisioned, false, now, now⟩)).Within
          (holdsBack · = true) (fun _ => True) := within_ask.mpr rfl
      refine .bind (upholds_meets hup hinsert) fun _ j₂ h₂ hlater => ?_
      refine delivers_of_steps (.launched probe) h₂.2 (fun _ host he => ?_) fun hp => by cases hp
      have hhost : probe = host := Option.some.inj (congrArg (fun c => c.details.hostId) he)
      rw [← hhost]
      exact (hprobes probe List.mem_cons_self).mono hlater

/-- Waiting for the probe host to check in changes nothing about the image. -/
theorem delivers_launching (config : ImageCheckSettings) (now : Instant)
    (hs : x.state = HealthCheckState.launching) (h : Upholds id check x j) :
    (launching config x now).Follows (apart .check id raises) (giving check) (Upheld id check)
      (Delivers id check x now) j := by
  refine (upholds_reads h (meets_launching (E := fun _ => True) (fun _ _ => trivial) config now hs
    fun _ _ => trivial)).imp fun result j' hq => ?_
  exact delivers_of_steps hq.1 hq.2 (fun hp => by cases hp) fun hp => by cases hp

/-- The agents that a query answered with are those of the world. -/
theorem agents_of_possible {outside : World → World → Prop} {w w' : World} {agents : List Agent}
    (hb : World.Possible outside raises (.store (.agentsByHost host)) w (.ok agents) w') :
    w'.tables.agentsOn host = agents := by
  obtain ⟨v, -, hv | ⟨f, -, hr, -⟩⟩ := hb
  · obtain ⟨s, hs, rfl, hanswer⟩ := World.found_of_ask rfl hv
    rw [World.tables_eq hs]
    exact Except.ok.inj hanswer
  · cases hr

/-- The one query that decides, with what the check makes of it. -/
structure Judges (x : HealthCheck) (past : List (Entry World))
    (result : HealthCheck × Decision HealthCheckState) (log : List (Entry World))
    (host : HostId) (e : Entry World) : Prop where
  probe : x.details.hostId = some host
  made : ∃ later, log = later ++ e :: past
  asks : e.call = .store (.agentsByHost host)
  answered : e.reply.isOk = true
  qualifies_iff : result.2 = .enter .completing .qualified ↔ e.Vouches host

/-- A check qualifies exactly by what its one query says. -/
theorem follows_pendingVerify (outside : World → World → Prop) (raises : Fault → Prop)
    (config : ImageCheckSettings) (x : HealthCheck) (j : Journal World) :
    (pendingVerify config x).Follows (World.Possible outside raises) (fun _ _ => True)
      (fun _ => True) (fun result j' => ∃ host e, Judges x j.log result j'.log host e) j := by
  rw [pendingVerify, probe]
  cases hhost : x.details.hostId with
  | none => exact trivial
  | some host =>
      refine .bind (Q := fun agents j₁ => ∃ e, j₁.log = e :: j.log ∧
          e.call = .store (.agentsByHost host) ∧ e.reply.isOk = true ∧
          (e.Vouches host ↔ agents ≠ [] ∧ ∀ a ∈ agents, a.isServing = true))
        (follows_perform.mpr fun r w hb => ⟨trivial, ?_⟩) ?_
      · cases r with
        | ok agents =>
            have hagents := agents_of_possible hb
            refine ⟨_, rfl, rfl, rfl, fun h => ?_, fun h => ⟨rfl, rfl, ?_, ?_⟩⟩
            · rw [← hagents]
              exact ⟨h.some, h.serve⟩
            · rw [hagents]
              exact h.1
            · rw [hagents]
              exact h.2
        | error f => trivial
      rintro agents j₁ ⟨e, hlog, hasks, hanswered, hvouches⟩ -
      have hjudges : ∀ (result : HealthCheck × Decision HealthCheckState) (j' : Journal World),
          j₁.log <:+ j'.log → (result.2 = .enter .completing .qualified ↔
            agents ≠ [] ∧ ∀ a ∈ agents, a.isServing = true) →
          ∃ host e, Judges x j.log result j'.log host e := by
        rintro result j' ⟨later, hlater⟩ hiff
        refine ⟨host, e, hhost, ⟨later, ?_⟩, hasks, hanswered, hiff.trans hvouches.symm⟩
        rw [← hlater, hlog]
      dsimp only
      split
      · rename_i hnone
        refine hjudges _ j₁ (List.suffix_refl _) ⟨fun hd => (by cases hd), fun h => ?_⟩
        exact absurd (List.isEmpty_iff.mp hnone) h.1
      · rename_i hsome
        split
        · rename_i failed hfound
          have hnot : ¬(agents ≠ [] ∧ ∀ a ∈ agents, a.isServing = true) := by
            intro h
            have hfailed : failed.isFailed = true := List.find?_some hfound
            rw [Agent.isFailed, h.2 failed (List.mem_of_find?_eq_some hfound)] at hfailed
            cases hfailed
          have halert : ∀ subject message,
              (alert config (recordDeploy x agents) subject message).Follows
                (World.Possible outside raises) (fun _ _ => True) (fun _ => True)
                (fun _ _ => True) j₁ := by
            intro subject message
            have hreads := within_alert (E := fun _ => True) (fun _ _ => trivial) config
              (recordDeploy x agents) subject message
            exact (hreads.follows (fun _ _ _ _ _ _ _ => ⟨trivial, trivial⟩) trivial).imp
              fun _ _ _ => trivial
          refine .bind (halert _ _) fun _ j₂ _ hlater => hjudges _ j₂ hlater ⟨fun hd => ?_,
            fun h => absurd h hnot⟩
          have hstatus := (Decision.move.inj hd).2.1
          cases hstatus
        · rename_i hfound
          refine hjudges _ j₁ (List.suffix_refl _) ?_
          dsimp only
          split
          · rename_i hall
            have hserve := List.all_eq_true.mp hall
            have hne : agents ≠ [] := fun hnil => hsome (List.isEmpty_iff.mpr hnil)
            exact ⟨fun _ => ⟨hne, hserve⟩, fun _ => rfl⟩
          · rename_i hall
            exact ⟨fun hd => (by cases hd), fun h => absurd (List.all_eq_true.mpr h.2) hall⟩

/-- What a query has vouched for stands in the log. -/
theorem Judges.vouched {result : HealthCheck × Decision HealthCheckState}
    (h : Judges x past result log host e) (hd : result.2 = .enter .completing .qualified) :
    x.details.hostId = some host ∧ Vouched log host := by
  obtain ⟨later, hlog⟩ := h.made
  refine ⟨h.probe, e, ?_, h.qualifies_iff.mp hd⟩
  rw [hlog]
  exact List.mem_append_right _ List.mem_cons_self

theorem delivers_pendingVerify (config : ImageCheckSettings) (now : Instant)
    (hs : x.state = HealthCheckState.pendingVerify) (h : Upholds id check x j) :
    (pendingVerify config x).Follows (apart .check id raises) (giving check) (Upheld id check)
      (Delivers id check x now) j := by
  have hmeets := meets_pendingVerify (E := fun _ => True) (fun _ _ => trivial) config now hs
    fun _ _ => trivial
  have hreads : (pendingVerify config x).Follows (apart .check id raises) (giving check)
      (Upheld id check)
      (fun result j' => Steps x now .pendingVerify result ∧ Upholds id check x j') j :=
    upholds_reads h hmeets
  have hjudges := follows_pendingVerify (World.Untouched .check id) raises config x j
  refine Keeps.mono (Keeps.and hreads hjudges) (fun _ _ h => h.1) ?_
  rintro (f | result) j' ⟨hend, hjudged⟩
  · exact hend
  · obtain ⟨hsteps, hup⟩ := hend
    obtain ⟨host, e, hjudged⟩ := hjudged
    refine delivers_of_steps hsteps hup (fun hp => by cases hp) fun _ hd => ?_
    exact ⟨host, hjudged.vouched hd⟩

/-- The calls of the last phase, of which one may give the image. -/
def Finishes (x : HealthCheck) (c : Call) : Prop :=
  holdsBack c = true ∨ (x.header.status = some .qualified ∧
    c = .store (.setClusterImage x.cluster x.details.imageId))

theorem finishes_of_isRead {c : Call} (h : c.isRead = true) : Finishes x c :=
  .inl (holdsBack_of_isRead h)

theorem finishes_of_locks {c : Call} (h : c.isLockless = false) : Finishes x c := by
  cases c <;> first | exact .inl rfl | cases h

/-- Whatever the last phase does, an image is given only if the stored version has qualified. -/
theorem delivers_completing (now : Instant) (h : Upholds id check x j) :
    (completing x).Follows (apart .check id raises) (giving check) (Upheld id check)
      (Delivers id check x now) j := by
  have hmeets : (completing x).Meets (Finishes x) (fun _ => True) (Steps x now .completing) := by
    refine meets_completing_of now ?_ fun _ _ => ⟨.inl rfl, .inl rfl⟩
    exact within_imageIsBusy (fun _ hq => finishes_of_isRead hq) (fun _ => finishes_of_locks)
      (fun hstatus _ => .inr ⟨hstatus, rfl⟩) (fun _ _ => trivial) fun _ _ => trivial
  have hcall : ∀ (j : Journal World) (c : Call) r w, Finishes x c → Upholds id check x j →
      apart .check id raises c j.state r w →
        giving check j.log ⟨j.state, c, r, w⟩ ∧ Upholds id check x (j.enter c r w) := by
    rintro j c r w (hc | ⟨hstatus, rfl⟩) hj hb
    · exact hj.call hc hb
    · exact ⟨hj.gives hstatus, hj.enter (fun y hy => by cases hy) hb⟩
  refine (hmeets.follows hcall h).mono (fun _ _ h => h) (fun j' hj => ⟨x, hj⟩) ?_
  intro result j' hq
  exact delivers_of_steps hq.1 hq.2 (fun hp => by cases hp) fun hp => by cases hp

theorem delivers_step (config : ImageCheckSettings) (now : Instant) (h : Upholds id check x j) :
    (step config x now).Follows (apart .check id raises) (giving check) (Upheld id check)
      (Delivers id check x now) j := by
  simp only [step]
  split <;> rename_i hs
  · exact delivers_init config now hs h
  · exact delivers_launching config now hs h
  · exact delivers_pendingVerify config now hs h
  · exact delivers_completing now h
  · exact ⟨x, h⟩

/-! ## Ticks -/

/-- What a check that is never stepped again cleans up is stored as a trusted version. -/
theorem upheld_cleanUp (h : Upholds id check x j) :
    (cleanUp x).Follows (apart .check id raises) (giving check) (Upheld id check)
      (fun _ => Upheld id check) j := by
  rw [cleanUp]
  split
  · refine Follows.imp (Follows.attempt (Q := fun _ => Upheld id check) ?_) fun _ _ h => h.same
    have hprobe : MayRelease (holdsBack · = true) x := fun _ _ => ⟨rfl, rfl⟩
    refine .bind (upholds_meets h (meets_releaseProbe hprobe)) ?_
    rintro _ j₁ ⟨rfl | ⟨rfl, -⟩, h₁⟩ -
    · have ht := h₁.trusted
      have hreleased : Trusted check j₁.log (released x) :=
        ⟨ht.cluster, ht.image, ht.probes, ht.vouched⟩
      exact (upholds_store (y := released x) h₁ h₁.id_eq hreleased).imp fun _ _ h₂ => ⟨_, h₂⟩
    · exact ⟨x, h₁⟩
  · exact ⟨x, h⟩

/-- A timeout is stored as a trusted version, and so is what follows it. -/
theorem upheld_timeOut (config : ImageCheckSettings) (now : Instant) (h : Upholds id check x j) :
    ((lifecycle config).timeOut x now).Follows (apart .check id raises) (giving check)
      (Upheld id check) (fun _ => Upheld id check) j := by
  have ht := h.trusted
  have hexpired : Trusted check j.log
      (x.afterTimeout now (timeoutTarget x.state) (timeoutMessage x)) :=
    ⟨ht.cluster, ht.image, ht.probes, fun hs => by cases hs⟩
  have hend : ∀ y j, Upholds id check y j →
      (onTimeout config y).Follows (apart .check id raises) (giving check) (Upheld id check)
        (fun _ => Upheld id check) j := by
    intro y j hy
    rw [onTimeout_eq]
    refine .bind (upheld_cleanUp hy) fun cleaned j₁ ⟨z, hz⟩ _ => ?_
    refine .bind (upholds_reads hz (within_alert (fun _ _ => trivial) _ _ _ _)) ?_
    rintro _ j₂ ⟨-, h₂⟩ -
    cases cleaned <;> exact ⟨z, h₂⟩
  refine .bind (upholds_store h h.id_eq hexpired) fun _ j₁ h₁ _ => ?_
  exact .bind (hend _ _ h₁).attempt fun _ _ h₂ _ => h₂.same

theorem upheld_work (config : ImageCheckSettings) (now : Instant) (h : Upholds id check x j) :
    ((lifecycle config).work x now).Follows (apart .check id raises) (giving check)
      (Upheld id check) (fun _ => Upheld id check) j := by
  rw [Lifecycle.work]
  split
  · exact ⟨x, h⟩
  · refine .bind (upholds_reads h (only_clusterIsPaused (fun _ hc => hc) _)) ?_
    rintro paused j₁ ⟨-, h₁⟩ -
    split
    · have ht := h₁.trusted
      have htouched : Trusted check j₁.log (x.touch now) :=
        ⟨ht.cluster, ht.image, ht.probes, ht.vouched⟩
      exact .bind (upholds_store h₁ h₁.id_eq htouched) fun _ _ h₂ _ => ⟨_, h₂⟩
    · cases (lifecycle config).timeout with
      | error f => exact ⟨x, h₁⟩
      | ok limit =>
          simp only [ofOutcome, Program.bind]
          split
          · exact upheld_timeOut config now h₁
          · refine .bind (delivers_step config now h₁) ?_
            rintro ⟨changed, d⟩ j₂ ⟨h₂, hid, ht⟩ -
            refine .bind (upholds_store h₂ ((Item.id_afterStep _ _ _).trans hid) ht) ?_
            intro _ j₃ h₃ _
            cases d <;> exact ⟨_, h₃⟩

/-- A tick leaves a trusted version of the check, whatever fails on the way. -/
theorem upheld_advance (raises : Fault → Prop) (config : ImageCheckSettings) (now : Instant)
    (h : Upholds id check x j) :
    ((lifecycle config).advance id now).Follows (apart .check id raises) (giving check)
      (Upheld id check) (fun _ => Upheld id check) j := by
  rw [Lifecycle.advance_eq]
  refine .bind (Q := fun found j₁ => found = some x ∧ Upholds id check x j₁)
    (follows_perform.mpr fun r w hb => ?_) ?_
  · obtain ⟨hgives, h₁⟩ := h.call (c := .store (.getItem .check id)) rfl hb
    refine ⟨hgives, ?_⟩
    cases r with
    | ok found => exact ⟨h.shows.read hb, h₁⟩
    | error f => exact ⟨x, h₁⟩
  · rintro _ j₁ ⟨rfl, h₁⟩ -
    exact upheld_work config now h₁

/-- Ticks of a check with all their calls, whatever fails in them. Between them and before each
call the others may do anything but write the check. -/
inductive Career (raises : Fault → Prop) (id : ItemId) (w : World) : Journal World → Prop where
  | start : Career raises id w (.start w)
  | others {j : Journal World} {v : World} (past : Career raises id w j)
      (h : World.Untouched .check id j.state v) : Career raises id w ⟨v, j.log⟩
  | tick {j j' : Journal World} (past : Career raises id w j) {config : ImageCheckSettings}
      {now : Instant} {r : Outcome (Progress HealthCheckState)}
      (he : ((lifecycle config).advance id now).Ends (apart .check id raises).recorded j r j') :
      Career raises id w j'

/-- Over its whole life a check is trusted, if it began without having qualified. -/
theorem Career.upheld {w : World} (h : Career raises check.id w j)
    (hw : World.Shows check.id w check) (hs : check.header.status ≠ some .qualified) :
    Upheld check.id check j ∧ (giving check).Admits j.log := by
  induction h with
  | start =>
      have htrusted : Trusted check [] check :=
        ⟨rfl, rfl, fun host hhost => .inl hhost, fun hq => absurd hq hs⟩
      exact ⟨⟨check, rfl, hw, htrusted⟩, trivial⟩
  | others past hv ih =>
      obtain ⟨⟨x, hx⟩, hadmits⟩ := ih
      exact ⟨⟨x, hx.id_eq, hx.shows.outside hv, hx.trusted⟩, hadmits⟩
  | @tick j j' past config now r he ih =>
      obtain ⟨⟨x, hx⟩, hadmits⟩ := ih
      have hfollows := upheld_advance raises config now hx
      have hend := Keeps.ends hfollows he
      refine ⟨?_, Keeps.admits hfollows he hadmits⟩
      cases r <;> exact hend

/-! ## The law -/

/-- A step in PENDING_VERIFY ends by the answer to one query for the agents on the probe host: the
check qualifies exactly if there are any and all of them serve. Its own environment serves there
as well exactly if one of them is of that environment. And an image is given to a cluster only
by a check of both, after all agents on one of its probe hosts were seen serving. -/
theorem qualifies_iff_all_serve (raises : Fault → Prop) :
    (∀ (outside : World → World → Prop) (config : ImageCheckSettings) (check : HealthCheck)
      (now : Instant) (w : World) (j : Journal World)
      (result : HealthCheck × Decision HealthCheckState),
      check.state = HealthCheckState.pendingVerify →
      (step config check now).Ends (World.Possible outside raises).recorded (.start w)
        (.ok result) j →
      ∃ host, check.details.hostId = some host ∧ ∃ e ∈ j.log,
        e.call = .store (.agentsByHost host) ∧ e.reply.isOk = true ∧
        (result.2 = .enter .completing .qualified ↔
          e.after.tables.agentsOn host ≠ [] ∧
            ∀ a ∈ e.after.tables.agentsOn host, a.isServing = true) ∧
        ((∃ a ∈ e.after.tables.agentsOn host, a.envId = check.envId ∧ a.isServing = true) ∧
            (∀ a ∈ e.after.tables.agentsOn host, a.isServing = true) ↔
          result.2 = .enter .completing .qualified ∧
            ∃ a ∈ e.after.tables.agentsOn host, a.envId = check.envId)) ∧
    (∀ (check : HealthCheck) (w : World) (j : Journal World) (later past : List (Entry World))
      (e : Entry World) (cluster image : String),
      World.Shows check.id w check → check.header.status ≠ some .qualified →
      Career raises check.id w j → j.log = later ++ e :: past →
      e.call = .store (.setClusterImage cluster image) →
      cluster = check.cluster ∧ image = check.details.imageId ∧
        ∃ host, Probes check past host ∧ Vouched past host) := by
  constructor
  · intro outside config check now w j result hs he
    have hstep : step config check now = pendingVerify config check := by
      simp only [step]
      rw [hs]
    rw [hstep] at he
    obtain ⟨host, e, hjudges⟩ : ∃ host e, Judges check [] result j.log host e :=
      Keeps.ends (follows_pendingVerify outside raises config check (.start w)) he
    obtain ⟨later, hlog⟩ := hjudges.made
    have hqualifies : result.2 = .enter .completing .qualified ↔
        e.after.tables.agentsOn host ≠ [] ∧
          ∀ a ∈ e.after.tables.agentsOn host, a.isServing = true := by
      refine hjudges.qualifies_iff.trans ⟨fun h => ⟨h.some, h.serve⟩, fun h => ?_⟩
      exact ⟨hjudges.asks, hjudges.answered, h.1, h.2⟩
    refine ⟨host, hjudges.probe, e, ?_, hjudges.asks, hjudges.answered, hqualifies, ?_⟩
    · rw [hlog]
      exact List.mem_append_right _ List.mem_cons_self
    · constructor
      · rintro ⟨⟨a, ha, henv, -⟩, hall⟩
        exact ⟨hqualifies.mpr ⟨List.ne_nil_of_mem ha, hall⟩, a, ha, henv⟩
      · rintro ⟨hd, a, ha, henv⟩
        have hall := (hqualifies.mp hd).2
        exact ⟨⟨a, ha, henv, hall a ha⟩, hall⟩
  · intro check w j later past e cluster image hw hs hcareer hlog hcall
    obtain ⟨-, hadmits⟩ := hcareer.upheld hw hs
    rw [hlog] at hadmits
    have hgives : giving check past e := hadmits.of_append
    exact hgives cluster image hcall

/-- A check whose probe host has checked in. -/
def verifyingCheck : HealthCheck :=
  let check := HealthCheck.new "check" "web" "prod" .manuallyTriggered "image" .epoch
  { check with
    state := HealthCheckState.pendingVerify
    header := { check.header with status := some .succeeded }
    details := { check.details with hostId := some "probe", hostLaunchTime := some .epoch } }

/-- The check with its cluster and image, and an agent of one environment that serves on the
probe host. -/
def verifying (env : EnvId) : World :=
  let cluster : Cluster := ⟨"web", "prod", .normal, none, 0, ⟨[], [], none⟩, .epoch⟩
  let agent : Agent := ⟨"probe", env, .servingBuild, .succeeded, .normal, none, none, .epoch⟩
  let store := (Store.empty.putAgent agent).putItem .check verifyingCheck
  { World.initial .epoch (.seeded 0) with
    store := some { store with
      clusters := store.clusters.insert cluster.name cluster
      images := store.images.insert "image" ⟨"image", .epoch⟩ } }

/-- A tick of the check in which no call fails. -/
def tickVerifying (j : Journal World) : Journal World :=
  ((lifecycle {}).advance "check" .epoch).undisturbed j

theorem keyed_verifying (env : EnvId) : (verifying env).tables.Keyed := by
  have hcheck := (Store.keyed_empty.putAgent
    ⟨"probe", env, .servingBuild, .succeeded, .normal, none, none, .epoch⟩).putItem .check
      verifyingCheck
  have hcluster := hcheck.insertCluster ⟨"web", "prod", .normal, none, 0, ⟨[], [], none⟩, .epoch⟩
  exact { hcluster with images := hcluster.images.insert ⟨"image", .epoch⟩ }

/-- Whether a call gives an image to a cluster. -/
def gives : Call → Bool
  | .store (.setClusterImage _ _) => true
  | _ => false

/-- Such a tick goes on with the life of the check. -/
theorem Career.verifying {w : World} (h : Career (fun _ => False) "check" w j)
    (hk : j.state.tables.Keyed) : Career (fun _ => False) "check" w (tickVerifying j) ∧
      (tickVerifying j).state.tables.Keyed := by
  have hrun : ((lifecycle {}).advance "check" .epoch).Ends
      (apart .check "check" fun _ => False).recorded j _ (tickVerifying j) :=
    ends_failing (I := fun w => w.tables.Keyed) (fun _ => World.untouched_refl)
      (fun c _ hk => World.keyed_answer hk c) (fun _ _ _ hf => by cases hf) _ hk
  have halone : ((lifecycle {}).advance "check" .epoch).Ends
      (World.Possible Eq fun _ => False).recorded j _ (tickVerifying j) :=
    ends_undisturbed (fun _ => rfl) _ j
  refine ⟨h.tick hrun, halone.preserves (I := fun j => j.state.tables.Keyed) ?_ hk⟩
  rintro c j r _ hk ⟨s, hb, rfl⟩
  exact World.Possible.preserves (I := fun w => w.tables.Keyed) hb (fun v hv hk => hv ▸ hk)
    (fun v hk => World.keyed_answer hk c) hk

/-- The law where the check's own environment serves on the probe host. -/
theorem qualifies_iff_all_serve_verifying :
    (∃ (result : HealthCheck × Decision HealthCheckState) (j : Journal World),
      verifyingCheck.state = HealthCheckState.pendingVerify ∧
      (step {} verifyingCheck .epoch).Ends (World.Possible Eq fun _ => False).recorded
        (.start (verifying "prod")) (.ok result) j ∧
      result.2 = .enter .completing .qualified ∧
      ∃ e ∈ j.log, e.after.tables.agentsOn "probe" ≠ []) ∧
    ∃ (j : Journal World) (later past : List (Entry World)) (e : Entry World),
      World.Shows verifyingCheck.id (verifying "prod") verifyingCheck ∧
      verifyingCheck.header.status ≠ some .qualified ∧
      Career (fun _ => False) verifyingCheck.id (verifying "prod") j ∧
      j.log = later ++ e :: past ∧ e.call = .store (.setClusterImage "web" "image") ∧
      ∃ host, Probes verifyingCheck past host ∧ Vouched past host := by
  obtain ⟨hstep, hcareer⟩ := qualifies_iff_all_serve fun _ => False
  constructor
  · have he : (step {} verifyingCheck .epoch).Ends (World.Possible Eq fun _ => False).recorded
        (.start (verifying "prod")) _ _ := ends_undisturbed (fun _ => rfl) _ _
    have hrun : ((step {} verifyingCheck .epoch).run (failing fun _ _ => none)
        (.start (verifying "prod"))).1.toOption.map Prod.snd =
          some (.enter .completing .qualified) := by decide +kernel
    generalize ((step {} verifyingCheck .epoch).run (failing fun _ _ => none)
      (.start (verifying "prod"))).1 = outcome at he hrun
    cases outcome with
    | error f => cases hrun
    | ok result =>
        have hd : result.2 = .enter .completing .qualified := Option.some.inj hrun
        obtain ⟨host, hhost, e, he', -, -, hiff, -⟩ := hstep _ _ _ _ _ _ _ rfl he
        cases hhost
        exact ⟨result, _, rfl, he, hd, e, he', (hiff.mp hd).1⟩
  · have hk := keyed_verifying "prod"
    have hw : World.Shows verifyingCheck.id (verifying "prod") verifyingCheck := by
      rintro s hs
      cases hs
      exact ⟨hk.items .check, rfl⟩
    have hs : verifyingCheck.header.status ≠ some .qualified := by decide
    obtain ⟨hfirst, hk₁⟩ := Career.verifying (.start (w := verifying "prod")) hk
    obtain ⟨hsecond, -⟩ := hfirst.verifying hk₁
    have hgives : (tickVerifying (tickVerifying (.start (verifying "prod")))).log.any
        (fun e => gives e.call) = true := by decide +kernel
    obtain ⟨e, he, hcall⟩ := List.any_eq_true.mp hgives
    obtain ⟨later, past, hlog⟩ := List.append_of_mem he
    unfold gives at hcall
    split at hcall
    · rename_i cluster image hc
      obtain ⟨rfl, rfl, hprobe⟩ := hcareer _ _ _ _ _ _ _ _ hw hs hsecond hlog hc
      exact ⟨_, later, past, e, hw, hs, hsecond, hlog, hc, hprobe⟩
    · cases hcall

/-- Nothing on the probe host is of the check's own environment, and still the check qualifies
with the next tick, and with the one after it the image is given to the cluster. -/
theorem image_given_without_own_environment :
    let first := tickVerifying (.start (verifying "canary"))
    let second := tickVerifying first
    verifyingCheck.envId = "prod" ∧
      ((verifying "canary").tables.agentsOn "probe").map Agent.envId = ["canary"] ∧
      (first.state.tables.getItem .check "check").map (fun check =>
        (check.state, check.header.status)) =
          some (HealthCheckState.completing, some .qualified) ∧
      (second.state.tables.clusters.get? "web").bind Cluster.imageId = some "image" ∧
      (second.state.tables.agentsOn "probe").map Agent.envId = ["canary"] := by
  refine ⟨rfl, ?_, ?_, ?_, ?_⟩ <;> decide +kernel

end ImageCheck

end FleetControl
