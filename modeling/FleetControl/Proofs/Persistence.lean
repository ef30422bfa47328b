import FleetControl.Proofs.Editing
import FleetControl.Proofs.Rendering
import FleetControl.Record.Deploy

/-!
# Persisted records read back

Every persisted record reads as itself from the text that it is written as, and
still does after members of unknown names came in or members that are null
went. The reader of each record is followed member by member; how one member is
found again is the same for all of them.
-/
namespace FleetControl

open Json

/-! ## Records of the fleet -/

theorem Recipients.readsAs (r : Recipients) : ReadsAs Recipients.ofJson? r.toJson r := by
  refine readsAs_object (by simp) (fun _ => rfl) fun f h => ?_
  simp only [List.forall_mem_cons] at h
  obtain ⟨hemail, hpager, hchatroom, -⟩ := h
  simp [Recipients.ofFields?, hemail.defaulting (readsAs_texts _),
    hpager.defaulting (readsAs_texts _), hchatroom.optional fun s _ => readsAs_text s]

/-- What has a text: numbers that fit their words and dates with four digits of year. -/
structure Cluster.IsWritable (c : Cluster) : Prop where
  launchGraceSecs : c.launchGraceSecs < 2 ^ 64
  lastUpdate : Timestamp.IsWritable c.lastUpdate

theorem Cluster.readsAs {c : Cluster} (hc : c.IsWritable) : ReadsAs Cluster.ofJson? c.toJson c := by
  refine readsAs_object (by simp) (fun _ => rfl) fun f h => ?_
  simp only [List.forall_mem_cons] at h
  obtain ⟨hname, henv, hstate, himage, hgrace, hrecipients, hupdate, -⟩ := h
  simp [Cluster.ofFields?, hname.required (readsAs_text _), henv.required (readsAs_text _),
    hstate.required (readsAs_enumeration _), himage.optional fun s _ => readsAs_text s,
    hgrace.required (readsAs_nat64 hc.launchGraceSecs),
    hrecipients.required c.recipients.readsAs, hupdate.required (readsAs_instant hc.lastUpdate)]

theorem Environment.readsAs {e : Environment} (he : e.maxParallelReplacement < 2 ^ 64) :
    ReadsAs Environment.ofJson? e.toJson e := by
  refine readsAs_object (by simp) (fun _ => rfl) fun f h => ?_
  simp only [List.forall_mem_cons] at h
  obtain ⟨hid, hname, hstage, hstate, hdeploy, hbuild, hparallel, hrecipients, -⟩ := h
  simp [Environment.ofFields?, hid.required (readsAs_text _), hname.required (readsAs_text _),
    hstage.required (readsAs_text _), hstate.required (readsAs_enumeration _),
    hdeploy.optional fun s _ => readsAs_text s, hbuild.required (readsAs_text _),
    hparallel.required (readsAs_nat64 he), hrecipients.required e.recipients.readsAs]

theorem Image.readsAs {i : Image} (hi : Timestamp.IsWritable i.publishDate) :
    ReadsAs Image.ofJson? i.toJson i := by
  refine readsAs_object (by simp) (fun _ => rfl) fun f h => ?_
  simp only [List.forall_mem_cons] at h
  obtain ⟨hid, hdate, -⟩ := h
  simp [Image.ofFields?, hid.required (readsAs_text _), hdate.required (readsAs_instant hi)]

structure Host.IsWritable (h : Host) : Prop where
  lastUpdate : Timestamp.IsWritable h.lastUpdate
  createdAt : Timestamp.IsWritable h.createdAt

theorem Host.readsAs {i : Host} (hi : i.IsWritable) : ReadsAs Host.ofJson? i.toJson i := by
  refine readsAs_object (by simp) (fun _ => rfl) fun f h => ?_
  simp only [List.forall_mem_cons] at h
  obtain ⟨hid, hcluster, hstate, hretirable, hupdate, hcreated, -⟩ := h
  simp [Host.ofFields?, hid.required (readsAs_text _), hcluster.required (readsAs_text _),
    hstate.required (readsAs_enumeration _), hretirable.required (readsAs_bool _),
    hupdate.required (readsAs_instant hi.lastUpdate),
    hcreated.required (readsAs_instant hi.createdAt)]

structure Agent.IsWritable (a : Agent) : Prop where
  deployStart : ∀ t ∈ a.deployStart, Timestamp.IsWritable t
  firstDeployTime : ∀ t ∈ a.firstDeployTime, Timestamp.IsWritable t
  lastUpdate : Timestamp.IsWritable a.lastUpdate

theorem Agent.readsAs {a : Agent} (ha : a.IsWritable) : ReadsAs Agent.ofJson? a.toJson a := by
  refine readsAs_object (by simp) (fun _ => rfl) fun f h => ?_
  simp only [List.forall_mem_cons] at h
  obtain ⟨hhost, henv, hstage, hstatus, hstate, hstart, hfirst, hupdate, -⟩ := h
  simp [Agent.ofFields?, hhost.required (readsAs_text _), henv.required (readsAs_text _),
    hstage.required (readsAs_enumeration _), hstatus.required (readsAs_enumeration _),
    hstate.required (readsAs_enumeration _),
    hstart.optional fun t ht => readsAs_instant (ha.deployStart t ht),
    hfirst.optional fun t ht => readsAs_instant (ha.firstDeployTime t ht),
    hupdate.required (readsAs_instant ha.lastUpdate)]

theorem DeployConstraint.readsAs {c : DeployConstraint}
    (hc : Timestamp.IsWritable c.lastUpdate) : ReadsAs DeployConstraint.ofJson? c.toJson c := by
  refine readsAs_object (by simp) (fun _ => rfl) fun f h => ?_
  simp only [List.forall_mem_cons] at h
  obtain ⟨hid, henv, hname, hstate, hupdate, -⟩ := h
  simp [DeployConstraint.ofFields?, hid.required (readsAs_text _), henv.required (readsAs_text _),
    hname.required (readsAs_text _), hstate.required (readsAs_enumeration _),
    hupdate.required (readsAs_instant hc)]

theorem HostTag.readsAs (t : HostTag) : ReadsAs HostTag.ofJson? t.toJson t := by
  refine readsAs_object (by simp) (fun _ => rfl) fun f h => ?_
  simp only [List.forall_mem_cons] at h
  obtain ⟨hhost, henv, hname, hvalue, -⟩ := h
  simp [HostTag.ofFields?, hhost.required (readsAs_text _), henv.required (readsAs_text _),
    hname.required (readsAs_text _), hvalue.optional fun s _ => readsAs_text s]

/-! ## Records of deploys -/

theorem Deploy.readsAs {d : Deploy} (hd : Timestamp.IsWritable d.startDate) :
    ReadsAs Deploy.ofJson? d.toJson d := by
  refine readsAs_object (by simp) (fun _ => rfl) fun f h => ?_
  simp only [List.forall_mem_cons] at h
  obtain ⟨hid, henv, hbuild, hstate, hacceptance, hstart, hfrom, -⟩ := h
  simp [Deploy.ofFields?, hid.required (readsAs_text _), henv.required (readsAs_text _),
    hbuild.required (readsAs_text _), hstate.required (readsAs_enumeration _),
    hacceptance.required (readsAs_enumeration _), hstart.required (readsAs_instant hd),
    hfrom.optional fun s _ => readsAs_text s]

theorem Build.readsAs {b : Build} (hb : Timestamp.IsWritable b.publishDate) :
    ReadsAs Build.ofJson? b.toJson b := by
  refine readsAs_object (by simp) (fun _ => rfl) fun f h => ?_
  simp only [List.forall_mem_cons] at h
  obtain ⟨hid, hname, hdate, hbad, -⟩ := h
  simp [Build.ofFields?, hid.required (readsAs_text _), hname.required (readsAs_text _),
    hdate.required (readsAs_instant hb), hbad.required (readsAs_bool _)]

structure PromotionRule.IsWritable (c : PromotionRule) : Prop where
  queueSize : c.queueSize < 2 ^ 64
  delayMinutes : c.delayMinutes < 2 ^ 32

theorem PromotionRule.readsAs {c : PromotionRule} (hc : c.IsWritable) :
    ReadsAs PromotionRule.ofJson? c.toJson c := by
  refine readsAs_object (by simp) (fun _ => rfl) fun f h => ?_
  simp only [List.forall_mem_cons] at h
  obtain ⟨henv, hkind, hpred, hqueue, hdelay, hpolicy, -⟩ := h
  simp [PromotionRule.ofFields?, henv.required (readsAs_text _),
    hkind.required (readsAs_enumeration _), hpred.optional fun s _ => readsAs_text s,
    hqueue.required (readsAs_nat64 hc.queueSize),
    hdelay.required (readsAs_nat32 hc.delayMinutes), hpolicy.required (readsAs_enumeration _)]

/-! ## Records of work items -/

structure ItemHeader.IsWritable (i : ItemHeader) : Prop where
  stateStartTime : Timestamp.IsWritable i.stateStartTime
  lastWorkedOn : Timestamp.IsWritable i.lastWorkedOn
  createdAt : Timestamp.IsWritable i.createdAt

/-- A header reads from the members around it too. -/
theorem ItemHeader.ofFields?_of_shown {i : ItemHeader} (hi : i.IsWritable) {f : Fields}
    (h : ∀ m ∈ i.members, Shown m.2 (f m.1)) : ItemHeader.ofFields? f = some i := by
  simp only [ItemHeader.members, List.forall_mem_cons] at h
  obtain ⟨hid, hstatus, hstart, hworked, herror, hcreated, -⟩ := h
  simp [ItemHeader.ofFields?, hid.required (readsAs_text _),
    hstatus.optional fun s _ => readsAs_ofMember s,
    hstart.required (readsAs_instant hi.stateStartTime),
    hworked.required (readsAs_instant hi.lastWorkedOn),
    herror.optional fun s _ => readsAs_text s, hcreated.required (readsAs_instant hi.createdAt)]

structure CheckDetails.IsWritable (d : CheckDetails) : Prop where
  hostLaunchTime : ∀ t ∈ d.hostLaunchTime, Timestamp.IsWritable t
  deployStartTime : ∀ t ∈ d.deployStartTime, Timestamp.IsWritable t
  deployCompleteTime : ∀ t ∈ d.deployCompleteTime, Timestamp.IsWritable t

namespace ItemKind

def IsWritable : (k : ItemKind) → k.Details → Prop
  | upgrade, _ => True
  | check, d => d.IsWritable

theorem detailsOfFields?_of_shown {k : ItemKind} {d : k.Details} (hd : k.IsWritable d) {f : Fields}
    (h : ∀ m ∈ k.detailMembers d, Shown m.2 (f m.1)) : k.detailsOfFields? f = some d := by
  cases k with
  | upgrade =>
      simp only [detailMembers, UpgradeDetails.members, List.forall_mem_cons] at h
      simp [detailsOfFields?, UpgradeDetails.ofFields?, h.1.defaulting (readsAs_idSet _)]
  | check =>
      simp only [detailMembers, CheckDetails.members, List.forall_mem_cons] at h
      obtain ⟨hkind, himage, hhost, hlaunch, hterminated, hstart, hcomplete, -⟩ := h
      simp [detailsOfFields?, CheckDetails.ofFields?, hkind.required (readsAs_enumeration _),
        himage.required (readsAs_text _), hhost.optional fun s _ => readsAs_text s,
        hlaunch.optional fun t ht => readsAs_instant (hd.hostLaunchTime t ht),
        hterminated.defaulting (readsAs_bool _),
        hstart.optional fun t ht => readsAs_instant (hd.deployStartTime t ht),
        hcomplete.optional fun t ht => readsAs_instant (hd.deployCompleteTime t ht)]

end ItemKind

structure Item.IsWritable {k : ItemKind} (i : Item k) : Prop where
  header : i.header.IsWritable
  details : k.IsWritable i.details

theorem Item.readsAs {k : ItemKind} {i : Item k} (hi : i.IsWritable) :
    ReadsAs (Item.ofJson? k) i.toJson i := by
  have hnodup : ((i.header.members ++ [("cluster", .string i.cluster), ("env_id", .string i.envId),
      ("state", Enumeration.toJson i.state)] ++ k.detailMembers i.details).map Prod.fst).Nodup := by
    cases k <;>
      simp [ItemHeader.members, ItemKind.detailMembers, UpgradeDetails.members,
        CheckDetails.members]
  refine readsAs_object hnodup (fun _ => rfl) fun f h => ?_
  simp only [List.forall_mem_append, List.forall_mem_cons] at h
  obtain ⟨⟨hheader, hcluster, henv, hstate, -⟩, hdetails⟩ := h
  simp [Item.ofFields?, ItemHeader.ofFields?_of_shown hi.header hheader,
    hcluster.required (readsAs_text _), henv.required (readsAs_text _),
    hstate.required (readsAs_enumeration _),
    ItemKind.detailsOfFields?_of_shown hi.details hdetails]

/-! ## All records -/

/-- The kinds of persisted records. -/
inductive RecordKind where
  | upgradeEvent
  | healthCheck
  | cluster
  | environment
  | image
  | host
  | agent
  | deploy
  | build
  | promotionRule
  | deployConstraint
  | hostTag
  deriving DecidableEq, Repr

namespace RecordKind

@[reducible] def Value : RecordKind → Type
  | upgradeEvent => UpgradeEvent
  | healthCheck => HealthCheck
  | cluster => Cluster
  | environment => Environment
  | image => Image
  | host => Host
  | agent => Agent
  | deploy => Deploy
  | build => Build
  | promotionRule => PromotionRule
  | deployConstraint => DeployConstraint
  | hostTag => HostTag

def toJson : (k : RecordKind) → k.Value → Json
  | upgradeEvent, e => Item.toJson e
  | healthCheck, c => Item.toJson c
  | cluster, c => Cluster.toJson c
  | environment, e => Environment.toJson e
  | image, i => Image.toJson i
  | host, h => Host.toJson h
  | agent, a => Agent.toJson a
  | deploy, d => Deploy.toJson d
  | build, b => Build.toJson b
  | promotionRule, c => PromotionRule.toJson c
  | deployConstraint, c => DeployConstraint.toJson c
  | hostTag, t => HostTag.toJson t

def ofJson? : (k : RecordKind) → Json → Option k.Value
  | upgradeEvent => Item.ofJson? .upgrade
  | healthCheck => Item.ofJson? .check
  | cluster => Cluster.ofJson?
  | environment => Environment.ofJson?
  | image => Image.ofJson?
  | host => Host.ofJson?
  | agent => Agent.ofJson?
  | deploy => Deploy.ofJson?
  | build => Build.ofJson?
  | promotionRule => PromotionRule.ofJson?
  | deployConstraint => DeployConstraint.ofJson?
  | hostTag => HostTag.ofJson?

/-- The text that a record is kept as. -/
def write (k : RecordKind) (x : k.Value) : String := Json.render (k.toJson x)

/-- The record in a text. -/
def read? (k : RecordKind) (text : String) : Option k.Value := (Json.parse? text).bind k.ofJson?

/-- Numbers fit their words and dates have four digits of year and no leap second. -/
def IsWritable : (k : RecordKind) → k.Value → Prop
  | upgradeEvent, e => Item.IsWritable e
  | healthCheck, c => Item.IsWritable c
  | cluster, c => Cluster.IsWritable c
  | environment, e => Environment.maxParallelReplacement e < 2 ^ 64
  | image, i => Timestamp.IsWritable (Image.publishDate i)
  | host, h => Host.IsWritable h
  | agent, a => Agent.IsWritable a
  | deploy, d => Timestamp.IsWritable (Deploy.startDate d)
  | build, b => Timestamp.IsWritable (Build.publishDate b)
  | promotionRule, c => PromotionRule.IsWritable c
  | deployConstraint, c => Timestamp.IsWritable (DeployConstraint.lastUpdate c)
  | hostTag, _ => True

theorem readsAs {k : RecordKind} {x : k.Value} (h : k.IsWritable x) :
    ReadsAs k.ofJson? (k.toJson x) x := by
  cases k with
  | upgradeEvent => exact Item.readsAs h
  | healthCheck => exact Item.readsAs h
  | cluster => exact Cluster.readsAs h
  | environment => exact Environment.readsAs h
  | image => exact Image.readsAs h
  | host => exact Host.readsAs h
  | agent => exact Agent.readsAs h
  | deploy => exact Deploy.readsAs h
  | build => exact Build.readsAs h
  | promotionRule => exact PromotionRule.readsAs h
  | deployConstraint => exact DeployConstraint.readsAs h
  | hostTag => exact HostTag.readsAs x

end RecordKind

namespace Json

theorem isPlain_object_iff {ms : List (String × Json)} :
    IsPlain (.object ms) ↔ (ms.map Prod.fst).Nodup ∧ ∀ m ∈ ms, IsPlain m.2 :=
  ⟨fun | .object distinct plain => ⟨distinct, plain⟩, fun h => .object h.1 h.2⟩

attribute [simp] IsPlain.bool IsPlain.string

@[simp] theorem isPlain_ofNat (n : Nat) : IsPlain (ofNat n) := .int n

@[simp] theorem isPlain_enumeration {α : Type} [Enumeration α] (a : α) :
    IsPlain (Enumeration.toJson a) := .string _

@[simp] theorem isPlain_instant (t : Instant) : IsPlain t.toJson := .string _

@[simp] theorem isPlain_ofTexts (xs : List String) : IsPlain (ofTexts xs) :=
  .array fun _ hx => by
    obtain ⟨s, -, rfl⟩ := List.mem_map.mp hx
    exact .string s

@[simp] theorem isPlain_ofOption {α : Type} {write : α → Json} (h : ∀ a, IsPlain (write a))
    (o : Option α) : IsPlain (ofOption write o) := by
  cases o with
  | none => exact .null
  | some a => exact h a

@[simp] theorem isPlain_recipients (r : Recipients) : IsPlain r.toJson := by
  simp [Recipients.toJson, isPlain_object_iff]

end Json

/-- Every record has a text. -/
theorem RecordKind.isPlain (k : RecordKind) (x : k.Value) : (k.toJson x).IsPlain := by
  cases k <;>
    simp [RecordKind.toJson, isPlain_object_iff, Item.toJson, ItemHeader.members,
      ItemKind.detailMembers, UpgradeDetails.members, CheckDetails.members, IdSet.toJson,
      Cluster.toJson, Environment.toJson, Image.toJson, Host.toJson, Agent.toJson, Deploy.toJson,
      Build.toJson, PromotionRule.toJson, DeployConstraint.toJson, HostTag.toJson]

/-- Every record that has a text reads as itself from it, and still does after members of unknown
names came in and members that were null went. The hosts of an upgrade event are written in strictly
increasing order. -/
theorem records_read_back :
    (∀ (k : RecordKind) (x : k.Value), k.IsWritable x →
      k.read? (k.write x) = some x ∧
      ∀ j, Json.Edited (k.toJson x) j →
        k.ofJson? j = some x ∧
        (∀ text, Json.parse? text = some j → k.read? text = some x) ∧
        (j.IsPlain → k.read? (Json.render j) = some x)) ∧
    ∀ e : UpgradeEvent, ∃ ids,
      (Json.parse? (RecordKind.upgradeEvent.write e)).bind (·.get? "host_ids") =
        some (Json.ofTexts ids) ∧
      ids.Pairwise (· < ·) ∧ ∀ id, id ∈ ids ↔ id ∈ e.details.hostIds := by
  refine ⟨fun k x h => ?_, fun e => ?_⟩
  · have hread (text : String) (j : Json) (hparse : Json.parse? text = some j)
        (he : Json.Edited (k.toJson x) j) : k.read? text = some x := by
      rw [RecordKind.read?, hparse]
      exact (RecordKind.readsAs h).read_edited j he
    refine ⟨hread _ _ (Json.parse?_render (k.isPlain x)) (.same _), fun j he => ?_⟩
    refine ⟨(RecordKind.readsAs h).read_edited j he, fun text hparse => hread text j hparse he, ?_⟩
    exact fun hplain => hread _ j (Json.parse?_render hplain) he
  · refine ⟨e.details.hostIds.toList, ?_, e.details.hostIds.sorted, fun _ => Iff.rfl⟩
    rw [RecordKind.write, Json.parse?_render (RecordKind.upgradeEvent.isPlain e)]
    rfl

/-- An upgrade event with quotes, control and other characters in its texts, at the first and the
last instant of the years of four digits. -/
def awkwardEvent : UpgradeEvent where
  header := {
    id := "a \"quoted\" id"
    status := none
    stateStartTime := .ofParts (-62167219200) 0
    lastWorkedOn := .ofParts 253402300799 999999999
    errorMessage := some "tab\tbell\x07 déjà vu 雪"
    createdAt := .ofParts 1700000000 120000000 }
  cluster := "back\\slash"
  envId := ""
  state := UpgradeState.replacing
  details := ⟨.ofList ["i-2", "i-1", "i-10"]⟩

/-- The event with a member that no record knows and without its status. -/
def editedEvent : Json :=
  .object [
    ("note", .array [.null, .int (-7)]),
    ("id", .string awkwardEvent.header.id),
    ("state_start_time", awkwardEvent.header.stateStartTime.toJson),
    ("last_worked_on", awkwardEvent.header.lastWorkedOn.toJson),
    ("error_message", Json.ofOption Json.string awkwardEvent.header.errorMessage),
    ("created_at", awkwardEvent.header.createdAt.toJson),
    ("cluster", .string awkwardEvent.cluster),
    ("env_id", .string awkwardEvent.envId),
    ("state", Enumeration.toJson awkwardEvent.state),
    ("host_ids", awkwardEvent.details.hostIds.toJson)]

theorem isWritable_awkwardEvent : RecordKind.upgradeEvent.IsWritable awkwardEvent where
  header := {
    stateStartTime := ⟨by decide, by decide, by decide⟩
    lastWorkedOn := ⟨by decide, by decide, by decide⟩
    createdAt := ⟨by decide, by decide, by decide⟩ }
  details := trivial

theorem edited_editedEvent : Json.Edited (Item.toJson awkwardEvent) editedEvent := by
  refine .object (.add (by decide) (.keep (.same _) (.drop ?_)))
  exact Edits.refl _ _

theorem isPlain_editedEvent : editedEvent.IsPlain := by
  have hnote : IsPlain (.array [.null, .int (-7)]) := .array (by simp [IsPlain.null, IsPlain.int])
  simp [editedEvent, isPlain_object_iff, IdSet.toJson, hnote]

theorem records_read_back_awkwardEvent :
    RecordKind.upgradeEvent.IsWritable awkwardEvent ∧
    Json.Edited (Item.toJson awkwardEvent) editedEvent ∧ editedEvent.IsPlain ∧
    RecordKind.upgradeEvent.read? (RecordKind.upgradeEvent.write awkwardEvent) =
      some awkwardEvent ∧
    RecordKind.upgradeEvent.read? (Json.render editedEvent) = some awkwardEvent := by
  obtain ⟨hback, hedited⟩ := records_read_back.1 .upgradeEvent awkwardEvent isWritable_awkwardEvent
  refine ⟨isWritable_awkwardEvent, edited_editedEvent, isPlain_editedEvent, hback, ?_⟩
  exact (hedited editedEvent edited_editedEvent).2.2 isPlain_editedEvent

end FleetControl
