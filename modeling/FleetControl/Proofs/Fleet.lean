import FleetControl.Proofs.Behaviour
import FleetControl.Proofs.Capacity
import FleetControl.Proofs.Roster

/-!
# Calls that leave the fleet alone

Most calls change neither hosts nor agents, and none changes the size of a pool. What a
program of such calls ends with can rely on the fleet that it began with.
-/
namespace FleetControl

namespace Store

/-- The hosts and the agents are the same. -/
structure SameFleet (s s' : Store) : Prop where
  hosts : s'.hosts = s.hosts
  agents : s'.agents = s.agents

variable {s s' t : Store}

theorem SameFleet.refl (s : Store) : s.SameFleet s := ⟨rfl, rfl⟩

theorem SameFleet.trans (h : s.SameFleet s') (h' : s'.SameFleet t) : s.SameFleet t :=
  ⟨h'.hosts.trans h.hosts, h'.agents.trans h.agents⟩

theorem SameFleet.capacity_eq (h : s.SameFleet s') (env : EnvId) :
    s'.capacity env = s.capacity env := by
  simp only [capacity, allAgents, isLeaving, h.hosts, h.agents]

theorem sameFleet_putItem (s : Store) (k : ItemKind) (i : Item k) :
    s.SameFleet (s.putItem k i) := by
  cases k <;> exact ⟨rfl, rfl⟩

end Store

namespace World

/-- The hosts and the agents are the same as far as there is a store. -/
def SameFleet (w w' : World) : Prop :=
  ∀ s', w'.store = some s' → ∃ s, w.store = some s ∧ s.SameFleet s'

theorem SameFleet.refl (w : World) : w.SameFleet w := fun s hs => ⟨s, hs, .refl s⟩

theorem SameFleet.trans {u v w : World} (h : u.SameFleet v) (h' : v.SameFleet w) :
    u.SameFleet w := by
  intro s hs
  obtain ⟨t, ht, hts⟩ := h' s hs
  obtain ⟨r, hr, hrt⟩ := h t ht
  exact ⟨r, hr, hrt.trans hts⟩

end World

/-- The call changes neither hosts nor agents. -/
def Call.SparesFleet (c : Call) : Prop := ∀ w : World, w.SameFleet (World.answer c w).2

theorem sparesFleet_store {c : StoreCall}
    (h : ∀ {s s' : Store} {clock}, s.Effect clock c s' → s.SameFleet s') :
    (Call.store c).SparesFleet := by
  intro w s' hs'
  obtain ⟨s, hs, rfl⟩ := World.store_useStore hs'
  exact ⟨s, hs, h (s.effect_of_answer w.now c)⟩

theorem sparesFleet_post (n : Notification) : (Call.post n).SparesFleet := by
  intro w
  simp only [World.answer, World.post]
  split <;> exact .refl w

theorem sparesFleet_getEnvironment (id : EnvId) :
    (Call.store (.getEnvironment id)).SparesFleet := by
  refine sparesFleet_store fun {s s' _} h => ?_
  cases h
  exact .refl s

theorem sparesFleet_updateItem (k : ItemKind) (i : Item k) :
    (Call.store (.updateItem k i)).SparesFleet := by
  refine sparesFleet_store fun {s s' _} h => ?_
  cases h with
  | nothing => exact .refl s
  | updateItem => exact s.sameFleet_putItem k i

theorem sparesFleet_setClusterState (name : String) (state : ClusterState) :
    (Call.store (.setClusterState name state)).SparesFleet := by
  refine sparesFleet_store fun {s s' _} h => ?_
  cases h with
  | nothing => exact .refl s
  | setClusterState => exact ⟨rfl, rfl⟩

namespace Program

variable {α : Type} {raises : Fault → Prop} {w : World}

/-- Nobody else being at work, a program of such calls leaves the fleet as it is. -/
theorem Only.keeps_sameFleet {p : Program α} (h : p.Only Call.SparesFleet) (w : World) :
    p.Keeps (World.Possible Eq raises) World.SameFleet (fun _ _ => True) w := by
  refine h.keeps (fun c v r v' hc hb => ?_) w
  obtain ⟨_, rfl, hb | ⟨f, -, -, rfl | rfl⟩⟩ := hb
  · have := hc v
    rwa [hb] at this
  · exact .refl _
  · exact hc v

/-- What a program of such calls ends with may rely on the fleet as it was. -/
theorem keeps_sparing {p : Program α} {Q : Outcome α → World → Prop}
    (h : p.Only Call.SparesFleet) (hQ : ∀ r v, w.SameFleet v → Q r v) :
    p.Keeps (World.Possible Eq raises) (fun _ _ => True) Q w :=
  ((h.keeps_sameFleet w).reached .refl fun _ _ _ => World.SameFleet.trans).mono
    (fun _ _ _ => trivial) fun r v hv => hQ r v hv.2

end Program

namespace Provider

/-- The size of a cluster's pool; unknown pools are empty. -/
def poolSize (p : Provider) (cluster : String) : Nat := (p.poolSizes.get? cluster).getD 0

/-- No call changes the size of a pool. -/
theorem poolSize_answer (p : Provider) (c : ProviderCall) (cluster : String) :
    (p.answer c).2.poolSize cluster = p.poolSize cluster := by
  have h : (p.answer c).2.poolSizes = p.poolSizes := by
    cases c with
    | launchHosts name count image =>
        exact (congrArg poolSizes (p.launchHosts_eq name count image) :)
    | terminateHosts name ids drain =>
        exact (congrArg poolSizes (p.terminateHosts_eq name ids drain) :)
    | _ => rfl
  rw [poolSize, h, poolSize]

end Provider

theorem World.poolSize_answer (w : World) (c : Call) (cluster : String) :
    (World.answer c w).2.provider.poolSize cluster = w.provider.poolSize cluster := by
  by_cases hc : ∃ q, c = .provider q
  · obtain ⟨q, rfl⟩ := hc
    exact w.provider.poolSize_answer q cluster
  · rw [provider_answer (not_exists.mp hc)]

end FleetControl
