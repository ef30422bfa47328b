import FleetControl.Config
import FleetControl.Pass

/-!
# Keeping host tags

The kept host tags of a deploy constraint are made to cover exactly the hosts
of its environment: tags of other hosts are deleted, and missing ones are
fetched from the provider in batches.
-/
namespace FleetControl.TagCoverage

def lockPrefix : String := "DEPLOYTAG"

/-- Cut a list into batches of at most `size` and at least one. -/
def batches {α : Type} (size : Nat) (xs : List α) : List (List α) :=
  if xs.isEmpty then []
  else xs.take (max size 1) :: batches size (xs.drop (max size 1))
termination_by xs.length
decreasing_by
  rename_i h
  have : 0 < xs.length := List.length_pos_iff.mpr (by simpa using h)
  simp only [List.length_drop]
  omega

@[simp] theorem batches_nil {α : Type} (size : Nat) : batches size ([] : List α) = [] := by
  rw [batches]; rfl

/-- The batches put together are the list. -/
theorem flatten_batches {α : Type} (size : Nat) (xs : List α) :
    (batches size xs).flatten = xs := by
  fun_induction batches size xs with
  | case1 xs h => simp_all
  | case2 xs h ih => simp [ih]

/-- The tags of the hosts of one batch that carry a value. -/
def tagsOf (c : DeployConstraint) (ids : List HostId) (values : Table String) : List HostTag :=
  ids.filterMap fun id => (values.get? id).map fun value => ⟨id, c.envId, c.tagName, some value⟩

/-- Ask the provider for the tag of hosts, batch by batch. -/
def lookUp (c : DeployConstraint) : List (List HostId) → Program (List HostTag)
  | [] => pure []
  | ids :: rest => do
      let values ← request (.hostTags ids c.tagName)
      let tags ← lookUp c rest
      pure (tagsOf c ids values ++ tags)

/-- Make the kept tags of a constraint cover the hosts of its environment. -/
def align (config : TagSettings) (c : DeployConstraint) : Program Unit := do
  match ← ask (.getEnvironment c.envId) with
  | none => pure ()
  | some _ =>
      let desired ← ask (.envHostIds c.envId)
      let observed ← ask (.taggedHostIds c.envId c.tagName)
      let missing := (desired.difference observed).toList
      let extra := (observed.difference desired).toList
      if missing.isEmpty && extra.isEmpty then
        if c.state == .finished then pure ()
        else ask (.setConstraintState c.id .finished)
      else
        ask (.setConstraintState c.id .processing)
        if !extra.isEmpty then ask (.deleteHostTags c.envId c.tagName extra)
        if !missing.isEmpty then
          let tags ← lookUp c (batches config.batchSize missing)
          ask (.insertHostTags tags)

/-- Bring a constraint up to date. One that cannot be mended by waiting is marked. -/
def process (config : TagSettings) (id : String) : Program Unit := do
  match ← ask (.getConstraint id) with
  | none => pure ()
  | some c =>
      match ← (align config c).attempt with
      | .ok () => pure ()
      | .error e =>
          if e.isTransient then Program.fail e
          else
            ask (.setConstraintState id .error)
            Program.fail e

def controller (config : TagSettings) : Controller where
  name := "tag_sync"
  lockPrefix := some lockPrefix
  candidates := ask (.constraintIdsInStates [.init, .processing])
  process := process config

end FleetControl.TagCoverage
