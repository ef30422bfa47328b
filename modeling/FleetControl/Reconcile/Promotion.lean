import FleetControl.Config
import FleetControl.Inventory
import FleetControl.Pass

/-!
# Automatic promotion

An environment takes its next deploy from fresh builds or from the stage before
it. The candidate is found without a lock. The promotion itself runs under the
lock of the environment, and only if the environment still has the deploy that
the candidate was found against.
-/
namespace FleetControl.Promotion

def lockPrefix : String := "PROMOTE"

/-- What one attempt to promote did. -/
inductive Result where
  /-- Disabled, on manual promotion or without a preceding stage. -/
  | ineligible
  /-- The current deploy is still under way. -/
  | notRetirable
  /-- The current deploy failed and the environment is now on manual promotion. -/
  | disabled
  /-- The current deploy failed and an earlier build was deployed again. -/
  | rolledBack (deployId : String)
  | noCandidate
  | promoted (deployId : String)
  /-- The environment got another deploy in the meantime. -/
  | abandoned
  /-- Another worker held the environment's lock. -/
  | contended
  deriving DecidableEq, Repr

/-- Whether a new deploy may take the place of the current one. A superseded
deploy was moved on by another worker already. -/
def isReplaceable : Option Deploy → Bool
  | none => true
  | some d => !d.state.isFinal && (d.acceptance.isFinal || d.state == .failing)

def isSound (d : Deploy) : Bool :=
  (d.state == .succeeding || d.state == .succeeded) && !d.isFailed

/-- Where the candidate to promote stands among the newest, counted from 0. -/
def rank (config : PromotionRule) : Nat := max config.queueSize 1 - 1

/-- The notification that an environment no longer promotes by itself. -/
def disabledNotice (env : Environment) (failedDeploy : String) : Notification :=
  let name := env.name
  let stage := env.stage
  { subject := s!"Auto promotion disabled for {name}/{stage}"
    message :=
      s!"Deploy {failedDeploy} failed in {name}/{stage}; auto promotion is now manual."
    recipients := env.recipients.email
    room := env.recipients.chatroom }

/-- Switch to manual promotion and tell the recipients; false if the environment
was switched already. Runs under the environment's lock. -/
def endAutomation (env : Environment) (failedDeploy : String) : Program Bool := do
  let config ← ask (.promoteConfig env.id)
  if config.any fun c => c.kind == .auto then
    ask (.setPromoteKind env.id .manual)
    notify (disabledNotice env failedDeploy)
    pure true
  else pure false

/-- Record a deploy if the environment still has the observed one, then switch
to manual promotion if a failed deploy is given. -/
def promoteCandidate (env : Environment) (observed : Option String) (candidate : NewDeploy)
    (thenDisable : Option String) : Program Result := do
  let outcome ← exclusively (lockOf lockPrefix env.id) do
    let fresh ← requireEnvironment env.id
    if fresh.deployId != observed then pure .abandoned
    else
      let deploy ← ask (.createDeploy candidate)
      if let some failedDeploy := thenDisable then
        let _ ← endAutomation env failedDeploy
      pure (.promoted deploy.id)
  pure (outcome.getD .contended)

/-- Switch to manual promotion under the environment's lock. -/
def stopPromoting (env : Environment) (failedDeploy : String) : Program Result := do
  let outcome ← exclusively (lockOf lockPrefix env.id) (endAutomation env failedDeploy)
  pure (match outcome with
    | some true => .disabled
    | some false => .ineligible
    | none => .contended)

/-- Deploy the last good build before the failed deploy again, then switch to
manual promotion. Without such a build only switch. -/
def revert (config : PromotionSettings) (env : Environment) (failed : Deploy) :
    Program Result := do
  let history ← ask
    (.deploysStartedBetween env.id .epoch failed.startDate config.candidateLimit)
  match history.find? fun d => d.id != failed.id && isSound d with
  | none => stopPromoting env failed.id
  | some target =>
      match ← promoteCandidate env (some failed.id) ⟨env.id, target.buildId, none⟩
          (some failed.id) with
      | .promoted id => pure (.rolledBack id)
      | other => pure other

/-- The publication of the current build, or 1970 if it is not known. -/
def currentBuildDate : Option Deploy → Program Instant
  | none => pure .epoch
  | some d => do
      let build ← ask (.getBuild d.buildId)
      pure (build.elim .epoch Build.publishDate)

/-- The candidate among builds published after the current one, bad ones left out. -/
def newBuild (config : PromotionSettings) (env : Environment) (current : Option Deploy)
    (settings : PromotionRule) (limit : Instant) : Program (Option NewDeploy) := do
  let start ← currentBuildDate current
  if limit < start then pure none
  else
    let builds ← ask
      (.buildsPublishedBetween env.buildName start limit config.candidateLimit)
    pure (((builds.filter fun b => !b.bad)[rank settings]?).map fun b =>
      ⟨env.id, b.id, none⟩)

/-- The start of the deploy of the preceding environment from which the current
one was promoted, or of the current one itself if it came from elsewhere. -/
def sourceDate (pred : Environment) : Option Deploy → Program Instant
  | none => pure .epoch
  | some current =>
      match current.fromDeploy with
      | none => pure current.startDate
      | some id => do
          match ← ask (.getDeploy id) with
          | some source =>
              pure (if source.envId = pred.id then source.startDate else current.startDate)
          | none => pure current.startDate

/-- The good ones of some deploys whose build is not tagged bad. -/
def soundDeploys : List Deploy → Program (List Deploy)
  | [] => pure []
  | d :: ds => do
      if isSound d then
        let build ← ask (.getBuild d.buildId)
        let rest ← soundDeploys ds
        pure (if build.any Build.bad then rest else d :: rest)
      else soundDeploys ds

/-- The candidate among good deploys of the preceding environment that are newer
than the one the current deploy was promoted from. -/
def provenDeploy (config : PromotionSettings) (env : Environment) (current : Option Deploy)
    (settings : PromotionRule) (predStage : String) (limit : Instant) :
    Program (Option NewDeploy) := do
  match ← ask (.environmentByStage env.name predStage) with
  | none => pure none
  | some pred =>
      if pred.deployId.isNone then pure none
      else
        let start ← sourceDate pred current
        if limit < start then pure none
        else
          let deploys ← ask
            (.deploysStartedBetween pred.id start limit config.candidateLimit)
          let good ← soundDeploys deploys
          pure ((good[rank settings]?).map fun d => ⟨env.id, d.buildId, some d.id⟩)

/-- Promote the next candidate, if there is one. -/
def promoteNext (config : PromotionSettings) (env : Environment) (current : Option Deploy)
    (settings : PromotionRule) (predStage : String) (now : Instant) : Program Result := do
  let limit := now.minutesBefore settings.delayMinutes
  let candidate ←
    if predStage = PromotionRule.buildStage then
      newBuild config env current settings limit
    else provenDeploy config env current settings predStage limit
  match candidate with
  | some candidate => promoteCandidate env env.deployId candidate none
  | none => pure .noCandidate

/-- Decide from the current deploy: wait for it, act on its failure, or promote
the next candidate. -/
def promoteFrom (config : PromotionSettings) (env : Environment) (settings : PromotionRule)
    (predStage : String) (now : Instant) : Program Result := do
  let current ← match env.deployId with
    | some id => ask (.getDeploy id)
    | none => pure none
  if !isReplaceable current then pure .notRetirable
  else
    match current.filter Deploy.isFailed, settings.failPolicy with
    | some failed, .disable => stopPromoting env failed.id
    | some failed, .revert => revert config env failed
    | _, _ => promoteNext config env current settings predStage now

/-- Try to promote into an environment. -/
def promote (config : PromotionSettings) (id : EnvId) (now : Instant) : Program Result := do
  match ← ask (.getEnvironment id) with
  | none => pure .ineligible
  | some env =>
      if env.state != .normal then pure .ineligible
      else
        match ← ask (.promoteConfig id) with
        | none => pure .ineligible
        | some settings =>
            match settings.predStage with
            | none => pure .ineligible
            | some predStage =>
                if settings.kind != .auto || predStage.isEmpty then pure .ineligible
                else promoteFrom config env settings predStage now

/-- The controller tries every environment on automatic promotion. It takes the
locks of environments itself. -/
def controller (config : PromotionSettings) : Controller where
  name := "promotion"
  lockPrefix := none
  candidates := ask .autoPromoteEnvIds
  process id := do
    let now ← readClock
    let _ ← promote config id now

end FleetControl.Promotion
