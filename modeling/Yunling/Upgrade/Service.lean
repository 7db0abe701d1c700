/-
What an administrator does with an upgrade plan
(`internal/agentupgrade/service.go`).

A call reads the plan and answers with the plan to be saved, or with
`none` where there is nothing to save, or with an error.
-/
import Yunling.Upgrade.Model

namespace Yunling.Upgrade

-- ======== creation

/-- `CreatePlanInput`. -/
structure CreatePlanInput where
  targetReleaseID : String
  serverIDs : List String
  batchSize : Nat
  drainTimeoutSeconds : Nat
  reconnectTimeoutSeconds : Nat
  verificationSeconds : Nat
  createdBy : String
  deriving DecidableEq

/-- `applyPlanDefaults`. -/
def CreatePlanInput.applyPlanDefaults (input : CreatePlanInput) : CreatePlanInput :=
  { input with
    batchSize := if input.batchSize = 0 then 1 else input.batchSize
    drainTimeoutSeconds :=
      if input.drainTimeoutSeconds = 0 then 3600
      else input.drainTimeoutSeconds
    reconnectTimeoutSeconds :=
      if input.reconnectTimeoutSeconds = 0 then 120
      else input.reconnectTimeoutSeconds
    verificationSeconds :=
      if input.verificationSeconds = 0 then 30
      else input.verificationSeconds }

/-- `validatePlanInput`. -/
def CreatePlanInput.valid (input : CreatePlanInput) : Bool :=
  !blank input.targetReleaseID && !blank input.createdBy && !input.serverIDs.isEmpty
    && (1 ≤ input.batchSize && input.batchSize ≤ 100)
    && (60 ≤ input.drainTimeoutSeconds && input.drainTimeoutSeconds ≤ 86400)
    && (30 ≤ input.reconnectTimeoutSeconds && input.reconnectTimeoutSeconds ≤ 3600)
    && (10 ≤ input.verificationSeconds && input.verificationSeconds ≤ 600)
    && input.serverIDs.all (!blank ·) && decide input.serverIDs.Nodup

/-- Whether a server may join a plan for a release; for the plan that
rolls `rollbackSource` back, from the version it was brought to. -/
def eligible (release : ReleaseInfo) (rollbackSource : Option Target)
    (server : ServerInfo) : Except UpgradeError Unit :=
  if !server.enabled || !reachable server.status then
    .error .serverIneligible
  else if !server.capabilities.contains selfUpgradeCapability then
    .error .upgradeUnsupported
  else do
    match rollbackSource with
    | some source =>
      if server.id ≠ source.serverID ∨ server.agentVersion ≠ source.targetVersion then
        throw .rollbackSourceChanged
      if server.agentVersion = release.version then
        throw .noUpgradeNeeded
    | none =>
      match compareStableVersions server.agentVersion release.version with
      | none => throw .versionNotComparable
      | some .eq => throw .noUpgradeNeeded
      | some .gt => throw .downgradeNotAllowed
      | some .lt => pure ()
    if release.hasArtifact server.agentOS server.agentArch then pure ()
    else throw .artifactUnavailable

/-- The batch of the server at an index: one server first. -/
def batchOf (batchSize index : Nat) : Nat :=
  if index = 0 then 1 else 2 + (index - 1) / batchSize

/-- The target of a server. Its command gets its id first. -/
def newTarget (plan : Plan) (release : ReleaseInfo) (now : Int)
    (issued : Nat) (index : Nat) (server : ServerInfo) : Target where
  id := issued + 1
  planID := plan.id
  serverID := server.id
  batchNumber := batchOf plan.batchSize index
  sourceVersion := server.agentVersion
  targetVersion := release.version
  sourceDraining := server.draining
  status := .waiting
  attempts := 0
  commandID := issued
  installCommandID := issued
  errorCode := ""
  errorMessage := ""
  startedAt := none
  updatedAt := now
  finishedAt := none

/-- The plan for a release, still without targets. -/
def newPlan (input : CreatePlanInput) (release : ReleaseInfo) (now : Int)
    (issued : Nat) : Plan where
  id := issued
  targetReleaseID := release.id
  targetVersion := release.version
  status := .running
  firstBatchSize := 1
  batchSize := input.batchSize
  drainTimeoutSeconds := input.drainTimeoutSeconds
  reconnectTimeoutSeconds := input.reconnectTimeoutSeconds
  verificationSeconds := input.verificationSeconds
  currentBatch := 1
  revision := 0
  cancelRequested := false
  createdBy := input.createdBy
  pauseReason := ""
  createdAt := now
  startedAt := some now
  finishedAt := none
  targets := []

/-- The plan with a target for every server, and the ids drawn. -/
def Plan.withTargets (plan : Plan) (release : ReleaseInfo) (now : Int)
    (servers : List ServerInfo) : Plan × Nat :=
  ({ plan with
      targets := servers.zipIdx.map fun (server, index) =>
        newTarget plan release now (plan.id + 1 + 2 * index) index server },
    plan.id + 1 + 2 * servers.length)

/-- `createPlan`, up to the insert: the plan and the ids drawn.
`rollbackSource` is the target whose upgrade the plan rolls back. -/
def createPlan (input : CreatePlanInput) (rollbackSource : Option Target)
    (active : Bool) (reads : Reads) (now : Int) (issued : Nat) : Except UpgradeError (Plan × Nat) :=
  let input := input.applyPlanDefaults
  if !input.valid then .error .invalidPlan
  else if rollbackSource.any fun source => source.status != .succeeded
      || input.serverIDs != [source.serverID] then
    .error .invalidTransition
  else if active then .error .activePlanExists
  else do
    let release ← reads.release input.targetReleaseID
    if !release.installable then .error .upgradeUnsupported
    else if rollbackSource.any (release.version != ·.sourceVersion) then
      .error .invalidTransition
    else do
      let servers ← reads.servers input.serverIDs
      servers.forM (eligible release rollbackSource)
      return (newPlan input release now issued).withTargets release now servers

-- ======== operations

namespace Plan

/-- `Pause`; `reason` is trimmed. -/
def pause (plan : Plan) (reason : String) : Except UpgradeError (Option Plan) :=
  match plan.status with
  | .paused => .ok none
  | .pending | .running =>
    .ok (some { plan with status := .paused, pauseReason := reason })
  | _ => .error .invalidTransition

/-- The check of `Resume` on a target that has not begun. -/
def checkTarget (release : ReleaseInfo) (servers : List ServerInfo)
    (target : Target) : Except UpgradeError Unit :=
  if target.status ≠ .waiting ∧ target.status ≠ .draining then .ok ()
  else match servers.reverse.find? (·.id == target.serverID) with
    | none => .error .serverIneligible
    | some server =>
      if !server.enabled || !reachable server.status then
        .error .serverIneligible
      else if !server.capabilities.contains selfUpgradeCapability then
        .error .upgradeUnsupported
      else if server.agentVersion ≠ target.sourceVersion then
        .error .upgradeSourceChanged
      else if release.hasArtifact server.agentOS server.agentArch then
        .ok ()
      else .error .artifactUnavailable

/-- `Resume`. -/
def resume (plan : Plan) (reads : Reads) : Except UpgradeError (Option Plan) :=
  match plan.status with
  | .running | .pending => .ok none
  | .paused => do
    if plan.cancelRequested then throw .invalidTransition
    let release ← reads.release plan.targetReleaseID
    if !release.installable then throw .upgradeUnsupported
    let servers ← reads.servers ((plan.targets.filter fun t =>
      t.status == .waiting || t.status == .draining).map (·.serverID))
    plan.targets.forM (checkTarget release servers)
    return some { plan with status := .running, pauseReason := "" }
  | _ => .error .invalidTransition

/-- `Cancel` on one target: what has not begun is cancelled. -/
def cancelTarget (now : Int) (t : Target) : Target :=
  if t.status = .waiting then
    { t with
      status := .cancelled, updatedAt := now, finishedAt := some now }
  else t

/-- `Cancel`. -/
def cancel (plan : Plan) (now : Int) : Except UpgradeError (Option Plan) :=
  if plan.status = .cancelled ∨ plan.cancelRequested then .ok none
  else if !plan.status.active then .error .invalidTransition
  else
    let targets := plan.targets.map (cancelTarget now)
    let started := plan.targets.any fun t =>
      t.status != .waiting && !t.status.terminal
    if started then
      .ok (some { plan with
        targets
        status := .paused
        cancelRequested := true
        pauseReason := "计划已取消，正在完成已开始节点" })
    else
      .ok (some { plan with
        targets
        status := .cancelled
        cancelRequested := true
        finishedAt := some now })

/-- The new attempt of a target. -/
def retried (now : Int) (issued : Nat) (t : Target) : Target :=
  { t with
    status := .draining
    commandID := issued
    installCommandID := issued
    attempts := t.attempts + 1
    errorCode := ""
    errorMessage := ""
    finishedAt := none
    updatedAt := now }

/-- `RetryTarget` on the target it finds: the plan and the ids drawn. -/
def retry (plan : Plan) (i : Nat) (t : Target) (reads : Reads) (now : Int)
    (issued : Nat) : Except UpgradeError (Option (Plan × Nat)) :=
  match t.status with
  | .draining | .downloading | .verifying | .installing
  | .reconnecting | .healthChecking => .ok none
  | .rolledBack | .manualIntervention => do
    let server ← reads.server t.serverID
    if server.id ≠ t.serverID then .error .serverIneligible
    else if server.agentVersion ≠ t.sourceVersion then
      .error .upgradeSourceChanged
    else
      .ok (some ({ plan with
        targets := plan.targets.set i (retried now issued t)
        status := .running
        pauseReason := "" }, issued + 1))
  | _ => .error .invalidTransition

/-- `RetryTarget`. -/
def retryTarget (plan : Plan) (targetID : Nat) (reads : Reads) (now : Int)
    (issued : Nat) : Except UpgradeError (Option (Plan × Nat)) :=
  if plan.cancelRequested then .error .invalidTransition
  else match plan.targets.findIdx? (·.id == targetID) with
    | none => .error .targetNotFound
    | some i =>
      match plan.targets[i]? with
      | none => .error .targetNotFound
      | some t => plan.retry i t reads now issued

end Plan

end Yunling.Upgrade
