/-
The coordinator of upgrades (`internal/agentupgrade/coordinator.go`).

`Scan` visits the targets of the current batch in order. What it decides
on the way (`Scan`) is saved at the end, and only then are the commands
sent; an error on the way drops everything. A failure inside a batch
rolls the whole batch back: targets that have not installed anything are
done at once, the others get a rollback command under a new id.

`applyUpgradeEvent` and `observeHeartbeat` are the agent's side: the
events of a command, and the version a reconnected agent reports. Every
call answers with what is to be written and sent (`Outcome`).
-/
import Yunling.Upgrade.Model

namespace Yunling.Upgrade

-- ======== commands

/-- `installCommand`. -/
def installCommand (plan : Plan) (t : Target) (a : ArtifactInfo) : UpgradeCommand where
  commandID := t.commandID
  planID := plan.id
  targetID := t.id
  action := .install
  sourceVersion := t.sourceVersion
  targetVersion := t.targetVersion
  installCommandID := none
  artifact := some a
  reconnectTimeout := plan.reconnectTimeout

/-- `rollbackCommand`. -/
def rollbackCommand (plan : Plan) (t : Target) : UpgradeCommand where
  commandID := t.commandID
  planID := plan.id
  targetID := t.id
  action := .rollback
  sourceVersion := t.targetVersion
  targetVersion := t.sourceVersion
  installCommandID := some t.installCommandID
  artifact := none
  reconnectTimeout := plan.reconnectTimeout

/-- `withoutBatchCommands`. -/
def withoutBatchCommands (commands : List SentCommand) (plan : Plan)
    (batch : Nat) : List SentCommand :=
  commands.filter fun c => !plan.targets.any fun t =>
    t.batchNumber == batch && c.command.targetID == t.id

-- ======== rollback

/-- A target that a rollback of its batch leaves alone. -/
def TargetStatus.settled : TargetStatus → Bool
  | .cancelled | .rollingBack | .rolledBack | .manualIntervention => true
  | _ => false

/-- The target has installed nothing. -/
def Target.uninstalled (t : Target) (failedTargetID : Nat) (errorCode : String) : Bool :=
  t.status == .waiting || t.status == .draining
    || (t.id == failedTargetID && (t.status == .downloading || t.status == .verifying
        || errorCode == "apply_start_failed"
        || errorCode == "apply_rolled_back" || errorCode == "stage_failed"))

/-- The loop of `rollbackBatch`: the targets, the commands and the ids
drawn. -/
def rollbackTargets (plan : Plan) (batch failedTargetID : Nat) (errorCode : String) (now : Int) :
    List Target → Nat → List Target × List SentCommand × Nat
  | [], issued => ([], [], issued)
  | t :: targets, issued =>
    let rest := rollbackTargets plan batch failedTargetID errorCode now targets
    if t.batchNumber ≠ batch ∨ t.status.settled then
      let (targets, commands, issued) := rest issued
      (t :: targets, commands, issued)
    else if t.uninstalled failedTargetID errorCode then
      let (targets, commands, issued) := rest issued
      ({ t with
          status := .rolledBack, updatedAt := now, finishedAt := some now }
        :: targets, commands, issued)
    else
      let t := { t with
        status := .rollingBack, commandID := issued, updatedAt := now
        finishedAt := none }
      let (targets, commands, issued) := rest (issued + 1)
      (t :: targets, ⟨t.serverID, rollbackCommand plan t⟩ :: commands, issued)

/-- `rollbackBatch`. -/
def rollbackBatch (plan : Plan) (batch failedTargetID : Nat)
    (errorCode : String) (now : Int) (issued : Nat) : Plan × List SentCommand × Nat :=
  let (targets, commands, issued) := rollbackTargets plan batch
    failedTargetID errorCode now plan.targets issued
  ({ plan with
      targets
      status := .paused
      pauseReason := "当前批次升级失败，正在回滚" }, commands, issued)

/-- The text of `ErrUpgradeSourceChanged`. -/
def sourceChangedText : String :=
  "服务器当前版本已偏离该升级计划的原始版本，不能继续执行"

/-- `markSourceVersionChanged`, the target's half. -/
def Target.sourceVersionChanged (t : Target) (now : Int) : Target :=
  { t with
    status := .manualIntervention
    errorCode := "source_version_changed"
    errorMessage := sourceChangedText
    updatedAt := now
    finishedAt := some now }

-- ======== scan

namespace Target

/-- The target begins: its server is to be drained. -/
def drain (t : Target) (now : Int) : Target :=
  { t with
    status := .draining, startedAt := some now, updatedAt := now }

/-- The target's agent is to install the release. -/
def download (t : Target) (now : Int) : Target :=
  { t with
    status := .downloading, attempts := t.attempts + 1
    updatedAt := now }

/-- The target runs the release. -/
def succeed (t : Target) (now : Int) : Target :=
  { t with
    status := .succeeded, updatedAt := now, finishedAt := some now }

/-- The target's agent did not come back from a rollback. -/
def rollbackTimeout (t : Target) (now : Int) : Target :=
  { t with
    status := .manualIntervention
    errorCode := "rollback_timeout"
    errorMessage := "代理回滚后未在时限内重连"
    updatedAt := now
    finishedAt := some now }

end Target

/-- The variables of a running `Scan`. -/
structure Scan where
  plan : Plan
  now : Int
  mayStart : Bool
  changed : Bool
  commands : List SentCommand
  issued : Nat

namespace Scan

/-- A `Scan` before its loop. -/
def enter (plan : Plan) (now : Int) (issued : Nat) : Scan where
  plan
  now
  mayStart := (plan.status == .running || plan.status == .pending) && !plan.cancelRequested
  changed := false
  commands := []
  issued

/-- The target at an index is rewritten. -/
def put (s : Scan) (i : Nat) (t : Target) : Scan :=
  { s with
    plan := { s.plan with targets := s.plan.targets.set i t }
    changed := true }

/-- An install command for a target of the plan. -/
def send (s : Scan) (t : Target) (a : ArtifactInfo) : Scan :=
  { s with
    commands := s.commands ++ [⟨t.serverID, installCommand s.plan t a⟩] }

/-- `markSourceVersionChanged`. -/
def sourceVersionChanged (s : Scan) (i : Nat) (t : Target) : Scan :=
  let s := s.put i (t.sourceVersionChanged s.now)
  { s with
    plan := { s.plan with
      status := .paused, pauseReason := sourceChangedText }
    mayStart := false }

/-- The batch of a target is rolled back; commands already collected for
it are dropped. -/
def rollback (s : Scan) (t : Target) (errorCode : String) : Scan :=
  let kept := withoutBatchCommands s.commands s.plan t.batchNumber
  let (plan, commands, issued) := rollbackBatch s.plan t.batchNumber t.id errorCode s.now s.issued
  { s with plan, commands := kept ++ commands, issued, changed := true }

/-- The release and the artifact for a server. -/
def artifact (s : Scan) (reads : Reads) (runtime : ServerRuntime) :
    Except UpgradeError ArtifactInfo := do
  let release ← reads.release s.plan.targetReleaseID
  match matchingArtifact release.artifacts runtime.agentOS runtime.agentArch with
  | some a => return a
  | none => throw .artifactUnavailable

/-- A target that is to be drained has waited too long. -/
def drainExpired (s : Scan) (t : Target) : Bool :=
  t.startedAt.any fun startedAt => s.plan.drainTimeout < s.now - startedAt

/-- A draining target is looked at in this `Scan`. -/
def drains (s : Scan) : Bool := s.mayStart || s.plan.cancelRequested

/-- The server has nothing left to do. -/
def idle (runtime : ServerRuntime) : Bool :=
  runtime.enabled && reachable runtime.status && runtime.runningTasks == 0

/-- `case TargetDraining`. -/
def visitDraining (s : Scan) (reads : Reads) (i : Nat) (t : Target) : Except UpgradeError Scan :=
  if !s.drains then .ok s
  else if s.drainExpired t then
    .ok { s with
      plan := { s.plan with
        status := .paused, pauseReason := "服务器排空超时" }
      changed := true }
  else do
    reads.setServerDraining t.serverID true
    let runtime ← reads.runtime t.serverID
    if !idle runtime then return s
    if runtime.agentVersion ≠ t.sourceVersion then
      return s.sourceVersionChanged i t
    let a ← s.artifact reads runtime
    let t := t.download s.now
    return (s.put i t).send t a

/-- `case TargetDownloading, TargetVerifying, TargetInstalling`: the
command is repeated. -/
def visitInstalling (s : Scan) (reads : Reads) (i : Nat) (t : Target) :
    Except UpgradeError Scan := do
  let runtime ← reads.runtime t.serverID
  if runtime.agentVersion ≠ t.sourceVersion ∧ runtime.agentVersion ≠ t.targetVersion then
    return s.sourceVersionChanged i t
  let a ← s.artifact reads runtime
  return s.send t a

/-- `case TargetReconnecting`. -/
def visitReconnecting (s : Scan) (t : Target) : Scan :=
  if s.plan.reconnectTimeout ≤ s.now - t.updatedAt then
    s.rollback t "reconnect_timeout"
  else s

/-- `runtimeAvailable`. -/
def runtimeAvailable (runtime : ServerRuntime) (targetVersion : String) (now : Int) : Bool :=
  runtime.enabled && reachable runtime.status
    && runtime.agentVersion == targetVersion && runtime.hasSnapshot
    && runtime.lastSeenAt.any fun seen => now - seen ≤ 15 * second

/-- `case TargetHealthChecking`. -/
def visitHealthChecking (s : Scan) (reads : Reads) (i : Nat)
    (t : Target) : Except UpgradeError Scan := do
  let runtime ← reads.runtime t.serverID
  if !runtimeAvailable runtime t.targetVersion s.now then
    return s.rollback t "health_check_failed"
  if s.now - t.updatedAt < s.plan.verification then return s
  if !runtime.lastSeenAt.any (t.updatedAt < ·) then
    return s.rollback t "health_check_failed"
  if !t.sourceDraining then
    reads.setServerDraining t.serverID false
  return s.put i (t.succeed s.now)

/-- `case TargetRollingBack`. -/
def visitRollingBack (s : Scan) (i : Nat) (t : Target) : Scan :=
  if s.plan.reconnectTimeout ≤ s.now - t.updatedAt then
    let s := s.put i (t.rollbackTimeout s.now)
    { s with plan := { s.plan with
      status := .paused, pauseReason := "代理回滚超时，需要人工处理" } }
  else
    { s with commands := s.commands ++ [⟨t.serverID, rollbackCommand s.plan t⟩] }

/-- One turn of the loop. -/
def visit (reads : Reads) (s : Scan) (i : Nat) : Except UpgradeError Scan :=
  match s.plan.targets[i]? with
  | none => .ok s
  | some t =>
    if t.batchNumber ≠ s.plan.currentBatch then .ok s
    else match t.status with
      | .waiting =>
        if s.mayStart then .ok (s.put i (t.drain s.now)) else .ok s
      | .draining => s.visitDraining reads i t
      | .downloading | .verifying | .installing =>
        s.visitInstalling reads i t
      | .reconnecting => .ok (s.visitReconnecting t)
      | .healthChecking => s.visitHealthChecking reads i t
      | .rollingBack => .ok (s.visitRollingBack i t)
      | .succeeded | .rolledBack | .manualIntervention | .cancelled =>
        .ok s

/-- What `Scan` decides after its loop. -/
def leave (s : Scan) : Scan :=
  if s.plan.cancelRequested && s.plan.allTargetsTerminal then
    { s with
      plan := { s.plan with
        status := .cancelled, finishedAt := some s.now }
      changed := true }
  else if s.mayStart && s.plan.batchSucceeded s.plan.currentBatch then
    if s.plan.hasBatch (s.plan.currentBatch + 1) then
      { s with
        plan := { s.plan with currentBatch := s.plan.currentBatch + 1 }
        changed := true }
    else
      { s with
        plan := { s.plan with
          status := .succeeded, finishedAt := some s.now }
        changed := true }
  else s

end Scan

-- ======== outcomes

/-- What a call writes and sends, in this order: the plan, an event, and
the commands. -/
structure Outcome where
  save : Option Plan
  event : Option (Nat × Nat × String)
  commands : List SentCommand
  issued : Nat

/-- Nothing is written or sent. -/
def Outcome.nothing (issued : Nat) : Outcome := ⟨none, none, [], issued⟩

/-- `Coordinator.Scan`, up to its writes. -/
def Plan.scan (plan : Plan) (reads : Reads) (now : Int) (issued : Nat) :
    Except UpgradeError Outcome := do
  let s ← (List.range plan.targets.length).foldlM (Scan.visit reads) (Scan.enter plan now issued)
  let s := s.leave
  return {
    save := if s.changed then some s.plan else none
    event := none
    commands := s.commands
    issued := s.issued }

-- ======== answers

/-- `matchTarget`: the index of the target a message is about. -/
def Plan.matchTarget (plan : Plan) (serverID : String) (targetID commandID : Nat) : Option Nat :=
  plan.targets.findIdx? fun t =>
    t.id == targetID && t.serverID == serverID && t.commandID == commandID

/-- `targetStatusForStage`. -/
def targetStatusForStage : UpgradeStage → Option TargetStatus
  | .accepted | .downloading => some .downloading
  | .verifying => some .verifying
  | .installing => some .installing
  | .reconnecting | .succeeded => some .reconnecting
  | .rollingBack => some .rollingBack
  | .rolledBack => some .rolledBack
  | .failed => none

/-- The ranks of `forwardTransition`. -/
def TargetStatus.rank : TargetStatus → Option Nat
  | .waiting => some 0
  | .draining => some 1
  | .downloading => some 2
  | .verifying => some 3
  | .installing => some 4
  | .reconnecting => some 5
  | .healthChecking => some 6
  | .succeeded => some 7
  | _ => none

/-- `forwardTransition`. -/
def forwardTransition (current next : TargetStatus) : Bool :=
  current == next || (current == .rollingBack && next == .rolledBack)
    || match current.rank, next.rank with
      | some c, some n => c < n
      | _, _ => false

/-- The target is where its agent says it is. -/
def Target.advance (t : Target) (status : TargetStatus)
    (event : UpgradeEvent) (now : Int) : Target :=
  { t with
    status
    updatedAt := now
    finishedAt := if status = .rolledBack then some now else t.finishedAt
    errorCode := event.errorCode
    errorMessage := event.message }

namespace Plan

/-- The target at an index after a change. -/
def put (plan : Plan) (i : Nat) (t : Target) : Plan :=
  { plan with targets := plan.targets.set i t }

/-- `ApplyUpgradeEvent` for the stage `failed`. -/
def applyFailure (plan : Plan) (i : Nat) (t : Target)
    (event : UpgradeEvent) (now : Int) (issued : Nat) : Outcome :=
  let key := (t.id, event.commandID, event.stage.name)
  if event.errorCode = "rollback_failed" ∨ t.status = .rollingBack then
    let plan := plan.put i { t with
      status := .manualIntervention
      errorCode := event.errorCode
      errorMessage := event.message
      updatedAt := now }
    { save := some { plan with
        status := .paused, pauseReason := "代理回滚失败，需要人工处理" }
      event := some key
      commands := []
      issued }
  else
    let (plan, commands, issued) := rollbackBatch plan t.batchNumber t.id event.errorCode now issued
    { save := some plan, event := some key, commands, issued }

/-- `ApplyUpgradeEvent`. -/
def applyUpgradeEvent (plan : Plan) (serverID : String)
    (event : UpgradeEvent) (now : Int) (issued : Nat) : Except UpgradeError Outcome :=
  match plan.matchTarget serverID event.targetID event.commandID with
  | none => .ok (.nothing issued)
  | some i =>
    match plan.targets[i]? with
    | none => .ok (.nothing issued)
    | some t =>
      let key := (t.id, event.commandID, event.stage.name)
      let note : Outcome := ⟨none, some key, [], issued⟩
      if event.stage = .failed then
        .ok (plan.applyFailure i t event now issued)
      else if t.status = .rollingBack
          ∧ (event.stage = .reconnecting ∨ event.stage = .succeeded) then
        .ok note
      else match targetStatusForStage event.stage with
        | none => .error .invalidTransition
        | some status =>
          if t.status = status then .ok note
          else if !forwardTransition t.status status then
            .ok (.nothing issued)
          else
            .ok { note with
              save := some (plan.put i (t.advance status event now)) }

/-- `ObserveHeartbeat`. -/
def observeHeartbeat (plan : Plan) (heartbeat : UpgradeHeartbeat)
    (now : Int) (issued : Nat) : Outcome :=
  match heartbeat.upgrade with
  | none => .nothing issued
  | some (targetID, commandID) =>
    match plan.matchTarget heartbeat.serverID targetID commandID with
    | none => .nothing issued
    | some i =>
      match plan.targets[i]? with
      | none => .nothing issued
      | some t =>
        match t.status with
        | .rollingBack =>
          if heartbeat.agentVersion ≠ t.sourceVersion then .nothing issued
          else
            { save := some (plan.put i { t with
                status := .rolledBack, updatedAt := now
                finishedAt := some now })
              event := none
              commands := []
              issued }
        | .reconnecting =>
          if heartbeat.agentVersion ≠ t.targetVersion then
            let t := { t with
              status := .rollingBack, commandID := issued
              updatedAt := now }
            let plan := plan.put i t
            { save := some { plan with
                status := .paused
                pauseReason := "代理重连版本不一致，正在回滚" }
              event := none
              commands := [⟨t.serverID, rollbackCommand plan t⟩]
              issued := issued + 1 }
          else
            { save := some (plan.put i { t with
                status := .healthChecking, updatedAt := now })
              event := none
              commands := []
              issued }
        | _ => .nothing issued

end Plan

end Yunling.Upgrade
