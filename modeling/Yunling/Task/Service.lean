/-
Definitions, triggers and cancellation (`internal/task/service.go`,
`internal/task/parameter_validation.go`, and `CancelRun` of
`internal/task/run_service.go`).

A trigger snapshots its definition into the run: the labels, runtime,
priority, resources and limits a run is scheduled under are those the
definition had at that moment, whatever happens to it later.

# Writes to definitions

`Create` and `Update` are modelled by the statement they end in and the
`CHECK`s and references of the table, which every accepted input passes;
the normalisation and validation in front of them only narrows what gets
through.
-/
import Yunling.Task.Reconcile

namespace Yunling

open OrderBy

-- ======== definitions

/-- The `CHECK`s of `task_definitions`. -/
def Definition.checks (d : Definition) : Bool :=
  0 < d.resources.cpuMillicores && 0 < d.resources.memoryBytes && 0 < d.resources.diskBytes
    && 0 < d.timeoutSeconds && 0 < d.maxConcurrency
    && 0 ≤ d.priority && d.priority ≤ 100
    && (match d.versionPolicy with
      | .latest => d.pinnedVersionId.isNone
      | .pinned => d.pinnedVersionId.isSome)

/-- The foreign key of `pinned_version_id`. -/
def Definition.pinExists (d : Definition) (db : Database) : Bool :=
  d.pinnedVersionId.all fun v => (db.versions.find? v).isSome

/-- `Service.Create`: the `INSERT`. -/
def createDefinition (d : Definition) : Tx Unit := fun db =>
  if d.checks && d.pinExists db then
    match db.definitions.insert? d with
    | some definitions => .ok ((), { db with definitions })
    | none => .error .constraint
  else .error .constraint

/-- `Service.Update`: the `UPDATE` of every column but the key. -/
def updateDefinition (d : Definition) : Tx Unit := fun db =>
  if d.checks && d.pinExists db then
    match db.definitions.find? d.id with
    | none => .error .definitionNotFound
    | some _ => .ok ((), { db with
        definitions := db.definitions.update (fun e => e.id == d.id)
          (fun e => { d with id := e.id }) fun _ => rfl })
  else .error .constraint

/-- `Service.Delete`: runs keep their definition alive. -/
def deleteDefinition (id : String) : Tx Unit := fun db =>
  match db.definitions.find? id with
  | none => .error .definitionNotFound
  | some _ =>
    if db.runs.rows.any fun r => r.taskDefinitionId == id then
      .error .constraint
    else .ok ((), { db with
      definitions := db.definitions.delete fun e => e.id == id })

/-- `WHERE task_definition_id=$1 AND state='queued'`. -/
def TaskRun.queuedOf (definitionID : String) (r : TaskRun) : Bool :=
  r.taskDefinitionId == definitionID && r.state == .queued

/-- A queued row cancelled with its definition. Unlike `CancelRun`, the
statement does not record that there is no process. -/
def TaskRun.cancelWithDefinition (at_ : Int) (r : TaskRun) : TaskRun :=
  { r with
    state := .cancelled, finishedAt := some at_, updatedAt := at_ }

/-- `Service.SetEnabled`; `now` lists the clock readings of the
transaction: the definition's, the runs', then one for every event. -/
def setEnabled (id : String) (enabled cancelQueued : Bool) (now : Nat → Int) : Tx Unit := fun db =>
  match db.definitions.find? id with
  | none => .error .definitionNotFound
  | some _ =>
    let switched := { db with
      definitions := db.definitions.update (fun d => d.id == id)
        (fun d => { d with enabled, updatedAt := now 0 }) fun _ => rfl }
    if !enabled && cancelQueued then
      let cancelled := { switched with
        runs := db.runs.update (TaskRun.queuedOf id)
          (TaskRun.cancelWithDefinition (now 1)) fun _ => rfl }
      let ids := (db.runs.rows.filter (TaskRun.queuedOf id)).map (·.id)
      .ok ((), cancelled.appendForEach (ids.mapIdx fun i runID => (runID, now (i + 2)))
        "run.cancelled" .cancelled { message := some "任务停用并取消排队" })
    else .ok ((), switched)

-- ======== parameters

/-- `validateParameters`: the first parameter definition that is not
met, and why. -/
def validateParameters (definitions : List ParameterDefinition)
    (values : Parameters) (refs : List (String × String)) : Except TxError Unit :=
  match definitions with
  | [] => .ok ()
  | d :: rest =>
    if blank (textAt refs d.name) = false then
      if d.type ≠ "string" then
        .error (.invalidParameters (d.name ++ " 的敏感参数必须为文本类型"))
      else if (values.lookup d.name).isSome then
        .error (.invalidParameters (d.name ++ " 不能同时配置普通参数和敏感参数"))
      else validateParameters rest values refs
    else
      match values.lookup d.name with
      | none | some .null =>
        if d.required then
          .error (.invalidParameters ("缺少必填参数 " ++ d.name))
        else validateParameters rest values refs
      | some value =>
        let valid : Bool := match value with
          | .text _ => d.type = "string"
          | .boolean _ => d.type = "boolean"
          | .number _ => d.type = "number"
          | _ => false
        if valid then validateParameters rest values refs
        else .error (.invalidParameters (d.name ++ " 应为 " ++ d.type ++ " 类型"))

/-- Assigning `parameters[key] = value` for every override. -/
def overrideParameters (parameters overrides : Parameters) : Parameters :=
  overrides.foldl (fun m entry =>
    (entry.1, entry.2) :: m.filter fun e => e.1 != entry.1) parameters

-- ======== triggers

/-- `task.Trigger`. -/
structure Trigger where
  type : String
  requestedBy : Option String
  scheduledFor : Option Int
  parameters : Parameters
  deriving DecidableEq

/-- The trigger types a request may name; none is `manual`. -/
def Trigger.triggerType (t : Trigger) : Option TriggerType :=
  if t.type = "" ∨ t.type = "manual" then some .manual
  else if t.type = "schedule" then some .schedule
  else if t.type = "retry" then some .retry
  else none

/-- `SELECT id FROM script_versions WHERE script_id=$1 ORDER BY version
DESC LIMIT 1`. -/
def Database.latestVersion (db : Database) (scriptId : String) : Option ScriptVersion :=
  ((db.versions.rows.filter fun v => v.scriptId == scriptId).insertionSort
    (Asc fun v => -(v.version : Int))).head?

/-- The version a definition runs. -/
def Definition.resolveVersion (d : Definition) (db : Database) : Option String :=
  match d.versionPolicy, d.pinnedVersionId with
  | .pinned, some v => some v
  | _, _ => (db.latestVersion d.scriptId).map (·.id)

/-- The row a trigger inserts. -/
def Definition.newRun (d : Definition) (id versionID : String)
    (type : TriggerType) (trigger : Trigger) (parameters : Parameters) (now : Int) : TaskRun where
  id
  taskDefinitionId := d.id
  scriptVersionId := versionID
  requestedBy := trigger.requestedBy
  triggerType := type
  state := .queued
  parametersSnapshot := parameters
  requiredLabels := d.requiredLabels
  requiredRuntime := d.requiredRuntime
  priority := d.priority
  resources := d.resources
  maxConcurrency := d.maxConcurrency
  timeoutSeconds := d.timeoutSeconds
  maxWaitSeconds := d.maxWaitSeconds
  maxRetries := d.maxRetries
  retryBackoffSeconds := d.retryBackoffSeconds
  idempotent := d.idempotent
  scheduledFor := trigger.scheduledFor
  queuedAt := now
  attempt := 1
  retryOf := none
  assignedServerId := none
  assignedAt := none
  startedAt := none
  finishedAt := none
  exitCode := none
  executionToken := none
  processConfirmedGone := false
  resultSummary := ""
  dispatchAttempts := 0
  lastDispatchAt := none
  dispatchError := ""
  createdAt := now
  updatedAt := now

/-- `task_runs_schedule_unique`: a definition runs once per planned
instant. -/
def Database.scheduleTaken (db : Database) (definitionID : String)
    (scheduledFor : Option Int) : Bool :=
  scheduledFor.any fun t => db.runs.rows.any fun r =>
    r.taskDefinitionId == definitionID && r.scheduledFor == some t

/-- `Service.Trigger`; `freshID` is the id the database generates. -/
def triggerRun (definitionID freshID : String) (trigger : Trigger)
    (now : Int) : Tx String := fun db =>
  match trigger.triggerType with
  | none => .error .invalidDefinition
  | some type =>
    match db.definitions.find? definitionID with
    | none => .error .definitionNotFound
    | some d =>
      if d.enabled = false then .error .definitionDisabled
      else match d.resolveVersion db with
        | none => .error .versionUnavailable
        | some versionID =>
          match db.versions.find? versionID with
          | none => .error .versionUnavailable
          | some version =>
            if version.scriptId ≠ d.scriptId then .error .versionUnavailable
            else
              let parameters := overrideParameters d.parameters trigger.parameters
              match validateParameters version.parameterDefinitions parameters d.secretBindings with
              | .error e => .error e
              | .ok () =>
                if db.scheduleTaken d.id trigger.scheduledFor then
                  .error .duplicateRun
                else match db.runs.insert? (d.newRun freshID versionID type
                    trigger parameters now) with
                  | none => .error .constraint
                  | some runs =>
                    .ok (freshID, { db with
                      runs
                      events := db.events ++ [
                        { taskRunId := freshID, sequence := 0
                          eventType := "run.queued", state := .queued
                          payload := {
                            message := some "任务已进入排队队列"
                            secretRefs := some d.secretBindings }
                          occurredAt := now
                          executionToken := none
                          agentSequence := none }] })

-- ======== cancellation

/-- A queued row cancelled by request. -/
def TaskRun.cancelQueued (at_ : Int) (r : TaskRun) : TaskRun :=
  { r with
    state := .cancelled, finishedAt := some at_,
    processConfirmedGone := true, updatedAt := at_ }

/-- `CancelRun`; `sent` says whether the cancel command reached the
server's connection. -/
def cancelRun (id : String) (now : Int) (sent : Bool) : Tx Unit :=
  fun db =>
    match db.runs.find? id with
    | none => .error .runNotFound
    | some run =>
      if run.state = .queued then
        .ok ((), (db.updateRun id (TaskRun.cancelQueued now)
            fun _ => rfl).appendSystemRunEvent id "run.cancelled" .cancelled
          { message := some "排队任务已取消" } now)
      else if run.state.active = false then .error .runNotCancellable
      else if run.assignedServerId.getD "" = "" ∨ run.token = "" ∨ sent = false then
        .error .runCommandUnavailable
      else
        .ok ((), db.appendSystemRunEvent id "run.cancel_requested" run.state
          { message := some "已向执行服务器发送取消命令" } now)

end Yunling
