/-
What the platform does when it loses sight of an agent, hears from it
again, and retries what was lost (`internal/task/reconcile.go`, with
`saveRunUsage` of `internal/task/usage.go`).

# Three transactions

- `markServerRunsUnknown`: the server went offline; its active runs
  become unknown.
- `reconcileRunning`: an agent reports its live processes. A run it
  names with the right token is running; one it does not name is left
  alone, unless the report is authoritative, in which case the process
  is recorded as gone and the run's leases are released.
- `retryRun`: a new attempt of a run whose process is gone. The lineage
  hangs off its root (`TaskRun.root`); an advisory lock on the root's id
  serialises the requests, so a transaction here sees the whole lineage
  as the previous one left it.

The loop of `reconcileRunning` works on the rows it read first. Every
iteration writes its own run only, so the row it read is the row it
updates.
-/
import Yunling.Lib.OrderBy
import Yunling.Task.Events

namespace Yunling

open OrderBy

-- ======== offline

/-- The row a lost server leaves behind. -/
def TaskRun.lose (at_ : Int) (r : TaskRun) : TaskRun :=
  { r with
    state := .unknown, processConfirmedGone := false, updatedAt := at_ }

/-- `WHERE assigned_server_id=$1 AND state IN
('assigned','syncing','running')`. -/
def TaskRun.activeOn (serverID : String) (r : TaskRun) : Bool :=
  r.assignedServerId == some serverID && r.state.active

/-- `MarkServerRunsUnknown`. -/
def markServerRunsUnknown (serverID : String) (at_ : Int) : Tx Unit :=
  fun db =>
    let marked := { db with
      runs := db.runs.update (TaskRun.activeOn serverID) (TaskRun.lose at_) fun _ => rfl }
    let ids := (db.runs.rows.filter (TaskRun.activeOn serverID)).map (·.id)
    .ok ((), marked.appendForEach (ids.map fun runID => (runID, at_)) "run.unknown" .unknown
      { message := some "执行服务器失联，等待代理重连确认" })

-- ======== reports

/-- `agentprotocol.RunningProcess`. -/
structure RunningProcess where
  runID : String
  executionToken : String
  usage : Option ResourceUsage
  deriving DecidableEq

/-- `agentprotocol.RunningReport`; the instant it was taken is not
used. -/
structure RunningReport where
  serverID : String
  authoritative : Bool
  processes : List RunningProcess
  deriving DecidableEq

/-- The two maps built from a report: the last process listed for a run
wins. -/
def RunningReport.process (report : RunningReport) (runID : String) : Option RunningProcess :=
  report.processes.reverse.find? fun p => p.runID == runID

/-- The report names the run with the token the row carries. -/
def RunningReport.confirms (report : RunningReport) (item : TaskRun) : Bool :=
  (report.process item.id).any fun p => p.executionToken == item.token

/-- `saveRunUsage`. -/
def saveRunUsage (db : Database) (runID : String) (usage : Option ResourceUsage) : Database :=
  match usage with
  | none => db
  | some u =>
    if u.valid = false then db
    else if db.events.any fun e => e.taskRunId == runID
        && e.payload.usage.any fun v => u.sampledAt ≤ v.sampledAt
    then db
    else db.appendSystemRunEvent runID "run.usage" .running
      { usage := some u } u.sampledAt

/-- A row whose process the agent reports alive. -/
def TaskRun.resume (at_ : Int) (r : TaskRun) : TaskRun :=
  { r with
    state := .running, processConfirmedGone := false, updatedAt := at_ }

/-- A row whose process the agent reports absent. -/
def TaskRun.vanish (at_ : Int) (r : TaskRun) : TaskRun :=
  { r with
    state := .unknown, processConfirmedGone := true, updatedAt := at_ }

/-- The rows a report is compared with: `WHERE assigned_server_id=$1 AND
state IN ('assigned','syncing','running','unknown')`. -/
def TaskRun.openOn (serverID : String) (r : TaskRun) : Bool :=
  r.assignedServerId == some serverID && (r.state.active || r.state == .unknown)

/-- One iteration of the loop over the rows read. -/
def reconcileItem (report : RunningReport) (at_ : Int) (db : Database)
    (item : TaskRun) : Database :=
  if report.confirms item then
    let db := saveRunUsage db item.id ((report.process item.id).bind (·.usage))
    let db := db.updateRun item.id (TaskRun.resume at_) fun _ => rfl
    if item.state = .running then db
    else db.appendSystemRunEvent item.id "run.reconciled" .running
      { message := some "代理重连后确认任务仍在运行" } at_
  else if report.authoritative = false then db
  else
    let db := db.releaseLeases item.id at_
    -- a repeated absence report must not move the retry backoff clock
    if item.processConfirmedGone then db
    else
      let db := db.updateRun item.id (TaskRun.vanish at_) fun _ => rfl
      db.appendSystemRunEvent item.id "run.process_absent" .unknown
        { message := some "代理已确认原执行进程不存在，可按策略重试" } at_

/-- `ReconcileRunning`. -/
def reconcileRunning (report : RunningReport) (at_ : Int) : Tx Unit :=
  fun db =>
    .ok ((), (db.runs.rows.filter (TaskRun.openOn report.serverID)).foldl
      (reconcileItem report at_) db)

/-- `Reconciler.Reconcile`. -/
def reconcile (report : RunningReport) (now : Int) : Tx Unit := fun db =>
  if blank report.serverID
      || report.processes.any (fun p => blank p.runID
        || blank p.executionToken) then
    .error .invalidRunEvent
  else reconcileRunning report now db

-- ======== retries

/-- `payload @> '{"automaticRetry":true}' AND event_type IN
('run.failed','run.timed_out')`. -/
def RunEvent.retryIntent (e : RunEvent) : Bool :=
  e.payload.automaticRetry == some true
    && (e.eventType == "run.failed" || e.eventType == "run.timed_out")

/-- The run left a retry intent and nobody asked for its
cancellation. -/
def Database.automaticallyRetryable (db : Database) (runID : String) : Bool :=
  db.events.any (fun e => e.taskRunId == runID && e.retryIntent)
    && !db.events.any fun e => e.taskRunId == runID && e.eventType == "run.cancel_requested"

/-- The conditions every retry needs of the run it names. -/
def TaskRun.retryable (r : TaskRun) : Bool :=
  r.idempotent && r.processConfirmedGone && r.attempt ≤ r.maxRetries
    && (r.state == .failed || r.state == .timedOut
      || r.state == .cancelled || r.state == .unknown)

/-- The additional conditions of an automatic retry. -/
def TaskRun.failedByItself (r : TaskRun) (db : Database) : Bool :=
  db.automaticallyRetryable r.id && (r.state == .failed || r.state == .timedOut)

/-- `ORDER BY attempt, created_at, id`. -/
abbrev TaskRun.beforeAttempt : TaskRun → TaskRun → Prop :=
  Lex (·.attempt) (Lex (·.createdAt) (Asc (·.id)))

/-- `SELECT id FROM task_runs WHERE retry_of=$1 AND attempt>$2 ORDER BY
attempt, created_at, id LIMIT 1`. -/
def Database.successor (db : Database) (rootID : String) (attempt : Nat) : Option TaskRun :=
  ((db.runs.rows.filter fun r =>
    r.retryOf == some rootID && attempt < r.attempt).insertionSort TaskRun.beforeAttempt).head?

/-- The row a retry inserts, from the run it retries. -/
def TaskRun.nextAttempt (r : TaskRun) (id : String) (at_ : Int) : TaskRun :=
  { r with
    id
    triggerType := .retry
    state := .queued
    scheduledFor := none
    queuedAt := max at_ (r.finishedAt.getD r.updatedAt + r.retryBackoffSeconds * second)
    attempt := r.attempt + 1
    retryOf := some r.root
    assignedServerId := none
    assignedAt := none
    startedAt := none
    finishedAt := none
    exitCode := none
    executionToken := none
    processConfirmedGone := false
    resultSummary := ""
    dispatchAttempts := 0
    lastDispatchAt := none
    dispatchError := ""
    createdAt := at_
    updatedAt := at_ }

/-- The secret references a run was queued with: those of its first
`run.queued` event, or its definition's bindings. -/
def Database.secretRefs (db : Database) (runID : String)
    (bindings : List (String × String)) : List (String × String) :=
  let queued := (db.events.filter fun e =>
    e.taskRunId == runID && e.eventType == "run.queued").insertionSort (Asc (·.sequence))
  (queued.head?.bind (·.payload.secretRefs)).getD bindings

/-- `retryRun`; `freshID` is the id the database generates for the new
row. -/
def retryRun (runID freshID : String) (at_ : Int) (automatic : Bool) : Tx String := fun db =>
  match db.runs.find? runID with
  | none => .error .runNotFound
  | some run =>
    match db.definitions.find? run.taskDefinitionId with
    | none => .error .constraint
    | some definition =>
      if definition.enabled = false then .error .runNotRetryable
      else if run.retryable = false then .error .runNotRetryable
      else if automatic && !run.failedByItself db then
        .error .runNotRetryable
      else
        let released := db.releaseLeases runID at_
        match released.successor run.root run.attempt with
        | some next => .ok (next.id, released)
        | none =>
          match released.runs.insert? (run.nextAttempt freshID at_) with
          | none => .error .constraint
          | some runs =>
            let created := { released with runs }
            .ok (freshID, created.appendSystemRunEvent freshID "run.queued" .queued
              { message := some "重试任务已进入排队队列"
                retryOf := some runID
                secretRefs := some (created.secretRefs runID definition.secretBindings) } at_)

/-- `ORDER BY finished_at, id`; `NULL` sorts last. -/
abbrev TaskRun.beforeFinish : TaskRun → TaskRun → Prop :=
  Lex (·.finishedAt.isNone) (Lex (·.finishedAt.getD 0) (Asc (·.id)))

/-- The query of `RetryFailed`: runs that failed by themselves, may be
retried and have no later attempt yet, oldest failure first, at most a
hundred. -/
def Database.retryCandidates (db : Database) : List String :=
  let due := db.runs.rows.filter fun r =>
    (r.state == .failed || r.state == .timedOut) && r.idempotent
      && r.processConfirmedGone && r.attempt ≤ r.maxRetries
      && (db.definitions.find? r.taskDefinitionId).any (·.enabled) && db.automaticallyRetryable r.id
      && !db.runs.rows.any fun c => c.retryOf == some r.root && r.attempt < c.attempt
  ((due.insertionSort TaskRun.beforeFinish).take 100).map (·.id)

end Yunling
