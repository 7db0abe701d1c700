/-
The scheduler's view of the database (`internal/scheduler/postgres.go`).

`assign` is the only transaction that takes a run out of the queue and
gives it to a server. It is refused without an error when the run is no
longer waiting, when the script is not verified on the chosen server (the
sync it asked for is kept: that commit is what warms the cache), and
when the definition's quota is used up. Otherwise it writes the run, its
lease and one event together.
-/
import Yunling.Scheduler.Model
import Yunling.Dispatch.Store

namespace Yunling

open OrderBy Scheduler

-- ======== reads

/-- `runSelect`: the row joined with its definition and version. -/
def Database.scheduled (db : Database) (r : TaskRun) : Option Run :=
  match db.definitions.find? r.taskDefinitionId, db.versions.find? r.scriptVersionId with
  | some _, some version => some {
      id := r.id
      definitionID := r.taskDefinitionId
      scriptVersionID := r.scriptVersionId
      state := r.state
      requiredLabels := r.requiredLabels
      requiredRuntime := r.requiredRuntime
      priority := r.priority
      resources := r.resources
      maxConcurrency := r.maxConcurrency
      timeoutSeconds := r.timeoutSeconds
      maxWaitSeconds := r.maxWaitSeconds
      queuedAt := r.queuedAt
      requiresArtifacts := version.artifacts }
  | _, _ => none

/-- The scheduler's copy of a row agrees with it. -/
structure Scheduler.Run.Reads (run : Run) (r : TaskRun) : Prop where
  id : run.id = r.id
  definitionID : run.definitionID = r.taskDefinitionId
  scriptVersionID : run.scriptVersionID = r.scriptVersionId
  state : run.state = r.state
  priority : run.priority = r.priority
  resources : run.resources = r.resources
  maxConcurrency : run.maxConcurrency = r.maxConcurrency
  timeoutSeconds : run.timeoutSeconds = r.timeoutSeconds
  queuedAt : run.queuedAt = r.queuedAt

theorem Database.scheduled_reads {db : Database} {r : TaskRun} {run : Run}
    (h : db.scheduled r = some run) : run.Reads r := by
  unfold Database.scheduled at h
  split at h
  · cases h
    constructor <;> rfl
  · cases h

/-- `PostgresStore.Get`. -/
def Database.getRun (db : Database) (runID : String) : Option Run :=
  (db.runs.find? runID).bind db.scheduled

theorem Database.getRun_eq_some {db : Database} {runID : String} {run : Run}
    (h : db.getRun runID = some run) : ∃ r, db.runs.find? runID = some r ∧ run.Reads r := by
  obtain ⟨r, hr, hrun⟩ := Option.bind_eq_some_iff.mp h
  exact ⟨r, hr, db.scheduled_reads hrun⟩

/-- Queue order: priority descending, then queue time, then id. -/
abbrev Scheduler.Run.before : Run → Run → Prop :=
  Lex (fun r => -r.priority) (Lex (·.queuedAt) (Asc (·.id)))

/-- `ListQueued`. -/
def Database.listQueued (db : Database) : List Run :=
  ((db.runs.rows.filter fun r => r.state == .queued).filterMap
    db.scheduled).insertionSort Run.before

/-- `ListReleasedLeases`: only the id, the run and the server are
read. -/
def Database.listReleasedLeases (db : Database) (now : Int) : List Lease :=
  (db.leases.rows.filter fun l =>
    l.releasedAt.isSome && now < l.expiresAt).map fun l =>
      { id := l.id, runID := l.taskRunId, serverID := l.serverId
        resources := ⟨0, 0, 0⟩, expiresAt := zeroTime }

/-- A lease row as the scheduler's `Lease`. -/
def ResourceLease.lease (l : ResourceLease) : Lease where
  id := l.id
  runID := l.taskRunId
  serverID := l.serverId
  resources := l.resources
  expiresAt := l.expiresAt

/-- The rows of `ListActiveLeases`: unreleased, unexpired, of an active
run. -/
def Database.leaseActive (db : Database) (now : Int) (l : ResourceLease) : Bool :=
  l.releasedAt.isNone && now < l.expiresAt && (db.runs.find? l.taskRunId).any (·.state.active)

/-- `ListActiveLeases`. -/
def Database.listActiveLeases (db : Database) (now : Int) : List Lease :=
  ((db.leases.rows.filter (db.leaseActive now)).insertionSort
    (Lex (·.createdAt) (Asc (·.id)))).map (·.lease)

-- ======== snapshots

/-- The last snapshot of a server. -/
def Database.latestSnapshot (db : Database) (serverID : String) : Option ServerSnapshot :=
  ((db.snapshots.filter fun s => s.serverId == serverID).insertionSort
    (Asc fun s => -s.collectedAt)).head?

/-- `max(assigned_at)` over the runs of a server. -/
def Database.lastAssigned (db : Database) (serverID : String) : Option Int :=
  (db.runs.rows.filterMap fun r =>
    if r.assignedServerId = some serverID then r.assignedAt
    else none).max?

/-- The fairness column: the share of an hour since the last assignment,
in ten-thousandths, rounded and clamped; `now` is the database's
clock. -/
def fairness (now : Int) : Option Int → Int
  | none => 10000
  | some assignedAt =>
    let elapsed := min (3600 * second) (max 0 (now - assignedAt))
    (2 * elapsed + 360000) / 720000

/-- One row of `Snapshots`. -/
def Database.snapshotOf (db : Database) (now : Int) (run : Run) (s : Server) : Snapshot :=
  let latest := db.latestSnapshot s.id
  let column := fun f : ServerSnapshot → Int => (latest.map f).getD 0
  let sync : Option SyncState :=
    (db.syncs.find? (s.id, run.scriptVersionID)).map (·.status)
  { id := s.id
    status := s.status
    enabled := s.enabled
    draining := s.drainRequested
    labels := s.labels
    runtimes := s.runtimes
    agentCapabilities := s.agentCapabilities
    maxConcurrency := s.maxConcurrency
    schedulingWeight := s.schedulingWeight
    cpuTotalMillicores := column (·.cpuTotalMilli)
    cpuAvailableMillicores :=
      max (column (·.cpuTotalMilli) - column (·.cpuUsedMilli)) 0
    memoryTotalBytes := column (·.memoryTotalBytes)
    memoryAvailableBytes := column (·.memoryAvailableBytes)
    diskTotalBytes := column (·.diskTotalBytes)
    diskAvailableBytes := column (·.diskAvailableBytes)
    runningTasks := column (·.runningTasks)
    readyScriptVersions :=
      if sync = some .ready then [run.scriptVersionID] else []
    blockedScriptVersions :=
      if sync = some .drifted ∨ sync = some .failed then
        [run.scriptVersionID]
      else []
    fairnessScore := fairness now (db.lastAssigned s.id) }

/-- `Snapshots`. -/
def Database.listSnapshots (db : Database) (now : Int) (run : Run) : List Snapshot :=
  (db.servers.rows.insertionSort (Asc (·.id))).map (db.snapshotOf now run)

-- ======== assignment

/-- `INSERT INTO script_syncs … ON CONFLICT DO NOTHING`. -/
def Database.prepareSync (db : Database) (serverID versionID : String) : Except TxError Database :=
  match db.syncs.insert?
      { serverId := serverID, scriptVersionId := versionID
        status := .pending, artifactSha256 := none } with
  | none => .ok db
  | some syncs =>
    if (db.servers.find? serverID).isSome && (db.versions.find? versionID).isSome then
      .ok { db with syncs }
    else .error .constraint

/-- The `UPDATE task_runs` of an assignment. -/
def TaskRun.assignTo (a : Assignment) (r : TaskRun) : TaskRun :=
  { r with
    state := .assigned
    assignedServerId := some a.serverID
    assignedAt := some a.assignedAt
    executionToken := some a.executionToken
    processConfirmedGone := false
    resultSummary := ""
    updatedAt := a.assignedAt }

/-- The lease row of an assignment. -/
def Scheduler.Assignment.leaseRow (a : Assignment) : ResourceLease where
  id := a.lease.id
  taskRunId := a.runID
  serverId := a.serverID
  resources := a.lease.resources
  expiresAt := a.lease.expiresAt
  releasedAt := none
  createdAt := a.assignedAt

/-- The constraints of `resource_leases` beside its primary key. -/
def Database.leaseAllowed (db : Database) (l : ResourceLease) : Bool :=
  0 < l.resources.cpuMillicores && 0 < l.resources.memoryBytes
    && 0 < l.resources.diskBytes && (db.servers.find? l.serverId).isSome
    && !db.leases.rows.any fun m =>
      m.taskRunId == l.taskRunId && m.releasedAt.isNone

/-- `PostgresStore.Assign`. -/
def assign (a : Assignment) : Tx Bool := fun db =>
  match db.runs.find? a.runID with
  | none => .ok (false, db)
  | some run =>
    if run.state ≠ .queued ∨ a.assignedAt < run.queuedAt then
      .ok (false, db)
    else match db.prepareSync a.serverID run.scriptVersionId with
      | .error e => .error e
      | .ok prepared =>
        if prepared.syncVerified a.serverID run.scriptVersionId = false then
          .ok (false, prepared)
        else if run.maxConcurrency ≤ prepared.countActive run.taskDefinitionId then
          -- rolled back, the prepared sync included
          .ok (false, db)
        else if prepared.runs.rows.any fun r =>
            r.executionToken == some a.executionToken then
          .error .constraint
        else if prepared.leaseAllowed a.leaseRow = false then
          .error .constraint
        else match prepared.leases.insert? a.leaseRow with
          | none => .error .constraint
          | some leases =>
            .ok (true, ({ prepared.updateRun a.runID (TaskRun.assignTo a)
                (fun _ => rfl) with leases }).appendSystemRunEvent a.runID "run.assigned" .assigned
              { serverId := some a.serverID, leaseId := some a.lease.id } a.assignedAt)

-- ======== leaving the queue

/-- The `UPDATE` of an expiry. -/
def TaskRun.expire (at_ : Int) (r : TaskRun) : TaskRun :=
  { r with
    state := .expired, finishedAt := some at_, updatedAt := at_ }

/-- `PostgresStore.Expire`. -/
def expireRun (runID : String) (at_ : Int) : Tx Bool := fun db =>
  match db.runs.find? runID with
  | none => .ok (false, db)
  | some run =>
    if run.state ≠ .queued then .ok (false, db)
    else
      .ok (true, (db.updateRun runID (TaskRun.expire at_)
          fun _ => rfl).appendSystemRunEvent runID "run.expired" .expired
        { message := some "任务超过最大等待时间" } at_)

/-- `SetQueueReason`; `now` is the database's clock. -/
def setQueueReason (runID reason : String) (now : Int) : Tx Unit :=
  fun db =>
    match db.runs.find? runID with
    | none => .ok ((), db)
    | some run =>
      if run.state ≠ .queued ∨ run.resultSummary = reason then .ok ((), db)
      else
        .ok ((), (db.updateRun runID (fun r => { r with resultSummary := reason })
            fun _ => rfl).appendSystemRunEvent runID "run.queue_reason"
          .queued { message := some reason } now)

end Yunling
