/-
The tables the transactions read and write, column by column, and the
values their rows hold (`migrations/`, with `internal/task/model.go` and
`internal/server/model.go` for the enumerations).

# What a column becomes

- An enumerated text column is an inductive type; a text column without
  a `CHECK` list (`run_events.event_type`) stays text.
- An integer column whose `CHECK` makes it non-negative is a `Nat`.
- A nullable column is an `Option`.
- A JSON column is the value the code decodes it into: association lists
  for objects, and for `run_events.payload` the union of the fields any
  writer sets.
- Instants are microseconds since the Unix epoch, PostgreSQL's own
  resolution; the part of a Go time below that is dropped when it is
  stored.

Primary keys are carried by the tables themselves (`Relational.Table`).
`run_events` is append-only (a trigger rejects every update and delete),
so it is a list that only ever grows at the end.

Columns no modelled function reads or writes are left out.
-/
import Yunling.Lib.Table
import Mathlib.Algebra.Order.Ring.Int

namespace Yunling

open Relational

-- ======== instants

/-- One second, in the unit of instants. -/
def second : Int := 1000000

/-- One minute. -/
def minute : Int := 60 * second

/-- Go's zero `time.Time`: midnight of January 1, year 1. -/
def zeroTime : Int := -62135596800 * second

/-- `time.Time.UnixMilli`. -/
def unixMilli (t : Int) : Int := t / 1000

-- ======== text

/-- `unicode.IsSpace`. -/
def isSpace (c : Char) : Bool :=
  let n := c.toNat
  (9 ≤ n && n ≤ 13) || n == 0x20 || n == 0x85 || n == 0xA0 || n == 0x1680
    || (0x2000 ≤ n && n ≤ 0x200A) || n == 0x2028 || n == 0x2029
    || n == 0x202F || n == 0x205F || n == 0x3000

/-- `strings.TrimSpace(s) == ""`. -/
def blank (s : String) : Bool := s.toList.all isSpace

/-- `labels[key]` on a Go map: a missing key reads as the empty
string. -/
def textAt (entries : List (String × String)) (key : String) : String :=
  (entries.lookup key).getD ""

-- ======== task_runs

/-- `task.RunState`. -/
inductive RunState where
  | queued | scheduling | assigned | syncing | running
  | succeeded | failed | timedOut | cancelled | expired | unknown
  deriving DecidableEq

/-- `RunState.Terminal`. -/
def RunState.terminal : RunState → Bool
  | .succeeded | .failed | .timedOut | .cancelled | .expired => true
  | _ => false

/-- The SQL list `state IN ('assigned','syncing','running')`. -/
def RunState.active : RunState → Bool
  | .assigned | .syncing | .running => true
  | _ => false

/-- `task.TriggerType`. -/
inductive TriggerType where
  | manual | schedule | retry
  deriving DecidableEq

/-- `task.Resources`. -/
structure Resources where
  cpuMillicores : Int
  memoryBytes : Int
  diskBytes : Int
  deriving DecidableEq

/-- A decoded JSON parameter value, as far as its type is told apart. -/
inductive ParameterValue where
  | null
  | text (value : String)
  | boolean (value : Bool)
  | number (literal : String)
  | compound (json : String)
  deriving DecidableEq

abbrev Parameters := List (String × ParameterValue)

/-- A row of `task_runs`. -/
structure TaskRun where
  id : String
  taskDefinitionId : String
  scriptVersionId : String
  requestedBy : Option String
  triggerType : TriggerType
  state : RunState
  parametersSnapshot : Parameters
  requiredLabels : List (String × String)
  requiredRuntime : String
  priority : Int
  resources : Resources
  maxConcurrency : Nat
  timeoutSeconds : Nat
  maxWaitSeconds : Nat
  maxRetries : Nat
  retryBackoffSeconds : Nat
  idempotent : Bool
  scheduledFor : Option Int
  queuedAt : Int
  attempt : Nat
  retryOf : Option String
  assignedServerId : Option String
  assignedAt : Option Int
  startedAt : Option Int
  finishedAt : Option Int
  exitCode : Option Int
  executionToken : Option String
  processConfirmedGone : Bool
  resultSummary : String
  dispatchAttempts : Nat
  lastDispatchAt : Option Int
  dispatchError : String
  createdAt : Int
  updatedAt : Int
  deriving DecidableEq

/-- `COALESCE(execution_token,'')`. -/
def TaskRun.token (r : TaskRun) : String := r.executionToken.getD ""

/-- `COALESCE(retry_of,id)`: the root of the run's retry lineage. -/
def TaskRun.root (r : TaskRun) : String := r.retryOf.getD r.id

-- ======== resource_leases

/-- A row of `resource_leases`. -/
structure ResourceLease where
  id : String
  taskRunId : String
  serverId : String
  resources : Resources
  expiresAt : Int
  releasedAt : Option Int
  createdAt : Int
  deriving DecidableEq

-- ======== run_events

/-- `agentprotocol.ResourceUsage`. -/
structure ResourceUsage where
  cpuTimeMillis : Option Int
  memoryBytes : Option Int
  peakMemoryBytes : Option Int
  processes : Option Int
  sampledAt : Int
  deriving DecidableEq

/-- The JSON object in `run_events.payload`: every field some writer
sets. A `null` usage and a missing one read the same everywhere. -/
structure Payload where
  message : Option String := none
  exitCode : Option Int := none
  usage : Option ResourceUsage := none
  automaticRetry : Option Bool := none
  serverId : Option String := none
  leaseId : Option String := none
  retryOf : Option String := none
  secretRefs : Option (List (String × String)) := none
  deriving DecidableEq

/-- A row of `run_events`. -/
structure RunEvent where
  taskRunId : String
  sequence : Nat
  eventType : String
  state : RunState
  payload : Payload
  occurredAt : Int
  executionToken : Option String
  agentSequence : Option Nat
  deriving DecidableEq

-- ======== task_definitions

/-- `task.VersionPolicy`. -/
inductive VersionPolicy where
  | latest | pinned
  deriving DecidableEq

/-- A row of `task_definitions`. -/
structure Definition where
  id : String
  scriptId : String
  versionPolicy : VersionPolicy
  pinnedVersionId : Option String
  enabled : Bool
  parameters : Parameters
  secretBindings : List (String × String)
  requiredLabels : List (String × String)
  requiredRuntime : String
  priority : Int
  resources : Resources
  maxConcurrency : Nat
  timeoutSeconds : Nat
  maxWaitSeconds : Nat
  maxRetries : Nat
  retryBackoffSeconds : Nat
  idempotent : Bool
  updatedAt : Int
  deriving DecidableEq

-- ======== script tables

/-- `script.ParameterDefinition`. -/
structure ParameterDefinition where
  name : String
  type : String
  required : Bool
  deriving DecidableEq

/-- A row of `script_versions`, with the two parts of its manifest that
triggering and scheduling read. -/
structure ScriptVersion where
  id : String
  scriptId : String
  version : Nat
  artifactSha256 : String
  parameterDefinitions : List ParameterDefinition
  artifacts : Bool
  deriving DecidableEq

/-- `script_syncs.status`. -/
inductive SyncState where
  | pending | downloading | ready | failed | drifted
  deriving DecidableEq

/-- A row of `script_syncs`. -/
structure ScriptSync where
  serverId : String
  scriptVersionId : String
  status : SyncState
  artifactSha256 : Option String
  deriving DecidableEq

-- ======== server tables

/-- `server.Status`. -/
inductive ServerStatus where
  | pending | online | offline | draining | quarantined
  deriving DecidableEq

/-- A row of `servers`. -/
structure Server where
  id : String
  status : ServerStatus
  enabled : Bool
  drainRequested : Bool
  labels : List (String × String)
  runtimes : List String
  agentCapabilities : List String
  maxConcurrency : Nat
  schedulingWeight : Int
  lastHeartbeatSequence : Nat
  lastSeenAt : Option Int
  deriving DecidableEq

/-- A row of `server_snapshots`. -/
structure ServerSnapshot where
  serverId : String
  cpuTotalMilli : Int
  cpuUsedMilli : Int
  memoryTotalBytes : Int
  memoryAvailableBytes : Int
  diskTotalBytes : Int
  diskAvailableBytes : Int
  runningTasks : Nat
  collectedAt : Int
  deriving DecidableEq

-- ======== the database

/-- The database: the tables the modelled transactions touch. -/
structure Database where
  definitions : Table Definition String (·.id)
  versions : Table ScriptVersion String (·.id)
  syncs : Table ScriptSync (String × String)
    fun s => (s.serverId, s.scriptVersionId)
  servers : Table Server String (·.id)
  snapshots : List ServerSnapshot
  runs : Table TaskRun String (·.id)
  leases : Table ResourceLease String (·.id)
  events : List RunEvent

/-- The database after the migrations: every table empty. -/
def Database.empty : Database where
  definitions := .empty
  versions := .empty
  syncs := .empty
  servers := .empty
  snapshots := []
  runs := .empty
  leases := .empty
  events := []

/-- Why a transaction rolled back. -/
inductive TxError where
  | runNotFound | invalidRunEvent | executionTokenMismatch
  | runEventConflict | runEventSequence | runNotRetryable
  | runNotCancellable | runCommandUnavailable
  | definitionNotFound | definitionDisabled | invalidDefinition
  | versionUnavailable | duplicateRun | invalidHeartbeat
  | serverNotFound | serverIneligible
  /-- with the text that follows `任务参数不符合脚本版本要求：` -/
  | invalidParameters (detail : String)
  /-- a constraint of the schema rejected a statement -/
  | constraint
  deriving DecidableEq

/-- What a transaction does: a result and the committed database, or an
error and no change. A rollback without an error returns the database it
was given. -/
abbrev Tx (α : Type) := Database → Except TxError (α × Database)

/-- The database after a transaction has ended, one way or the other. -/
def settle {α : Type} (db : Database) : Except TxError (α × Database) → Database
  | .ok (_, db') => db'
  | .error _ => db

@[simp] theorem settle_ok {α : Type} (db db' : Database) (a : α) :
    settle db (.ok (a, db')) = db' := rfl

-- ======== shared statements

namespace Database

/-- `SELECT count(*) … WHERE task_definition_id=$1 AND state IN
('assigned','syncing','running')`. -/
def countActive (db : Database) (definitionId : String) : Nat :=
  db.runs.rows.countP fun r =>
    r.taskDefinitionId == definitionId && r.state.active

/-- `UPDATE resource_leases SET released_at=$2 WHERE task_run_id=$1 AND
released_at IS NULL`. -/
def releaseLeases (db : Database) (runID : String) (at_ : Int) : Database :=
  { db with
    leases := db.leases.update (fun l => l.taskRunId == runID && l.releasedAt.isNone)
      (fun l => { l with releasedAt := some at_ }) fun _ => rfl }

/-- `COALESCE(MAX(sequence),-1)+1` over the events of one run. -/
def nextSequence (db : Database) (runID : String) : Nat :=
  ((db.events.filter fun e => e.taskRunId == runID).map
    fun e => e.sequence + 1).foldl max 0

/-- `appendSystemRunEvent`: the next event of a run, written by the
server itself. -/
def appendSystemRunEvent (db : Database) (runID eventType : String)
    (state : RunState) (payload : Payload) (at_ : Int) : Database :=
  { db with
    events := db.events ++ [
      { taskRunId := runID, sequence := db.nextSequence runID,
        eventType, state, payload, occurredAt := at_,
        executionToken := none, agentSequence := none }] }

/-- One event for every run of a list, each at its own instant. -/
def appendForEach (db : Database) (runs : List (String × Int))
    (eventType : String) (state : RunState) (payload : Payload) : Database :=
  runs.foldl (fun db run =>
    db.appendSystemRunEvent run.1 eventType state payload run.2) db

/-- One UPDATE of the `task_runs` row with a given id. -/
def updateRun (db : Database) (runID : String) (f : TaskRun → TaskRun)
    (hf : ∀ r, (f r).id = r.id) : Database :=
  { db with runs := db.runs.update (fun r => r.id == runID) f hf }

end Database

end Yunling
