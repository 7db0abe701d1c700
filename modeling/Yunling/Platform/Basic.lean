/-
The platform as a state machine over its database.

Every write to the tables goes through one of the transactions of the
previous modules. `Op` lists them, `apply` runs one (a transaction that
fails leaves the database as it was), and a run of the platform is a
list of operations folded from the empty database. Any interleaving of
concurrent requests, schedulers, dispatchers and agents is such a list:
the transactions are serialised by the row and advisory locks they take.

Ids and execution tokens the platform generates are arguments of the
operations; a generated id that is already in use makes the operation
fail on the primary key, and everything else about them is free.
-/
import Yunling.Lib.Transition
import Yunling.Task.Service
import Yunling.Server.Store
import Yunling.Scheduler.Postgres

namespace Yunling

open Scheduler

/-- The transactions that write the modelled tables. -/
inductive Op where
  -- definitions and triggers
  | createDefinition (d : Definition)
  | updateDefinition (d : Definition)
  | deleteDefinition (id : String)
  | setEnabled (id : String) (enabled cancelQueued : Bool) (now : Nat → Int)
  | trigger (definitionID freshID : String) (trigger : Trigger) (now : Int)
  | cancelRun (runID : String) (now : Int) (sent : Bool)
  -- scheduling
  | assign (a : Assignment)
  | expire (runID : String) (at_ : Int)
  | setQueueReason (runID reason : String) (now : Int)
  -- dispatch
  | claim (cutoff now : Int) (limit : Nat)
  | recordResult (runID executionToken dispatchError : String) (now : Int)
  -- agents and retries
  | runEvent (now : Int) (event : AgentRunEvent)
  | serverOffline (serverID : String) (at_ : Int)
  | reconcile (report : RunningReport) (now : Int)
  | retry (runID freshID : String) (at_ : Int) (automatic : Bool)
  -- servers and scripts
  | heartbeat (h : Heartbeat) (receivedAt : Int)
  | enrollServer (id : String) (labels : List (String × String))
  | updateServer (id : String) (input : UpdateServerInput) (now : Int)
  | markOffline (cutoff : Int)
  | revokeCredentials (id : String)
  | setDraining (id : String) (draining : Bool)
  | publishVersion (v : ScriptVersion)
  | saveSync (serverID versionID : String) (status : SyncState) (sha256 : Option String)

/-- The database after one operation. -/
def apply (db : Database) : Op → Database
  | .createDefinition d => settle db (createDefinition d db)
  | .updateDefinition d => settle db (updateDefinition d db)
  | .deleteDefinition id => settle db (deleteDefinition id db)
  | .setEnabled id enabled cancelQueued now =>
    settle db (setEnabled id enabled cancelQueued now db)
  | .trigger definitionID freshID trigger now =>
    settle db (triggerRun definitionID freshID trigger now db)
  | .cancelRun runID now sent => settle db (cancelRun runID now sent db)
  | .assign a => settle db (assign a db)
  | .expire runID at_ => settle db (expireRun runID at_ db)
  | .setQueueReason runID reason now =>
    settle db (setQueueReason runID reason now db)
  | .claim cutoff now limit => settle db (claim cutoff now limit db)
  | .recordResult runID executionToken dispatchError now =>
    settle db (recordResult runID executionToken dispatchError now db)
  | .runEvent now event => settle db (eventServiceApply now event db)
  | .serverOffline serverID at_ =>
    settle db (markServerRunsUnknown serverID at_ db)
  | .reconcile report now => settle db (reconcile report now db)
  | .retry runID freshID at_ automatic =>
    settle db (retryRun runID freshID at_ automatic db)
  | .heartbeat h receivedAt => settle db (saveHeartbeat h receivedAt db)
  | .enrollServer id labels => settle db (enrollServer id labels db)
  | .updateServer id input now => settle db (updateServer id input now db)
  | .markOffline cutoff => settle db (markOfflineBefore cutoff db)
  | .revokeCredentials id => settle db (revokeServerCredentials id db)
  | .setDraining id draining => settle db (setServerDraining id draining db)
  | .publishVersion v => settle db (publishVersion v db)
  | .saveSync serverID versionID status sha256 =>
    settle db (saveSync serverID versionID status sha256 db)

/-- The database after a list of operations. -/
def runOps (db : Database) (ops : List Op) : Database :=
  Transition.run apply db ops

-- ======== sample inputs

/- The inputs the concrete runs of the development are made of: one
script, small definitions of it, and servers that have it installed. -/
namespace Sample

/-- The one version of the one script. -/
def version : ScriptVersion where
  id := "version"
  scriptId := "script"
  version := 1
  artifactSha256 := "digest"
  parameterDefinitions := []
  artifacts := false

/-- A definition that may run `maxConcurrency` times at once and may be
retried once. -/
def definition (id : String) (maxConcurrency : Nat) : Definition where
  id
  scriptId := "script"
  versionPolicy := .latest
  pinnedVersionId := none
  enabled := true
  parameters := []
  secretBindings := []
  requiredLabels := []
  requiredRuntime := "bash"
  priority := 50
  resources := ⟨100, 100, 100⟩
  maxConcurrency
  timeoutSeconds := 60
  maxWaitSeconds := 0
  maxRetries := 1
  retryBackoffSeconds := 0
  idempotent := true
  updatedAt := 0

/-- A manual trigger. -/
def trigger : Trigger where
  type := "manual"
  requestedBy := none
  scheduledFor := none
  parameters := []

/-- A heartbeat of a server with `runningTasks` tasks. -/
def heartbeat (serverID : String) (sequence : Nat) (runningTasks : Int) : Heartbeat where
  serverID
  sequence
  cpuTotalMilli := 4000
  cpuUsedMilli := 0
  memoryTotalBytes := 4000
  memoryUsedBytes := 0
  diskTotalBytes := 4000
  diskFreeBytes := 4000
  runningTasks
  runtimes := ["bash"]
  capabilities := []

/-- The assignment of a run at an instant, with the lease the scheduler
asks for. -/
def assignment (runID serverID token leaseID : String) (at_ : Int) : Assignment where
  runID
  serverID
  scriptVersionID := "version"
  executionToken := token
  lease := { id := leaseID, runID, serverID, resources := ⟨100, 100, 100⟩
             expiresAt := at_ + leaseTTL 60 }
  assignedAt := at_

/-- An agent event that carries no usage. -/
def event (runID token : String) (sequence : Nat) (type : String) (at_ : Int) : AgentRunEvent where
  runID
  executionToken := token
  sequence
  type
  exitCode := 0
  message := ""
  usage := none
  occurredAt := at_

/-- A published script, an enrolled server with an idle heartbeat, and
one definition of each id. -/
def setup (definitions : List Definition) : List Op :=
  [.publishVersion version, .enrollServer "server" [], .heartbeat (heartbeat "server" 1 0) 0]
    ++ definitions.map .createDefinition

/-- A run triggered, its script installed on the server, and the run
assigned there: the first assignment only asks for the script. -/
def start (definitionID runID token : String) (at_ : Int) : List Op :=
  [.trigger definitionID runID trigger at_,
    .assign (assignment runID "server" token ("lease-" ++ runID) at_),
    .saveSync "server" "version" .ready (some "digest"),
    .assign (assignment runID "server" token ("lease-" ++ runID) at_)]

end Sample

end Yunling
