/-
Handing assigned runs to their servers (`internal/dispatch`).

`claim` picks the assigned runs whose last hand-over is old enough and
stamps them, so that two dispatchers do not send one run at once;
`recordResult` notes why a hand-over failed. Neither touches the state
of a run. What happens to a claimed run is `dispatchDecision`: a run
whose script is not verified on its server, or whose command cannot be
built, is failed on the server's own authority, with event number 1 of
its execution; every other one is sent.
-/
import Yunling.Lib.OrderBy
import Yunling.Task.Events

namespace Yunling

open OrderBy

-- ======== claims

/-- `dispatch.Run`: the columns the decision reads. -/
structure DispatchRun where
  id : String
  executionToken : String
  serverID : String
  syncState : Option SyncState
  scriptVerified : Bool
  artifacts : Bool
  artifactsSupported : Bool
  deriving DecidableEq

/-- The rows a claim may take. -/
def TaskRun.dispatchDue (cutoff : Int) (r : TaskRun) : Bool :=
  r.state == .assigned && r.executionToken.isSome
    && r.assignedServerId.isSome && r.lastDispatchAt.all (· ≤ cutoff)

/-- `ORDER BY assigned_at NULLS FIRST, created_at, id`. -/
abbrev TaskRun.beforeDispatch : TaskRun → TaskRun → Prop :=
  Lex (·.assignedAt.isSome) (Lex (·.assignedAt.getD 0) (Lex (·.createdAt) (Asc (·.id))))

/-- The rows a claim takes, in order. -/
def Database.dispatchCandidates (db : Database) (cutoff : Int) (limit : Nat) : List TaskRun :=
  ((db.runs.rows.filter (TaskRun.dispatchDue cutoff)).insertionSort
    TaskRun.beforeDispatch).take limit

/-- The `UPDATE` of a claim. -/
def TaskRun.stampDispatch (now : Int) (r : TaskRun) : TaskRun :=
  { r with
    dispatchAttempts := r.dispatchAttempts + 1
    lastDispatchAt := some now
    dispatchError := ""
    updatedAt := now }

/-- `run_artifacts_v1`, the capability a run with artifacts needs. -/
def artifactCapability : String := "run_artifacts_v1"

/-- The sync of a version to a server is ready with the version's own
digest. -/
def Database.syncVerified (db : Database) (serverID versionID : String) : Bool :=
  (db.syncs.find? (serverID, versionID)).any fun sync =>
    (db.versions.find? versionID).any fun version =>
      sync.status == .ready && sync.artifactSha256 == some version.artifactSha256

/-- What a claimed row is returned as. -/
def Database.dispatchRun (db : Database) (r : TaskRun) : DispatchRun where
  id := r.id
  executionToken := r.token
  serverID := r.assignedServerId.getD ""
  syncState := (db.syncs.find? (r.assignedServerId.getD "", r.scriptVersionId)).map (·.status)
  scriptVerified := db.syncVerified (r.assignedServerId.getD "") r.scriptVersionId
  artifacts := (db.versions.find? r.scriptVersionId).any (·.artifacts)
  artifactsSupported := (db.servers.find? (r.assignedServerId.getD "")).any
    fun s => s.agentCapabilities.contains artifactCapability

/-- `PostgresStore.Claim`. -/
def claim (cutoff now : Int) (limit : Nat) : Tx (List DispatchRun) :=
  fun db =>
    let due := db.dispatchCandidates cutoff limit
    .ok (due.map db.dispatchRun, { db with
      runs := db.runs.update (fun r => due.any (·.id == r.id))
        (TaskRun.stampDispatch now) fun _ => rfl })

/-- `truncateRunes(value, 1000)`. -/
def truncateRunes (value : String) : String :=
  String.ofList (value.toList.take 1000)

/-- `PostgresStore.RecordResult`; `now` is the database's clock. -/
def recordResult (runID executionToken dispatchError : String) (now : Int) : Tx Unit := fun db =>
  .ok ((), { db with
    runs := db.runs.update (fun r => r.id == runID && r.executionToken == some executionToken
        && r.state == .assigned) (fun r => { r with
        dispatchError := truncateRunes dispatchError, updatedAt := now })
      fun _ => rfl })

-- ======== decisions

/-- `executionCommand`: why no command is sent, if so. `payload` is what
the part after the capability check finds: an artifact policy, an entry
point, parameters or secrets that cannot be used. -/
def executionCommand (run : DispatchRun) (payload : Option String) : Option String :=
  if run.artifacts && !run.artifactsSupported then
    some "执行服务器代理不支持运行产物采集，请升级代理后重新执行"
  else payload

/-- The `switch` of `Dispatch`: the message a claimed run is failed
with, or `none` when its command is sent. -/
def dispatchDecision (run : DispatchRun) (payload : Option String) : Option String :=
  match run.syncState, run.scriptVerified with
  | some .failed, _ => some "任务启动前脚本同步失败，请检查脚本同步记录"
  | some .ready, false =>
    some "任务启动前脚本校验值不一致，已阻止执行"
  | some .ready, true => executionCommand run payload
  | _, _ => some "任务启动前脚本尚未校验就绪，已阻止执行"

/-- The event a run is failed with instead of being sent. -/
def DispatchRun.failure (run : DispatchRun) (message : String) (now : Int) : AgentRunEvent where
  runID := run.id
  executionToken := run.executionToken
  sequence := 1
  type := "failed"
  exitCode := -1
  message
  usage := none
  occurredAt := now

end Yunling
