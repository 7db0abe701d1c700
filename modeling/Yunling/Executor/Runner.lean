/-
The runner of an agent (`internal/executor/runner.go`) and the records
it keeps on disk (`internal/executor/execution_record.go`).

Two files per run outlive the agent: the claim, written before the
process is launched, and the result, written when the execution is over.
Both are created exclusively and never rewritten. A run whose claim
exists is not launched again: it is answered from its result, and where
there is no readable result the answer is `executionUncertain`.

# What is left open

Whatever the file system, the launcher and the process decide is an
argument: `Trial` for a call of `Start`, `Stop` and `Write` for the end
of an execution. A claim stores the digest of the execution token; two
tokens count as the same here when their digests are.
-/
import Yunling.Lib.Hash
import Yunling.Task.Reconcile

namespace Yunling.Executor

open Relational

-- ======== events

/-- `EventType`. -/
inductive EventType where
  | started | succeeded | failed | timedOut | cancelled
  deriving DecidableEq

/-- The text of an event type. -/
def EventType.name : EventType → String
  | .started => "started"
  | .succeeded => "succeeded"
  | .failed => "failed"
  | .timedOut => "timed_out"
  | .cancelled => "cancelled"

/-- `executor.Event`. -/
structure Event where
  sequence : Nat
  type : EventType
  occurredAt : Int
  exitCode : Int
  message : String
  usage : Option ResourceUsage
  deriving DecidableEq

/-- `agentprotocol.Assignment`: the execution it asks for. Its other
fields say how to prepare and launch it. -/
structure Assignment where
  runID : String
  executionToken : String
  deriving DecidableEq

/-- The event as the agent reports it. -/
def Assignment.report (a : Assignment) (e : Event) : AgentRunEvent where
  runID := a.runID
  executionToken := a.executionToken
  sequence := e.sequence
  type := e.type.name
  exitCode := e.exitCode
  message := e.message
  usage := e.usage
  occurredAt := e.occurredAt

-- ======== records

/-- `executionRecord`. -/
structure ExecutionRecord where
  runID : String
  executionToken : String
  events : List Event

/-- `recordIdentity`, with the events to record. -/
def Assignment.record (a : Assignment) (events : List Event) : ExecutionRecord where
  runID := a.runID
  executionToken := a.executionToken
  events

/-- What reading an existing record finds. -/
inductive RecordFile where
  | torn
  /-- more than the 1 MiB that `readExecutionRecord` reads -/
  | oversize
  | whole (record : ExecutionRecord)

/-- How the writing of a record ends: well, with a file of at most 1 MiB
or (nothing is checked here) with a longer one, or with an error before,
while or after the content is written. -/
inductive Write where
  | done | oversize | unopened | torn | unsynced
  deriving DecidableEq

/-- `writeExecutionRecord`: the files after it, and whether it reported
success. -/
def writeExecutionRecord (files : Hash String RecordFile) (record : ExecutionRecord) (w : Write) :
    Hash String RecordFile × Bool :=
  if (files.get? record.runID).isSome then (files, false)
  else match w with
    | .done => (files.set record.runID (.whole record), true)
    | .oversize => (files.set record.runID .oversize, true)
    | .unopened => (files, false)
    | .torn => (files.set record.runID .torn, false)
    | .unsynced => (files.set record.runID (.whole record), false)

/-- What outlives the agent on its machine: the two kinds of records and
the processes of runs. -/
structure Host where
  claims : Hash String RecordFile
  results : Hash String RecordFile
  processes : List String

/-- A machine that never ran anything. -/
def Host.empty : Host where
  claims := .empty
  results := .empty
  processes := []

/-- The run was claimed on the machine. -/
def Host.claimed (host : Host) (runID : String) : Bool :=
  (host.claims.get? runID).isSome

/-- The run's process is alive. -/
def Host.alive (host : Host) (runID : String) : Bool :=
  host.processes.contains runID

/-- The errors of `Start` the agent tells apart. -/
inductive StartError where
  | runAlreadyActive | executionTokenMismatch | executionUncertain
  | failed (message : String)
  deriving DecidableEq

/-- The checks a recorded result has to pass before it is replayed for
its claim. -/
def ExecutionRecord.replayable (claim result : ExecutionRecord) : Bool :=
  result.runID == claim.runID && result.executionToken == claim.executionToken
    && 1 ≤ result.events.length && result.events.length ≤ 2
    && (result.events.zipIdx.all fun (e, i) =>
      e.sequence == i + 1 && e.occurredAt != zeroTime)
    && (result.events.length != 2
      || result.events.head?.any (·.type == .started))
    && result.events.getLast?.any (·.type != .started)

/-- `Runner.replay`: `none` when the run was never claimed here. -/
def Host.replay (host : Host) (a : Assignment) : Option (Except StartError (List Event)) :=
  match host.claims.get? a.runID with
  | none => none
  | some .torn | some .oversize => some (.error .executionUncertain)
  | some (.whole claim) =>
    if claim.runID ≠ a.runID then some (.error .executionUncertain)
    else if claim.executionToken ≠ a.executionToken then
      some (.error .executionTokenMismatch)
    else match host.results.get? a.runID with
      | some (.whole result) =>
        if claim.replayable result then some (.ok result.events)
        else some (.error .executionUncertain)
      | _ => some (.error .executionUncertain)

-- ======== start

/-- `activeRun`: the token a process runs under, and the event it was
started with. -/
structure ActiveRun where
  executionToken : String
  started : Event

/-- The runner and its machine. -/
structure Runner where
  active : Hash String ActiveRun
  host : Host

/-- A new agent process on a machine. -/
def Runner.fresh (host : Host) : Runner where
  active := .empty
  host

/-- What the outside answers to one call of `Start`. -/
structure Trial where
  /-- `validateAssignment` -/
  invalid : Option String
  /-- the records cannot be read at the first look, or at the second -/
  unreadable : Bool
  unreadableAgain : Bool
  /-- script path, working directory or command line -/
  unprepared : Option String
  claim : Write
  launch : Option String
  save : Write
  now : Int

/-- What `Start` finds before it may launch: the run among the active
ones, or in the records. -/
def Runner.look (r : Runner) (a : Assignment) (unreadable : Bool) :
    Option (Except StartError (List Event)) :=
  match r.active.get? a.runID with
  | some run =>
    if run.executionToken = a.executionToken then
      some (.error .runAlreadyActive)
    else some (.error .executionTokenMismatch)
  | none =>
    if unreadable then some (.error .executionUncertain)
    else r.host.replay a

/-- The event of a launch that failed. -/
def launchFailure (message : String) (now : Int) : Event where
  sequence := 1
  type := .failed
  occurredAt := now
  exitCode := -1
  message := "任务启动失败：启动隔离任务：" ++ message
  usage := none

/-- The event of a launch that succeeded. -/
def launchStarted (now : Int) : Event where
  sequence := 1
  type := .started
  occurredAt := now
  exitCode := 0
  message := "任务已开始执行"
  usage := none

/-- The last part of `Start`: the claim, then the launch. -/
def Runner.launch (r : Runner) (a : Assignment) (t : Trial) :
    Runner × Except StartError (List Event) :=
  let (claims, claimed) :=
    writeExecutionRecord r.host.claims (a.record []) t.claim
  let host := { r.host with claims }
  if claimed = false then
    ({ r with host }, .error .executionUncertain)
  else match t.launch with
    | some message =>
      let failed := launchFailure message t.now
      let results := (writeExecutionRecord host.results (a.record [failed]) t.save).1
      ({ r with host := { host with results } }, .ok [failed])
    | none =>
      let started := launchStarted t.now
      ({ active := r.active.set a.runID ⟨a.executionToken, started⟩
         host := { host with processes := a.runID :: host.processes } }, .ok [started])

/-- `Runner.Start`: the runner after it, and the error or the events it
emits before the process ends. -/
def Runner.start (r : Runner) (a : Assignment) (t : Trial) :
    Runner × Except StartError (List Event) :=
  match t.invalid with
  | some message => (r, .error (.failed message))
  | none =>
    match r.look a t.unreadable with
    | some found => (r, found)
    | none =>
      match t.unprepared with
      | some message => (r, .error (.failed message))
      | none =>
        match r.look a t.unreadableAgain with
        | some found => (r, found)
        | none => r.launch a t

-- ======== end

/-- How an execution ends. A process stopped on a timeout or a cancel
may be given up on, when the agent is asked to stop meanwhile. -/
inductive Stop where
  | exited (exitCode : Int) (err : Option String)
  | timedOut (exitCode : Int) (err : Option String) (ended : Bool)
  | cancelled (exitCode : Int) (ended : Bool)
  | agentStopped (exitCode : Int)
  deriving DecidableEq

/-- The process has ended. -/
def Stop.ended : Stop → Bool
  | .timedOut _ _ ended => ended
  | .cancelled _ ended => ended
  | _ => true

/-- `exitEvent` and the other events of `supervise`, number 2 of the
execution. -/
def Stop.event (stop : Stop) (now : Int) (usage : Option ResourceUsage) : Event :=
  let event (type : EventType) (exitCode : Int) (message : String) :
      Event :=
    { sequence := 2, type, occurredAt := now, exitCode, message, usage }
  match stop with
  | .exited exitCode err =>
    if err = none ∧ exitCode = 0 then
      event .succeeded 0 "任务执行成功"
    else
      event .failed exitCode ("任务执行失败" ++ (if 0 ≤ exitCode then "：脚本退出码 " ++ toString exitCode
            else "") ++ (err.elim "" fun e => "；诊断信息：" ++ e))
  | .timedOut exitCode err _ =>
    event .timedOut exitCode ("任务执行超时，已终止整个进程组" ++ (err.elim "" fun e => "：" ++ e))
  | .cancelled exitCode _ => event .cancelled exitCode "任务已取消"
  | .agentStopped exitCode =>
    event .cancelled exitCode "代理停止，任务已终止"

/-- A process is gone from the machine. -/
def Host.kill (host : Host) (runID : String) : Host :=
  { host with processes := host.processes.filter (· != runID) }

/-- The end of `supervise`: the result is recorded, the event emitted,
and the run taken off the active ones. -/
def Runner.finish (r : Runner) (runID : String) (stop : Stop)
    (now : Int) (usage : Option ResourceUsage) (save : Write) :
    Runner × Option (Assignment × Event) :=
  match r.active.get? runID with
  | none => (r, none)
  | some run =>
    let a : Assignment := ⟨runID, run.executionToken⟩
    let event := stop.event now usage
    let results := (writeExecutionRecord r.host.results (a.record [run.started, event]) save).1
    let host := { r.host with results }
    ({ active := r.active.del runID
       host := if stop.ended then host.kill runID else host }, some (a, event))

/-- `Runner.RunningProcesses`, with the samples of the processes. -/
def Runner.runningProcesses (r : Runner)
    (usage : String → Option ResourceUsage) : List RunningProcess :=
  r.active.rows.map fun (runID, run) =>
    ⟨runID, run.executionToken, usage runID⟩

end Yunling.Executor
