/-
The command loop of an agent beside the supervisors of its runs
(`internal/agent/execution_client.go`, `Cancel` and `supervise` of
`internal/executor/runner.go`, `cmd/agent/main.go`).

`handleCancel` of `Agent.Client` cancels a run in one step. Here the
steps of `Cancel` and of `supervise` interleave: `Cancel` looks the run
up, hands its request to the supervisor or sees that the supervisor is
done, and waits for the reply; the supervisor takes the first of the
process's end, the timeout, the request and the stop of the agent, and
only after it has recorded the outcome takes the run off the active
ones and closes `done`.

The loop handles one command at a time. When it ends with an error
`main` ends the agent process, and with it the supervision of every run
(`fatal`).
-/
import Yunling.Agent.Client
import Yunling.Lib.Transition

namespace Yunling

open Executor Relational

/-- What made a supervisor stop the process. -/
inductive Why where
  | timeout | request | agentStop
  deriving DecidableEq

/-- Where the supervisor of a run stands. -/
inductive Watch where
  /-- in its `select` -/
  | watching
  /-- in `stopProcess` -/
  | stopping (why : Why)
  /-- the outcome is to be recorded, and then the cancel that asked for
  it gets `reply` -/
  | completing (stop : Stop) (reply : Option (Option String))
  /-- the outcome is recorded, the run still among the active ones -/
  | leaving
  /-- off the active ones, `done` still open -/
  | removed
  /-- `done` is closed -/
  | closed
  deriving DecidableEq

/-- The errors of `Cancel`. -/
inductive CancelError where
  | runNotRunning
  | executionTokenMismatch
  /-- `stopProcess` reports an error -/
  | stopFailed (message : String)
  /-- the agent is asked to stop -/
  | contextCanceled
  deriving DecidableEq

/-- Where `ExecutionClient.Run` stands. -/
inductive Loop where
  | idle
  /-- in `Cancel`, before the hand-over of the request -/
  | handing (runID : String)
  /-- in `Cancel`, before the reply -/
  | awaiting (runID : String)
  /-- returned without an error -/
  | returned
  /-- returned the error of a `Cancel` -/
  | cancelFailed (e : CancelError)
  /-- returned another error -/
  | failed (message : String)
  deriving DecidableEq

/-- An agent process that handles commands. -/
structure Commands where
  runner : Runner
  inbox : List ExecutionCommand
  supervisors : Hash String Watch
  /-- replies that wait in the channels of their requests -/
  replies : Hash String (Option String)
  loop : Loop
  /-- the agent is asked to stop -/
  canceled : Bool

namespace Commands

/-- An agent process after its start-up on a machine. -/
def fresh (host : Host) : Commands where
  runner := .fresh host
  inbox := []
  supervisors := .empty
  replies := .empty
  loop := .idle
  canceled := false

/-- `main` ends the process on the error of `Run`. -/
def fatal (s : Commands) : Bool :=
  match s.loop with
  | .cancelFailed _ | .failed _ => true
  | _ => false

-- ======== commands

/-- An assignment: `Start`, and a supervisor where it launched a
process. -/
def handleAssign (s : Commands) (a : Executor.Assignment) (t : Trial) : Commands :=
  let runner := (s.runner.start a t).1
  { s with
    runner
    supervisors :=
      if (s.runner.active.get? a.runID).isNone && (runner.active.get? a.runID).isSome then
        s.supervisors.set a.runID .watching
      else s.supervisors }

/-- The look of `Cancel` at the active runs. -/
def handleCancel (s : Commands) (runID executionToken : String) : Commands :=
  match s.runner.active.get? runID with
  | none => { s with loop := .cancelFailed .runNotRunning }
  | some run =>
    if run.executionToken ≠ executionToken then
      { s with loop := .cancelFailed .executionTokenMismatch }
    else { s with loop := .handing runID }

/-- The loop takes the next command. -/
def handle (s : Commands) (t : Trial) : Commands :=
  match s.loop, s.inbox with
  | .idle, .assign a :: rest => { s with inbox := rest }.handleAssign a t
  | .idle, .cancel runID executionToken :: rest =>
    { s with inbox := rest }.handleCancel runID executionToken
  | _, _ => s

-- ======== cancel

/-- The request is handed to the supervisor. -/
def handOver (s : Commands) : Commands :=
  match s.loop with
  | .handing runID =>
    if s.supervisors.get? runID = some .watching then
      { s with
        loop := .awaiting runID
        supervisors := s.supervisors.set runID (.stopping .request) }
    else s
  | _ => s

/-- `Cancel` sees that the supervisor is done. -/
def seeDone (s : Commands) : Commands :=
  match s.loop with
  | .handing runID =>
    if s.supervisors.get? runID = some .closed then
      { s with loop := .cancelFailed .runNotRunning }
    else s
  | _ => s

/-- `Cancel` receives the reply. -/
def receiveReply (s : Commands) : Commands :=
  match s.loop with
  | .awaiting runID =>
    match s.replies.get? runID with
    | some none =>
      { s with loop := .idle, replies := s.replies.del runID }
    | some (some message) =>
      { s with loop := .cancelFailed (.stopFailed message) }
    | none => s
  | _ => s

/-- The loop sees that the agent is asked to stop. -/
def seeCanceled (s : Commands) : Commands :=
  if s.canceled then
    match s.loop with
    | .idle => { s with loop := .returned }
    | .handing _ | .awaiting _ =>
      { s with loop := .cancelFailed .contextCanceled }
    | _ => s
  else s

-- ======== supervise

/-- The supervisor of a run moves on from where it stands. -/
def move (s : Commands) (runID : String) (watch watch' : Watch) : Commands :=
  if s.supervisors.get? runID = some watch then
    { s with supervisors := s.supervisors.set runID watch' }
  else s

/-- The process ends by itself. -/
def exit (s : Commands) (runID : String) (exitCode : Int) (err : Option String) : Commands :=
  s.move runID .watching (.completing (.exited exitCode err) none)

/-- The timeout passes. -/
def timeout (s : Commands) (runID : String) : Commands :=
  s.move runID .watching (.stopping .timeout)

/-- The supervisor sees that the agent is asked to stop. -/
def agentStop (s : Commands) (runID : String) : Commands :=
  if s.canceled then s.move runID .watching (.stopping .agentStop) else s

/-- `stopProcess` returns, with the exit code and the error it
reports. -/
def stopped (s : Commands) (runID : String) (exitCode : Int)
    (ended : Bool) (err : Option String) : Commands :=
  match s.supervisors.get? runID with
  | some (.stopping why) =>
    let (stop, reply) : Stop × Option (Option String) := match why with
      | .timeout => (.timedOut exitCode err ended, none)
      | .request => (.cancelled exitCode ended, some err)
      | .agentStop => (.agentStopped exitCode, none)
    { s with
      supervisors := s.supervisors.set runID (.completing stop reply) }
  | _ => s

/-- The outcome is recorded and emitted, and the cancel that asked for
it gets its reply. -/
def complete (s : Commands) (runID : String) (now : Int)
    (usage : Option ResourceUsage) (save : Write) : Commands :=
  match s.supervisors.get? runID, s.runner.active.get? runID with
  | some (.completing stop reply), some run =>
    let a : Executor.Assignment := ⟨runID, run.executionToken⟩
    let results := (writeExecutionRecord s.runner.host.results
      (a.record [run.started, stop.event now usage]) save).1
    let host := { s.runner.host with results }
    { s with
      runner := { s.runner with
        host := if stop.ended then host.kill runID else host }
      supervisors := s.supervisors.set runID .leaving
      replies := match reply with
        | some err => s.replies.set runID err
        | none => s.replies }
  | _, _ => s

/-- The run is taken off the active ones. -/
def remove (s : Commands) (runID : String) : Commands :=
  if s.supervisors.get? runID = some .leaving then
    { s with
      runner := { s.runner with active := s.runner.active.del runID }
      supervisors := s.supervisors.set runID .removed }
  else s

-- ======== steps

/-- What can happen while an agent handles commands. -/
inductive Op where
  | receive (c : ExecutionCommand)
  | handle (t : Trial)
  | handOver
  | seeDone
  | receiveReply
  | cancelContext
  | seeCanceled
  /-- the connection fails, for the receiver or for a forwarder -/
  | connectionFails (message : String)
  | exit (runID : String) (exitCode : Int) (err : Option String)
  | timeout (runID : String)
  | agentStop (runID : String)
  | stopped (runID : String) (exitCode : Int) (ended : Bool) (err : Option String)
  | complete (runID : String) (now : Int) (usage : Option ResourceUsage) (save : Write)
  | remove (runID : String)
  | closeDone (runID : String)

/-- One step; a process that was ended takes none. -/
def step (s : Commands) (op : Op) : Commands :=
  if s.fatal then s
  else match op with
    | .receive c => { s with inbox := s.inbox ++ [c] }
    | .handle t => s.handle t
    | .handOver => s.handOver
    | .seeDone => s.seeDone
    | .receiveReply => s.receiveReply
    | .cancelContext => { s with canceled := true }
    | .seeCanceled => s.seeCanceled
    | .connectionFails message =>
      if s.loop = .idle then { s with loop := .failed message } else s
    | .exit runID exitCode err => s.exit runID exitCode err
    | .timeout runID => s.timeout runID
    | .agentStop runID => s.agentStop runID
    | .stopped runID exitCode ended err =>
      s.stopped runID exitCode ended err
    | .complete runID now usage save => s.complete runID now usage save
    | .remove runID => s.remove runID
    | .closeDone runID => s.move runID .removed .closed

/-- An agent process after steps. -/
def run (host : Host) (ops : List Op) : Commands :=
  Transition.run step (fresh host) ops

end Commands

end Yunling
