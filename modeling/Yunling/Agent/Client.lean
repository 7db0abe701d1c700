/-
An agent: its connection, the commands it was sent, its runner, and the
messages it has sent (`cmd/agent/main.go`, `internal/agent/client.go`,
`internal/agent/execution_client.go`).

# Start-up

`main` dials the control plane first. From then on the connection is
registered there and commands written to it wait in the socket and in
the queue behind it (`inbox`). Only afterwards does the agent look for
processes of an earlier life and send its first report, which is
authoritative when it found none; and only after that does it read the
commands.

# Connections

The events of an execution pass through a channel of their own
(`emitted`) before they are written to the connection. A message that
was written may still be on its way when the agent is gone and back
again: `wire` keeps one queue for each connection, newest first, and
the control plane serves them side by side.
-/
import Yunling.Executor.Runner
import Yunling.Task.Reconcile

namespace Yunling

open Executor

/-- `agentprotocol.ExecutionCommand`. -/
inductive ExecutionCommand where
  | assign (a : Executor.Assignment)
  | cancel (runID executionToken : String)
  deriving DecidableEq

/-- What an agent reports about runs. -/
inductive AgentMessage where
  | event (e : AgentRunEvent)
  | report (authoritative : Bool) (processes : List RunningProcess)
  deriving DecidableEq

/-- How far the start-up of an agent has come. -/
inductive Phase where
  /-- no agent process -/
  | offline
  /-- connected, first report not sent -/
  | dialed
  /-- handling commands -/
  | serving
  deriving DecidableEq

/-- An agent and its machine. -/
structure Agent where
  phase : Phase
  inbox : List ExecutionCommand
  runner : Runner
  emitted : List AgentRunEvent
  wire : List (List AgentMessage)

namespace Agent

/-- An agent that never ran. -/
def unborn : Agent where
  phase := .offline
  inbox := []
  runner := .fresh .empty
  emitted := []
  wire := []

-- ======== messages

/-- Messages written to the newest connection. -/
def send (a : Agent) (messages : List AgentMessage) : Agent :=
  { a with
    wire := match a.wire with
      | [] => []
      | newest :: older => (newest ++ messages) :: older }

/-- Events put into the channel of an execution. -/
def emit (a : Agent) (x : Executor.Assignment) (events : List Event) : Agent :=
  { a with emitted := a.emitted ++ events.map x.report }

/-- `forwardEvents`: the next event of a run is written. -/
def forward (a : Agent) (runID : String) : Agent :=
  match a.emitted.find? (·.runID == runID) with
  | none => a
  | some e =>
    { a with emitted := a.emitted.eraseP (·.runID == runID) }.send [.event e]

-- ======== start-up

/-- `DialHeartbeatSender`, in a new agent process. -/
def connect (a : Agent) : Agent :=
  if a.phase = .offline then
    { phase := .dialed
      inbox := []
      runner := .fresh a.runner.host
      emitted := []
      wire := [] :: a.wire }
  else a

/-- The first report. `probed` says that the agent isolates its runs and
that the search for their processes ended in time. -/
def firstReport (a : Agent) (probed : Bool) : Agent :=
  if a.phase = .dialed then
    { a with phase := .serving }.send [.report (probed && a.runner.host.processes.isEmpty)
        (a.runner.runningProcesses fun _ => none)]
  else a

/-- The agent process ends; processes of runs may outlive it. -/
def stop (a : Agent) : Agent :=
  { a with
    phase := .offline
    inbox := []
    runner := .fresh a.runner.host
    emitted := [] }

-- ======== commands

/-- A command written to the agent's connection. -/
def receive (a : Agent) (c : ExecutionCommand) : Agent :=
  if a.phase = .offline then a else { a with inbox := a.inbox ++ [c] }

/-- The event the agent reports for an assignment it could not start. -/
def startFailure (message : String) (now : Int) : Event where
  sequence := 1
  type := .failed
  occurredAt := now
  exitCode := -1
  message := "任务启动失败：" ++ message
  usage := none

/-- An assignment is started. An active run, an uncertain record and a
foreign token are passed over in silence: none of them proves that the
original process has exited. -/
def handleAssign (a : Agent) (x : Executor.Assignment) (t : Trial) : Agent :=
  match a.runner.start x t with
  | (runner, .ok events) => { a with runner }.emit x events
  | (runner, .error (.failed message)) =>
    { a with runner }.send [.event (x.report (startFailure message t.now))]
  | (runner, .error _) => { a with runner }

/-- An execution comes to its end. -/
def finish (a : Agent) (runID : String) (stop : Stop) (now : Int)
    (usage : Option ResourceUsage) (save : Write) : Agent :=
  match a.runner.finish runID stop now usage save with
  | (runner, some (x, event)) => { a with runner }.emit x [event]
  | (runner, none) => { a with runner }

/-- A run is cancelled: its process is stopped. A run that is not active
under that token, or a stop that reports an error, ends the command loop
and with it the agent. -/
def handleCancel (a : Agent) (runID executionToken : String)
    (exitCode : Int) (ended failed : Bool) (now : Int)
    (usage : Option ResourceUsage) (save : Write) : Agent :=
  match a.runner.active.get? runID with
  | none => a.stop
  | some run =>
    if run.executionToken ≠ executionToken then a.stop
    else
      let cancelled := a.finish runID (.cancelled exitCode ended) now usage save
      if failed then cancelled.stop else cancelled

/-- What the outside answers while one command is handled. -/
structure Answer where
  trial : Trial
  exitCode : Int
  ended : Bool
  failed : Bool
  usage : Option ResourceUsage

/-- One turn of `ExecutionClient.Run`. -/
def handle (a : Agent) (answer : Answer) : Agent :=
  if a.phase = .serving then
    match a.inbox with
    | [] => a
    | .assign x :: rest =>
      { a with inbox := rest }.handleAssign x answer.trial
    | .cancel runID executionToken :: rest =>
      { a with inbox := rest }.handleCancel runID executionToken
        answer.exitCode answer.ended answer.failed answer.trial.now answer.usage answer.trial.save
  else a

-- ======== the rest

/-- The periodic report. It proves presence only. -/
def sample (a : Agent) (usage : String → Option ResourceUsage) : Agent :=
  if a.phase = .serving then
    a.send [.report false (a.runner.runningProcesses usage)]
  else a

/-- A process ends, by itself or stopped with the agent it belonged
to. -/
def processEnds (a : Agent) (runID : String) : Agent :=
  { a with runner :=
      { a.runner with host := a.runner.host.kill runID } }

/-- What is left of a connection. -/
def keep (a : Agent) (i : Nat) (messages : List AgentMessage) : Agent :=
  { a with wire := a.wire.set i messages }

/-- The next message of a connection. -/
def next? (a : Agent) (i : Nat) : Option AgentMessage :=
  (a.wire[i]?.getD []).head?

-- ======== steps

/-- What an agent and its machine do by themselves, and what happens to
its connections; commands apart that assign runs. -/
inductive Act where
  | connect
  | firstReport (probed : Bool)
  | cancelCommand (runID executionToken : String)
  | handle (answer : Answer)
  | finish (runID : String) (stop : Stop) (now : Int) (usage : Option ResourceUsage) (save : Write)
  | forward (runID : String)
  | sample (usage : String → Option ResourceUsage)
  | processEnds (runID : String)
  | stop
  /-- what a connection still carries is lost -/
  | lose (i : Nat)

/-- One step of an agent. -/
def act (a : Agent) : Act → Agent
  | .connect => a.connect
  | .firstReport probed => a.firstReport probed
  | .cancelCommand runID executionToken =>
    a.receive (.cancel runID executionToken)
  | .handle answer => a.handle answer
  | .finish runID stop now usage save => a.finish runID stop now usage save
  | .forward runID => a.forward runID
  | .sample usage => a.sample usage
  | .processEnds runID => a.processEnds runID
  | .stop => a.stop
  | .lose i => a.keep i []

-- ======== questions

/-- An assignment of the run waits to be handled. -/
def waiting (a : Agent) (runID : String) : Bool :=
  a.inbox.any fun
    | .assign x => x.runID == runID
    | .cancel .. => false

/-- The agent can still start the run: it holds an assignment of it and
has not claimed it. -/
def startable (a : Agent) (runID : String) : Bool :=
  a.waiting runID && !a.runner.host.claimed runID

/-- The run has a process on the agent's machine, or can still get
one. -/
def mayRun (a : Agent) (runID : String) : Bool :=
  a.runner.host.alive runID || a.startable runID

/-- A report on its way declares absent what it does not name. -/
def reporting (a : Agent) : Bool :=
  a.wire.any fun messages => messages.any fun
    | .report authoritative _ => authoritative
    | .event _ => false

end Agent

end Yunling
