/-
The control plane and its agents as one system.

A state is the database, the runs dispatchers have claimed and not yet
handed over, and every server's agent. The steps are the transactions of
the platform, the turns of the dispatchers, the steps of the agents, and
the arrival of their messages. A dispatcher and an agent work on what
they once read while the rest moves on, so that each of their turns is a
step of its own; a run of the system is any list of such steps.

Agent events and running reports enter the database only through
messages and dispatchers. Heartbeats, syncs and everything else come in
as operations of the platform.
-/
import Yunling.Agent.Client
import Yunling.Dispatch.Store
import Yunling.Platform.Basic
import Mathlib.Logic.Function.Basic

namespace Yunling

-- ======== states

/-- The control plane and its agents. -/
structure Fleet where
  db : Database
  /-- claimed by a dispatcher, not yet handed over -/
  claimed : List DispatchRun
  agents : String → Agent

/-- Nothing stored, nothing connected. -/
def Fleet.empty : Fleet where
  db := .empty
  claimed := []
  agents := fun _ => .unborn

/-- A step of one server's agent. -/
def Fleet.onAgent (s : Fleet) (serverID : String) (f : Agent → Agent) : Fleet :=
  { s with agents :=
      Function.update s.agents serverID (f (s.agents serverID)) }

-- ======== messages

namespace AgentMessage

/-- The transaction a message of a server's agent asks for. -/
def op (m : AgentMessage) (serverID : String) (now : Int) : Op :=
  match m with
  | .event e => .runEvent now e
  | .report authoritative processes =>
    .reconcile ⟨serverID, authoritative, processes⟩ now

/-- The transaction goes through. -/
def accepted (m : AgentMessage) (serverID : String) (now : Int) (db : Database) : Bool :=
  match m with
  | .event e => (eventServiceApply now e db).isOk
  | .report authoritative processes =>
    (reconcile ⟨serverID, authoritative, processes⟩ now db).isOk

end AgentMessage

/-- `agentConnectHandler`: the next message of a connection is read and
applied. A message that is refused closes its connection. -/
def Fleet.deliver (s : Fleet) (serverID : String) (i : Nat) (now : Int) : Fleet :=
  match (s.agents serverID).next? i with
  | none => s
  | some m =>
    let rest := if m.accepted serverID now s.db then
      ((s.agents serverID).wire[i]?.getD []).tail else []
    { s.onAgent serverID (·.keep i rest) with
      db := apply s.db (m.op serverID now) }

-- ======== dispatch

/-- How the writing of a command goes: no connection, a connection the
agent no longer reads, or the agent's own. -/
inductive Sending where
  | failed | lost | written
  deriving DecidableEq

/-- `transientDispatchMessage`. -/
def transientDispatchMessage : String :=
  "目标服务器暂时不可用，任务将自动重试"

/-- The first half of `Dispatch`. -/
def Fleet.claim (s : Fleet) (cutoff now : Int) (limit : Nat) : Fleet :=
  match Yunling.claim cutoff now limit s.db with
  | .ok (runs, db) => { s with db, claimed := s.claimed ++ runs }
  | .error _ => s

/-- The body of the loop in `Dispatch`, for one claimed run: it is
failed on the dispatcher's own authority, or its assignment is sent. -/
def Fleet.handOver (s : Fleet) (run : DispatchRun)
    (payload : Option String) (sending : Sending) (now : Int) : Fleet :=
  match dispatchDecision run payload, sending with
  | some message, _ =>
    { s with db := apply s.db (.runEvent now (run.failure message now)) }
  | none, .failed =>
    { s with db := apply s.db (.recordResult run.id run.executionToken
        transientDispatchMessage now) }
  | none, .lost => s
  | none, .written =>
    s.onAgent run.serverID (·.receive (.assign ⟨run.id, run.executionToken⟩))

-- ======== steps

/-- Operations that are neither an agent's word nor a dispatcher's. -/
def Op.direct : Op → Bool
  | .runEvent .. | .reconcile .. | .claim .. | .recordResult .. => false
  | _ => true

/-- What happens in the system. -/
inductive FleetOp where
  /-- a transaction of the platform -/
  | platform (op : Op) (h : op.direct = true)
  /-- a dispatcher claims -/
  | claim (cutoff now : Int) (limit : Nat)
  /-- a dispatcher takes up the `i`-th of the claimed runs -/
  | handOver (i : Nat) (payload : Option String) (sending : Sending) (now : Int)
  /-- a dispatcher is gone with what it had claimed -/
  | abandon (i : Nat)
  /-- a message of a server's agent arrives, on its `i`-th connection -/
  | deliver (serverID : String) (i : Nat) (now : Int)
  /-- an agent takes a step -/
  | agent (serverID : String) (act : Agent.Act)

/-- One step of the system. -/
def Fleet.step (s : Fleet) : FleetOp → Fleet
  | .platform op _ => { s with db := apply s.db op }
  | .claim cutoff now limit => s.claim cutoff now limit
  | .handOver i payload sending now =>
    match s.claimed[i]? with
    | none => s
    | some run =>
      { s with claimed := s.claimed.eraseIdx i }.handOver run payload sending now
  | .abandon i => { s with claimed := s.claimed.eraseIdx i }
  | .deliver serverID i now => s.deliver serverID i now
  | .agent serverID act => s.onAgent serverID (·.act act)

end Yunling
