/-
The control plane around an upgrade plan.

`Coordinator.Scan` runs in a loop of its own (`loop.go`), next to the
schedulers, the agents' messages and the administrators. What it does
between two accesses to the store or to the sender is one step here, and
everything else may happen in between:

- it reads the plan (`begin`);
- it asks a server to drain (`drain`), and reads what the server runs and
  reported, and the release (`visit`);
- it gives back the drain of a server that is done (`restore`);
- it saves the plan (`save`), and hands its commands to the sender one by
  one (`hand`).

An error on the way, or a stop of the process, ends the scan (`drop`).
The loop of the scan itself is that of `Upgrade.Coordinator`: a turn is
`Scan.visit`, with what the database says at that moment.

An agent's message that makes a batch roll back is handled next to it,
and in the same way: the call saves the plan, and then hands its commands
to the sender one by one (`send`).

# What is recorded

Every command a scan hands to the sender is recorded with the number of
runs that are active on its server at that moment (`handed`).
-/
import Yunling.Scheduler.Proofs.ServerSlots
import Yunling.Upgrade.Store

namespace Yunling.Upgrade

open Relational Scheduler

-- ======== reads

/-- What a server's row says about its agent. -/
structure AgentInfo where
  version : String
  os : String
  arch : String
  deriving DecidableEq

/-- The tasks of the last snapshot of a server. -/
def reportedTasks (db : Database) (serverID : String) : Nat :=
  ((db.latestSnapshot serverID).map (·.runningTasks)).getD 0

/-- `ServerRuntime`. -/
def serverRuntime (db : Database) (agents : String → AgentInfo)
    (serverID : String) : Except UpgradeError ServerRuntime :=
  match db.servers.find? serverID with
  | none => .error .serverIneligible
  | some server =>
    .ok {
      status := server.status
      enabled := server.enabled
      draining := server.drainRequested
      runningTasks := reportedTasks db serverID
      agentVersion := (agents serverID).version
      agentOS := (agents serverID).os
      agentArch := (agents serverID).arch
      lastSeenAt := server.lastSeenAt
      hasSnapshot := (db.latestSnapshot serverID).isSome }

/-- What a turn of a scan reads; the drains are steps of their own. -/
def turnReads (db : Database) (agents : String → AgentInfo)
    (release : Except UpgradeError ReleaseInfo) : Reads where
  release _ := release
  runtime := serverRuntime db agents
  server _ := .error .serverIneligible
  setServerDraining _ _ := .ok ()

-- ======== scans

/-- Where a scan is in the turn of a target. -/
inductive Phase where
  | visiting
  /-- the server was asked to drain -/
  | drained
  /-- the target is done, and the server's drain is to be given back -/
  | restoring (serverID : String)
  /-- the loop is over and the plan saved -/
  | sending
  deriving DecidableEq

/-- A scan that is running. -/
structure Running where
  scan : Scan
  index : Nat
  phase : Phase

namespace Scan

/-- The target of a turn, if its server is to be asked to drain. -/
def toDrain (s : Scan) (i : Nat) : Option Target :=
  match s.plan.targets[i]? with
  | none => none
  | some t =>
    if t.batchNumber = s.plan.currentBatch ∧ t.status = .draining
        ∧ s.drains = true ∧ s.drainExpired t = false then
      some t
    else none

/-- The server whose drain is given back by a turn from `s` to `s'`. -/
def toRestore (s s' : Scan) (i : Nat) : Option String :=
  match s.plan.targets[i]?, s'.plan.targets[i]? with
  | some t, some t' =>
    if t.status = .healthChecking ∧ t'.status = .succeeded ∧ t.sourceDraining = false then
      some t.serverID
    else none
  | _, _ => none

end Scan

/-- The turn of a target may be made. -/
def Running.ready (r : Running) : Bool :=
  r.index < r.scan.plan.targets.length && (r.phase == .drained
      || (r.phase == .visiting && (r.scan.toDrain r.index).isNone))

-- ======== system

/-- The attempt a target is at. -/
def Target.key (t : Target) : Nat × Nat := (t.id, t.commandID)

/-- The attempt a command is for. -/
def SentCommand.key (c : SentCommand) : Nat × Nat :=
  (c.command.targetID, c.command.commandID)

/-- The database with the scheduler's offers, the plan, the running scan,
the commands scans have handed over, each with the runs that were active
on its server, and what the calls outside the scans have left to hand
over, each with the revision of the plan it saved. -/
structure System where
  slots : SlotState
  store : Store
  running : Option Running
  handed : List (SentCommand × Nat)
  outgoing : List (Nat × List SentCommand)

/-- What a call has to hand over once its writes are done. -/
def Store.held (rank : Nat → Nat) (s : Store) (call : Call) : List SentCommand :=
  match call.decide (s.plan.ordered rank) s.issued with
  | none => []
  | some o =>
    match o.save.elim (.ok s) s.savePlan with
    | .error _ => []
    | .ok _ =>
      if o.save.isSome && !call.fate.saved || o.event.isSome && !call.fate.appended then []
      else o.commands

namespace System

/-- The database. -/
def db (s : System) : Database := s.slots.db

/-- A transaction on the database. -/
def apply (s : System) (op : Op) : System :=
  { s with slots := { s.slots with db := Yunling.apply s.slots.db op } }

/-- A scan reads the plan. -/
def begin (s : System) (rank : Nat → Nat) (now : Int) : System :=
  match s.running with
  | some _ => s
  | none =>
    if s.store.plan.status.active then
      { s with running := some ⟨Scan.enter (s.store.plan.ordered rank) now
          s.store.issued, 0, .visiting⟩ }
    else s

/-- `SetServerDraining(…, true)`. -/
def drain (s : System) (r : Running) : System :=
  match r.phase, r.scan.toDrain r.index with
  | .visiting, some t =>
    if (s.db.servers.find? t.serverID).isSome then
      { s.apply (.setDraining t.serverID true) with
        running := some { r with phase := .drained } }
    else { s with running := none }
  | _, _ => s

/-- The turn of a target. Ids are drawn as they are needed. -/
def visit (s : System) (r : Running) (agents : String → AgentInfo)
    (release : Except UpgradeError ReleaseInfo) : System :=
  if r.ready then
    let scan := { r.scan with issued := s.store.issued }
    match scan.visit (turnReads s.db agents release) r.index with
    | .error _ => { s with running := none }
    | .ok next =>
      { s with
        store := { s.store with issued := next.issued }
        running := some (match scan.toRestore next r.index with
          | some serverID => ⟨next, r.index, .restoring serverID⟩
          | none => ⟨next, r.index + 1, .visiting⟩) }
  else s

/-- `SetServerDraining(…, false)`. -/
def restore (s : System) (r : Running) : System :=
  match r.phase with
  | .restoring serverID =>
    if (s.db.servers.find? serverID).isSome then
      { s.apply (.setDraining serverID false) with
        running := some ⟨r.scan, r.index + 1, .visiting⟩ }
    else { s with running := none }
  | _ => s

/-- The end of the loop, with `SavePlan` where there is something to
save. -/
def save (s : System) (r : Running) (saved : Bool) : System :=
  if r.phase = .visiting ∧ r.scan.plan.targets.length ≤ r.index then
    let scan := r.scan.leave
    let sending := some ⟨scan, r.index, .sending⟩
    if scan.changed then
      match s.store.savePlan scan.plan with
      | .ok store =>
        if saved then { s with store, running := sending }
        else { s with running := none }
      | .error _ => { s with running := none }
    else { s with running := sending }
  else s

/-- The next command is handed to the sender, which gets it through or
fails. -/
def hand (s : System) (r : Running) (delivered : Bool) : System :=
  if r.phase = .sending then
    match r.scan.commands with
    | [] => { s with running := none }
    | c :: rest =>
      { s with
        store := { s.store with
          sent := s.store.sent ++ if delivered then [c] else [] }
        running := if delivered then
            some { r with scan := { r.scan with commands := rest } }
          else none
        handed := s.handed ++ [(c, s.db.slotsUsed c.serverID)] }
  else s

/-- A call outside the scans reads the plan and writes. -/
def call (s : System) (rank : Nat → Nat) (call : Call) : System :=
  let store := s.store.step rank call
  { s with store, outgoing := s.outgoing ++ [(store.plan.revision, s.store.held rank call)] }

/-- A call hands its next command to the sender, which gets it through or
fails. -/
def send (s : System) (i : Nat) (delivered : Bool) : System :=
  match s.outgoing[i]? with
  | some (revision, c :: rest) =>
    { s with
      store := { s.store with sent := s.store.sent ++ if delivered then [c] else [] }
      outgoing := s.outgoing.set i (revision, if delivered then rest else []) }
  | _ => s

end System

/-- The steps of the control plane. -/
inductive SystemStep where
  /-- schedulers, heartbeats, run events and every other transaction -/
  | platform (step : SlotStep)
  /-- `ScheduleOne` returns: what it had on offer is gone -/
  | forget (run : Run)
  /-- an administrator, or a message of an agent about its upgrade; what it
  sends are steps of their own -/
  | call (call : Call) (h : call.isScan = false ∧ call.fate.delivered = 0)
  | send (i : Nat) (delivered : Bool)
  | begin (now : Int)
  | drain
  | visit (agents : String → AgentInfo) (release : Except UpgradeError ReleaseInfo)
  | restore
  | save (saved : Bool)
  | hand (delivered : Bool)
  | drop

/-- One step. -/
def System.step (rank : Nat → Nat) (fold : Char → Char) (s : System) : SystemStep → System
  | .platform step => { s with slots := slotStep fold s.slots step }
  | .forget run =>
    { s with slots := { s.slots with
        offers := s.slots.offers.filter fun offer => offer.1 != run } }
  | .call call _ => s.call rank call
  | .send i delivered => s.send i delivered
  | .begin now => s.begin rank now
  | .drain => s.running.elim s s.drain
  | .visit agents release =>
    s.running.elim s fun r => s.visit r agents release
  | .restore => s.running.elim s s.restore
  | .save saved => s.running.elim s fun r => s.save r saved
  | .hand delivered => s.running.elim s fun r => s.hand r delivered
  | .drop => { s with running := none }

/-- A plan that was just created, on any database with any offers. -/
def System.start (slots : SlotState) (plan : Plan) (issued : Nat) (now : Int) : System where
  slots
  store := Store.created plan issued now
  running := none
  handed := []
  outgoing := []

end Yunling.Upgrade
