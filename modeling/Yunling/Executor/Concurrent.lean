/-
Runners that share a work root: calls of `Start` and the supervisors of
their processes, step by step (`internal/executor/runner.go`,
`internal/executor/execution_record.go`).

Every access to the shared directory is a step of its own, so the steps
of different runners interleave freely; within a runner the mutex keeps
the steps of a call together from its look into the active runs until
its answer or the preparation of the launch. A record is created
exclusively and filled afterwards: between the two it can be read, torn,
and the agent may die there.

# Calls

`Call.turn` is one step of a call, as a function of what it shares with
others. What the outside answers is fixed with the call (`Trial`), since
each answer is asked for once. A call that launched a process goes on as
its supervisor.

# What is kept for the record

`launches` has an entry for every call of the launcher, and `answers`
one for every answer, with the machine as the call found it when it
began and when it answered.
-/
import Yunling.Executor.Runner
import Yunling.Lib.Transition

namespace Yunling.Executor

open Relational

-- ======== calls

/-- Where a call of `Start`, or the supervisor it became, stands. -/
inductive Phase where
  | validate
  /-- the look at the active runs, the first or the second one -/
  | look (second : Bool)
  /-- `replay`, before it reads the claim and before it reads the
  result -/
  | readClaim (second : Bool)
  | readResult (claim : ExecutionRecord)
  | prepare
  | createClaim
  | fillClaim
  | launch
  | createFailure (failed : Event)
  | fillFailure (failed : Event)
  | running (started : Event)
  | createResult (started ended : Event)
  | fillResult (started ended : Event)
  | remove

/-- The mutex is held. -/
def Phase.locked : Phase → Bool
  | .readClaim _ | .readResult _ | .createClaim | .fillClaim | .launch
  | .createFailure _ | .fillFailure _ => true
  | _ => false

/-- The next step takes the mutex. -/
def Phase.locks : Phase → Bool
  | .look _ | .remove => true
  | _ => false

/-- A call of `Start` on a runner. -/
structure Call where
  runner : Nat
  assignment : Assignment
  trial : Trial
  /-- how the supervisor will come to write the result -/
  save : Write
  phase : Phase
  /-- the machine when the call began -/
  begun : Host

/-- What a step comes to: the call goes on, or answers (and may go on as
a supervisor), or is over. -/
inductive Outcome where
  | goOn (phase : Phase)
  | answer (result : Except StartError (List Event)) (next : Option Phase)
  | over

/-- Where the call goes on. -/
def Outcome.next : Outcome → Option Phase
  | .goOn phase => some phase
  | .answer _ next => next
  | .over => none

/-- What `Start` returns. -/
def Outcome.result : Outcome → Option (Except StartError (List Event))
  | .answer result _ => some result
  | _ => none

/-- A step: the runner and the machine after it, whether the launcher
was called, and what it came to. -/
structure Turn where
  runner : Runner
  launched : Bool
  outcome : Outcome

/-- A step that only decides. -/
def Runner.stays (r : Runner) (outcome : Outcome) : Turn :=
  ⟨r, false, outcome⟩

/-- `Start` returns with an error. -/
def Outcome.fail (e : StartError) : Outcome :=
  .answer (.error e) none

/-- The records cannot be read at this look. -/
def Trial.unreadableAt (t : Trial) : Bool → Bool
  | false => t.unreadable
  | true => t.unreadableAgain

/-- The exclusive creation of a record: `none` when it fails. -/
def createRecord (files : Hash String RecordFile) (runID : String)
    (w : Write) : Option (Hash String RecordFile) :=
  if (files.get? runID).isSome ∨ w = .unopened then none
  else some (files.set runID .torn)

/-- The content of a record is written: whether that succeeds. -/
def fillRecord (files : Hash String RecordFile) (record : ExecutionRecord)
    (w : Write) : Hash String RecordFile × Bool :=
  match w with
  | .done => (files.set record.runID (.whole record), true)
  | .oversize => (files.set record.runID .oversize, true)
  | .unsynced => (files.set record.runID (.whole record), false)
  | _ => (files, false)

/-- One step of a call. -/
def Call.turn (c : Call) (r : Runner) : Turn :=
  let a := c.assignment
  let t := c.trial
  match c.phase with
  | .validate =>
    match t.invalid with
    | some message => r.stays (.fail (.failed message))
    | none => r.stays (.goOn (.look false))
  | .look second =>
    match r.active.get? a.runID with
    | some run =>
      if run.executionToken = a.executionToken then
        r.stays (.fail .runAlreadyActive)
      else r.stays (.fail .executionTokenMismatch)
    | none =>
      if t.unreadableAt second then
        r.stays (.fail .executionUncertain)
      else r.stays (.goOn (.readClaim second))
  | .readClaim second =>
    match r.host.claims.get? a.runID with
    | none => r.stays (.goOn (if second then .createClaim else .prepare))
    | some .torn | some .oversize => r.stays (.fail .executionUncertain)
    | some (.whole claim) =>
      if claim.runID ≠ a.runID then
        r.stays (.fail .executionUncertain)
      else if claim.executionToken ≠ a.executionToken then
        r.stays (.fail .executionTokenMismatch)
      else r.stays (.goOn (.readResult claim))
  | .readResult claim =>
    match r.host.results.get? a.runID with
    | some (.whole result) =>
      if claim.replayable result then
        r.stays (.answer (.ok result.events) none)
      else r.stays (.fail .executionUncertain)
    | _ => r.stays (.fail .executionUncertain)
  | .prepare =>
    match t.unprepared with
    | some message => r.stays (.fail (.failed message))
    | none => r.stays (.goOn (.look true))
  | .createClaim =>
    match createRecord r.host.claims a.runID t.claim with
    | none => r.stays (.fail .executionUncertain)
    | some claims =>
      { r with host := { r.host with claims } }.stays (.goOn .fillClaim)
  | .fillClaim =>
    let (claims, claimed) := fillRecord r.host.claims (a.record []) t.claim
    { r with host := { r.host with claims } }.stays (if claimed then .goOn .launch
        else .fail .executionUncertain)
  | .launch =>
    match t.launch with
    | some message =>
      ⟨r, true, .goOn (.createFailure (launchFailure message t.now))⟩
    | none =>
      let started := launchStarted t.now
      ⟨{ active := r.active.set a.runID ⟨a.executionToken, started⟩
         host := { r.host with processes := a.runID :: r.host.processes } },
        true, .answer (.ok [started]) (some (.running started))⟩
  | .createFailure failed =>
    match createRecord r.host.results a.runID t.save with
    | none => r.stays (.answer (.ok [failed]) none)
    | some results =>
      { r with host := { r.host with results } }.stays (.goOn (.fillFailure failed))
  | .fillFailure failed =>
    let results := (fillRecord r.host.results (a.record [failed]) t.save).1
    { r with host := { r.host with results } }.stays (.answer (.ok [failed]) none)
  | .running started => r.stays (.goOn (.running started))
  | .createResult started ended =>
    match createRecord r.host.results a.runID c.save with
    | none => r.stays (.goOn .remove)
    | some results =>
      { r with host := { r.host with results } }.stays (.goOn (.fillResult started ended))
  | .fillResult started ended =>
    let results := (fillRecord r.host.results (a.record [started, ended]) c.save).1
    { r with host := { r.host with results } }.stays (.goOn .remove)
  | .remove => { r with active := r.active.del a.runID }.stays .over

-- ======== the machine

/-- A call of the launcher. -/
structure Launch where
  runID : String
  begun : Host

/-- An answer of `Start`. -/
structure Answer where
  assignment : Assignment
  trial : Trial
  result : Except StartError (List Event)
  begun : Host
  /-- the runner and its machine when the call answered -/
  seen : Runner

/-- A machine with any number of runners, each with the calls it
serves. -/
structure Machine where
  host : Host
  active : Nat → Hash String ActiveRun
  calls : Hash Nat Call
  launches : List Launch
  answers : List Answer

namespace Machine

/-- A machine that never ran anything. -/
def empty : Machine where
  host := .empty
  active := fun _ => .empty
  calls := .empty
  launches := []
  answers := []

/-- A runner on its machine. -/
def runner (m : Machine) (i : Nat) : Runner := ⟨m.active i, m.host⟩

/-- Another call of the runner holds the mutex. -/
def contended (m : Machine) (k i : Nat) : Bool :=
  m.calls.rows.any fun (j, c) =>
    decide (j ≠ k) && decide (c.runner = i) && c.phase.locked

/-- The machine after a step of call `k`. -/
def settle (m : Machine) (k : Nat) (c : Call) (turn : Turn) : Machine where
  host := turn.runner.host
  active := Function.update m.active c.runner turn.runner.active
  calls := match turn.outcome.next with
    | some phase => m.calls.set k { c with phase }
    | none => m.calls.del k
  launches := if turn.launched then
      m.launches ++ [⟨c.assignment.runID, c.begun⟩]
    else m.launches
  answers := match turn.outcome.result with
    | some result => m.answers ++ [⟨c.assignment, c.trial, result, c.begun, m.runner c.runner⟩]
    | none => m.answers

end Machine

/-- What can happen. -/
inductive MachineOp where
  /-- `Start` is called on a runner -/
  | start (k runner : Nat) (a : Assignment) (t : Trial) (save : Write)
  /-- the next step of a call -/
  | go (k : Nat)
  /-- a supervised process ends, or its stop is given up -/
  | finish (k : Nat) (stop : Stop) (now : Int) (usage : Option ResourceUsage)
  /-- the process of a runner dies; a new one has no active runs -/
  | crash (runner : Nat)

/-- One step of the machine. -/
def Machine.step (m : Machine) : MachineOp → Machine
  | .start k runner assignment trial save =>
    if (m.calls.get? k).isSome then m
    else { m with
      calls := m.calls.set k
        { runner, assignment, trial, save, phase := .validate
          begun := m.host } }
  | .go k =>
    match m.calls.get? k with
    | none => m
    | some c =>
      if c.phase.locks && m.contended k c.runner then m
      else m.settle k c (c.turn (m.runner c.runner))
  | .finish k stop now usage =>
    match m.calls.get? k with
    | some c =>
      match c.phase with
      | .running started =>
        { m with
          host := if stop.ended then m.host.kill c.assignment.runID
            else m.host
          calls := m.calls.set k { c with
            phase := .createResult started (stop.event now usage) } }
      | _ => m
    | none => m
  | .crash runner =>
    { m with
      active := Function.update m.active runner .empty
      calls := m.calls.delete fun (_, c) => c.runner = runner }

/-- The machine after steps. -/
def Machine.run (ops : List MachineOp) : Machine :=
  Transition.run Machine.step .empty ops

end Yunling.Executor
