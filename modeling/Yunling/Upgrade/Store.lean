/-
An upgrade plan in its table, and the calls that move it
(`SavePlan` and `AppendEvent` of `internal/agentupgrade/postgres.go`).

`SavePlan` is optimistic: it writes only over the revision that was
read. Every change of a target's status is recorded as an event, and the
events of a target, a command and a stage are unique
(`agent_upgrade_events_command_stage_idx`): a save that would record a
stage twice fails, while `AppendEvent` passes over it.

# Calls

A call reads the plan, decides (`Upgrade.Service`,
`Upgrade.Coordinator`), saves, appends its event and sends its commands.
`Fate` says how far the writes and sends get; what does not happen
before an error does not happen after it.
-/
import Yunling.Lib.Transition
import Yunling.Upgrade.Service
import Yunling.Upgrade.Coordinator

namespace Yunling.Upgrade

-- ======== saving

/-- A plan, the stages recorded for its targets, the commands its agents
were sent, the ids drawn, and the time of the last call. -/
structure Store where
  plan : Plan
  events : List (Nat × Nat × String)
  sent : List SentCommand
  issued : Nat
  clock : Int

/-- The status a target was last saved with. -/
def Plan.statusOf (plan : Plan) (targetID : Nat) : Option TargetStatus :=
  (plan.targets.find? (·.id == targetID)).map (·.status)

/-- The events of a save: one for every target whose status changed. -/
def changes (previous plan : Plan) : List (Nat × Nat × String) :=
  (plan.targets.filter fun t =>
      previous.statusOf t.id != some t.status).map
    fun t => (t.id, t.commandID, t.status.name)

namespace Store

/-- `SavePlan`. -/
def savePlan (s : Store) (plan : Plan) : Except UpgradeError Store :=
  if plan.revision ≠ s.plan.revision then .error .invalidTransition
  else if plan.targets.any fun t => (s.plan.statusOf t.id).isNone then
    .error .targetNotFound
  else
    let keys := changes s.plan plan
    if keys.all (fun key => !s.events.contains key) && decide keys.Nodup then
      .ok { s with
        plan := { plan with revision := plan.revision + 1 }
        events := s.events ++ keys }
    else .error .database

/-- `AppendEvent`. -/
def appendEvent (s : Store) (key : Nat × Nat × String) : Store :=
  if s.events.contains key then s
  else { s with events := s.events ++ [key] }

/-- How far the writes and sends of a call get. -/
structure Fate where
  saved : Bool
  appended : Bool
  delivered : Nat

/-- What comes after the save. -/
def finish (s : Store) (o : Outcome) (fate : Fate) : Store :=
  match o.event with
  | some key =>
    if fate.appended then
      { s.appendEvent key with
        sent := s.sent ++ o.commands.take fate.delivered }
    else s
  | none => { s with sent := s.sent ++ o.commands.take fate.delivered }

/-- The writes and sends of a call. -/
def commit (s : Store) (o : Outcome) (fate : Fate) : Store :=
  let drawn := { s with issued := o.issued }
  match o.save.elim (.ok drawn) drawn.savePlan with
  | .error _ => drawn
  | .ok saved =>
    if o.save.isSome && !fate.saved then drawn else saved.finish o fate

end Store

-- ======== calls

/-- The calls on a plan, each with its time and what the outside answers
to it. -/
inductive Call where
  | scan (now : Int) (reads : Reads) (fate : Store.Fate)
  | event (now : Int) (serverID : String) (event : UpgradeEvent) (fate : Store.Fate)
  | heartbeat (now : Int) (heartbeat : UpgradeHeartbeat) (fate : Store.Fate)
  | pause (now : Int) (reason : String) (fate : Store.Fate)
  | resume (now : Int) (reads : Reads) (fate : Store.Fate)
  | cancel (now : Int) (fate : Store.Fate)
  | retry (now : Int) (targetID : Nat) (reads : Reads) (fate : Store.Fate)

namespace Call

/-- The time of a call. -/
def now : Call → Int
  | .scan now _ _ => now
  | .event now _ _ _ => now
  | .heartbeat now _ _ => now
  | .pause now _ _ => now
  | .resume now _ _ => now
  | .cancel now _ => now
  | .retry now _ _ _ => now

/-- How far its writes get. -/
def fate : Call → Store.Fate
  | .scan _ _ fate => fate
  | .event _ _ _ fate => fate
  | .heartbeat _ _ fate => fate
  | .pause _ _ fate => fate
  | .resume _ _ fate => fate
  | .cancel _ fate => fate
  | .retry _ _ _ fate => fate

/-- The call is a scan. -/
def isScan : Call → Bool
  | .scan .. => true
  | _ => false

/-- A call of the service, which saves a plan and nothing else. -/
def saving (issued : Nat) : Except UpgradeError (Option Plan) → Option Outcome
  | .ok save => some ⟨save, none, [], issued⟩
  | .error _ => none

/-- What a call decides on the plan it reads; `none` on an error. The
coordinator sees active plans only. -/
def decide (plan : Plan) (issued : Nat) : Call → Option Outcome
  | .scan now reads _ =>
    if plan.status.active then (plan.scan reads now issued).toOption
    else none
  | .event now serverID e _ =>
    if plan.status.active then
      (plan.applyUpgradeEvent serverID e now issued).toOption
    else none
  | .heartbeat now h _ =>
    if plan.status.active then some (plan.observeHeartbeat h now issued)
    else none
  | .pause _ reason _ => saving issued (plan.pause reason)
  | .resume _ reads _ => saving issued (plan.resume reads)
  | .cancel now _ => saving issued (plan.cancel now)
  | .retry now targetID reads _ =>
    match plan.retryTarget targetID reads now issued with
    | .ok (some (plan, issued)) => some ⟨some plan, none, [], issued⟩
    | .ok none => some (.nothing issued)
    | .error _ => none

end Call

/-- One call; `rank` orders ids by their texts. -/
def Store.step (rank : Nat → Nat) (s : Store) (call : Call) : Store :=
  let s := { s with clock := call.now }
  match call.decide (s.plan.ordered rank) s.issued with
  | none => s
  | some o => s.commit o call.fate

/-- A plan that was just created. -/
def Store.created (plan : Plan) (issued : Nat) (now : Int) : Store where
  plan
  events := []
  sent := []
  issued
  clock := now

end Yunling.Upgrade
