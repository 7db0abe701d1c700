/-
Plans and their runs (`internal/task/schedule.go`, and `trigger` and
`SetEnabled` of `internal/task/service.go`).

`ScheduleDue` reads the plans that are due in a statement of its own, and
then triggers them one by one, each in a transaction: it shares the row
of the definition, locks the row of the plan, compares the plan with what
was read, inserts the run unless there is one for that instant, and moves
the plan to its next instant. The other calls are single statements, but
for `SetEnabled`.

# Cron rules

`nextCronTime` tries the whole minutes after an instant. Whether a rule
has a local time and what the calendar makes of five years are
parameters (`Cron`).

# Firings

`fired` is not a table: it notes the plans that were moved on, as they
were read, and the runs inserted for them, in the order of the commits.
-/
import Yunling.Lib.Transactions
import Yunling.Scheduler.Model
import Yunling.Task.Service

namespace Yunling.Task

open Relational Transactions OrderBy

-- ======== cron

/-- What a rule and a time zone come to. -/
structure Cron where
  parses : String → Bool
  located : String → Bool
  /-- The local time of an instant fits the rule. -/
  fires : String → String → Int → Bool
  /-- `AddDate(5, 0, 0)` in a time zone. -/
  limit : String → Int → Int

/-- The first minute that fits, among so many. -/
def firstFiring (fires : Int → Bool) (candidate : Int) : Nat → Option Int
  | 0 => none
  | n + 1 =>
    if fires candidate then some candidate
    else firstFiring fires (candidate + minute) n

namespace Cron

variable (cron : Cron)

/-- `nextCronTime`. -/
def nextCronTime (expression timezone : String) (after : Int) : Option Int :=
  if cron.parses expression && cron.located timezone then
    let candidate := (after / minute + 1) * minute
    firstFiring (cron.fires expression timezone) candidate
      ((cron.limit timezone candidate - candidate + minute - 1) / minute).toNat
  else none

/-- `ValidateCron`. -/
def validateCron (expression timezone : String) : Bool :=
  timezone ≠ "Local" && cron.located timezone && cron.parses expression

end Cron

-- ======== tables

/-- A row of `task_schedules`. -/
structure Schedule where
  id : String
  definitionID : String
  cronExpression : String
  timezone : String
  enabled : Bool
  nextRunAt : Option Int
  createdAt : Int
  updatedAt : Int
  deriving DecidableEq

/-- `dueSchedule`. -/
structure DueSchedule where
  id : String
  definitionID : String
  expression : String
  timezone : String
  fireTime : Int
  updatedAt : Int
  deriving DecidableEq

/-- A plan that was moved on, and the run inserted for it. -/
structure Firing where
  item : DueSchedule
  run : Option String
  deriving DecidableEq

structure Plans where
  db : Database
  schedules : Table Schedule String Schedule.id
  fired : List Firing

inductive PlanError where
  | task (e : TxError)
  | scheduleChanged
  | invalidCron
  | database
  deriving DecidableEq

namespace Plans

/-- `WHERE id=$1 AND task_definition_id=$2`. -/
def plan (p : Plans) (id definitionID : String) : Option Schedule :=
  (p.schedules.find? id).filter fun s => s.definitionID = definitionID

/-- The definition of a plan is enabled. -/
def enabledDefinition (p : Plans) (id : String) : Bool :=
  (p.db.definitions.find? id).any Definition.enabled

/-- The plans that are due. -/
def due (p : Plans) (now : Int) : List DueSchedule :=
  ((p.schedules.rows.filter fun s => s.enabled && p.enabledDefinition s.definitionID
      && s.nextRunAt.any (· ≤ now)).insertionSort
    (Lex (fun s => s.nextRunAt.getD 0) (Asc Schedule.id))).map fun s =>
      { id := s.id
        definitionID := s.definitionID
        expression := s.cronExpression
        timezone := s.timezone
        fireTime := s.nextRunAt.getD 0
        updatedAt := s.updatedAt }

def updateSchedule (id : String) (f : Schedule → Schedule)
    (hf : ∀ s, (f s).id = s.id) (p : Plans) : Plans :=
  { p with schedules := p.schedules.update (fun s => s.id = id) f hf }

def insertSchedule (s : Schedule) (p : Plans) : Plans :=
  match p.schedules.insert? s with
  | some schedules => { p with schedules }
  | none => p

def deleteSchedule (id : String) (p : Plans) : Plans :=
  { p with schedules := p.schedules.delete fun s => s.id = id }

/-- The run of a firing, with its first event. -/
def insertRun (run : TaskRun) (secretRefs : List (String × String)) (p : Plans) : Plans :=
  match p.db.runs.insert? run with
  | none => p
  | some runs => { p with db := { p.db with
      runs
      events := p.db.events ++ [
        { taskRunId := run.id, sequence := 0
          eventType := "run.queued", state := .queued
          payload := {
            message := some "任务已进入排队队列"
            secretRefs := some secretRefs }
          occurredAt := run.createdAt
          executionToken := none
          agentSequence := none }] } }

def note (firing : Firing) (p : Plans) : Plans :=
  { p with fired := p.fired ++ [firing] }

end Plans

-- ======== transactions

/-- Row locks, and the keys of the unique indexes of `task_runs`. -/
inductive PlanLock where
  | definitionShare (id : String)
  | definitionUpdate (id : String)
  | schedule (id : String)
  | fire (definitionID : String) (at_ : Int)
  | run (id : String)
  deriving DecidableEq

def PlanLock.clash : PlanLock → PlanLock → Bool
  | .definitionShare _, .definitionShare _ => false
  | .definitionShare id, .definitionUpdate id' => id = id'
  | .definitionUpdate id, .definitionShare id' => id = id'
  | l, l' => l = l'

/-- What the calls answer. -/
inductive PlanAnswer where
  | runs (ids : List String) (failures : List (String × PlanError))
  | schedule (s : Schedule)
  | done
  | failed (e : PlanError)

abbrev PlanTx := Session Plans PlanLock PlanAnswer

def refuse (e : PlanError) : PlanTx := .rollback (.done (.failed e))

section Calls

variable (cron : Cron)

-- ======== triggers

/-- `lockDueSchedule`; the row must still be the one that was read. -/
def lockDueSchedule (item : DueSchedule) (stop : PlanError → PlanTx)
    (next : Int → PlanTx) : PlanTx :=
  .read fun snapshot =>
    match snapshot.plan item.id item.definitionID with
    | none => stop .scheduleChanged
    | some _ => .lock (.schedule item.id) <| .read fun p =>
      match p.plan item.id item.definitionID with
      | none => stop .scheduleChanged
      | some row =>
        if row.enabled = false ∨ row.nextRunAt ≠ some item.fireTime
            ∨ row.cronExpression ≠ item.expression ∨ row.timezone ≠ item.timezone
            ∨ row.updatedAt ≠ item.updatedAt then
          stop .scheduleChanged
        else match cron.nextCronTime row.cronExpression row.timezone item.fireTime with
          | none => stop .invalidCron
          | some t => next t

def Schedule.advance (next now : Int) (s : Schedule) : Schedule :=
  { s with nextRunAt := some next, updatedAt := now }

theorem Schedule.advance_id (next now : Int) (s : Schedule) : (s.advance next now).id = s.id := rfl

/-- `advanceDueSchedule`, noted. -/
def advanceDueSchedule (item : DueSchedule) (nextScheduled now : Int)
    (run : Option String) (next : PlanTx) : PlanTx :=
  .write (Plans.updateSchedule item.id (Schedule.advance nextScheduled now)
    (Schedule.advance_id nextScheduled now)) <|
  .write (Plans.note ⟨item, run⟩) next

/-- The trigger of a due plan. -/
def DueSchedule.trigger (item : DueSchedule) : Trigger where
  type := "schedule"
  requestedBy := none
  scheduledFor := some item.fireTime
  parameters := []

/-- The version and the parameters of a run, as `trigger` resolves
them. -/
def resolveRun (d : Definition) (trigger : Trigger) (p : Plans) :
    Except TxError (String × Parameters) :=
  match d.resolveVersion p.db with
  | none => .error .versionUnavailable
  | some versionID =>
    match p.db.versions.find? versionID with
    | none => .error .versionUnavailable
    | some version =>
      if version.scriptId ≠ d.scriptId then .error .versionUnavailable
      else
        let parameters := overrideParameters d.parameters trigger.parameters
        match validateParameters version.parameterDefinitions parameters d.secretBindings with
        | .error e => .error e
        | .ok () => .ok (versionID, parameters)

/-- `trigger` of a due plan; `freshID` is the id the database draws. -/
def trigger (item : DueSchedule) (freshID : String) (now : Int)
    (next : Except PlanError String → PlanTx) : PlanTx :=
  let stop (e : PlanError) : PlanTx := .rollback (next (.error e))
  .attempt (next (.error .database)) <| .read fun snapshot =>
    match snapshot.db.definitions.find? item.definitionID with
    | none => stop (.task .definitionNotFound)
    | some _ =>
      .lock (.definitionShare item.definitionID) <| .read fun p =>
      match p.db.definitions.find? item.definitionID with
      | none => stop (.task .definitionNotFound)
      | some d =>
        if d.enabled = false then stop (.task .definitionDisabled)
        else lockDueSchedule cron item stop fun nextScheduled =>
          .read fun p => match resolveRun d item.trigger p with
          | .error e => stop (.task e)
          | .ok (versionID, parameters) =>
            .acquire (.fire item.definitionID item.fireTime)
              (fun p => p.db.scheduleTaken item.definitionID (some item.fireTime))
              -- another plan of the definition has the run
              (advanceDueSchedule item nextScheduled now none <|
                .commit (next (.error (.task .duplicateRun)))) <|
            .acquire (.run freshID) (fun p => (p.db.runs.find? freshID).isSome) (stop .database) <|
            .write (Plans.insertRun (d.newRun freshID versionID .schedule
              item.trigger parameters now) d.secretBindings) <|
            advanceDueSchedule item nextScheduled now (some freshID) <|
            .commit (next (.ok freshID))

/-- What the outside answers to one trigger of a scan. -/
structure Draw where
  freshID : String
  now : Int
  cancelled : Bool

/-- The errors a scan passes over. -/
def PlanError.expected : PlanError → Bool
  | .task .duplicateRun | .task .definitionDisabled
  | .task .definitionNotFound | .scheduleChanged => true
  | _ => false

/-- The loop of `ScheduleDue`. -/
def triggerDue (draws : Nat → Draw) :
    List DueSchedule → Nat → List String → List (String × PlanError) → PlanTx
  | [], _, runs, failures => .done (.runs runs failures)
  | item :: rest, n, runs, failures =>
    if (draws n).cancelled then
      .done (.runs runs (failures ++ [("", .database)]))
    else trigger cron item (draws n).freshID (draws n).now fun result =>
      match result with
      | .ok run => triggerDue draws rest (n + 1) (runs ++ [run]) failures
      | .error e =>
        if e.expected then triggerDue draws rest (n + 1) runs failures
        else triggerDue draws rest (n + 1) runs (failures ++ [(item.id, e)])

/-- `ScheduleDue`. -/
def scheduleDue (now : Int) (draws : Nat → Draw) : PlanTx :=
  .attempt (.done (.failed .database)) <| .read fun p =>
    triggerDue cron draws (p.due now) 0 [] []

-- ======== edits

structure ScheduleInput where
  definitionID : String
  cronExpression : String
  timezone : String
  enabled : Bool

def trimmed (s : String) : String := String.ofList (Scheduler.trimSpace s)

/-- The rule and the time zone, with its default. -/
def ScheduleInput.normalized (input : ScheduleInput) : ScheduleInput :=
  { input with
    cronExpression := trimmed input.cronExpression
    timezone :=
      if trimmed input.timezone = "" then "Asia/Shanghai"
      else trimmed input.timezone }

/-- The checks and the first instant. -/
def ScheduleInput.next (input : ScheduleInput) (now : Int) : Option Int :=
  if input.definitionID = ""
      || !cron.validateCron input.cronExpression input.timezone then none
  else cron.nextCronTime input.cronExpression input.timezone now

/-- `CreateSchedule`; `id` is the id the database draws, and `stamp` its
time. -/
def createSchedule (input : ScheduleInput) (id : String) (now stamp : Int) : PlanTx :=
  let input := { input.normalized with
    definitionID := trimmed input.definitionID }
  match input.next cron now with
  | none => .done (.failed .invalidCron)
  | some next =>
    let row : Schedule := {
      id
      definitionID := input.definitionID
      cronExpression := input.cronExpression
      timezone := input.timezone
      enabled := input.enabled
      nextRunAt := some next
      createdAt := stamp
      updatedAt := stamp }
    .attempt (.done (.failed .database)) <|
      .acquire (.schedule id) (fun p => (p.schedules.find? id).isSome) (refuse .database) <|
      .read fun p =>
        if (p.db.definitions.find? input.definitionID).isNone then
          refuse .database
        else .write (Plans.insertSchedule row) <| .commit (.done (.schedule row))

def Schedule.edit (input : ScheduleInput) (next now : Int) (s : Schedule) : Schedule :=
  { s with
    cronExpression := input.cronExpression
    timezone := input.timezone
    enabled := input.enabled
    nextRunAt := some next
    updatedAt := now }

theorem Schedule.edit_id (input : ScheduleInput) (next now : Int)
    (s : Schedule) : (s.edit input next now).id = s.id := rfl

/-- A statement on one plan. -/
def onPlan (id definitionID : String) (next : Schedule → PlanTx) : PlanTx :=
  .attempt (.done (.failed .database)) <| .read fun snapshot =>
    match snapshot.plan id definitionID with
    | none => refuse (.task .definitionNotFound)
    | some _ => .lock (.schedule id) <| .read fun p =>
      match p.plan id definitionID with
      | none => refuse (.task .definitionNotFound)
      | some row => next row

/-- `UpdateSchedule`, with its two clock readings. -/
def updateSchedule (id : String) (input : ScheduleInput) (now stamp : Int) : PlanTx :=
  let input := input.normalized
  match input.next cron now with
  | none => .done (.failed .invalidCron)
  | some next => onPlan id input.definitionID fun row =>
    .write (Plans.updateSchedule id (Schedule.edit input next stamp)
      (Schedule.edit_id input next stamp)) <|
    .commit (.done (.schedule (row.edit input next stamp)))

/-- `DeleteSchedule`. -/
def deleteSchedule (definitionID id : String) : PlanTx :=
  onPlan id definitionID fun _ =>
    .write (Plans.deleteSchedule id) <| .commit (.done .done)

/-- What `SetEnabled` writes. -/
def Plans.setEnabled (id : String) (enabled cancelQueued : Bool)
    (now : Nat → Int) (p : Plans) : Plans :=
  { p with db := settle p.db (Yunling.setEnabled id enabled cancelQueued now
      p.db) }

/-- `SetEnabled`; the rows of the runs it cancels are locked by nobody
else here. -/
def setEnabled (id : String) (enabled cancelQueued : Bool) (now : Nat → Int) : PlanTx :=
  .attempt (.done (.failed .database)) <| .read fun snapshot =>
    match snapshot.db.definitions.find? id with
    | none => refuse (.task .definitionNotFound)
    | some _ => .lock (.definitionUpdate id) <| .read fun p =>
      match p.db.definitions.find? id with
      | none => refuse (.task .definitionNotFound)
      | some _ => .write (Plans.setEnabled id enabled cancelQueued now) <| .commit (.done .done)

/-- The calls. -/
inductive PlanCall where
  | due (now : Int) (draws : Nat → Draw)
  | create (input : ScheduleInput) (id : String) (now stamp : Int)
  | update (id : String) (input : ScheduleInput) (now stamp : Int)
  | delete (definitionID id : String)
  | enable (id : String) (enabled cancelQueued : Bool) (now : Nat → Int)

def PlanCall.session : PlanCall → PlanTx
  | .due now draws => scheduleDue cron now draws
  | .create input id now stamp => createSchedule cron input id now stamp
  | .update id input now stamp => updateSchedule cron id input now stamp
  | .delete definitionID id => deleteSchedule definitionID id
  | .enable id enabled cancelQueued now =>
    setEnabled id enabled cancelQueued now

/-- The plan a call edits. -/
def PlanCall.edits : PlanCall → Option String
  | .create _ id _ _ => some id
  | .update id _ _ _ => some id
  | .delete _ id => some id
  | _ => none

end Calls

end Yunling.Task
