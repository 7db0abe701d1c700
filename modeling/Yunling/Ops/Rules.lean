/-
The rule engine of the operations service (`internal/ops/rules.go`,
`internal/ops/postgres.go`).

A scan evaluates every rule on a snapshot of the platform, writes what
each rule should be (`desired_active`) in one transaction, and for every
rule whose alert is not yet as it should be raises or resolves the alert
and then marks the rule as applied (`active`). The alert and the mark are
two transactions: `ScanOp` has one operation for each, by key.

# What is brought along

A scan brings the snapshot it reads, its time, and for every alert call
the time and what the database decides in it. Percentages are `float64`
in the source: `Percent` has the quotient and the two comparisons, and
nothing here depends on what they are.

Samples are sorted by time; `sort.Slice` leaves the order of equal times
open, which is the order they have in the snapshot.
-/
import Yunling.Alert.Store
import Yunling.Lib.Crash
import Yunling.Lib.Hash

namespace Yunling.Ops

open Relational Crash Alerting

-- ======== rules

def offlineThreshold : Int := 2 * minute
def queueThreshold : Int := 10 * minute
def snapshotMaxAge : Int := 2 * minute

/-- `RuleKey`. -/
structure RuleKey where
  code : String
  sourceType : String
  sourceID : String
  deriving DecidableEq

/-- The alerts of a rule. -/
def RuleKey.alert (key : RuleKey) : Alerting.Key where
  resourceType := key.sourceType
  resourceID := key.sourceID
  code := key.code

/-- `RuleState`, which is a row of `alert_rule_states`. -/
structure RuleState (F : Type) where
  active : Bool
  desiredActive : Bool
  consecutiveBad : Nat
  consecutiveGood : Nat
  lastValue : Option F
  lastEvaluatedAt : Int

/-- The row `loadRuleState` inserts: the columns' defaults, and the
epoch. -/
def RuleState.initial {F : Type} : RuleState F where
  active := false
  desiredActive := false
  consecutiveBad := 0
  consecutiveGood := 0
  lastValue := none
  lastEvaluatedAt := 0

/-- `ResourceSample`. -/
structure ResourceSample where
  memoryTotalBytes : Int
  memoryAvailableBytes : Int
  diskTotalBytes : Int
  diskAvailableBytes : Int
  collectedAt : Int

/-- `ServerObservation`, as far as the rules read it. -/
structure ServerObservation where
  id : String
  name : String
  enabled : Bool
  lastSeenAt : Option Int
  samples : List ResourceSample

/-- `RunObservation`. -/
structure RunObservation where
  id : String
  taskName : String
  state : RunState
  queuedAt : Int

/-- `RuleSnapshot`. -/
structure RuleSnapshot where
  servers : List ServerObservation
  runs : List RunObservation

/-- `Evaluation`. -/
structure Evaluation (F : Type) where
  key : RuleKey
  bad : Bool
  good : Bool
  value : Option F
  evaluatedAt : Int
  requiredConsecutive : Nat
  sampleBased : Bool
  event : Event

/-- `Transition`. -/
structure Transition (F : Type) where
  evaluation : Evaluation F
  desiredActive : Bool

def Transition.key {F : Type} (t : Transition F) : RuleKey :=
  t.evaluation.key

-- ======== evaluations

/-- The `float64` arithmetic of the rules: `available / total * 100`, and
its comparison with a constant. -/
structure Percent (F : Type) where
  of : Int → Int → F
  below : F → Nat → Bool
  above : F → Nat → Bool

section Evaluate

variable {F : Type} (percent : Percent F)

/-- `evaluateServerAvailability`. -/
def evaluateServerAvailability (server : ServerObservation) (now : Int) : Evaluation F :=
  let bad := server.enabled && match server.lastSeenAt with
    | none => true
    | some seen => decide (seen ≤ now - offlineThreshold)
  { key := ⟨"agent_offline", "server", server.id⟩
    bad
    good := !bad
    value := none
    evaluatedAt := now
    requiredConsecutive := 1
    sampleBased := false
    event := ⟨"server", server.id, "agent_offline", .critical, "服务器离线",
      "执行服务器 " ++ server.name ++ " 已超过 2 分钟没有心跳"⟩ }

/-- `resourceEvaluation`. -/
def resourceEvaluation (server : ServerObservation) (code title : String)
    (value : Option F) (bad good : Bool) (evaluatedAt : Int) (required : Nat) : Evaluation F where
  key := ⟨code, "server", server.id⟩
  bad
  good
  value
  evaluatedAt
  requiredConsecutive := required
  sampleBased := value.isSome
  event := ⟨"server", server.id, code, .warning, title, "执行服务器 " ++ server.name ++ " 的可用资源低于告警阈值"⟩

/-- What one sample says of one resource; nothing where its total is not
positive. -/
def resourceSample (server : ServerObservation) (code title : String)
    (available total : Int) (low high : Nat) (collectedAt : Int) : List (Evaluation F) :=
  if 0 < total then
    let value := percent.of available total
    [resourceEvaluation server code title (some value)
      (percent.below value low) (percent.above value high) collectedAt 2]
  else []

/-- What one sample says. -/
def evaluateSample (server : ServerObservation) (now : Int)
    (sample : ResourceSample) : List (Evaluation F) :=
  if now < sample.collectedAt ∨ snapshotMaxAge < now - sample.collectedAt then
    []
  else
    resourceSample percent server "memory_low" "服务器可用内存不足"
        sample.memoryAvailableBytes sample.memoryTotalBytes 10 15 sample.collectedAt
      ++ resourceSample percent server "disk_low" "服务器可用磁盘不足"
        sample.diskAvailableBytes sample.diskTotalBytes 15 20 sample.collectedAt

/-- What is evaluated of a server. -/
def evaluateServer (now : Int) (server : ServerObservation) : List (Evaluation F) :=
  evaluateServerAvailability server now ::
    if server.enabled then
      (server.samples.insertionSort (OrderBy.Asc ResourceSample.collectedAt)).flatMap
        (evaluateSample percent server now)
    else
      [resourceEvaluation server "memory_low" "服务器可用内存不足" none false true now 1,
        resourceEvaluation server "disk_low" "服务器可用磁盘不足" none false true now 1]

/-- What is evaluated of a run. -/
def evaluateRun (now : Int) (run : RunObservation) : List (Evaluation F) :=
  let queueBad := decide (run.state = .queued) && decide (run.queuedAt ≤ now - queueThreshold)
  { key := ⟨"queue_timeout", "run", run.id⟩
    bad := queueBad
    good := !queueBad
    value := none
    evaluatedAt := now
    requiredConsecutive := 1
    sampleBased := false
    event := ⟨"run", run.id, "queue_timeout", .warning, "任务排队超过 10 分钟",
      "任务 " ++ run.taskName ++ " 正在等待可用服务器"⟩ } ::
    if run.state = .failed ∨ run.state = .timedOut then
      [{ key := ⟨"task_failed", "run", run.id⟩
         bad := true
         good := false
         value := none
         evaluatedAt := now
         requiredConsecutive := 1
         sampleBased := false
         event := ⟨"run", run.id, "task_failed", .critical,
          if run.state = .timedOut then "任务执行超时" else "任务执行失败",
          "任务 " ++ run.taskName ++ " 已结束，请在执行记录中查看状态"⟩ }]
    else []

/-- `evaluateSnapshot`. -/
def evaluateSnapshot (snapshot : RuleSnapshot) (now : Int) : List (Evaluation F) :=
  snapshot.servers.flatMap (evaluateServer percent now) ++ snapshot.runs.flatMap (evaluateRun now)

end Evaluate

-- ======== rule states

abbrev RuleStates (F : Type) := Hash RuleKey (RuleState F)

/-- The rule's row after an evaluation. -/
def RuleState.evaluated {F : Type} (state : RuleState F) (e : Evaluation F) : RuleState F :=
  let state := { state with
    lastEvaluatedAt := e.evaluatedAt
    lastValue := e.value }
  if e.bad then
    { state with
      consecutiveBad := state.consecutiveBad + 1
      consecutiveGood := 0
      desiredActive := if e.requiredConsecutive ≤ state.consecutiveBad + 1
        then true else state.desiredActive }
  else if e.good then
    { state with
      consecutiveGood := state.consecutiveGood + 1
      consecutiveBad := 0
      desiredActive := if e.requiredConsecutive ≤ state.consecutiveGood + 1
        then false else state.desiredActive }
  else { state with consecutiveBad := 0, consecutiveGood := 0 }

/-- The locals of `Apply`: the rows as the transaction sees them, the two
maps, and the keys in the order they came. -/
structure Applying (F : Type) where
  rows : RuleStates F
  states : Hash RuleKey (RuleState F)
  latestEvaluations : Hash RuleKey (Evaluation F)
  order : List RuleKey

namespace RuleStates

variable {F : Type}

/-- `INSERT … ON CONFLICT DO NOTHING` of `loadRuleState`. -/
def ensure (rows : RuleStates F) (key : RuleKey) : RuleStates F :=
  if (rows.get? key).isNone then rows.set key .initial else rows

/-- `UPDATE alert_rule_states` of `Apply`, which leaves `active`. -/
def save (rows : RuleStates F) (key : RuleKey) (state : RuleState F) : RuleStates F :=
  match rows.get? key with
  | some row => rows.set key { state with active := row.active }
  | none => rows

/-- `MarkApplied`. -/
def markApplied (rows : RuleStates F) (key : RuleKey) (desired : Bool) : RuleStates F :=
  match rows.get? key with
  | some row =>
    if row.desiredActive = desired then
      rows.set key { row with active := desired }
    else rows
  | none => rows

/-- One round of the loop of `Apply`. -/
def applyOne (a : Applying F) (e : Evaluation F) : Applying F :=
  let order := if (a.latestEvaluations.get? e.key).isNone then
    a.order ++ [e.key] else a.order
  -- `loadRuleState`, the first time the key comes up
  let rows := if (a.states.get? e.key).isNone then a.rows.ensure e.key
    else a.rows
  let state := (a.states.get? e.key).getD ((rows.get? e.key).getD .initial)
  let latest := a.latestEvaluations.set e.key e
  if e.sampleBased && decide (e.evaluatedAt ≤ state.lastEvaluatedAt) then
    ⟨rows, a.states.set e.key state, latest, order⟩
  else
    let state := state.evaluated e
    ⟨rows.save e.key state, a.states.set e.key state, latest, order⟩

/-- The transition of a key, if its alert is not as it should be. -/
def transitionOf (a : Applying F) (key : RuleKey) : Option (Transition F) :=
  match a.states.get? key, a.latestEvaluations.get? key with
  | some state, some e =>
    if state.desiredActive ≠ state.active then some ⟨e, state.desiredActive⟩
    else none
  | _, _ => none

/-- `Apply`: the rows it leaves and the transitions it answers. -/
def apply (rows : RuleStates F) (evaluations : List (Evaluation F)) :
    RuleStates F × List (Transition F) :=
  let a := evaluations.foldl applyOne ⟨rows, Table.empty, Table.empty, []⟩
  (a.rows, a.order.filterMap (transitionOf a))

end RuleStates

/-- One round of `deduplicateTransitions`: the latest transitions, and
the keys in the order they came. -/
def deduplicateOne {F : Type} (seen : Hash RuleKey (Transition F) × List RuleKey)
    (value : Transition F) : Hash RuleKey (Transition F) × List RuleKey :=
  (seen.1.set value.key value,
    if (seen.1.get? value.key).isNone then seen.2 ++ [value.key] else seen.2)

/-- `deduplicateTransitions`. -/
def deduplicateTransitions {F : Type} (values : List (Transition F)) : List (Transition F) :=
  let seen := values.foldl deduplicateOne (Table.empty, [])
  seen.2.filterMap seen.1.get?

-- ======== scans

/-- The database calls of a scan. -/
inductive ScanOp where
  | snapshot
  | apply
  | alert (key : RuleKey)
  | mark (key : RuleKey)
  deriving DecidableEq

inductive ScanError where
  | snapshot
  | apply
  | alert (e : AlertError)
  | mark
  | joined (failures : List ScanError)

/-- The tables a scan works on. -/
structure Store (F : Type) where
  rules : RuleStates F
  alerts : Alerts

/-- What a scan brings along; the alert calls by key. -/
structure ScanInput where
  now : Int
  snapshot : RuleSnapshot
  alertAt : RuleKey → Int
  alertTie : RuleKey → String → Nat
  alertID : RuleKey → String

section Scan

variable {F : Type} (percent : Percent F) (input : ScanInput)

abbrev Scan (F α : Type) := Proc ScanOp (Store F) ScanError α

/-- The alert call of a transition. -/
def transitionCall (t : Transition F) (alerts : Alerts) : Except AlertError Alerts :=
  if t.desiredActive then
    alerts.raise (input.alertAt t.key) t.evaluation.event
      (input.alertTie t.key) (input.alertID t.key)
  else alerts.resolve (input.alertAt t.key) t.key.alert

/-- `applyTransition`. -/
def applyTransition (t : Transition F) : Scan F Unit :=
  .op (.alert t.key) (.alert .database) fun s =>
    match transitionCall input t s.alerts with
    | .ok alerts => (.ok (), { s with alerts })
    | .error e => (.error (.alert e), s)

/-- The call of `MarkApplied`. -/
def markApplied (t : Transition F) : Scan F Unit :=
  .write (.mark t.key) .mark fun s =>
    { s with rules := s.rules.markApplied t.key t.desiredActive }

/-- One round of the loop of `Scan`, with what failed in it. -/
def settle (t : Transition F) : Scan F (List ScanError) := do
  match ← (applyTransition input t).attempt with
  | .error e => pure [e]
  | .ok _ =>
    match ← (markApplied t).attempt with
    | .error e => pure [e]
    | .ok _ => pure []

/-- The loop of `Scan`. -/
def settleAll : List (Transition F) → Scan F (List ScanError)
  | [] => pure []
  | t :: rest => do
    let failures ← settle input t
    let later ← settleAll rest
    pure (failures ++ later)

/-- `RuleEngine.Scan`. -/
def scan : Scan F Unit := do
  let snapshot ← .read .snapshot .snapshot fun _ => .ok input.snapshot
  let transitions ← .op .apply .apply fun s =>
    let applied := s.rules.apply (evaluateSnapshot percent snapshot input.now)
    (.ok applied.2, { s with rules := applied.1 })
  let failures ← settleAll input (deduplicateTransitions transitions)
  if failures.isEmpty then pure () else .fail (.joined failures)

end Scan

-- ======== histories

/-- A scan, with what becomes of its calls, or a call of the alert
service by another part of the platform. -/
inductive Op where
  | scan (input : ScanInput) (ahead : Ahead ScanOp)
  | alert (call : Alerting.Call)

/-- The time of an operation. -/
def Op.now : Op → Int
  | .scan input _ => input.now
  | .alert call => call.now

/-- The tables after an operation. -/
def Store.step {F : Type} (percent : Percent F) (s : Store F) : Op → Store F
  | .scan input ahead => (Ops.scan percent input).leaves ahead s
  | .alert call => { s with alerts := call.step s.alerts }

end Yunling.Ops
