/-
Run events reported by agents (`internal/task/event_service.go`, with
`internal/agentprotocol/usage.go` for the usage samples they carry).

An event names the run, the execution token of the assignment it speaks
for and its own number in that execution. `applyRunEvent` accepts it in
one transaction, in this order: the run exists; its token is the
event's; a number already stored is a replay (harmless when it says the
same, a conflict otherwise); the number is the next one; the state
machine (`validAgentTransition`) allows the move.

# What a replay is compared on

The stored type, exit code, message and usage sample. The instant of the
event and the automatic retry marker are not compared.
-/
import Yunling.Schema

namespace Yunling

-- ======== usage samples

namespace ResourceUsage

/-- The four counters, in the order the checks walk them. -/
def counters (u : ResourceUsage) : List (Option Int) :=
  [u.cpuTimeMillis, u.memoryBytes, u.peakMemoryBytes, u.processes]

/-- `ResourceUsage.Valid`: sampled at some instant, no counter negative,
and at least one counter present. -/
def valid (u : ResourceUsage) : Bool :=
  u.sampledAt != zeroTime && u.counters.all (fun v => v.all (0 ≤ ·)) && u.counters.any (·.isSome)

end ResourceUsage

-- ======== the wire event

/-- `agentprotocol.RunEvent`. -/
structure AgentRunEvent where
  runID : String
  executionToken : String
  sequence : Nat
  type : String
  exitCode : Int
  message : String
  usage : Option ResourceUsage
  occurredAt : Int
  deriving DecidableEq

/-- `stateForAgentEvent`. -/
def stateForAgentEvent (eventType : String) : Option RunState :=
  if eventType = "started" then some .running
  else if eventType = "succeeded" then some .succeeded
  else if eventType = "failed" then some .failed
  else if eventType = "timed_out" then some .timedOut
  else if eventType = "cancelled" then some .cancelled
  else none

/-- An agent event either starts a run or ends it. -/
theorem stateForAgentEvent_cases {t : String} {s : RunState} (h : stateForAgentEvent t = some s) :
    s = .running ∨ s.terminal = true := by
  unfold stateForAgentEvent at h
  repeat' split at h
  all_goals first
    | cases h; exact Or.inl rfl
    | cases h; exact Or.inr rfl
    | cases h

/-- `validAgentTransition`. -/
def validAgentTransition (source target : RunState) : Bool :=
  if source = target then true
  else if target = .running then
    source = .assigned || source = .syncing || source = .unknown
  else
    target.terminal && (source = .assigned || source = .syncing
      || source = .running || source = .unknown)

/-- What the transition table allows: staying put, or leaving an active
or unknown state for `running` or a terminal one. -/
theorem validAgentTransition_cases {s s' : RunState} (h : validAgentTransition s s' = true) :
    s = s' ∨ ((s.active = true ∨ s = .unknown) ∧ (s' = .running ∨ s'.terminal = true)) := by
  revert h
  cases s <;> cases s' <;> decide

-- ======== the transaction

namespace AgentRunEvent

/-- The events stored for the execution a wire event speaks for. -/
def sameExecution (event : AgentRunEvent) (e : RunEvent) : Bool :=
  e.taskRunId == event.runID && e.executionToken == some event.executionToken

/-- The stored event under the same number. -/
def stored (event : AgentRunEvent) (db : Database) : Option RunEvent :=
  db.events.find? fun e =>
    event.sameExecution e && e.agentSequence == some event.sequence

/-- A replay says what the stored event says. -/
def agrees (event : AgentRunEvent) (existing : RunEvent) : Bool :=
  existing.eventType == "run." ++ event.type && existing.payload.exitCode.getD 0 == event.exitCode
    && existing.payload.message.getD "" == event.message
    && existing.payload.usage == event.usage

/-- `COALESCE(MAX(agent_sequence),0)+1` over the execution's events. -/
def expectedSequence (event : AgentRunEvent) (db : Database) : Nat :=
  ((db.events.filter event.sameExecution).map
    fun e => e.agentSequence.getD 0).foldl max 0 + 1

/-- The row `INSERT INTO run_events` adds. The automatic retry intent is
decided by the state the run is leaving. -/
def row (event : AgentRunEvent) (db : Database) (current state : RunState) : RunEvent where
  taskRunId := event.runID
  sequence := db.nextSequence event.runID
  eventType := "run." ++ event.type
  state
  payload := {
    message := some event.message
    exitCode := some event.exitCode
    usage := event.usage
    automaticRetry := some (!current.terminal && (state == .failed || state == .timedOut)) }
  occurredAt := event.occurredAt
  executionToken := some event.executionToken
  agentSequence := some event.sequence

/-- The `UPDATE task_runs` of an accepted event. -/
def record (event : AgentRunEvent) (state : RunState) (r : TaskRun) : TaskRun :=
  { r with
    state
    startedAt :=
      if state = .running then r.startedAt.or (some event.occurredAt)
      else r.startedAt
    finishedAt :=
      if state.terminal then some event.occurredAt else r.finishedAt
    exitCode := if state.terminal then some event.exitCode else r.exitCode
    processConfirmedGone := state.terminal
    updatedAt := event.occurredAt }

/-- The writes of an accepted event: the event, the run, and on a
terminal state the run's leases. -/
def commit (event : AgentRunEvent) (db : Database) (current state : RunState) : Database :=
  let logged := { db with
    events := db.events ++ [event.row db current state] }
  let updated := logged.updateRun event.runID (event.record state)
    fun _ => rfl
  if state.terminal then
    updated.releaseLeases event.runID event.occurredAt
  else updated

end AgentRunEvent

/-- `PostgresRunEventStore.ApplyRunEvent`. -/
def applyRunEvent (event : AgentRunEvent) (state : RunState) : Tx Bool :=
  fun db =>
    match db.runs.find? event.runID with
    | none => .error .runNotFound
    | some current =>
      if current.token ≠ event.executionToken then
        .error .executionTokenMismatch
      else match event.stored db with
        | some existing =>
          if event.agrees existing then .ok (false, db)
          else .error .runEventConflict
        | none =>
          if event.sequence ≠ event.expectedSequence db then
            .error .runEventSequence
          else if validAgentTransition current.state state = false then
            .error .invalidRunEvent
          else .ok (true, event.commit db current.state state)

/-- An event without an instant takes the one it arrives at. -/
def AgentRunEvent.dated (event : AgentRunEvent) (now : Int) : AgentRunEvent :=
  { event with
    occurredAt :=
      if event.occurredAt = zeroTime then now else event.occurredAt }

/-- `EventService.Apply`, at the instant `now`; the result says whether
the event was new. -/
def eventServiceApply (now : Int) (event : AgentRunEvent) : Tx Bool :=
  fun db =>
    match stateForAgentEvent event.type with
    | none => .error .invalidRunEvent
    | some state =>
      if blank event.runID || blank event.executionToken
          || event.sequence == 0 || event.usage.any (!·.valid) then
        .error .invalidRunEvent
      else applyRunEvent (event.dated now) state db

end Yunling
