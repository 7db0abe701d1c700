/-
Alerts and the service that raises, acknowledges and resolves them
(`internal/alert/service.go`, `internal/alert/postgres.go`).

An alert belongs to a resource type, a resource id and a code; together
they are its key. `Raise` counts another occurrence on an open alert of
the key that was last seen within the window, and otherwise inserts a new
one. `Resolve` closes one alert of the key, the one last seen.

# What the database decides

`MergeOrCreate` orders its candidates by `last_occurred_at` alone. The
order of candidates last seen at one instant is the database's choice, so
a call brings it along (`tie`), and the id `gen_random_uuid` draws.
Columns nothing reads (`created_at`, `updated_at`) are left out, and so is
the trigger that queues notifications: it writes to another table.
-/
import Yunling.Lib.OrderBy
import Yunling.Lib.Transition
import Yunling.Schema

namespace Yunling.Alerting

open Relational

-- ======== alerts

/-- `alert.Severity`; the type is text, so other texts reach `Raise`. -/
inductive Severity where
  | info | warning | critical
  | other (text : String)
  deriving DecidableEq

/-- `alert.Status`. -/
inductive Status where
  | opened | acknowledged | resolved
  deriving DecidableEq

/-- Errors of the service (`ErrInvalidEvent`, `ErrAlertNotFound`), and
what the database refuses. -/
inductive AlertError where
  | invalidEvent | alertNotFound | database
  deriving DecidableEq

/-- What an alert is about. -/
structure Key where
  resourceType : String
  resourceID : String
  code : String
  deriving DecidableEq

/-- `alert.Event`. -/
structure Event where
  resourceType : String
  resourceID : String
  code : String
  severity : Severity
  title : String
  message : String
  deriving DecidableEq

def Event.key (event : Event) : Key where
  resourceType := event.resourceType
  resourceID := event.resourceID
  code := event.code

/-- A row of `alerts`. -/
structure Alert where
  id : String
  event : Event
  status : Status
  occurrences : Nat
  firstOccurredAt : Int
  lastOccurredAt : Int
  acknowledgedBy : Option String
  acknowledgedAt : Option Int
  resolvedAt : Option Int
  deriving DecidableEq

namespace Alert

def key (a : Alert) : Key := a.event.key

/-- `status IN ('open', 'acknowledged')`. -/
def unresolved (a : Alert) : Bool :=
  a.status = .opened || a.status = .acknowledged

/-- An unresolved alert of a key. -/
def unresolvedOf (k : Key) (a : Alert) : Bool :=
  decide (a.key = k) && a.unresolved

/-- An open alert of a key that was seen since. -/
def mergeable (k : Key) (mergeSince : Int) (a : Alert) : Bool :=
  decide (a.key = k) && decide (a.status = .opened) && decide (mergeSince ≤ a.lastOccurredAt)

/-- Another occurrence. -/
def merged (event : Event) (occurredAt : Int) (a : Alert) : Alert :=
  { a with
    occurrences := a.occurrences + 1
    event := { a.event with
      severity := event.severity
      title := event.title
      message := event.message }
    lastOccurredAt := occurredAt }

/-- The first occurrence, with the defaults of the columns. -/
def created (id : String) (event : Event) (occurredAt : Int) : Alert where
  id
  event
  status := .opened
  occurrences := 1
  firstOccurredAt := occurredAt
  lastOccurredAt := occurredAt
  acknowledgedBy := none
  acknowledgedAt := none
  resolvedAt := none

end Alert

-- ======== repository

abbrev Alerts := Table Alert String Alert.id

namespace Alerts

/-- The order of `MergeOrCreate`: `last_occurred_at DESC`, and the
database's own among equals. -/
abbrev MergeOrder (tie : String → Nat) : Alert → Alert → Prop :=
  OrderBy.Lex (fun a => -a.lastOccurredAt) (OrderBy.Asc fun a => tie a.id)

/-- The order of `Resolve`: `last_occurred_at DESC, id DESC`. -/
abbrev ResolveOrder : Alert → Alert → Prop :=
  OrderBy.Lex (fun a => -a.lastOccurredAt) (OrderBy.Asc fun a => OrderDual.toDual a.id)

/-- The alert another occurrence is counted on. -/
def mergeTarget (t : Alerts) (k : Key) (mergeSince : Int) (tie : String → Nat) : Option Alert :=
  ((t.rows.filter (Alert.mergeable k mergeSince)).insertionSort (MergeOrder tie)).head?

/-- `MergeOrCreate`. -/
def mergeOrCreate (t : Alerts) (event : Event) (occurredAt mergeSince : Int)
    (tie : String → Nat) (id : String) : Except AlertError Alerts :=
  match t.mergeTarget event.key mergeSince tie with
  | some target =>
    .ok (t.update (fun a => a.id = target.id) (Alert.merged event occurredAt) fun _ => rfl)
  | none =>
    match t.insert? (Alert.created id event occurredAt) with
    | some t => .ok t
    | none => .error .database

/-- The alert `Resolve` closes. -/
def resolveTarget (t : Alerts) (k : Key) : Option Alert :=
  ((t.rows.filter (Alert.unresolvedOf k)).insertionSort ResolveOrder).head?

/-- `PostgresRepository.Resolve`. -/
def resolveRow (t : Alerts) (k : Key) (at' : Int) : Alerts :=
  match t.resolveTarget k with
  | some target =>
    t.update (fun a => a.id = target.id)
      (fun a => { a with status := .resolved, resolvedAt := some at' })
      fun _ => rfl
  | none => t

/-- `PostgresRepository.Acknowledge`; `users` is the table the column
refers to. -/
def acknowledgeRow (t : Alerts) (users : List String) (id userID : String)
    (at' : Int) : Except AlertError Alerts :=
  if t.rows.any fun a => a.id = id && a.status = .opened then
    if userID ∈ users then
      .ok (t.update (fun a => a.id = id && a.status = .opened) (fun a => { a with
          status := .acknowledged
          acknowledgedBy := some userID
          acknowledgedAt := some at' }) fun _ => rfl)
    else .error .database
  else .error .alertNotFound

end Alerts

-- ======== service

/-- `Service.window`. -/
def window : Int := 5 * minute

/-- `validEvent`. -/
def validEvent (event : Event) : Bool :=
  let validSeverity := event.severity = .info || event.severity = .warning
    || event.severity = .critical
  !blank event.resourceType && !blank event.resourceID
    && !blank event.code && !blank event.title && validSeverity

namespace Alerts

/-- `Service.Raise`. -/
def raise (t : Alerts) (now : Int) (event : Event) (tie : String → Nat)
    (id : String) : Except AlertError Alerts :=
  if validEvent event then
    t.mergeOrCreate event now (now - window) tie id
  else .error .invalidEvent

/-- `Service.Acknowledge`. -/
def acknowledge (t : Alerts) (now : Int) (users : List String)
    (id userID : String) : Except AlertError Alerts :=
  if blank id || blank userID then .error .invalidEvent
  else t.acknowledgeRow users id userID now

/-- `Service.Resolve`. -/
def resolve (t : Alerts) (now : Int) (k : Key) : Except AlertError Alerts :=
  if blank k.resourceType || blank k.resourceID || blank k.code then
    .error .invalidEvent
  else .ok (t.resolveRow k now)

end Alerts

/-- The calls of the service, each with its time and what the database
decides in it. -/
inductive Call where
  | raise (now : Int) (event : Event) (tie : String → Nat) (id : String)
  | acknowledge (now : Int) (users : List String) (id userID : String)
  | resolve (now : Int) (key : Key)

namespace Call

/-- The time of a call. -/
def now : Call → Int
  | .raise now _ _ _ => now
  | .acknowledge now _ _ _ => now
  | .resolve now _ => now

/-- What a call answers. -/
def answer (t : Alerts) : Call → Except AlertError Alerts
  | .raise now event tie id => t.raise now event tie id
  | .acknowledge now users id userID => t.acknowledge now users id userID
  | .resolve now key => t.resolve now key

/-- The alerts after a call; one that fails leaves them. -/
def step (t : Alerts) (call : Call) : Alerts :=
  match call.answer t with
  | .ok t => t
  | .error _ => t

end Call

end Yunling.Alerting
