/-
The reservations kept in Redis (`internal/store/redis/lease.go`).

Each server has four kinds of keys: the counters of what is reserved, the
amounts of each run, the expiry of each run, and one key per lease that
is written and never read. Three scripts work on them. A script is atomic
but not a transaction: when a command of it fails, the commands before it
keep their effect. The one that can fail after a write is `SET … PX`,
which refuses an expiry of zero milliseconds.

# Amounts

Amounts are stored as text, `cpu:memory:disk`, and matched against a
pattern when they are read back. What does not match is not subtracted
(`evict`) or refused (`restoreScript`).
-/
import Yunling.Lib.Hash
import Yunling.Scheduler.Model

namespace Yunling

open Relational OrderBy Scheduler

-- ======== amounts

/-- The fields of the `reserved` hash. -/
inductive Resource where
  | cpu | memory | disk
  deriving DecidableEq

/-- Resources by field. -/
def Resources.amount (r : Resources) : Resource → Int
  | .cpu => r.cpuMillicores
  | .memory => r.memoryBytes
  | .disk => r.diskBytes

/-- The text an amount is stored as. -/
def Resources.pack (r : Resources) : String :=
  toString r.cpuMillicores ++ ":" ++ toString r.memoryBytes ++ ":" ++ toString r.diskBytes

/-- `tonumber` of a capture of `%d+`. -/
def number? (digits : List Char) : Option Int :=
  if digits ≠ [] ∧ digits.all Char.isDigit then
    some (Nat.ofDigitChars 10 digits 0)
  else none

/-- `string.match(packed, '^(%d+):(%d+):(%d+)$')`. -/
def unpack (packed : String) : Option Resources :=
  match packed.toList.splitOn ':' with
  | [cpu, memory, disk] =>
    match number? cpu, number? memory, number? disk with
    | some cpu, some memory, some disk => some ⟨cpu, memory, disk⟩
    | _, _, _ => none
  | _ => none

-- ======== state

/-- The keys of one server. -/
structure LeaseState where
  /-- `…:reserved`; a field that is not there counts as zero -/
  reserved : Resource → Int
  /-- `…:amounts`, by run -/
  amounts : Hash String String
  /-- `…:expirations`, by run, in milliseconds -/
  expirations : Hash String Int
  /-- `…:lease:…`, by run: the lease id and its `PX` -/
  leases : Hash String (String × Int)

/-- A server nothing was reserved on. -/
def LeaseState.empty : LeaseState where
  reserved := 0
  amounts := .empty
  expirations := .empty
  leases := .empty

/-- What a script can fail with. -/
inductive ScriptError where
  /-- `invalid expire time in 'set' command` -/
  | invalidExpire
  /-- `invalid stored lease amounts` -/
  | invalidAmounts
  deriving DecidableEq

-- ======== scripts

namespace LeaseState

/-- Give back what a run has reserved and forget it: the loop body of
`reserveScript`, and all of `releaseScript` but its last command. -/
def evict (s : LeaseState) (runID : String) : LeaseState :=
  match s.amounts.get? runID with
  | none => { s with expirations := s.expirations.del runID }
  | some packed =>
    { s with
      reserved := match unpack packed with
        | some r => s.reserved - r.amount
        | none => s.reserved
      amounts := s.amounts.del runID
      expirations := s.expirations.del runID }

/-- `ZRANGEBYSCORE … '-inf' now`. -/
def expired (s : LeaseState) (now : Int) : List String :=
  ((s.expirations.rows.filter fun e => e.2 ≤ now).insertionSort (Lex (·.2) (Asc (·.1)))).map (·.1)

/-- The loop of `reserveScript`. -/
def sweep (s : LeaseState) (now : Int) : LeaseState :=
  (s.expired now).foldl evict s

/-- Reserve `r` for a run in place of `old`: the writes `reserveScript`
and `restoreScript` end with. -/
def write (s : LeaseState) (runID : String) (r : Resources)
    (old : Resource → Int) (expiry : Int) (leaseID : String) (px : Int) :
    Except ScriptError Nat × LeaseState :=
  let s := { s with
    reserved := s.reserved + (r.amount - old)
    amounts := s.amounts.set runID r.pack
    expirations := s.expirations.set runID expiry }
  if px ≤ 0 then (.error .invalidExpire, s)
  else (.ok 1, { s with leases := s.leases.set runID (leaseID, px) })

/-- `reserveScript`. -/
def reserveScript (s : LeaseState) (now : Int) (runID : String)
    (required available : Resources) (expiry : Int) (leaseID : String)
    (px : Int) : Except ScriptError Nat × LeaseState :=
  let s := s.sweep now
  if (s.amounts.get? runID).isSome then (.ok 0, s)
  else if available.cpuMillicores - s.reserved .cpu < required.cpuMillicores
      ∨ available.memoryBytes - s.reserved .memory < required.memoryBytes
      ∨ available.diskBytes - s.reserved .disk < required.diskBytes then
    (.ok 0, s)
  else s.write runID required 0 expiry leaseID px

/-- `releaseScript`. -/
def releaseScript (s : LeaseState) (runID : String) : LeaseState :=
  { s.evict runID with leases := s.leases.del runID }

/-- `restoreScript`. -/
def restoreScript (s : LeaseState) (runID : String) (r : Resources)
    (expiry : Int) (leaseID : String) (px : Int) : Except ScriptError Nat × LeaseState :=
  match s.amounts.get? runID with
  | none => s.write runID r 0 expiry leaseID px
  | some packed =>
    match unpack packed with
    | none => (.error .invalidAmounts, s)
    | some old => s.write runID r old.amount expiry leaseID px

end LeaseState

-- ======== store

/-- The keys of every server: `leaseKeys` keeps servers apart. -/
abbrev Redis := String → LeaseState

/-- Redis after data loss. -/
def Redis.empty : Redis := fun _ => .empty

/-- Run a script on one server's keys. -/
def Redis.eval {α : Type} (redis : Redis) (serverID : String)
    (script : LeaseState → α × LeaseState) : α × Redis :=
  let result := script (redis serverID)
  (result.1, Function.update redis serverID result.2)

/-- What a call can fail with. -/
inductive LeaseError where
  /-- `ErrInvalidLeaseRequest` -/
  | invalidRequest
  | script (e : ScriptError)
  deriving DecidableEq

/-- `validateRequest`. -/
def validateRequest (request : LeaseRequest) : Bool :=
  request.runID ≠ "" && request.serverID ≠ "" && 0 < request.ttl && request.now ≠ zeroTime
    && 0 < request.required.cpuMillicores
    && 0 < request.required.memoryBytes
    && 0 < request.required.diskBytes
    && 0 ≤ request.available.cpuMillicores
    && 0 ≤ request.available.memoryBytes
    && 0 ≤ request.available.diskBytes

/-- `LeaseStore.TryReserve`, with the new lease id. No lease means that
the request was refused. -/
def tryReserve (request : LeaseRequest) (leaseID : String)
    (redis : Redis) : Except LeaseError (Option Lease) × Redis :=
  if validateRequest request = false then (.error .invalidRequest, redis)
  else
    let result := redis.eval request.serverID fun s =>
      s.reserveScript (unixMilli request.now) request.runID request.required request.available
        (unixMilli (request.now + request.ttl)) leaseID (request.ttl / 1000)
    match result.1 with
    | .error e => (.error (.script e), result.2)
    | .ok reply =>
      (.ok (if reply ≠ 1 then none else some (request.lease leaseID)), result.2)

/-- `LeaseStore.Release`. -/
def release (lease : Lease) (redis : Redis) : Except LeaseError Unit × Redis :=
  if lease.runID = "" ∨ lease.serverID = "" then
    (.error .invalidRequest, redis)
  else
    redis.eval lease.serverID fun s =>
      (.ok (), s.releaseScript lease.runID)

/-- The checks of `LeaseStore.Restore`. -/
def restorable (lease : Lease) (now : Int) : Bool :=
  lease.id ≠ "" && lease.runID ≠ "" && lease.serverID ≠ "" && now ≠ zeroTime
    && 0 < lease.resources.cpuMillicores
    && 0 < lease.resources.memoryBytes
    && 0 < lease.resources.diskBytes

/-- `LeaseStore.Restore`. -/
def restore (lease : Lease) (now : Int) (redis : Redis) : Except LeaseError Unit × Redis :=
  if restorable lease now = false then (.error .invalidRequest, redis)
  else
    let ttl := lease.expiresAt - now
    if ttl ≤ 0 then (.ok (), redis)
    else
      let result := redis.eval lease.serverID fun s =>
        s.restoreScript lease.runID lease.resources
          (unixMilli lease.expiresAt) lease.id (ttl / 1000)
      match result.1 with
      | .error e => (.error (.script e), result.2)
      | .ok _ => (.ok (), result.2)

-- ======== calls

/-- The calls of the lease store. -/
inductive LeaseCall where
  | tryReserve (request : LeaseRequest) (leaseID : String)
  | release (lease : Lease)
  | restore (lease : Lease) (now : Int)

/-- What a call leaves in Redis, whatever it returns. -/
def LeaseCall.apply (redis : Redis) : LeaseCall → Redis
  | .tryReserve request leaseID =>
    (Yunling.tryReserve request leaseID redis).2
  | .release lease => (Yunling.release lease redis).2
  | .restore lease now => (Yunling.restore lease now redis).2

end Yunling
