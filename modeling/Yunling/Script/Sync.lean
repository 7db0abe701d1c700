/-
The life of one row of `script_syncs` under the sync service
(`internal/script/sync_service.go`): the transfer of one script version to
one server.

`NextCommand` runs two statements on the server's rows, and other calls
may come between them: `expireTransfers` fails the transfers nobody
answered, and a transaction then claims one row and hands out its command.
They are two operations here. `RecordResult` and `RetryScript` are one
transaction each, on the locked row.

# What the row does not see

A claim that another row of the server wins, a result for another version
and a result whose ids name no row change nothing here and are no
operation of this row. The alerts raised after a commit are left out: one
that cannot be raised makes `NextCommand` return before its claim, which
is an expiry with no claim after it.
-/
import Yunling.Lib.Transition
import Yunling.Scheduler.Model
import Yunling.Schema

namespace Yunling.Script

open Scheduler (trimSpace)

/-- `SyncFailureLimit`. -/
def syncFailureLimit : Nat := 3

/-- The columns of `script_syncs` its writers set. -/
structure SyncRow where
  status : SyncState
  artifactSha256 : Option String
  errorCode : String
  errorMessage : String
  syncedAt : Option Int
  failureCount : Nat
  nextRetryAt : Option Int
  updatedAt : Int
  deriving DecidableEq

/-- `agentprotocol.SyncResult`, addressed to this row. -/
structure SyncResult where
  state : SyncState
  sha256 : String
  errorCode : String
  errorMessage : String
  deriving DecidableEq

/-- `ErrInvalidSyncResult`, `ErrSyncNotFound`. -/
inductive SyncError where
  | invalidSyncResult | syncNotFound
  deriving DecidableEq

/-- The wait after a failure that `failures` others came before: thirty
seconds, doubled for each of them. -/
def backoff (failures : Nat) : Int := 30 * 2 ^ failures * second

namespace SyncRow

/-- The row `PrepareVersion`, `prepareServer` and the scheduler insert. -/
def prepared (now : Int) : SyncRow where
  status := .pending
  artifactSha256 := none
  errorCode := ""
  errorMessage := ""
  syncedAt := none
  failureCount := 0
  nextRetryAt := none
  updatedAt := now

-- ======== NextCommand

/-- The update of `expireTransfers`. -/
def expireTransfers (row : SyncRow) (now : Int) : SyncRow :=
  if row.status = .downloading ∧ row.updatedAt < now - 2 * minute then
    { row with
      status := .failed
      artifactSha256 := none
      syncedAt := none
      errorCode := "sync_timeout"
      errorMessage := "同步命令超过 2 分钟未收到结果，请检查代理连接或下载状态"
      failureCount := min (row.failureCount + 1) syncFailureLimit
      nextRetryAt := if row.failureCount + 1 < syncFailureLimit then
        some (now + backoff row.failureCount) else none
      updatedAt := now }
  else row

/-- The rows the claim of `NextCommand` selects from. -/
def claimable (row : SyncRow) (now : Int) : Bool :=
  match row.status, row.nextRetryAt with
  | .pending, _ | .drifted, _ => true
  | .failed, some due => row.failureCount < syncFailureLimit && due ≤ now
  | _, _ => false

/-- The claim of `NextCommand`: the row once its command is handed out.
The clock is read for the selection and again for the update. -/
def claim (row : SyncRow) (now claimed : Int) : Option SyncRow :=
  if row.claimable now then
    some { row with status := .downloading, nextRetryAt := none, updatedAt := claimed }
  else none

-- ======== RetryScript

/-- `RetryScript`, for an operator. -/
def retryScript (row : SyncRow) (now : Int) : Except SyncError SyncRow :=
  match row.status with
  | .failed | .drifted =>
    .ok { row with
      status := .pending
      errorCode := ""
      errorMessage := ""
      syncedAt := none
      failureCount := 0
      nextRetryAt := none
      updatedAt := now }
  | _ => .error .syncNotFound

end SyncRow

-- ======== RecordResult

section Result

variable (fold : Char → Char) (lower : String → String) (expectedSHA : String)

/-- A result `RecordResult` takes as verified: `strings.EqualFold` of the
two digests. -/
def SyncResult.accepted (result : SyncResult) : Bool :=
  result.state == .ready && result.sha256.toList.map fold == expectedSHA.toList.map fold

/-- What `RecordResult` stores a failure as: one more of them, with the
next attempt's instant below the limit. A row that had failed before keeps
both. -/
def SyncRow.recordFailure (row : SyncRow) (errorCode errorMessage : String) (now : Int) :
    SyncRow :=
  { row with
    status := .failed
    artifactSha256 := none
    errorCode
    errorMessage
    syncedAt := none
    failureCount := if row.status = .failed then row.failureCount else row.failureCount + 1
    nextRetryAt := if row.status = .failed then row.nextRetryAt
      else if row.failureCount + 1 < syncFailureLimit then some (now + backoff row.failureCount)
      else none
    updatedAt := now }

/-- `RecordResult`, its clock read once. The states of an unfinished
transfer are what `validResultState` refuses. -/
def SyncRow.recordResult (row : SyncRow) (result : SyncResult) (now : Int) :
    Except SyncError SyncRow :=
  let errorCode := String.ofList (trimSpace result.errorCode)
  let errorMessage := String.ofList (trimSpace result.errorMessage)
  match result.state with
  | .ready =>
    if result.accepted fold expectedSHA then
      .ok { row with
        status := .ready
        artifactSha256 := some (lower expectedSHA)
        errorCode
        errorMessage
        syncedAt := some now
        failureCount := 0
        nextRetryAt := none
        updatedAt := now }
    else .ok (row.recordFailure "checksum_mismatch" "服务器返回的脚本校验值与中央版本不一致" now)
  | .failed => .ok (row.recordFailure errorCode errorMessage now)
  | .drifted =>
    -- a drift report does not disturb a failed transfer
    if row.status = .failed then .ok row
    else
      .ok { row with
        status := .drifted
        artifactSha256 := none
        errorCode
        errorMessage
        syncedAt := none
        updatedAt := now }
  | .pending | .downloading => .error .invalidSyncResult

-- ======== histories

/-- What can reach the row. -/
inductive SyncOp where
  | expire (now : Int)
  | claim (now claimed : Int)
  | record (result : SyncResult) (now : Int)
  | retry (now : Int)

/-- A row with the commands handed out since the last operator's retry or
accepted result. -/
structure SyncHistory where
  row : SyncRow
  issued : Nat

/-- One operation. A call that fails leaves the row. -/
def SyncHistory.step (h : SyncHistory) : SyncOp → SyncHistory
  | .expire now => { h with row := h.row.expireTransfers now }
  | .claim now claimed =>
    match h.row.claim now claimed with
    | some row => ⟨row, h.issued + 1⟩
    | none => h
  | .record result now =>
    match h.row.recordResult fold lower expectedSHA result now with
    | .ok row => ⟨row, if result.accepted fold expectedSHA then 0 else h.issued⟩
    | .error _ => h
  | .retry now =>
    match h.row.retryScript now with
    | .ok row => ⟨row, 0⟩
    | .error _ => h

end Result

end Yunling.Script
