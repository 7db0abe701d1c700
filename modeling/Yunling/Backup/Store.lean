/-
Backup runs and restore verifications in their tables, and the calls that
claim and mark them (`internal/backup/postgres.go`).

A claim takes the first row that is due, or whose lease has ended, and
gives it a lease. A mark is one `UPDATE` guarded by the row's status; a
guard that is not met is an invalid transition.

# What is left out

The columns only requests write and nothing here reads (`trigger_type`,
`scheduled_for` of a run, `idempotency_key`, `requested_by`) and
`updated_at`. `SKIP LOCKED` passes over rows another transaction holds: a
claim brings along which ones (`locked`).
-/
import Yunling.Lib.OrderBy
import Yunling.Schema

namespace Yunling.Backup

open Relational

/-- One day. -/
def day : Int := 24 * 60 * minute

inductive StoreError where
  | invalidRequest | invalidTransition | database
  deriving DecidableEq

/-- The longest prefix of whole characters within so many bytes. -/
def takeBytes : Nat → List Char → List Char
  | _, [] => []
  | n, c :: cs =>
    if c.utf8Size ≤ n then c :: takeBytes (n - c.utf8Size) cs else []

/-- `truncate`. -/
def truncate (value : String) (maximum : Nat) : String :=
  String.ofList (takeBytes maximum value.toList)

-- ======== claims and marks

/-- The condition of `lease_until <= $1`, which a missing lease does not
meet. -/
def leaseEnded (leaseUntil : Option Int) (now : Int) : Bool :=
  match leaseUntil with
  | some ends => decide (ends ≤ now)
  | none => false

section Rows

variable {ρ : Type} {key : ρ → String} {order : ρ → ρ → Prop}

/-- The first row that is due. -/
def firstDue (t : Table ρ String key) (due : ρ → Bool) (order : ρ → ρ → Prop)
    [DecidableRel order] : Option ρ :=
  ((t.rows.filter due).insertionSort order).head?

/-- `ClaimBackup` and `ClaimVerification`: the rows a claim leaves and
the row it answers. The index on the leased rows refuses a second one. -/
def claimRow (t : Table ρ String key) (lease : Int) (due leased : ρ → Bool)
    (order : ρ → ρ → Prop) [DecidableRel order] (claimed : ρ → ρ)
    (hkey : ∀ r, key (claimed r) = key r) : Except StoreError (Table ρ String key × Option ρ) :=
  if lease ≤ 0 then .error .invalidRequest
  else
    match firstDue t due order with
    | none => .ok (t, none)
    | some row =>
      if t.rows.any fun r => key r ≠ key row && leased r then
        .error .database
      else .ok (t.update (fun r => key r = key row) claimed hkey, some (claimed row))

theorem firstDue_eq_some {t : Table ρ String key} {due : ρ → Bool} [DecidableRel order]
    [Std.Total order] [IsTrans ρ order] {row : ρ} (h : firstDue t due order = some row) :
    t.find? (key row) = some row ∧ due row = true := by
  obtain ⟨hmem, hdue⟩ := List.mem_filter.mp (OrderBy.head?_insertionSort h).1
  exact ⟨t.find?_eq_some.mpr ⟨hmem, rfl⟩, hdue⟩

theorem claimRow_eq_some {t t' : Table ρ String key} {lease : Int} {due leased : ρ → Bool}
    [DecidableRel order] [Std.Total order] [IsTrans ρ order]
    {claimed : ρ → ρ} {hkey : ∀ r, key (claimed r) = key r} {answer : ρ}
    (h : claimRow t lease due leased order claimed hkey = .ok (t', some answer)) :
    ∃ row, t.find? (key answer) = some row ∧ due row = true ∧ answer = claimed row
      ∧ t' = t.update (fun r => key r = key answer) claimed hkey := by
  unfold claimRow at h
  split at h
  · cases h
  split at h
  · cases h
  next row hfirst =>
  split at h
  · cases h
  obtain ⟨rfl, hanswer⟩ := Prod.mk.inj (Except.ok.inj h)
  cases hanswer
  obtain ⟨hrow, hdue⟩ := firstDue_eq_some hfirst
  refine ⟨row, ?_, hdue, rfl, ?_⟩
  · rw [hkey]
    exact hrow
  · simp only [hkey]

/-- `transition`: an `UPDATE` of one row by its id and a guard. -/
def transition (t : Table ρ String key) (id : String) (guard : ρ → Bool)
    (write : ρ → ρ) (hkey : ∀ r, key (write r) = key r) : Except StoreError (Table ρ String key) :=
  match t.find? id with
  | some row =>
    if guard row then
      .ok (t.update (fun r => decide (key r = id) && guard r) write hkey)
    else .error .invalidTransition
  | none => .error .invalidTransition

end Rows

-- ======== backup_runs

/-- `BackupRun.Status`. -/
inductive Status where
  | queued | exporting | snapshotting | uploading
  | succeeded | degraded | failed
  deriving DecidableEq

/-- `status IN ('exporting','snapshotting','uploading')`. -/
def Status.active : Status → Bool
  | .exporting | .snapshotting | .uploading => true
  | _ => false

/-- A row of `backup_runs`. -/
structure BackupRun where
  id : String
  status : Status
  localSnapshotID : String
  cosSnapshotID : String
  manifestSHA256 : String
  byteSize : Int
  objectCount : Int
  attempts : Nat
  nextAttemptAt : Int
  leaseUntil : Option Int
  errorMessage : String
  startedAt : Option Int
  finishedAt : Option Int
  createdAt : Int
  deriving DecidableEq

/-- `SnapshotResult`. -/
structure SnapshotResult where
  snapshotID : String
  manifestSHA256 : String
  byteSize : Int
  objectCount : Int
  deriving DecidableEq

namespace BackupRun

/-- The rows `ClaimBackup` looks for. -/
def claimable (now : Int) (run : BackupRun) : Bool :=
  (run.status.active && leaseEnded run.leaseUntil now)
    || ((run.status = .queued || run.status = .degraded) && decide (run.nextAttemptAt ≤ now))

/-- What `ClaimBackup` writes. -/
def claimed (now ends : Int) (run : BackupRun) : BackupRun :=
  { run with
    status := if run.localSnapshotID ≠ "" then .uploading else .exporting
    attempts := run.attempts + 1
    leaseUntil := some ends
    startedAt := some (run.startedAt.getD now)
    errorMessage := "" }

theorem claimed_id (now ends : Int) (run : BackupRun) : (run.claimed now ends).id = run.id := rfl

/-- `backup_runs_active_lease_idx` has the row. -/
def leased (run : BackupRun) : Bool :=
  run.status.active && run.leaseUntil.isSome

/-- The order of the candidates of a claim. -/
abbrev ClaimOrder : BackupRun → BackupRun → Prop :=
  OrderBy.Lex (fun r => if r.status.active then 0 else 1)
    (OrderBy.Lex nextAttemptAt (OrderBy.Lex createdAt (OrderBy.Asc id)))

end BackupRun

/-- The calls that mark a run. -/
inductive Mark where
  | localSnapshot (result : SnapshotResult)
  | succeeded (cosSnapshotID : String) (now : Int)
  | degraded (message : String) (retryAt : Int)
  | failed (message : String) (now : Int)
  deriving DecidableEq

namespace Mark

/-- The arguments `MarkLocalSnapshot` and `MarkBackupSucceeded` check. -/
def valid : Mark → Bool
  | .localSnapshot result => result.snapshotID ≠ ""
      && result.manifestSHA256 ≠ "" && decide (0 ≤ result.byteSize)
      && decide (0 ≤ result.objectCount)
  | .succeeded cosSnapshotID _ => !blank cosSnapshotID
  | .degraded .. => true
  | .failed .. => true

/-- The `WHERE` of the call. -/
def guard (mark : Mark) (run : BackupRun) : Bool :=
  match mark with
  | .localSnapshot _ => run.status = .exporting || run.status = .snapshotting
  | .succeeded .. => run.status = .uploading && run.localSnapshotID ≠ ""
  | .degraded .. => run.status = .uploading && run.localSnapshotID ≠ ""
  | .failed .. => run.status.active

/-- The `SET` of the call. -/
def write (mark : Mark) (run : BackupRun) : BackupRun :=
  match mark with
  | .localSnapshot result =>
    { run with
      status := .uploading
      localSnapshotID := result.snapshotID
      manifestSHA256 := result.manifestSHA256
      byteSize := result.byteSize
      objectCount := result.objectCount }
  | .succeeded cosSnapshotID now =>
    { run with
      status := .succeeded
      cosSnapshotID
      leaseUntil := none
      errorMessage := ""
      finishedAt := some now }
  | .degraded message retryAt =>
    { run with
      status := .degraded
      nextAttemptAt := retryAt
      leaseUntil := none
      errorMessage := truncate message 4096 }
  | .failed message now =>
    { run with
      status := .failed
      leaseUntil := none
      errorMessage := truncate message 4096
      finishedAt := some now }

theorem write_id (mark : Mark) (run : BackupRun) : (mark.write run).id = run.id := by
  cases mark <;> rfl

end Mark

abbrev BackupRuns := Table BackupRun String BackupRun.id

namespace BackupRuns

/-- `ClaimBackup`. -/
def claim (t : BackupRuns) (now lease : Int) (locked : String → Bool) :
    Except StoreError (BackupRuns × Option BackupRun) :=
  claimRow t lease (fun r => r.claimable now && !locked r.id) BackupRun.leased BackupRun.ClaimOrder
    (BackupRun.claimed now (now + lease))
    (BackupRun.claimed_id now (now + lease))

/-- `MarkLocalSnapshot`, `MarkBackupSucceeded`, `MarkBackupDegraded` and
`MarkBackupFailed`. -/
def mark (t : BackupRuns) (id : String) (mark : Mark) : Except StoreError BackupRuns :=
  if mark.valid then transition t id mark.guard mark.write mark.write_id
  else .error .invalidRequest

end BackupRuns

-- ======== restore_verifications

/-- `RestoreVerification.Status`. -/
inductive VerificationStatus where
  | queued | restoring | checking | succeeded | failed
  deriving DecidableEq

/-- `status IN ('restoring','checking')`. -/
def VerificationStatus.active : VerificationStatus → Bool
  | .restoring | .checking => true
  | _ => false

/-- A row of `restore_verifications`. -/
structure RestoreVerification where
  id : String
  backupRunID : String
  status : VerificationStatus
  scheduledFor : Option Int
  temporaryDatabase : String
  migrationVersion : String
  checkedObjects : Int
  leaseUntil : Option Int
  errorMessage : String
  startedAt : Option Int
  finishedAt : Option Int
  createdAt : Int
  deriving DecidableEq

namespace RestoreVerification

/-- The rows `ClaimVerification` looks for. -/
def claimable (now : Int) (v : RestoreVerification) : Bool :=
  (v.status = .queued && match v.scheduledFor with
    | none => true
    | some slot => decide (slot ≤ now))
    || (v.status.active && leaseEnded v.leaseUntil now)

/-- What `ClaimVerification` writes. -/
def claimed (now ends : Int) (v : RestoreVerification) : RestoreVerification :=
  { v with
    status := .restoring
    leaseUntil := some ends
    startedAt := some (v.startedAt.getD now)
    errorMessage := "" }

theorem claimed_id (now ends : Int) (v : RestoreVerification) :
    (v.claimed now ends).id = v.id := rfl

/-- `restore_verifications_active_lease_idx` has the row. -/
def leased (v : RestoreVerification) : Bool :=
  v.status.active && v.leaseUntil.isSome

/-- The order of the candidates of a claim. -/
abbrev ClaimOrder : RestoreVerification → RestoreVerification → Prop :=
  OrderBy.Lex (fun v => if v.status.active then 0 else 1) (OrderBy.Lex createdAt (OrderBy.Asc id))

end RestoreVerification

/-- `VerificationResult`, with the time of `CompleteVerification`. -/
structure VerificationResult where
  temporaryDatabase : String
  migrationVersion : String
  checkedObjects : Int
  errorMessage : String
  now : Int
  deriving DecidableEq

namespace VerificationResult

/-- The `WHERE` of `CompleteVerification`. -/
def guard (_ : VerificationResult) (v : RestoreVerification) : Bool :=
  v.status.active

/-- The `SET` of `CompleteVerification`. -/
def write (result : VerificationResult) (v : RestoreVerification) : RestoreVerification :=
  { v with
    status := if blank result.errorMessage then .succeeded else .failed
    temporaryDatabase := result.temporaryDatabase
    migrationVersion := result.migrationVersion
    checkedObjects := result.checkedObjects
    leaseUntil := none
    errorMessage := truncate result.errorMessage 4096
    finishedAt := some result.now }

theorem write_id (result : VerificationResult) (v : RestoreVerification) :
    (result.write v).id = v.id := rfl

end VerificationResult

abbrev RestoreVerifications :=
  Table RestoreVerification String RestoreVerification.id

namespace RestoreVerifications

/-- `ClaimVerification`. -/
def claim (t : RestoreVerifications) (now lease : Int) (locked : String → Bool) :
    Except StoreError (RestoreVerifications × Option RestoreVerification) :=
  claimRow t lease (fun v => v.claimable now && !locked v.id)
    RestoreVerification.leased RestoreVerification.ClaimOrder
    (RestoreVerification.claimed now (now + lease))
    (RestoreVerification.claimed_id now (now + lease))

/-- `CompleteVerification`. -/
def complete (t : RestoreVerifications) (id : String) (result : VerificationResult) :
    Except StoreError RestoreVerifications :=
  transition t id result.guard result.write result.write_id

end RestoreVerifications

end Yunling.Backup
