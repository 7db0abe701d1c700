/-
The retry budget of a sync row.

Every command handed out moves the row to `downloading`, and the row must
leave it before the next one. What pays for a command is therefore what
happens on the way out:

- a failure, reported or timed out, adds one to `failure_count`;
- an accepted result starts the budget again;
- a drift report leaves the count, and the row can be claimed at once.

The first two keep the commands issued within the failures counted, plus
the transfer under way (`Budgeted`). The third does not, and nothing in
`RecordResult` keeps a drift report from a row that is downloading: the
scan that reports it does not know of the transfer. So the limit is kept
along every history that records no drift during a transfer, and four
commands go out along one that does.

The backoff needs no such condition: a failed row is claimed by its
`next_retry_at` alone.

# Replays

A report does not say which command it answers. One that comes again is
told from a new failure by the status of the row, so it costs nothing as
long as the row is failed (`replay_free_iff`), and is taken for a failure
of the next transfer once the row has been claimed again.
-/
import Yunling.Script.Sync

namespace Yunling.Script

open Transition

variable {h : SyncHistory} {row : SyncRow} {now claimed : Int}

-- ======== the budget

/-- The commands since the budget started are the failures counted and the
transfer under way; a row that has not failed has attempts left. -/
structure Budgeted (h : SyncHistory) : Prop where
  issued_le : h.issued ≤ h.row.failureCount + if h.row.status = .downloading then 1 else 0
  count_le : h.row.failureCount ≤ syncFailureLimit
  below : h.row.status ≠ .failed → h.row.failureCount < syncFailureLimit

theorem Budgeted.prepared (now : Int) : Budgeted ⟨.prepared now, 0⟩ := by
  constructor <;> simp [SyncRow.prepared, syncFailureLimit]

theorem Budgeted.issued_le_limit (hb : Budgeted h) : h.issued ≤ syncFailureLimit := by
  have hissued := hb.issued_le
  have hcount := hb.count_le
  split at hissued
  · next hdownloading =>
    have hbelow := hb.below (by rw [hdownloading]; decide)
    omega
  · omega

/-- A row whose count is reset starts a new budget. -/
theorem Budgeted.fresh (hcount : row.failureCount = 0) : Budgeted ⟨row, 0⟩ := by
  constructor <;> simp [hcount, syncFailureLimit]

/-- A failure pays for the transfer it ends. -/
theorem Budgeted.failed (hb : Budgeted h) (hstatus : h.row.status ≠ .failed)
    (hrow : row.status = .failed)
    (hcount : row.failureCount = h.row.failureCount + 1) : Budgeted ⟨row, h.issued⟩ := by
  have hissued := hb.issued_le
  have hbelow := hb.below hstatus
  refine ⟨?_, ?_, fun hne => absurd hrow hne⟩
  · show h.issued ≤ row.failureCount + _
    split at hissued <;> omega
  · show row.failureCount ≤ _
    omega

-- ======== the operations

theorem Budgeted.expire (hb : Budgeted h) (now : Int) :
    Budgeted { h with row := h.row.expireTransfers now } := by
  unfold SyncRow.expireTransfers
  split
  · next hexpired =>
    have hne : h.row.status ≠ .failed := by rw [hexpired.1]; decide
    have hbelow := hb.below hne
    refine hb.failed hne rfl ?_
    show min (h.row.failureCount + 1) syncFailureLimit = h.row.failureCount + 1
    omega
  · exact hb

theorem SyncRow.claim_eq_some {row row' : SyncRow}
    (h : row.claim now claimed = some row') : row.claimable now = true
      ∧ row' = { row with status := .downloading, nextRetryAt := none, updatedAt := claimed } := by
  unfold claim at h
  split at h
  · next hclaim => exact ⟨hclaim, (Option.some.inj h).symm⟩
  · cases h

/-- A failed row is claimed below the limit, once its wait is over. -/
theorem SyncRow.claimable_failed (h : row.claimable now = true) (hfailed : row.status = .failed) :
    row.failureCount < syncFailureLimit ∧ ∃ due, row.nextRetryAt = some due ∧ due ≤ now := by
  unfold claimable at h
  rw [hfailed] at h
  cases hdue : row.nextRetryAt with
  | none => simp [hdue] at h
  | some due => simp [hdue] at h; exact ⟨h.1, due, rfl, h.2⟩

theorem SyncRow.claimable_idle (h : row.claimable now = true) : row.status ≠ .downloading := by
  intro hstatus
  unfold claimable at h
  rw [hstatus] at h
  cases row.nextRetryAt <;> cases h

theorem Budgeted.claim (hb : Budgeted h)
    (hclaim : h.row.claim now claimed = some row) : Budgeted ⟨row, h.issued + 1⟩ := by
  obtain ⟨hclaimable, rfl⟩ := SyncRow.claim_eq_some hclaim
  have hissued := hb.issued_le
  rw [if_neg (SyncRow.claimable_idle hclaimable)] at hissued
  have hbelow : h.row.failureCount < syncFailureLimit := by
    by_cases hfailed : h.row.status = .failed
    · exact (SyncRow.claimable_failed hclaimable hfailed).1
    · exact hb.below hfailed
  refine ⟨?_, hb.count_le, fun _ => hbelow⟩
  show h.issued + 1 ≤ h.row.failureCount + 1
  omega

theorem Budgeted.recordFailure (hb : Budgeted h) (errorCode errorMessage : String) (now : Int) :
    Budgeted ⟨h.row.recordFailure errorCode errorMessage now, h.issued⟩ := by
  by_cases hfailed : h.row.status = .failed
  · -- a replay: the count stays
    have hissued := hb.issued_le
    rw [hfailed] at hissued
    refine ⟨?_, ?_, fun hne => absurd rfl hne⟩ <;>
      simp only [SyncRow.recordFailure, if_pos hfailed]
    · exact Nat.le_add_right_of_le hissued
    · exact hb.count_le
  · exact hb.failed hfailed rfl (by simp only [SyncRow.recordFailure, if_neg hfailed])

section Histories

variable (fold : Char → Char) (lower : String → String) (expectedSHA : String) {h : SyncHistory}

/-- No drift is recorded while the row is downloading. -/
def ScansBetween (h : SyncHistory) : SyncOp → Prop
  | .record result _ => result.state = .drifted → h.row.status ≠ .downloading
  | _ => True

instance (h : SyncHistory) : ∀ op, Decidable (ScansBetween h op)
  | .record result _ =>
    inferInstanceAs (Decidable (result.state = .drifted → h.row.status ≠ .downloading))
  | .expire _ | .claim _ _ | .retry _ => isTrue trivial

theorem Budgeted.record (hb : Budgeted h) {result : SyncResult} {now : Int} {row : SyncRow}
    (hscan : result.state = .drifted → h.row.status ≠ .downloading)
    (hrow : h.row.recordResult fold lower expectedSHA result now = .ok row) :
    Budgeted ⟨row, if result.accepted fold expectedSHA then 0 else h.issued⟩ := by
  unfold SyncRow.recordResult at hrow
  cases hstate : result.state with
  | pending | downloading => rw [hstate] at hrow; cases hrow
  | ready =>
    simp only [hstate] at hrow
    split at hrow
    · next haccepted =>
      cases hrow
      rw [if_pos haccepted]
      exact .fresh rfl
    · next hrejected =>
      cases hrow
      rw [if_neg hrejected]
      exact hb.recordFailure ..
  | failed =>
    simp only [hstate] at hrow
    cases hrow
    simp only [SyncResult.accepted, hstate]
    exact hb.recordFailure ..
  | drifted =>
    simp only [hstate] at hrow
    simp only [SyncResult.accepted, hstate]
    split at hrow
    · cases hrow
      exact hb
    · next hfailed =>
      cases hrow
      have hissued := hb.issued_le
      rw [if_neg (hscan hstate)] at hissued
      exact ⟨hissued, hb.count_le, fun _ => hb.below hfailed⟩

theorem Budgeted.step (hb : Budgeted h) {op : SyncOp} (hscan : ScansBetween h op) :
    Budgeted (h.step fold lower expectedSHA op) := by
  cases op with
  | expire now => exact hb.expire now
  | claim now claimed =>
    simp only [SyncHistory.step]
    split
    · next hclaim => exact hb.claim hclaim
    · exact hb
  | record result now =>
    simp only [SyncHistory.step]
    split
    · next hrow => exact hb.record fold lower expectedSHA hscan hrow
    · exact hb
  | retry now =>
    simp only [SyncHistory.step, SyncRow.retryScript]
    cases h.row.status with
    | failed | drifted => exact .fresh rfl
    | pending | downloading | ready => exact hb

/-- Along every history of a row that records no drift during a transfer,
at most `syncFailureLimit` commands go out for one budget, and a failed
row is handed out only once its wait is over. -/
theorem commands_within_budget (created : Int) (ops : List SyncOp)
    (hscans : Guarded (SyncHistory.step fold lower expectedSHA) ScansBetween
      ⟨.prepared created, 0⟩ ops) :
    let h := run (SyncHistory.step fold lower expectedSHA) ⟨.prepared created, 0⟩ ops
    h.issued ≤ syncFailureLimit
      ∧ ∀ now claimed row, h.row.claim now claimed = some row → h.row.status = .failed →
        ∃ due, h.row.nextRetryAt = some due ∧ due ≤ now := by
  have hb := Guarded.invariant (I := Budgeted)
    (fun _ _ hb hscan => hb.step fold lower expectedSHA hscan) (.prepared created) hscans
  refine ⟨hb.issued_le_limit, fun now claimed row hclaim hfailed => ?_⟩
  exact (SyncRow.claimable_failed (SyncRow.claim_eq_some hclaim).1 hfailed).2

end Histories

/-- A report with nothing in it but its state. -/
def reported (state : SyncState) : SyncResult := ⟨state, "", "", ""⟩

/-- Three transfers fail, two by their agent's word and one by silence. -/
def threeFailures : List SyncOp :=
  [.claim 0 0, .record (reported .failed) second, .record (reported .drifted) second,
    .claim (31 * second) (31 * second), .expire (200 * second),
    .claim (260 * second) (260 * second), .record (reported .failed) (261 * second),
    .claim (1000 * second) (1000 * second)]

theorem commands_within_budget_three_failures :
    (run (SyncHistory.step id id "") ⟨.prepared 0, 0⟩ threeFailures).issued ≤ syncFailureLimit :=
  (commands_within_budget id id "" 0 threeFailures (by decide +kernel)).1

/-- A server whose scan reports the version missing during each transfer
is handed a fourth command. -/
theorem drift_scan_outruns_budget :
    ¬ ∀ ops, (run (SyncHistory.step id id "") ⟨.prepared 0, 0⟩ ops).issued ≤ syncFailureLimit := by
  intro hall
  have hfour := hall [.claim 0 0, .record (reported .drifted) 0, .claim 0 0,
    .record (reported .drifted) 0, .claim 0 0, .record (reported .drifted) 0, .claim 0 0]
  revert hfour
  decide +kernel

-- ======== replays

/-- What `RecordResult` takes for a failure: one that is reported, or a
digest that is not the expected one. -/
def SyncResult.fails (fold : Char → Char) (expectedSHA : String) (result : SyncResult) : Prop :=
  result.state = .failed ∨ result.state = .ready ∧ result.accepted fold expectedSHA = false

/-- A call that neither adds a failure nor moves the next attempt nor
takes the row out of its state. -/
def SyncRow.Free (row : SyncRow) : Except SyncError SyncRow → Prop
  | .ok row' => row'.failureCount ≤ row.failureCount ∧ row'.nextRetryAt = row.nextRetryAt
      ∧ row'.status = row.status
  | .error _ => True

theorem SyncRow.recordFailure_free_iff (errorCode errorMessage : String) :
    row.Free (.ok (row.recordFailure errorCode errorMessage now)) ↔ row.status = .failed := by
  by_cases hfailed : row.status = .failed
  · simp [Free, recordFailure, hfailed]
  · simp [Free, recordFailure, hfailed]

/-- A failure that was recorded at some point of a history and is reported
again at its end costs nothing exactly when the row is failed then. -/
theorem replay_free_iff (fold : Char → Char) (lower : String → String) (expectedSHA : String)
    (created : Int) (before after : List SyncOp) (result : SyncResult) (recorded now : Int)
    (hfails : result.fails fold expectedSHA) :
    let row := (run (SyncHistory.step fold lower expectedSHA) ⟨.prepared created, 0⟩
      (before ++ .record result recorded :: after)).row
    row.Free (row.recordResult fold lower expectedSHA result now) ↔ row.status = .failed := by
  intro row
  unfold SyncRow.recordResult
  rcases hfails with hstate | ⟨hstate, hrejected⟩
  · simp only [hstate]
    exact row.recordFailure_free_iff _ _
  · simp only [hstate, hrejected]
    exact row.recordFailure_free_iff _ _

/-- The report comes again before the next attempt. -/
theorem replay_free_iff_waiting : ((run (SyncHistory.step id id "") ⟨.prepared 0, 0⟩
        [.claim 0 0, .record (reported .failed) second]).row).Free
      ((run (SyncHistory.step id id "") ⟨.prepared 0, 0⟩
        [.claim 0 0, .record (reported .failed) second]).row.recordResult id id ""
          (reported .failed) (2 * second)) :=
  (replay_free_iff id id "" 0 [.claim 0 0] [] (reported .failed) second (2 * second)
    (.inl rfl)).mpr (by decide +kernel)

/-- The report of the first command comes again during the second
transfer, and is counted once more. -/
theorem replay_counts_again : ¬ ∀ (before after : List SyncOp) (result : SyncResult)
      (recorded now : Int), result.fails id "" →
    ((run (SyncHistory.step id id "") ⟨.prepared 0, 0⟩
        (before ++ .record result recorded :: after)).row).Free
      ((run (SyncHistory.step id id "") ⟨.prepared 0, 0⟩
        (before ++ .record result recorded :: after)).row.recordResult id id "" result now) := by
  intro hall
  have hfree := hall [.claim 0 0] [.claim (31 * second) (31 * second)] (reported .failed) second
    (32 * second) (.inl rfl)
  have hcount : (2 : Nat) ≤ 1 := hfree.1
  omega

end Yunling.Script
