/-
Who moves a backup run or a restore verification.

Workers claim, work for as long as it takes and then mark, in any
interleaving. The two tables are leased tables (`Lease.Discipline`), and a
worker that marks before the end of its lease is the one of the row's
latest claim, by the library's invariant. The marks themselves do not ask
for the lease: after its end the worker of an earlier claim gets through
as long as the status fits.
-/
import Yunling.Backup.Store
import Yunling.Lib.Lease

namespace Yunling.Backup

open Relational Transition

variable {ends now : Int}

-- ======== disciplines

theorem leaseEnded_some (h : leaseEnded (some ends) now = true) : ends ≤ now := by
  simpa [leaseEnded] using h

/-- How `backup_runs` is leased: the worker goes on after
`MarkLocalSnapshot` only. -/
def runLeases : Lease.Discipline BackupRun String Mark BackupRun.id where
  ending run := if run.status.active then run.leaseUntil else none
  claimable := BackupRun.claimable
  claimed := BackupRun.claimed
  markable mark run := mark.valid && mark.guard run
  marked := Mark.write
  final
    | .localSnapshot _ => false
    | _ => true
  claimed_key := BackupRun.claimed_id
  marked_key := Mark.write_id
  claimable_ending {now run ends} hclaim hends := by
    cases hactive : run.status.active with
    | false => simp [hactive] at hends
    | true =>
      rw [if_pos hactive] at hends
      have hstatus : run.status ≠ .queued ∧ run.status ≠ .degraded := by
        constructor <;>
        · intro h
          rw [h] at hactive
          cases hactive
      simp only [BackupRun.claimable, hactive, hstatus, hends,
        decide_false, Bool.or_self, Bool.false_and, Bool.or_false, Bool.true_and] at hclaim
      exact leaseEnded_some hclaim
  claimed_ending now ends run := by
    unfold BackupRun.claimed
    split <;> rfl
  marked_ending {mark run} hfinal hmark := by
    cases mark with
    | localSnapshot result =>
      simp only [Mark.guard, Bool.and_eq_true, Bool.or_eq_true, decide_eq_true_eq] at hmark
      rcases hmark.2 with h | h <;> simp [Mark.write, h, Status.active]
    | succeeded | degraded | failed => cases hfinal

/-- How `restore_verifications` is leased. -/
def verificationLeases : Lease.Discipline RestoreVerification String
    VerificationResult RestoreVerification.id where
  ending v := if v.status.active then v.leaseUntil else none
  claimable := RestoreVerification.claimable
  claimed := RestoreVerification.claimed
  markable := VerificationResult.guard
  marked := VerificationResult.write
  final _ := true
  claimed_key := RestoreVerification.claimed_id
  marked_key := VerificationResult.write_id
  claimable_ending {now v ends} hclaim hends := by
    cases hactive : v.status.active with
    | false => simp [hactive] at hends
    | true =>
      rw [if_pos hactive] at hends
      have hstatus : v.status ≠ .queued := by
        intro h
        rw [h] at hactive
        cases hactive
      simp only [RestoreVerification.claimable, hactive, hstatus, hends,
        decide_false, Bool.false_and, Bool.false_or, Bool.true_and] at hclaim
      exact leaseEnded_some hclaim
  claimed_ending _ _ _ := rfl
  marked_ending hfinal _ := by cases hfinal

-- ======== workers

/-- What happens to a table: `ρ` are its rows, `μ` its marks. -/
inductive WorkerOp (ρ μ : Type) where
  | claim (now lease : Int) (locked : String → Bool)
  | mark (n : Nat) (m : μ) (now : Int)
  | leave (n : Nat)
  | request (row : ρ)

/-- A table with its marks, and the row a claim takes. -/
structure Leased (ρ μ : Type) (key : ρ → String) where
  discipline : Lease.Discipline ρ String μ key
  pick : Table ρ String key → Int → Int → (String → Bool) → Option String

namespace Leased

variable {ρ μ : Type} {key : ρ → String} (t : Leased ρ μ key) {op : WorkerOp ρ μ}

/-- A table nobody has worked on. -/
def start (rows : Table ρ String key) (clock : Int) : Lease.State ρ String key :=
  ⟨rows, Table.empty, Table.empty, 0, clock⟩

/-- The table after an operation. -/
def step (s : Lease.State ρ String key) : WorkerOp ρ μ → Lease.State ρ String key
  | .claim now lease locked =>
    match t.pick s.rows now lease locked with
    | some id => s.claim t.discipline id now lease
    | none => { s with clock := now }
  | .mark n m now => s.mark t.discipline n m now
  | .leave n => s.leave n
  | .request row => s.add row

/-- Time does not go back. -/
def Forward (s : Lease.State ρ String key) : WorkerOp ρ μ → Prop
  | .claim now _ _ => s.clock ≤ now
  | .mark _ _ now => s.clock ≤ now
  | .leave _ => True
  | .request _ => True

instance (s : Lease.State ρ String key) : ∀ op : WorkerOp ρ μ, Decidable (Forward s op)
  | .claim now _ _ => inferInstanceAs (Decidable (s.clock ≤ now))
  | .mark _ _ now => inferInstanceAs (Decidable (s.clock ≤ now))
  | .leave _ => isTrue trivial
  | .request _ => isTrue trivial

/-- A worker marks before the end of its lease. -/
def InTime (s : Lease.State ρ String key) : WorkerOp ρ μ → Prop
  | .mark n _ now =>
    ∀ id ends, s.workers.get? n = some (id, ends) → now < ends
  | _ => True

/-- A mark that changes a row is by the worker of the row's latest
claim. -/
def Fenced (s : Lease.State ρ String key) : WorkerOp ρ μ → Prop
  | .mark n m _ => ∀ id, s.marks t.discipline n m = some id → s.latest.get? id = some n
  | _ => True

variable {t : Leased ρ μ key} {s : Lease.State ρ String key} (hs : Lease.Held t.discipline s)
  (hforward : Forward s op) (htime : InTime s op)

include hs hforward htime

theorem held_step : Lease.Held t.discipline (t.step s op) := by
  cases op with
  | claim now lease locked =>
    unfold step
    dsimp only
    split
    · exact hs.claim hforward
    · exact hs.fewer hforward fun _ _ h => h
  | mark n m now => exact hs.mark ⟨hforward, htime⟩
  | leave n => exact hs.leave n
  | request row => exact hs.add row

theorem fenced : t.Fenced s op := by
  cases op with
  | mark n m now => exact fun id hmarks => hs.fenced ⟨hforward, htime⟩ hmarks
  | claim now lease locked => trivial
  | leave n => trivial
  | request row => trivial

end Leased

/-- The rows after a call: one that fails leaves them. -/
def rowsAfter {α : Type} (rows : α) : Except StoreError α → α
  | .ok rows => rows
  | .error _ => rows

section Rows

variable {ρ μ : Type} {key : ρ → String} {s : Lease.State ρ String key}
  {d : Lease.Discipline ρ String μ key}

theorem claimRow_eq_none {lease : Int} {due leased : ρ → Bool} {order : ρ → ρ → Prop}
    [DecidableRel order] {claimed : ρ → ρ} {hkey : ∀ r, key (claimed r) = key r}
    {t t' : Table ρ String key}
    (h : claimRow t lease due leased order claimed hkey = .ok (t', none)) : t' = t := by
  unfold claimRow at h
  repeat' split at h
  all_goals cases h
  rfl

/-- A claim leaves the rows the claiming call leaves. -/
theorem claim_rows {now lease : Int} {due leased : ρ → Bool} {order : ρ → ρ → Prop}
    [DecidableRel order] [Std.Total order] [IsTrans ρ order] {rows : Table ρ String key} {row : ρ}
    (hdue : ∀ r, due r = true → d.claimable now r = true)
    (h : claimRow s.rows lease due leased order
      (d.claimed now (now + lease)) (d.claimed_key now (now + lease)) = .ok (rows, some row)) :
    (s.claim d (key row) now lease).rows = rows := by
  obtain ⟨row', hfind, hd, rfl, rfl⟩ := claimRow_eq_some h
  unfold Lease.State.claim
  rw [hfind]
  dsimp only
  rw [if_pos (hdue row' hd)]

/-- A mark leaves the rows the marking call leaves. -/
theorem mark_rows {n : Nat} {m : μ}
    {id : String} {ends now : Int} (hworker : s.workers.get? n = some (id, ends)) :
    (s.mark d n m now).rows = rowsAfter s.rows (transition s.rows id (d.markable m) (d.marked m)
        (d.marked_key m)) := by
  unfold transition
  cases hrow : s.rows.find? id with
  | none =>
    refine Lease.mark_rows_of_not fun id' ends' row hworker' hrow' => ?_
    cases hworker.symm.trans hworker'
    rw [hrow] at hrow'
    cases hrow'
  | some row =>
    cases hmark : d.markable m row with
    | true =>
      dsimp only
      rw [if_pos hmark]
      exact Table.ext_rows (Lease.mark_rows_of_markable hworker hrow hmark)
    | false =>
      dsimp only
      rw [if_neg (by simp [hmark])]
      refine Lease.mark_rows_of_not fun id' ends' row' hworker' hrow' =>
        ?_
      cases hworker.symm.trans hworker'
      cases hrow.symm.trans hrow'
      exact hmark

end Rows

/-- `backup_runs` under `ClaimBackup`. -/
def leasedRuns : Leased BackupRun Mark BackupRun.id where
  discipline := runLeases
  pick := fun t now lease locked =>
    match BackupRuns.claim t now lease locked with
    | .ok (_, some run) => some run.id
    | _ => none

/-- `restore_verifications` under `ClaimVerification`. -/
def leasedVerifications : Leased RestoreVerification VerificationResult RestoreVerification.id where
  discipline := verificationLeases
  pick := fun t now lease locked =>
    match RestoreVerifications.claim t now lease locked with
    | .ok (_, some v) => some v.id
    | _ => none

/-- The claims and marks of the workers leave the rows that the calls of
the store leave. -/
theorem leased_calls :
    (∀ (s : Lease.State BackupRun String BackupRun.id) now lease locked,
      (leasedRuns.step s (.claim now lease locked)).rows
        = rowsAfter s.rows ((BackupRuns.claim s.rows now lease locked).map Prod.fst))
    ∧ (∀ (s : Lease.State BackupRun String BackupRun.id) n m now id ends,
      s.workers.get? n = some (id, ends) →
      (leasedRuns.step s (.mark n m now)).rows = rowsAfter s.rows (BackupRuns.mark s.rows id m))
    ∧ (∀ (s : Lease.State RestoreVerification String RestoreVerification.id) now lease locked,
      (leasedVerifications.step s (.claim now lease locked)).rows
        = rowsAfter s.rows ((RestoreVerifications.claim s.rows now lease locked).map Prod.fst))
    ∧ ∀ (s : Lease.State RestoreVerification String RestoreVerification.id) n result now id ends,
      s.workers.get? n = some (id, ends) → (leasedVerifications.step s (.mark n result now)).rows
        = rowsAfter s.rows (RestoreVerifications.complete s.rows id result) := by
  refine ⟨fun s now lease locked => ?_, fun s n m now id ends hworker => ?_,
    fun s now lease locked => ?_, fun s n result now id ends hworker => mark_rows hworker⟩
  · unfold Leased.step leasedRuns
    dsimp only
    cases h : BackupRuns.claim s.rows now lease locked with
    | error e => rfl
    | ok x =>
      obtain ⟨rows, _ | run⟩ := x
      · exact (claimRow_eq_none h).symm
      · exact claim_rows (fun r hr => (Bool.and_eq_true_iff.mp hr).1) h
  · refine (mark_rows hworker).trans ?_
    unfold BackupRuns.mark
    have hguard : leasedRuns.discipline.markable m = fun run => m.valid && m.guard run := rfl
    cases hvalid : m.valid with
    | true =>
      rw [hguard, hvalid]
      rfl
    | false =>
      rw [hguard, hvalid]
      unfold transition
      cases s.rows.find? id <;> rfl
  · unfold Leased.step leasedVerifications
    dsimp only
    cases h : RestoreVerifications.claim s.rows now lease locked with
    | error e => rfl
    | ok x =>
      obtain ⟨rows, _ | v⟩ := x
      · exact (claimRow_eq_none h).symm
      · exact claim_rows (fun r hr => (Bool.and_eq_true_iff.mp hr).1) h

-- ======== fences

/-- The two tables, and the workers on each. -/
structure Desk where
  runs : Lease.State BackupRun String BackupRun.id
  verifications : Lease.State RestoreVerification String RestoreVerification.id

namespace Desk

inductive Op where
  | run (op : WorkerOp BackupRun Mark)
  | verification (op : WorkerOp RestoreVerification VerificationResult)

def step (s : Desk) : Op → Desk
  | .run op => { s with runs := leasedRuns.step s.runs op }
  | .verification op =>
    { s with verifications := leasedVerifications.step s.verifications op }

/-- Time does not go back. -/
def Forward (s : Desk) : Op → Prop
  | .run op => Leased.Forward s.runs op
  | .verification op => Leased.Forward s.verifications op

instance (s : Desk) : ∀ op : Op, Decidable (s.Forward op)
  | .run op => inferInstanceAs (Decidable (Leased.Forward s.runs op))
  | .verification op =>
    inferInstanceAs (Decidable (Leased.Forward s.verifications op))

/-- A worker marks before the end of its lease. -/
def InTime (s : Desk) : Op → Prop
  | .run op => Leased.InTime s.runs op
  | .verification op => Leased.InTime s.verifications op

/-- A mark that changes a row is by the worker of the row's latest
claim. -/
def Fenced (s : Desk) : Op → Prop
  | .run op => leasedRuns.Fenced s.runs op
  | .verification op => leasedVerifications.Fenced s.verifications op

/-- The tables before anybody has worked on them. -/
def start (runs : BackupRuns) (verifications : RestoreVerifications) (clock : Int) : Desk :=
  ⟨Leased.start runs clock, Leased.start verifications clock⟩

/-- Both tables keep the invariant of leases. -/
def Held (s : Desk) : Prop :=
  Lease.Held runLeases s.runs ∧ Lease.Held verificationLeases s.verifications

theorem Held.step {s : Desk} {op : Op} (hs : s.Held)
    (hforward : s.Forward op) (htime : s.InTime op) : (s.step op).Held := by
  cases op with
  | run op => exact ⟨Leased.held_step (t := leasedRuns) hs.1 hforward htime, hs.2⟩
  | verification op =>
    exact ⟨hs.1, Leased.held_step (t := leasedVerifications) hs.2 hforward htime⟩

/-- In every interleaving in which time does not go back and workers mark
before the end of their leases, a mark that changes a row is by the worker
of the row's latest claim. -/
theorem marks_by_latest_claim (runs : BackupRuns)
    (verifications : RestoreVerifications) (clock : Int) (ops : List Op) (op : Op)
    (hops : Guarded Desk.step (fun s op => s.Forward op ∧ s.InTime op)
      (start runs verifications clock) ops)
    (hforward : (run Desk.step (start runs verifications clock) ops).Forward op)
    (htime : (run Desk.step (start runs verifications clock) ops).InTime op) :
    (run Desk.step (start runs verifications clock) ops).Fenced op := by
  have hheld : (run Desk.step (start runs verifications clock) ops).Held :=
    Guarded.invariant (I := Desk.Held) (fun _ _ hs hop => hs.step hop.1 hop.2)
      ⟨Lease.Held.start runs clock, Lease.Held.start verifications clock⟩ hops
  cases op with
  | run op => exact Leased.fenced (t := leasedRuns) hheld.1 hforward htime
  | verification op =>
    exact Leased.fenced (t := leasedVerifications) hheld.2 hforward htime

end Desk

-- ======== samples

namespace Sample

/-- A run that is due. -/
def queuedRun : BackupRun where
  id := "b1"
  status := .queued
  localSnapshotID := ""
  cosSnapshotID := ""
  manifestSHA256 := ""
  byteSize := 0
  objectCount := 0
  attempts := 0
  nextAttemptAt := 0
  leaseUntil := none
  errorMessage := ""
  startedAt := none
  finishedAt := none
  createdAt := 0

def runs : BackupRuns := ⟨[queuedRun], by decide⟩

def claimAt (now : Int) : Desk.Op :=
  .run (.claim now (30 * minute) fun _ => false)

def failAt (n : Nat) (now : Int) : Desk.Op :=
  .run (.mark n (.failed "导出备份数据失败" now) now)

end Sample

/-- The first worker is gone, the second takes the run over and marks it
in time. -/
theorem marks_by_latest_claim_failed :
    let s := run Desk.step (Desk.start Sample.runs Table.empty 0)
      [Sample.claimAt 0, Sample.claimAt (30 * minute)]
    s.runs.workers.get? 1 = some ("b1", 60 * minute)
      ∧ s.Fenced (Sample.failAt 1 (31 * minute)) := by
  intro s
  have hworker : s.runs.workers.get? 1 = some ("b1", 60 * minute) := by decide
  refine ⟨hworker, Desk.marks_by_latest_claim Sample.runs Table.empty 0
    [Sample.claimAt 0, Sample.claimAt (30 * minute)] (Sample.failAt 1 (31 * minute))
    ⟨⟨by decide, trivial⟩, ⟨by decide, trivial⟩, trivial⟩ (by decide) fun id ends h => ?_⟩
  obtain ⟨-, rfl⟩ := Prod.mk.inj (Option.some.inj (hworker.symm.trans h))
  decide

/-- The lease of the first worker ends, the run is claimed again, and the
first worker's export fails: the run of the second worker is failed. -/
theorem expired_worker_fails_run : ¬ ∀ (runs : BackupRuns) (verifications : RestoreVerifications)
      (clock : Int) (ops : List Desk.Op) (op : Desk.Op), Guarded Desk.step Desk.Forward
        (Desk.start runs verifications clock) ops →
      (run Desk.step (Desk.start runs verifications clock) ops).Forward op →
      (run Desk.step (Desk.start runs verifications clock) ops).Fenced op := by
  intro h
  have hfenced := h Sample.runs Table.empty 0 [Sample.claimAt 0, Sample.claimAt (30 * minute)]
    (Sample.failAt 0 (31 * minute)) ⟨by decide, by decide, trivial⟩ (by decide)
  have hlatest := hfenced "b1" (by decide)
  revert hlatest
  decide

end Yunling.Backup
