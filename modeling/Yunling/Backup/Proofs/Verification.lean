/-
Which backup a restore verification is about (`RunVerification` of
`internal/backup/service.go`).

A verification is requested for one backup run and claimed later. The
worker that claims it then lists the runs, newest first and no more than a
hundred, and looks for the one of the verification. Runs come in between,
so the run is found as long as fewer than a hundred are newer
(`verification_selects_iff`).
-/
import Yunling.Backup.Proofs.Holders
import Yunling.Backup.Service

namespace Yunling.Backup

open Relational Transition

-- ======== listings

def boundedLimit (limit : Int) : Nat :=
  if limit ≤ 0 then 20 else if 100 < limit then 100 else limit.toNat

/-- `ListBackups`. -/
def listBackups (runs : BackupRuns) (limit : Int) : List BackupRun :=
  (runs.rows.insertionSort ListOrder).take (boundedLimit limit)

namespace Desk

/-- The run `RunVerification` passes to the verifier; without one it
completes the verification as failed. -/
def selected (s : Desk) (v : RestoreVerification) : Option BackupRun :=
  (listBackups s.runs.rows 100).find? fun run => run.id = v.backupRunID

/-- The runs that are listed before a run. -/
def newer (s : Desk) (run : BackupRun) : Nat :=
  s.runs.rows.rows.countP fun r =>
    run.createdAt < r.createdAt || r.createdAt = run.createdAt && run.id < r.id

variable {s : Desk} {run : BackupRun}

/-- A run is listed when fewer than a hundred are newer. -/
theorem mem_listBackups (h : run ∈ s.runs.rows.rows) :
    run ∈ listBackups s.runs.rows 100 ↔ s.newer run < 100 := by
  have hperm := List.perm_insertionSort ListOrder s.runs.rows.rows
  have hsorted := List.pairwise_insertionSort ListOrder s.runs.rows.rows
  have hids := (hperm.map BackupRun.id).nodup_iff.mpr s.runs.rows.nodup
  obtain ⟨front, back, hsplit⟩ := List.append_of_mem (hperm.mem_iff.mpr h)
  rw [hsplit] at hsorted hids
  obtain ⟨-, hback, hfront⟩ := List.pairwise_append.mp hsorted
  have hback := (List.pairwise_cons.mp hback).1
  rw [List.map_append, List.nodup_append] at hids
  have hne : ∀ r ∈ front, r.id ≠ run.id := fun r hr =>
    hids.2.2 _ (List.mem_map_of_mem hr) _ List.mem_cons_self
  have hnewer : s.newer run = front.length := by
    unfold newer
    rw [← hperm.countP_eq, hsplit, List.countP_append, List.countP_cons,
      List.countP_eq_length.mpr, List.countP_eq_zero.mpr]
    · simp
    · intro r hr
      have hlisted := hback r hr
      simp only [OrderBy.Lex, OrderBy.Asc, OrderDual.toDual_le_toDual] at hlisted
      simp only [Bool.or_eq_true, Bool.and_eq_true, decide_eq_true_eq, not_or, not_and, not_lt]
      refine ⟨by omega, fun heq => ?_⟩
      exact (hlisted.resolve_left (by omega)).2
    · intro r hr
      have hlisted := hfront r hr run List.mem_cons_self
      simp only [OrderBy.Lex, OrderBy.Asc, OrderDual.toDual_le_toDual] at hlisted
      simp only [Bool.or_eq_true, Bool.and_eq_true, decide_eq_true_eq]
      rcases hlisted with hlt | ⟨heq, hle⟩
      · exact .inl (by omega)
      · exact .inr ⟨by omega, lt_of_le_of_ne hle (hne r hr).symm⟩
  have hmem : run ∉ front := fun hr => hne run hr rfl
  rw [hnewer, listBackups, List.mem_take_iff_idxOf_lt (hperm.mem_iff.mpr h), hsplit,
    List.idxOf_append_of_notMem hmem, List.idxOf_cons_self]
  rfl

/-- The run of a verification is selected when it is listed. -/
theorem selected_iff {v : RestoreVerification} (h : s.runs.rows.find? run.id = some run)
    (hv : v.backupRunID = run.id) : s.selected v = some run ↔ s.newer run < 100 := by
  have hrow := (s.runs.rows.find?_eq_some.mp h).1
  rw [← mem_listBackups hrow]
  refine ⟨List.mem_of_find?_eq_some, fun hlisted => ?_⟩
  cases hfound : s.selected v with
  | none => simpa [hv] using List.find?_eq_none.mp hfound run hlisted
  | some other =>
    have hid := List.find?_some hfound
    have hother : other ∈ s.runs.rows.rows := (List.mem_insertionSort ListOrder).mp
      (List.mem_of_mem_take (List.mem_of_find?_eq_some hfound))
    rw [s.runs.rows.eq_of_key_eq hother hrow ((decide_eq_true_eq.mp hid).trans hv)]

end Desk

-- ======== histories

/-- A row stays, but for a claim or a mark it is ready for. -/
theorem Leased.find?_step {ρ μ : Type} {key : ρ → String} {t : Leased ρ μ key}
    {s : Lease.State ρ String key} {row : ρ} {k : String} (h : s.rows.find? k = some row)
    (op : WorkerOp ρ μ) :
    ∃ row', (t.step s op).rows.find? k = some row' ∧ (row' = row
      ∨ (∃ now ends, t.discipline.claimable now row = true
        ∧ row' = t.discipline.claimed now ends row)
      ∨ ∃ m, t.discipline.markable m row = true ∧ row' = t.discipline.marked m row) := by
  cases op with
  | claim now lease locked =>
    simp only [step]
    split
    · unfold Lease.State.claim
      split
      · next hfound =>
        split
        · next hdue =>
          rw [Table.find?_update_key _ (fun _ => rfl)]
          split
          · next heq =>
            cases (heq ▸ h).symm.trans hfound
            exact ⟨_, by rw [h, Option.map_some], .inr (.inl ⟨_, _, hdue, rfl⟩)⟩
          · exact ⟨row, h, .inl rfl⟩
        · exact ⟨row, h, .inl rfl⟩
      · exact ⟨row, h, .inl rfl⟩
    · exact ⟨row, h, .inl rfl⟩
  | mark n m now =>
    simp only [step, Lease.State.mark]
    split
    · rw [Table.find?_update, h, Option.map_some, Table.amend]
      refine ⟨_, rfl, ?_⟩
      split
      · next hp => exact .inr (.inr ⟨m, (Bool.and_eq_true_iff.mp hp).2, rfl⟩)
      · exact .inl rfl
    · exact ⟨row, h, .inl rfl⟩
  | leave n => exact ⟨row, h, .inl rfl⟩
  | request r =>
    simp only [step, Lease.State.add]
    split
    · next rows hinsert =>
      have hrow := s.rows.find?_eq_some.mp h
      have hne : k ≠ key r := hrow.2 ▸ (Table.insert?_eq_some hinsert).2 row hrow.1
      exact ⟨row, by rw [Table.find?_insert? hinsert, if_neg hne, h], .inl rfl⟩
    · exact ⟨row, h, .inl rfl⟩

/-- A run is there as it is, and a verification is about it. -/
def Desk.Pinned (run : BackupRun) (id : String) (s : Desk) : Prop :=
  s.runs.rows.find? run.id = some run
    ∧ ∃ v, s.verifications.rows.find? id = some v ∧ v.backupRunID = run.id

/-- A run that has succeeded is not written again, and no verification
comes to be about another run. -/
theorem Desk.step_pinned {run : BackupRun} (hsucceeded : run.status = .succeeded) (id : String)
    (s : Desk) (op : Op) (h : Pinned run id s) : Pinned run id (s.step op) := by
  obtain ⟨hrun, v, hv, hbackup⟩ := h
  cases op with
  | run op =>
    refine ⟨?_, v, hv, hbackup⟩
    obtain ⟨_, hrow, rfl | ⟨_, _, hdue, -⟩ | ⟨m, hmark, -⟩⟩ :=
      Leased.find?_step (t := leasedRuns) hrun op
    · exact hrow
    · simp [leasedRuns, runLeases, BackupRun.claimable, hsucceeded, Status.active] at hdue
    · cases m <;> simp [leasedRuns, runLeases, Mark.guard, hsucceeded, Status.active] at hmark
  | verification op =>
    obtain ⟨v', hv', hcases⟩ := Leased.find?_step (t := leasedVerifications) hv op
    refine ⟨hrun, v', hv', Eq.trans ?_ hbackup⟩
    rcases hcases with rfl | ⟨_, _, -, rfl⟩ | ⟨_, -, rfl⟩ <;> rfl

/-- A verification requested for a run that has succeeded, and claimed after
any other operations, is given that run exactly when fewer than a hundred
runs are newer at the time of the listing. -/
theorem verification_selects_iff {s : Desk} {run : BackupRun} {row v : RestoreVerification}
    {now lease : Int} {locked : String → Bool} {verifications : RestoreVerifications}
    (hrun : s.runs.rows.find? run.id = some run) (hsucceeded : run.status = .succeeded)
    (hrow : row.backupRunID = run.id) (hnew : s.verifications.rows.find? row.id = none)
    (between after : List Desk.Op)
    (hclaim : RestoreVerifications.claim (Transition.run Desk.step s
      (.verification (.request row) :: between)).verifications.rows now lease locked
        = .ok (verifications, some v)) (hid : v.id = row.id) :
    let listed := Transition.run Desk.step s (.verification (.request row) :: between
      ++ .verification (.claim now lease locked) :: after)
    listed.selected v = some run ↔ listed.newer run < 100 := by
  intro listed
  have hrequested : Desk.Pinned run row.id (s.step (.verification (.request row))) := by
    obtain ⟨t, ht⟩ : ∃ t, s.verifications.rows.insert? row = some t := ⟨_, dif_pos hnew⟩
    simp only [Desk.step, Leased.step, Lease.State.add, ht]
    refine ⟨hrun, row, ?_, hrow⟩
    rw [Table.find?_insert? ht, if_pos rfl]
  have hstep := Desk.step_pinned hsucceeded row.id
  obtain ⟨-, claimed, hclaimed, hbackup⟩ := run_invariant hstep hrequested between
  obtain ⟨old, hold, -, rfl, -⟩ := claimRow_eq_some hclaim
  rw [hid] at hold
  cases hold.symm.trans hclaimed
  have hlisted : Desk.Pinned run row.id listed := run_invariant hstep hrequested _
  exact Desk.selected_iff hlisted.1 hbackup

namespace Crowded

/-- A run that has succeeded. -/
def made : BackupRun :=
  { Sample.queuedRun with status := .succeeded, localSnapshotID := "l", cosSnapshotID := "c" }

/-- Its verification, as it is requested. -/
def requested : RestoreVerification :=
  ⟨"v", "b1", .queued, none, "", "", 0, none, "", none, none, 1⟩

def start : Desk := Desk.start ⟨[made], by simp⟩ Table.empty 0

/-- The runs of a hundred requests after it. -/
def requests : List Desk.Op :=
  (List.range 100).map fun n =>
    .run (.request { Sample.queuedRun with id := toString n, createdAt := n + 1 })

end Crowded

open Crowded in
/-- With two newer runs. -/
theorem verification_selects_iff_few :
    let s := Transition.run Desk.step start (.verification (.request requested)
      :: requests.take 2 ++ [.verification (.claim 200 60 fun _ => false)])
    s.selected (requested.claimed 200 260) = some made ↔ s.newer made < 100 :=
  have hnew : start.verifications.rows.find? requested.id = none := rfl
  verification_selects_iff rfl rfl rfl hnew (requests.take 2) [] rfl rfl

open Crowded in
/-- A hundred backups are requested before the verification is claimed, and
the claimed verification fails: its backup is there and is not found. -/
theorem verification_misses_backup :
    let s := Transition.run Desk.step start (.verification (.request requested) :: requests)
    start.runs.rows.find? "b1" = some made ∧ made.status = .succeeded
      ∧ made.cosSnapshotID ≠ "" ∧ requested.backupRunID = "b1"
      ∧ (RestoreVerifications.claim s.verifications.rows 200 60 fun _ => false).map Prod.snd
        = .ok (some (requested.claimed 200 260))
      ∧ (s.step (.verification (.claim 200 60 fun _ => false))).runs.rows.find? "b1" = some made
      ∧ (s.step (.verification (.claim 200 60 fun _ => false))).selected
        (requested.claimed 200 260) = none := by
  decide +kernel

end Yunling.Backup
