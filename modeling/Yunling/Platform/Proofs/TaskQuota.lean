/-
The concurrency quota of a task definition.

`assign` counts the definition's active runs and stays below the run's
`max_concurrency`. It is not the only way into an active state: an
unknown run, which no longer counts, becomes active again when its agent
reports it, and nothing checks the quota then. So the quota holds along
every run of the platform in which returning runs find room
(`task_quota_within`), and a run without that condition exceeds it
(`task_quota_exceeded`): a server drops out, another run takes the slot,
and the server comes back.
-/
import Yunling.Platform.Effects

namespace Yunling

open Relational Scheduler

-- ======== vocabulary

/-- Runs that return find room: with all that return at once, their
definition stays within the quota. -/
def RoomForReentry (db : Database) (op : Op) : Prop :=
  ∀ r ∈ db.runs.rows, reenters db op r = true → db.countActive r.taskDefinitionId
      + db.runs.rows.countP (fun s =>
        s.taskDefinitionId == r.taskDefinitionId && reenters db op s)
      ≤ r.maxConcurrency

instance (db : Database) (op : Op) : Decidable (RoomForReentry db op) :=
  inferInstanceAs (Decidable (∀ r ∈ db.runs.rows, _ → _))

/-- Every run of the definition carries the quota `m`. -/
def Database.QuotaIs (db : Database) (d : String) (m : Nat) : Prop :=
  ∀ r ∈ db.runs.rows, r.taskDefinitionId = d → r.maxConcurrency = m

instance (db : Database) (d : String) (m : Nat) : Decidable (db.QuotaIs d m) :=
  inferInstanceAs (Decidable (∀ r ∈ db.runs.rows, _ → _))

/-- Where a definition's runs agree on a quota, it is kept. -/
def QuotaInv (db : Database) : Prop :=
  ∀ d m, db.QuotaIs d m → db.countActive d ≤ m

-- ======== the steps

section Steps

variable {op : Op} {db db' : Database} {d : String} {m : Nat}

/-- A quota read off the rows of after is one of before: no row is lost
and none changes its definition or its quota. -/
theorem Effect.quotaIs (h : Effect op db db') (hm : db'.QuotaIs d m) : db.QuotaIs d m := by
  intro r hr hd
  obtain ⟨r', hr', hsame⟩ := h.mem_runs_of_mem hr
  rw [← hsame.maxConcurrency]
  exact hm r' hr' (hsame.taskDefinitionId.trans hd)

theorem QuotaInv.rewrite (inv : QuotaInv db) (room : RoomForReentry db op) {f : TaskRun → TaskRun}
    {released : String → Option Int} (runs : db'.runs.rows = db.runs.rows.map f)
    (change : ∀ r ∈ db.runs.rows, Change op db r (f r) (released r.id).isSome)
    (hm : db.QuotaIs d m) : db'.countActive d ≤ m := by
  have hcount : db'.countActive d ≤ db.countActive d + db.runs.rows.countP (fun s =>
        s.taskDefinitionId == d && reenters db op s) := by
    unfold Database.countActive
    rw [runs]
    refine countP_active_le change fun r hr => ?_
    rw [(change r hr).sameRun.taskDefinitionId]
  by_cases hnone : db.runs.rows.countP (fun s =>
      s.taskDefinitionId == d && reenters db op s) = 0
  · have := inv d m hm
    omega
  · obtain ⟨r, hr, hre⟩ := List.countP_pos_iff.mp (Nat.pos_of_ne_zero hnone)
    rw [Bool.and_eq_true, beq_iff_eq] at hre
    have hroom := room r hr hre.2
    rw [hm r hr hre.1, hre.1] at hroom
    omega

theorem QuotaInv.assigned (inv : QuotaInv db) {a : Assignment} {run : TaskRun}
    (h : Assigned db a run db') (hm : db.QuotaIs d m) : db'.countActive d ≤ m := by
  unfold Database.countActive
  rw [h.runs]
  by_cases hd : run.taskDefinitionId = d
  · -- one more run, and the quota was not reached
    have hone := db.runs.countP_amend_key_le a.runID (TaskRun.assignTo a)
      fun r => r.taskDefinitionId == d && r.state.active
    have hquota := h.quota
    rw [hd, hm run h.mem hd] at hquota
    exact Nat.le_trans hone hquota
  · -- another definition's run
    have hnone := Table.countP_amend_le db.runs.rows (fun r => r.id == a.runID) (TaskRun.assignTo a)
      (fun r => r.taskDefinitionId == d && r.state.active)
      fun r hr hid => by
        have hid' : r.id = run.id := (beq_iff_eq.mp hid).trans h.id_eq.symm
        rw [db.runs.eq_of_key_eq hr h.mem hid']
        simp [TaskRun.assignTo, hd]
    exact Nat.le_trans hnone (inv d m hm)

theorem QuotaInv.create (inv : QuotaInv db) {r : TaskRun} (hq : r.state = .queued)
    (runs : db'.runs.rows = db.runs.rows ++ [r]) (hm : db.QuotaIs d m) : db'.countActive d ≤ m := by
  have hcount : db'.countActive d = db.countActive d := by
    unfold Database.countActive
    rw [runs, List.countP_append, List.countP_singleton, hq]
    simp [RunState.active]
  rw [hcount]
  exact inv d m hm

theorem QuotaInv.step (inv : QuotaInv db) (room : RoomForReentry db op) :
    QuotaInv (apply db op) := by
  intro d m hm
  have heff := apply_effect db op
  have hm' := heff.quotaIs hm
  cases heff with
  | rewrite f released runs change leases =>
    exact inv.rewrite room runs change hm'
  | assigned a run hop h => exact inv.assigned h hm'
  | triggered d id versionID type trigger parameters now fresh runs leases
  | retried run id at_ automatic hop hrun retryable last fresh runs leases =>
    exact inv.create rfl runs hm'

end Steps

-- ======== the runs

theorem quotaInv_empty : QuotaInv Database.empty := by
  intro d m _
  exact Nat.zero_le m

/-- The quota holds along every run in which returning runs find
room. -/
theorem task_quota_within (ops : List Op)
    (room : Transition.Guarded apply RoomForReentry .empty ops) (d : String) (m : Nat)
    (hm : (runOps .empty ops).QuotaIs d m) : (runOps .empty ops).countActive d ≤ m :=
  Transition.Guarded.invariant (fun _ _ inv room => inv.step room) quotaInv_empty room d m hm

/-- A run comes back: its server drops out, a second run of the task is
assigned, and then the agent reports the first one. -/
def comeback (maxConcurrency : Nat) : List Op :=
  Sample.setup [Sample.definition "task" maxConcurrency] ++ Sample.start "task" "first" "token-1" 5
    ++ [.serverOffline "server" 6]
    ++ Sample.start "task" "second" "token-2" 7
    ++ [.reconcile ⟨"server", false, [⟨"first", "token-1", none⟩]⟩ 8]

/-- With two slots the run that comes back finds room. -/
theorem task_quota_within_comeback : (runOps .empty (comeback 2)).countActive "task" ≤ 2 :=
  task_quota_within (comeback 2) (by decide) "task" 2 (by decide)

/-- With one slot it does not, and comes back all the same. -/
theorem task_quota_exceeded : ∃ (ops : List Op) (d : String) (m : Nat),
    (runOps .empty ops).QuotaIs d m ∧ m < (runOps .empty ops).countActive d :=
  ⟨comeback 1, "task", 1, by decide, by decide⟩

end Yunling
