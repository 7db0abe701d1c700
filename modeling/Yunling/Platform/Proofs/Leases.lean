/-
Leases never outlive what they were taken for.

A run is settled when nothing can be running for it: it waits in the
queue, it has ended, or the agent has confirmed that its process is gone.
In every database the platform can reach, a settled run has no open
lease, and no run ever has a second lease row.

# The invariant

`LeaseInv` closes the claim under the operations. The facts that carry it
are that a queued run has never had a lease at all (so an assignment adds
the first one, and leaving the queue without an assignment leaves none
behind), and that every change into a settled state either starts from
one or releases the run's leases in the same transaction
(`Change.settled`).
-/
import Yunling.Platform.Effects

namespace Yunling

open Relational Scheduler

variable {db : Database} {l : ResourceLease}

-- ======== vocabulary

/-- Nothing can be running for the run: it waits, it ended, or its
process is confirmed gone. -/
def TaskRun.settled (r : TaskRun) : Bool :=
  r.state == .queued || r.state.terminal
    || (r.state == .unknown && r.processConfirmedGone)

theorem TaskRun.settled_of_queued {r : TaskRun} (h : r.state = .queued) : r.settled = true := by
  simp [TaskRun.settled, h]

/-- How leases relate to the runs they were taken for. -/
structure LeaseInv (db : Database) : Prop where
  /-- a lease belongs to a run -/
  owned : ∀ l ∈ db.leases.rows, ∃ r ∈ db.runs.rows, r.id = l.taskRunId
  /-- a run has at most one lease -/
  single : ∀ l ∈ db.leases.rows, ∀ m ∈ db.leases.rows, l.taskRunId = m.taskRunId → l = m
  /-- a queued run has none -/
  queued : ∀ r ∈ db.runs.rows, r.state = .queued → ∀ l ∈ db.leases.rows, l.taskRunId ≠ r.id
  /-- a settled run has none that is open -/
  closed : ∀ r ∈ db.runs.rows, r.settled = true →
    ∀ l ∈ db.leases.rows, l.taskRunId = r.id → l.releasedAt ≠ none

-- ======== one row

/-- A change into a settled state starts from one, or releases. -/
theorem Change.settled {op : Op} {r r' : TaskRun} {released : Bool} (h : Change op db r r' released)
    (hs : r'.settled = true) : r.settled = true ∨ released = true := by
  cases h with
  | keep => exact Or.inl hs
  | note => exact Or.inl hs
  | expire at_ hq | cancel at_ hq | disable at_ hq => exact Or.inl (TaskRun.settled_of_queued hq)
  | event now e state hop htype hid htoken hnew hnext hvalid =>
    rcases stateForAgentEvent_cases htype with rfl | hterm
    · cases hs
    · exact Or.inr hterm
  | lose => cases hs
  | resume => cases hs
  | absent | vanish | retry => exact Or.inr rfl

theorem releasedAt_releaseBy {released : String → Option Int}
    (h : l.releasedAt ≠ none ∨ (released l.taskRunId).isSome = true) :
    (l.releaseBy released).releasedAt ≠ none := by
  unfold ResourceLease.releaseBy
  rcases h with h | h
  · cases hrel : l.releasedAt with
    | none => exact absurd hrel h
    | some t => simp
  · obtain ⟨t, ht⟩ := Option.isSome_iff_exists.mp h
    rw [ht]
    cases l.releasedAt <;> simp

-- ======== the steps

section Steps

variable {op : Op} {db db' : Database} (inv : LeaseInv db) {released : String → Option Int}
include inv

/-- Releasing leases and adding a fresh queued row. -/
theorem LeaseInv.create {r : TaskRun} (hq : r.state = .queued)
    (fresh : ∀ s ∈ db.runs.rows, s.id ≠ r.id) (runs : db'.runs.rows = db.runs.rows ++ [r])
    (leases : db'.leases.rows = db.leases.rows.map (ResourceLease.releaseBy released)) :
    LeaseInv db' := by
  -- no lease can name the new run: leases belong to runs
  have hnone : ∀ l ∈ db.leases.rows, l.taskRunId ≠ r.id := by
    intro l hl he
    obtain ⟨s, hs, hid⟩ := inv.owned l hl
    exact fresh s hs (hid.trans he)
  constructor
  · rw [leases, runs]
    intro l' hl'
    obtain ⟨l, hl, rfl⟩ := List.mem_map.mp hl'
    obtain ⟨s, hs, hid⟩ := inv.owned l hl
    exact ⟨s, List.mem_append_left _ hs, hid⟩
  · rw [leases]
    intro l' hl' m' hm' he
    obtain ⟨l, hl, rfl⟩ := List.mem_map.mp hl'
    obtain ⟨m, hm, rfl⟩ := List.mem_map.mp hm'
    rw [inv.single l hl m hm he]
  · rw [leases, runs]
    intro s hs hsq l' hl'
    obtain ⟨l, hl, rfl⟩ := List.mem_map.mp hl'
    rcases List.mem_append.mp hs with hs | hs
    · exact inv.queued s hs hsq l hl
    · obtain rfl := List.mem_singleton.mp hs
      exact hnone l hl
  · rw [leases, runs]
    intro s hs hset l' hl' he
    obtain ⟨l, hl, rfl⟩ := List.mem_map.mp hl'
    rcases List.mem_append.mp hs with hs | hs
    · exact releasedAt_releaseBy (Or.inl (inv.closed s hs hset l hl he))
    · obtain rfl := List.mem_singleton.mp hs
      exact absurd he (hnone l hl)

theorem LeaseInv.rewrite {f : TaskRun → TaskRun} (runs : db'.runs.rows = db.runs.rows.map f)
    (change : ∀ r ∈ db.runs.rows, Change op db r (f r) (released r.id).isSome)
    (leases : db'.leases.rows = db.leases.rows.map (ResourceLease.releaseBy released)) :
    LeaseInv db' := by
  constructor
  · rw [leases, runs]
    intro l' hl'
    obtain ⟨l, hl, rfl⟩ := List.mem_map.mp hl'
    obtain ⟨r, hr, hid⟩ := inv.owned l hl
    exact ⟨f r, List.mem_map_of_mem hr, (change r hr).sameRun.id.trans hid⟩
  · rw [leases]
    intro l' hl' m' hm' he
    obtain ⟨l, hl, rfl⟩ := List.mem_map.mp hl'
    obtain ⟨m, hm, rfl⟩ := List.mem_map.mp hm'
    rw [inv.single l hl m hm he]
  · rw [leases, runs]
    intro r' hr' hq l' hl'
    obtain ⟨r, hr, rfl⟩ := List.mem_map.mp hr'
    obtain ⟨l, hl, rfl⟩ := List.mem_map.mp hl'
    rw [(change r hr).sameRun.id]
    exact inv.queued r hr ((change r hr).queued hq) l hl
  · rw [leases, runs]
    intro r' hr' hset l' hl' he
    obtain ⟨r, hr, rfl⟩ := List.mem_map.mp hr'
    obtain ⟨l, hl, rfl⟩ := List.mem_map.mp hl'
    have he' : l.taskRunId = r.id := he.trans (change r hr).sameRun.id
    rcases (change r hr).settled hset with hset | hrel
    · exact releasedAt_releaseBy (Or.inl (inv.closed r hr hset l hl he'))
    · rw [← he'] at hrel
      exact releasedAt_releaseBy (Or.inr hrel)

theorem LeaseInv.assigned {a : Assignment} {run : TaskRun}
    (h : Assigned db a run db') : LeaseInv db' := by
  -- the run was queued, so this is its first lease
  have hfirst : ∀ l ∈ db.leases.rows, l.taskRunId ≠ a.runID := by
    rw [← h.id_eq]
    exact inv.queued run h.mem h.queued
  have hsame : ∀ r, SameRun r (Table.amend (fun r => r.id == a.runID) (TaskRun.assignTo a) r) :=
    sameRun_assignTo _ a
  constructor
  · rw [h.leases, h.runs]
    intro l hl
    have hlift : (∃ r ∈ db.runs.rows, r.id = l.taskRunId) →
        ∃ r ∈ db.runs.rows.map (Table.amend (fun r => r.id == a.runID)
          (TaskRun.assignTo a)), r.id = l.taskRunId := by
      intro ⟨r, hr, hid⟩
      exact ⟨_, List.mem_map_of_mem hr, (hsame r).id.trans hid⟩
    rcases List.mem_append.mp hl with hl | hl
    · exact hlift (inv.owned l hl)
    · obtain rfl := List.mem_singleton.mp hl
      exact hlift ⟨run, h.mem, h.id_eq⟩
  · rw [h.leases]
    intro l hl m hm he
    rcases List.mem_append.mp hl with hl | hl
    · rcases List.mem_append.mp hm with hm | hm
      · exact inv.single l hl m hm he
      · obtain rfl := List.mem_singleton.mp hm
        exact absurd he (hfirst l hl)
    · obtain rfl := List.mem_singleton.mp hl
      rcases List.mem_append.mp hm with hm | hm
      · exact absurd he.symm (hfirst m hm)
      · exact (List.mem_singleton.mp hm).symm
  · rw [h.leases]
    intro r hr' hq l hl
    rcases h.mem_runs.mp hr' with rfl | ⟨hr, hid⟩
    · cases hq
    · rcases List.mem_append.mp hl with hl | hl
      · exact inv.queued r hr hq l hl
      · obtain rfl := List.mem_singleton.mp hl
        exact fun he => hid he.symm
  · rw [h.leases]
    intro r hr' hset l hl he
    rcases h.mem_runs.mp hr' with rfl | ⟨hr, hid⟩
    · cases hset
    · rcases List.mem_append.mp hl with hl | hl
      · exact inv.closed r hr hset l hl he
      · obtain rfl := List.mem_singleton.mp hl
        exact absurd he.symm hid

theorem LeaseInv.step : LeaseInv (apply db op) := by
  cases apply_effect db op with
  | rewrite f released runs change leases =>
    exact inv.rewrite runs change leases
  | assigned a run hop h => exact inv.assigned h
  | triggered d id versionID type trigger parameters now fresh runs leases =>
    exact inv.create rfl fresh runs (leases.trans (Database.map_releaseBy_none _).symm)
  | retried run id at_ automatic hop hrun retryable last fresh runs leases =>
    exact inv.create rfl fresh runs leases

end Steps

-- ======== persistence

/-- A lease row is never deleted, and only ever released. -/
theorem Effect.mem_leases {op : Op} {db db' : Database} (h : Effect op db db')
    (hl : l ∈ db.leases.rows) : ∃ released, l.releaseBy released ∈ db'.leases.rows := by
  have hself : l.releaseBy (fun _ => none) = l := by
    simp [ResourceLease.releaseBy]
  cases h with
  | rewrite f released runs change leases =>
    refine ⟨released, ?_⟩
    rw [leases]
    exact List.mem_map_of_mem hl
  | assigned a run hop h =>
    refine ⟨fun _ => none, ?_⟩
    rw [hself, h.leases]
    exact List.mem_append_left _ hl
  | triggered d id versionID type trigger parameters now fresh runs leases =>
    refine ⟨fun _ => none, ?_⟩
    rw [hself, leases]
    exact hl
  | retried run id at_ automatic hop hrun retryable last fresh runs leases =>
    refine ⟨releaseOne run.id (some at_), ?_⟩
    rw [leases]
    exact List.mem_map_of_mem hl

theorem mem_leases_run (hl : l ∈ db.leases.rows) (ops : List Op) :
    ∃ l' ∈ (runOps db ops).leases.rows, l'.id = l.id ∧ l'.taskRunId = l.taskRunId := by
  refine Transition.run_invariant (I := fun db : Database =>
    ∃ l' ∈ db.leases.rows, l'.id = l.id ∧ l'.taskRunId = l.taskRunId) ?_ ⟨l, hl, rfl, rfl⟩ ops
  intro db op ⟨m, hm, hid, hrun⟩
  obtain ⟨released, hm'⟩ := (apply_effect db op).mem_leases hm
  exact ⟨_, hm', hid, hrun⟩

-- ======== the runs

theorem leaseInv_empty : LeaseInv Database.empty := by
  constructor <;> intro _ h <;> cases h

/-- The lease invariant holds in every reachable database. -/
theorem leaseInv_run (ops : List Op) : LeaseInv (runOps .empty ops) :=
  Transition.run_invariant (fun _ _ inv => inv.step) leaseInv_empty ops

/-- A run's lease rows, counted. -/
def Database.leaseCount (db : Database) (runID : String) : Nat :=
  db.leases.rows.countP fun l => l.taskRunId == runID

theorem LeaseInv.leaseCount_le_one (inv : LeaseInv db)
    (runID : String) : db.leaseCount runID ≤ 1 := by
  by_cases hex : ∃ l ∈ db.leases.rows, l.taskRunId = runID
  · obtain ⟨l, hl, rfl⟩ := hex
    refine db.leases.countP_le_one (k := l.id) fun m hm he => ?_
    rw [inv.single m hm l hl (by simpa using he)]
  · have hzero : db.leaseCount runID = 0 := by
      rw [Database.leaseCount, List.countP_eq_zero]
      intro l hl he
      exact hex ⟨l, hl, by simpa using he⟩
    omega

/-- No lease leaks. In every reachable database a settled run has no
open lease and every run has at most one lease row; lease rows are never
deleted, so that row is the only one of the run's whole life. -/
theorem settled_run_holds_no_lease (ops later : List Op) :
    (∀ r ∈ (runOps .empty ops).runs.rows, r.settled = true →
      ∀ l ∈ (runOps .empty ops).leases.rows, l.taskRunId = r.id → l.releasedAt ≠ none)
    ∧ (∀ r ∈ (runOps .empty ops).runs.rows, (runOps .empty ops).leaseCount r.id ≤ 1)
    ∧ ∀ l ∈ (runOps .empty ops).leases.rows, ∃ l' ∈ (runOps .empty (ops ++ later)).leases.rows,
          l'.id = l.id ∧ l'.taskRunId = l.taskRunId := by
  have inv := leaseInv_run ops
  refine ⟨inv.closed, fun r _ => inv.leaseCount_le_one r.id, ?_⟩
  intro l hl
  rw [runOps, Transition.run_append]
  exact mem_leases_run hl later

end Yunling
