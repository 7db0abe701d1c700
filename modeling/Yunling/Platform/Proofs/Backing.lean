/-
Active runs and the leases behind them.

An assignment takes a lease that expires a fixed time after it: the
run's timeout and two minutes. Nothing renews it. And a run can come back
from `unknown` after its lease was released. So an active run is backed
by an open, unexpired lease along every run of the platform in which no
run stays active beyond that time and none comes back once its process
was recorded gone or its lease has run out (`active_run_backed`); without
that, it need not be (`active_run_unbacked`).

# The clock

The operations of the platform carry the instants they were given.
`Clocked` adds the clock they are compared with. Assignments are those
the scheduler makes: it reads the clock, takes the lease from there, and
commits later.
-/
import Yunling.Platform.Effects

namespace Yunling

open Relational Scheduler

variable {db : Database} {r : TaskRun} {op : Op} {released : Bool} {s : Clocked}

-- ======== the system

/-- The platform and the time. -/
structure Clocked where
  db : Database
  clock : Int

/-- What happens in the clocked platform. -/
inductive ClockOp where
  /-- time passes -/
  | tick (now : Int)
  /-- the scheduler commits an assignment it decided at `readAt` -/
  | assign (runID executionToken leaseID : String) (candidate : Candidate) (readAt : Int)
  /-- any other operation -/
  | other (op : Op) (h : op.isAssign = false)

/-- One step; time does not run backwards. -/
def Clocked.step (s : Clocked) : ClockOp → Clocked
  | .tick now => { s with clock := max s.clock now }
  | .assign runID executionToken leaseID candidate readAt =>
    match s.db.getRun runID with
    | none => s
    | some run =>
      { s with
        db := apply s.db (.assign (run.assignment
          ((run.leaseRequest candidate readAt).lease leaseID) executionToken readAt)) }
  | .other op _ => { s with db := apply s.db op }

/-- When the lease a run was assigned with runs out. -/
def TaskRun.leaseEnd (r : TaskRun) : Int :=
  r.assignedAt.getD 0 + leaseTTL r.timeoutSeconds

/-- The run may have a process: it is active, or unknown and not
confirmed gone. -/
def TaskRun.held (r : TaskRun) : Bool :=
  r.state.active || (r.state == .unknown && !r.processConfirmedGone)

/-- What keeps active runs backed: no run is active when its lease runs
out, an assignment is committed before its lease does, and a run that
comes back was not recorded gone and is still within its lease. -/
def InLeaseTime (s : Clocked) : ClockOp → Prop
  | .tick now => ∀ r ∈ s.db.runs.rows, r.state.active = true → now < r.leaseEnd
  | .assign runID _ _ _ readAt => ∀ r ∈ s.db.runs.rows, r.id = runID →
    s.clock < readAt + leaseTTL r.timeoutSeconds
  | .other op _ => ∀ r ∈ s.db.runs.rows, reenters s.db op r = true →
    r.processConfirmedGone = false ∧ s.clock < r.leaseEnd

-- ======== the invariant

/-- The runs that may have a process, and their leases. -/
structure HeldInv (db : Database) : Prop where
  /-- an active run is not recorded gone -/
  alive : ∀ r ∈ db.runs.rows, r.state.active = true → r.processConfirmedGone = false
  /-- a run that may have a process has an open lease -/
  backed : ∀ r ∈ db.runs.rows, r.held = true → ∃ l ∈ db.leases.rows,
    l.taskRunId = r.id ∧ l.releasedAt = none ∧ l.expiresAt = r.leaseEnd

theorem TaskRun.held_of_active (h : r.state.active = true) : r.held = true := by
  simp [TaskRun.held, h]

theorem TaskRun.held_of_reenters
    (h : reenters db op r = true) (hgone : r.processConfirmedGone = false) : r.held = true := by
  unfold reenters at h
  rw [Bool.and_eq_true] at h
  simp [TaskRun.held, beq_iff_eq.mp h.1, hgone]

/-- A run that may be retried has no process. -/
theorem TaskRun.not_held_of_retryable (h : r.retryable = true) : r.held = false := by
  simp only [TaskRun.retryable, Bool.and_eq_true, Bool.or_eq_true, beq_iff_eq] at h
  obtain ⟨⟨⟨-, hgone⟩, -⟩, hstate⟩ := h
  unfold TaskRun.held
  rw [hgone]
  rcases hstate with ((h | h) | h) | h <;> rw [h] <;> rfl

section Change

variable {r r' : TaskRun} (h : Change op db r r' released)
  (halive : r.state.active = true → r.processConfirmedGone = false)

include h halive

/-- A run that may have a process had it before, and keeps its lease. -/
theorem Change.held (hback : Yunling.reenters db op r = true → r.processConfirmedGone = false)
    (hheld : r'.held = true) : r.held = true ∧ released = false := by
  -- where the new state is active: the old one was, or the run re-enters
  have hactive : r'.state.active = true → r.held = true := by
    intro hr'
    cases hr : r.state.active with
    | true => exact TaskRun.held_of_active hr
    | false =>
      have hre := h.reenters hr hr'
      exact TaskRun.held_of_reenters hre (hback hre)
  cases h with
  | keep => exact ⟨hheld, rfl⟩
  | note => exact ⟨hheld, rfl⟩
  | expire | cancel | disable | vanish => cases hheld
  | event now e state hop htype hid htoken hnew hnext hvalid =>
    rcases stateForAgentEvent_cases htype with rfl | hterm
    · exact ⟨hactive rfl, rfl⟩
    · cases state <;> cases hterm <;> cases hheld
  | lose serverID at_ hop active =>
    rw [TaskRun.activeOn, Bool.and_eq_true] at active
    exact ⟨TaskRun.held_of_active active.2, rfl⟩
  | resume => exact ⟨hactive rfl, rfl⟩
  | absent report at_ hop onServer authoritative unconfirmed gone =>
    unfold TaskRun.held at hheld
    rw [gone, Bool.not_true, Bool.and_false, Bool.or_false] at hheld
    rw [halive hheld] at gone
    cases gone
  | retry freshID at_ automatic hop retryable =>
    rw [TaskRun.not_held_of_retryable retryable] at hheld
    cases hheld

theorem Change.alive (hr' : r'.state.active = true) : r'.processConfirmedGone = false := by
  cases h with
  | keep | note | absent | retry => exact halive hr'
  | expire | cancel | disable | vanish => cases hr'
  | lose => rfl
  | resume => rfl
  | event now e state hop htype hid htoken hnew hnext hvalid =>
    rcases stateForAgentEvent_cases htype with rfl | hterm
    · rfl
    · cases state <;> cases hterm <;> cases hr'

end Change

theorem Change.leaseEnd {r r' : TaskRun}
    (h : Change op db r r' released) : r'.leaseEnd = r.leaseEnd := by
  unfold TaskRun.leaseEnd
  rw [h.assignment_eq.1, h.sameRun.timeoutSeconds]

-- ======== the steps

section Steps

variable {op : Op} {db db' : Database} (inv : HeldInv db) {released : String → Option Int}
include inv

theorem HeldInv.rewrite {f : TaskRun → TaskRun}
    (hback : ∀ r ∈ db.runs.rows, reenters db op r = true → r.processConfirmedGone = false)
    (runs : db'.runs.rows = db.runs.rows.map f) (change : ∀ r ∈ db.runs.rows,
      Change op db r (f r) (released r.id).isSome) (leases : db'.leases.rows
      = db.leases.rows.map (ResourceLease.releaseBy released)) : HeldInv db' := by
  constructor
  · intro r' hr'
    rw [runs] at hr'
    obtain ⟨r, hr, rfl⟩ := List.mem_map.mp hr'
    exact (change r hr).alive (inv.alive r hr)
  intro r' hr' hheld
  rw [runs] at hr'
  obtain ⟨r, hr, rfl⟩ := List.mem_map.mp hr'
  obtain ⟨hwas, hkept⟩ := (change r hr).held (inv.alive r hr) (hback r hr) hheld
  obtain ⟨l, hl, hrun, hopen, hend⟩ := inv.backed r hr hwas
  refine ⟨l.releaseBy released, ?_, ?_, ?_, ?_⟩
  · rw [leases]
    exact List.mem_map_of_mem hl
  · rw [(change r hr).sameRun.id]
    exact hrun
  · rw [← hrun, Option.isSome_eq_false_iff, Option.isNone_iff_eq_none] at hkept
    show l.releasedAt.or (released l.taskRunId) = none
    rw [hopen, hkept, Option.none_or]
  · rw [(change r hr).leaseEnd]
    exact hend

/-- A new queued row, and releases of runs that have no process. -/
theorem HeldInv.create {r : TaskRun} (hq : r.state = .queued)
    (runs : db'.runs.rows = db.runs.rows ++ [r])
    (leases : db'.leases.rows = db.leases.rows.map (ResourceLease.releaseBy released))
    (hkept : ∀ r ∈ db.runs.rows, r.held = true → released r.id = none) : HeldInv db' := by
  have hold : ∀ s ∈ db'.runs.rows, s.held = true → s ∈ db.runs.rows := by
    intro s hs hheld
    rw [runs] at hs
    rcases List.mem_append.mp hs with hs | hs
    · exact hs
    · obtain rfl := List.mem_singleton.mp hs
      simp [TaskRun.held, hq, RunState.active] at hheld
  constructor
  · intro s hs hact
    exact inv.alive s (hold s hs (TaskRun.held_of_active hact)) hact
  intro s hs hheld
  obtain ⟨l, hl, hrun, hopen, hend⟩ := inv.backed s (hold s hs hheld) hheld
  refine ⟨l.releaseBy released, ?_, hrun, ?_, hend⟩
  · rw [leases]
    exact List.mem_map_of_mem hl
  · show l.releasedAt.or (released l.taskRunId) = none
    rw [hopen, hrun, hkept s (hold s hs hheld) hheld, Option.none_or]

theorem HeldInv.assigned {a : Assignment} {run : TaskRun} (h : Assigned db a run db')
    (hend : a.lease.expiresAt = a.assignedAt + leaseTTL run.timeoutSeconds) : HeldInv db' := by
  constructor
  · intro r hr' hact
    rcases h.mem_runs.mp hr' with rfl | ⟨hr, -⟩
    · rfl
    · exact inv.alive r hr hact
  · intro r hr' hheld
    rw [h.leases]
    rcases h.mem_runs.mp hr' with rfl | ⟨hr, -⟩
    · exact ⟨a.leaseRow, List.mem_append_right _ (List.mem_singleton_self _),
        h.id_eq.symm, rfl, hend⟩
    · obtain ⟨l, hl, hl'⟩ := inv.backed r hr hheld
      exact ⟨l, List.mem_append_left _ hl, hl'⟩

end Steps

/-- The invariant, with the clock: active runs are within their
lease. -/
structure BackedInv (s : Clocked) : Prop extends HeldInv s.db where
  live : ∀ r ∈ s.db.runs.rows, r.state.active = true → s.clock < r.leaseEnd

/-- One operation of the platform. The two conditions are about the runs
that return and the run that is assigned. -/
theorem BackedInv.applied (inv : BackedInv s)
    (hback : ∀ r ∈ s.db.runs.rows, reenters s.db op r = true →
      r.processConfirmedGone = false ∧ s.clock < r.leaseEnd)
    (hassign : ∀ a, op = .assign a → ∀ r ∈ s.db.runs.rows, r.id = a.runID →
      a.lease.expiresAt = a.assignedAt + leaseTTL r.timeoutSeconds ∧ s.clock < a.lease.expiresAt) :
    BackedInv { s with db := apply s.db op } := by
  have hgone := fun r hr hre => (hback r hr hre).1
  -- a fresh queued row is not active
  have hfresh : ∀ {r : TaskRun}, r.state = .queued →
      (apply s.db op).runs.rows = s.db.runs.rows ++ [r] →
      ∀ r' ∈ (apply s.db op).runs.rows, r'.state.active = true → s.clock < r'.leaseEnd := by
    intro r hq runs r' hr' hact
    rw [runs] at hr'
    rcases List.mem_append.mp hr' with hr' | hr'
    · exact inv.live r' hr' hact
    · obtain rfl := List.mem_singleton.mp hr'
      rw [hq] at hact
      cases hact
  cases apply_effect s.db op with
  | rewrite f released runs change leases =>
    refine ⟨inv.rewrite hgone runs change leases, ?_⟩
    intro r' hr' hact
    rw [runs] at hr'
    obtain ⟨r, hr, rfl⟩ := List.mem_map.mp hr'
    rw [(change r hr).leaseEnd]
    cases hwas : r.state.active with
    | true => exact inv.live r hr hwas
    | false => exact (hback r hr ((change r hr).reenters hwas hact)).2
  | assigned a run hop h =>
    obtain ⟨hend, hclock⟩ := hassign a hop run h.mem h.id_eq
    refine ⟨inv.assigned h hend, ?_⟩
    intro r hr' hact
    rcases h.mem_runs.mp hr' with rfl | ⟨hr, -⟩
    · rw [hend] at hclock
      exact hclock
    · exact inv.live r hr hact
  | triggered d id versionID type trigger parameters now fresh runs leases =>
    have hleases := leases.trans (Database.map_releaseBy_none _).symm
    exact ⟨inv.create rfl runs hleases fun _ _ _ => rfl, hfresh rfl runs⟩
  | retried run id at_ automatic hop hrun retryable last fresh runs leases =>
    refine ⟨inv.create rfl runs leases ?_, hfresh rfl runs⟩
    intro r hr hheld
    refine if_neg fun hid => ?_
    rw [s.db.runs.eq_of_key_eq hr hrun hid, TaskRun.not_held_of_retryable retryable] at hheld
    cases hheld

theorem BackedInv.step {op : ClockOp} (inv : BackedInv s)
    (hop : InLeaseTime s op) : BackedInv (s.step op) := by
  cases op with
  | tick now =>
    refine ⟨inv.toHeldInv, ?_⟩
    intro r hr hact
    exact max_lt (inv.live r hr hact) (hop r hr hact)
  | other op hother =>
    refine inv.applied hop ?_
    intro a ha
    rw [ha] at hother
    cases hother
  | assign runID executionToken leaseID candidate readAt =>
    simp only [Clocked.step]
    split
    · exact inv
    next run hrun =>
    obtain ⟨r, hr, hreads⟩ := Database.getRun_eq_some hrun
    obtain ⟨hmem, hid⟩ := s.db.runs.find?_eq_some.mp hr
    refine inv.applied (fun r _ hre => ?_) ?_
    · -- an assignment brings no run back
      simp [reenters] at hre
    intro a ha r' hr' hid'
    obtain rfl := Op.assign.inj ha
    obtain rfl := s.db.runs.eq_of_key_eq hr' hmem (hid'.trans hreads.id)
    refine ⟨?_, ?_⟩
    · show _ + leaseTTL _ = _
      rw [hreads.timeoutSeconds]
      rfl
    · show _ < _ + leaseTTL _
      rw [hreads.timeoutSeconds]
      exact hop r' hr' hid

-- ======== the runs

/-- Every active run has an open lease that has not expired. -/
def Clocked.Backed (s : Clocked) : Prop :=
  ∀ r ∈ s.db.runs.rows, r.state.active = true → ∃ l ∈ s.db.leases.rows,
      l.taskRunId = r.id ∧ l.releasedAt = none ∧ s.clock < l.expiresAt

instance (s : Clocked) : Decidable s.Backed :=
  inferInstanceAs (Decidable (∀ r ∈ s.db.runs.rows, _ → _))

theorem BackedInv.isBacked (inv : BackedInv s) : s.Backed := by
  intro r hr hact
  obtain ⟨l, hl, hrun, hopen, hend⟩ := inv.backed r hr (TaskRun.held_of_active hact)
  refine ⟨l, hl, hrun, hopen, ?_⟩
  rw [hend]
  exact inv.live r hr hact

theorem backedInv_empty (clock : Int) : BackedInv ⟨.empty, clock⟩ := by
  refine ⟨⟨?_, ?_⟩, ?_⟩ <;> intro r hr <;> cases hr

/-- Active runs stay backed along every run in which they end within
their lease and come back only while they have one. -/
theorem active_run_backed (clock : Int) (ops : List ClockOp)
    (h : Transition.Guarded Clocked.step InLeaseTime ⟨.empty, clock⟩ ops) :
    (Transition.run Clocked.step ⟨.empty, clock⟩ ops).Backed :=
  (Transition.Guarded.invariant (fun _ _ inv hop => BackedInv.step inv hop)
    (backedInv_empty clock) h).isBacked

-- ======== samples

instance (s : Clocked) : (op : ClockOp) → Decidable (InLeaseTime s op)
  | .tick _ => inferInstanceAs (Decidable (∀ r ∈ s.db.runs.rows, _ → _))
  | .assign .. => inferInstanceAs (Decidable (∀ r ∈ s.db.runs.rows, _ → _))
  | .other .. => inferInstanceAs (Decidable (∀ r ∈ s.db.runs.rows, _ → _))

/-- A server that takes the sample task. -/
def Sample.candidate : Candidate where
  serverID := "server"
  total := ⟨4000, 4000, 4000⟩
  available := ⟨4000, 4000, 4000⟩
  runningTasks := 0
  maxConcurrency := 4
  scriptCached := false
  fairnessScore := 0
  schedulingWeight := 100

/-- A run is assigned at instant 5 and its agent reports that it
started. -/
def Sample.started : List ClockOp :=
  [.other (.publishVersion version) rfl, .other (.enrollServer "server" []) rfl,
    .other (.heartbeat (heartbeat "server" 1 0) 0) rfl,
    .other (.createDefinition (definition "task" 1)) rfl,
    .other (.trigger "task" "run" trigger 5) rfl,
    .assign "run" "token" "lease" candidate 5,
    .other (.saveSync "server" "version" .ready (some "digest")) rfl,
    .assign "run" "token" "lease" candidate 5,
    .other (.runEvent 6 (event "run" "token" 1 "started" 6)) rfl]

/-- The agent is silent for a while, then reports the run. -/
def Sample.reconnects : List ClockOp :=
  started ++ [.other (.serverOffline "server" 7) rfl,
    .other (.reconcile ⟨"server", false, [⟨"run", "token", none⟩]⟩ 8) rfl,
    .tick 9]

/-- The agent reports that it has no such process, then that it has. -/
def Sample.reappears : List ClockOp :=
  started ++ [.other (.reconcile ⟨"server", true, []⟩ 7) rfl,
    .other (.reconcile ⟨"server", false, [⟨"run", "token", none⟩]⟩ 8) rfl]

/-- The run is still going when its lease runs out. -/
def Sample.overstays : List ClockOp :=
  started ++ [.tick (5 + leaseTTL 60)]

theorem active_run_backed_reconnects :
    (Transition.run Clocked.step ⟨.empty, 0⟩ Sample.reconnects).Backed :=
  active_run_backed 0 Sample.reconnects (by decide)

/-- Two ways to lose the lease: it is released and the run comes back,
or the run goes on and the lease expires. -/
theorem active_run_unbacked : ¬ (Transition.run Clocked.step ⟨.empty, 0⟩ Sample.reappears).Backed
      ∧ ¬ (Transition.run Clocked.step ⟨.empty, 0⟩ Sample.overstays).Backed := by
  decide

end Yunling
