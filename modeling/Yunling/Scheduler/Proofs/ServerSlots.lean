/-
The slots of a server.

`Filter` keeps a server whose last heartbeat reported fewer tasks than
its `max_concurrency`. Nothing counts the runs that were assigned to it
since: Redis meters resources only, and `Assign` counts the runs of the
same definition only. So a server stays within its slots along every
interleaving in which the snapshot behind an assignment still covers the
runs that are active there, and runs that come back find a slot
(`server_slots_within`). One scan over two tasks is enough to exceed them
(`server_slots_exceeded`).

# Decisions

A decision and its commit are two steps, with anything in between:
`decide` reads a run and the snapshots and keeps the candidates on offer,
`commit` assigns the run to a server on offer. `scheduleOne` and `scan`
are runs of these steps (`scheduleOne_slotRun`, `scan_slotRun`).
-/
import Yunling.Platform.Servers
import Yunling.Scheduler.Proofs.Scan

namespace Yunling

open Relational Scheduler

-- ======== the system

/-- The database and the candidates on offer. -/
structure SlotState where
  db : Database
  offers : List (Run × Candidate)

/-- The steps of scheduling, and everything else. -/
inductive SlotStep where
  /-- `ScheduleOne` reads the run and filters the servers -/
  | decide (runID : String) (dbNow : Int)
  /-- `ScheduleOne` assigns the run to one of them -/
  | commit (run : Run) (candidate : Candidate) (leaseID executionToken : String) (now : Int)
  /-- any other operation -/
  | other (op : Op) (h : op.isAssign = false)

/-- One step. -/
def slotStep (fold : Char → Char) (s : SlotState) : SlotStep → SlotState
  | .decide runID dbNow =>
    match s.db.getRun runID with
    | none => s
    | some run =>
      { s with
        offers := s.offers ++ (filter fold run (s.db.listSnapshots dbNow run)).map
            fun candidate => (run, candidate) }
  | .commit run candidate leaseID executionToken now =>
    if (run, candidate) ∈ s.offers then
      { s with
        db := apply s.db (.assign (run.assignment ((run.leaseRequest candidate now).lease leaseID)
          executionToken now)) }
    else s
  | .other op _ => { s with db := apply s.db op }

/-- The active runs of a server. -/
def Database.slotsUsed (db : Database) (serverID : String) : Nat :=
  db.runs.rows.countP (TaskRun.activeOn serverID)

/-- Every server is within its slots. -/
def Database.ServersWithin (db : Database) : Prop :=
  ∀ s ∈ db.servers.rows, db.slotsUsed s.id ≤ s.maxConcurrency

instance (db : Database) : Decidable db.ServersWithin :=
  inferInstanceAs (Decidable (∀ s ∈ db.servers.rows, _))

/-- `task_runs.assigned_server_id REFERENCES servers(id)`. -/
def Database.ServerRefs (db : Database) : Prop :=
  ∀ r ∈ db.runs.rows, ∀ serverID ∈ r.assignedServerId, ∃ s ∈ db.servers.rows, s.id = serverID

instance (db : Database) : Decidable db.ServerRefs :=
  inferInstanceAs (Decidable (∀ r ∈ db.runs.rows, _))

/-- What keeps servers within their slots: the snapshot behind an
assignment covers the runs that are active on the server, and a server
has slots for all the runs that come back to it at once. -/
def SlotsFree (s : SlotState) : SlotStep → Prop
  | .decide .. => True
  | .commit _ candidate .. =>
    (s.db.slotsUsed candidate.serverID : Int) ≤ candidate.runningTasks
  | .other op _ => ∀ r ∈ s.db.runs.rows, reenters s.db op r = true → ∀ server ∈ s.db.servers.rows,
      r.assignedServerId = some server.id → s.db.slotsUsed server.id
        + s.db.runs.rows.countP (fun r =>
          r.assignedServerId == some server.id && reenters s.db op r)
        ≤ server.maxConcurrency

-- ======== the invariant

/-- The bound, and what carries it: assigned servers exist, and what is
on offer had a free slot of the server's bound. -/
structure SlotInv (s : SlotState) : Prop where
  within : s.db.ServersWithin
  refs : s.db.ServerRefs
  offered : ∀ offer ∈ s.offers, offer.2.runningTasks < offer.2.maxConcurrency
      ∧ ∃ server ∈ s.db.servers.rows, server.id = offer.2.serverID
        ∧ (server.maxConcurrency : Int) = offer.2.maxConcurrency

theorem mem_listSnapshots {db : Database} {dbNow : Int} {run : Run}
    {item : Snapshot} (h : item ∈ db.listSnapshots dbNow run) :
    ∃ server ∈ db.servers.rows, item.id = server.id
      ∧ item.maxConcurrency = server.maxConcurrency := by
  obtain ⟨server, hserver, rfl⟩ := List.mem_map.mp h
  exact ⟨server, (List.mem_insertionSort _).mp hserver, rfl, rfl⟩

section Steps

variable {op : Op} {db db' : Database}

/-- References are kept: a run keeps its server, and no server goes. -/
theorem Database.ServerRefs.step (refs : db.ServerRefs) : (apply db op).ServerRefs := by
  have hservers := apply_servers db op
  -- a reference of before still points to a server
  have hold : ∀ r ∈ db.runs.rows, ∀ serverID, r.assignedServerId = some serverID →
      ∃ s ∈ (apply db op).servers.rows, s.id = serverID := by
    intro r hr serverID hassigned
    obtain ⟨s, hs, rfl⟩ := refs r hr serverID hassigned
    obtain ⟨s', hs', hid, -⟩ := hservers.mem_of_mem hs
    exact ⟨s', hs', hid⟩
  intro r' hr' serverID hassigned
  rcases (apply_effect db op).origin hr' with ⟨r, hr, _, hc⟩ | ⟨a, run, h, rfl⟩ | ⟨-, hnew, -⟩
  · rw [hc.assignment_eq.2.1] at hassigned
    exact hold r hr serverID hassigned
  · cases hassigned
    obtain ⟨s, hs, hs'⟩ := h.server
    obtain ⟨s', hs'', hid', -⟩ := hservers.mem_of_mem hs
    exact ⟨s', hs'', hid'.trans hs'⟩
  · rw [hnew] at hassigned
    cases hassigned

/-- No run is on a server that does not exist. -/
theorem Database.ServerRefs.slotsUsed_eq_zero (refs : db.ServerRefs) {serverID : String}
    (h : ∀ s ∈ db.servers.rows, s.id ≠ serverID) : db.slotsUsed serverID = 0 := by
  unfold Database.slotsUsed
  rw [List.countP_eq_zero]
  intro r hr hon
  unfold TaskRun.activeOn at hon
  rw [Bool.and_eq_true, beq_iff_eq] at hon
  obtain ⟨s, hs, hid⟩ := refs r hr serverID hon.1
  exact h s hs hid

/-- The slots in use after an operation, where those that come back or
are assigned find room. -/
theorem slotsUsed_step {serverID : String} {bound : Nat} (hused : db.slotsUsed serverID ≤ bound)
    (hback : ∀ r ∈ db.runs.rows, reenters db op r = true → r.assignedServerId = some serverID →
      db.slotsUsed serverID + db.runs.rows.countP (fun r =>
          r.assignedServerId == some serverID && reenters db op r)
        ≤ bound) (hassign : ∀ a, op = .assign a → a.serverID = serverID →
      (∃ s ∈ db.servers.rows, s.id = a.serverID) → db.slotsUsed serverID < bound) :
    (apply db op).slotsUsed serverID ≤ bound := by
  cases apply_effect db op with
  | rewrite f released runs change leases =>
    have hcount : (apply db op).slotsUsed serverID
        ≤ db.slotsUsed serverID + db.runs.rows.countP (fun r =>
          r.assignedServerId == some serverID && reenters db op r) := by
      unfold Database.slotsUsed TaskRun.activeOn
      rw [runs]
      refine countP_active_le change fun r hr => ?_
      rw [(change r hr).assignment_eq.2.1]
    by_cases hnone : db.runs.rows.countP (fun r =>
        r.assignedServerId == some serverID && reenters db op r) = 0
    · omega
    · obtain ⟨r, hr, hre⟩ := List.countP_pos_iff.mp (Nat.pos_of_ne_zero hnone)
      rw [Bool.and_eq_true, beq_iff_eq] at hre
      exact Nat.le_trans hcount (hback r hr hre.2 hre.1)
  | assigned a run hop h =>
    unfold Database.slotsUsed at hused hassign ⊢
    rw [h.runs]
    by_cases hserver : a.serverID = serverID
    · -- one more run, and a slot was free
      exact Nat.le_trans (db.runs.countP_amend_key_le a.runID _ _) (hassign a hop hserver h.server)
    · -- a run of another server
      refine Nat.le_trans (Table.countP_amend_le _ _ _ _ ?_) hused
      simp [TaskRun.activeOn, TaskRun.assignTo, hserver]
  | triggered d id versionID type trigger parameters now fresh runs leases =>
    unfold Database.slotsUsed at hused ⊢
    rw [runs]
    simpa [TaskRun.activeOn, Definition.newRun] using hused
  | retried run id at_ automatic hop hrun retryable last fresh runs leases =>
    unfold Database.slotsUsed at hused ⊢
    rw [runs]
    simpa [TaskRun.activeOn, TaskRun.nextAttempt] using hused

end Steps

/-- One operation of the platform, on a state with offers. -/
theorem SlotInv.applied {s : SlotState} {op : Op} (inv : SlotInv s)
    (hback : ∀ r ∈ s.db.runs.rows, reenters s.db op r = true →
      ∀ server ∈ s.db.servers.rows, r.assignedServerId = some server.id → s.db.slotsUsed server.id
        + s.db.runs.rows.countP (fun r =>
          r.assignedServerId == some server.id && reenters s.db op r)
        ≤ server.maxConcurrency)
    (hassign : ∀ a, op = .assign a → ∀ server ∈ s.db.servers.rows, a.serverID = server.id →
      s.db.slotsUsed server.id < server.maxConcurrency) :
    SlotInv { s with db := apply s.db op } := by
  have hservers := apply_servers s.db op
  refine ⟨?_, inv.refs.step, ?_⟩
  · intro server' hserver'
    rcases hservers.mem hserver' with ⟨server, hs, hid, hbound⟩ | hnew
    · rw [hid, hbound]
      exact slotsUsed_step (inv.within server hs) (fun r hr hre ha => hback r hr hre server hs ha)
        (fun a ha hserver _ => hassign a ha server hs hserver)
    -- a server that was just enrolled has no runs
    have hzero := inv.refs.slotsUsed_eq_zero hnew
    refine slotsUsed_step (by omega) ?_ ?_
    · intro r hr _ ha
      obtain ⟨t, ht, hid⟩ := inv.refs r hr _ ha
      exact absurd hid (hnew t ht)
    · intro a _ hserver hexists
      obtain ⟨t, ht, hid⟩ := hexists
      exact absurd (hid.trans hserver) (hnew t ht)
  · intro offer hoffer
    obtain ⟨hfree, server, hs, hid, hbound⟩ := inv.offered offer hoffer
    obtain ⟨server', hs', hid', hbound'⟩ := hservers.mem_of_mem hs
    exact ⟨hfree, server', hs', hid'.trans hid, hbound' ▸ hbound⟩

theorem SlotInv.step {fold : Char → Char} {s : SlotState} {step : SlotStep} (inv : SlotInv s)
    (hfree : SlotsFree s step) : SlotInv (slotStep fold s step) := by
  cases step with
  | decide runID dbNow =>
    simp only [slotStep]
    split
    · exact inv
    refine ⟨inv.within, inv.refs, ?_⟩
    intro offer hoffer
    rcases List.mem_append.mp hoffer with hoffer | hoffer
    · exact inv.offered offer hoffer
    · obtain ⟨candidate, hmem, rfl⟩ := List.mem_map.mp hoffer
      obtain ⟨item, hitem, rfl, hslots, -⟩ := mem_filter fold hmem
      obtain ⟨server, hs, hid, hbound⟩ := mem_listSnapshots hitem
      exact ⟨hslots, server, hs, hid.symm, hbound.symm⟩
  | commit run candidate leaseID executionToken now =>
    simp only [slotStep]
    split
    · next hoffer =>
      obtain ⟨hslots, server, hs, hid, hbound⟩ := inv.offered _ hoffer
      have hcovered : (s.db.slotsUsed candidate.serverID : Int) ≤ candidate.runningTasks := hfree
      refine inv.applied (fun r _ hre => ?_) ?_
      · -- an assignment brings no run back
        simp [reenters] at hre
      intro a ha server' hs' hserver
      obtain rfl := Op.assign.inj ha
      have hid' : server.id = candidate.serverID := hid
      have hserver' : candidate.serverID = server'.id := hserver
      have hsame : server' = server := s.db.servers.eq_of_key_eq
        hs' hs (hserver'.symm.trans hid'.symm)
      rw [hsame, hid']
      dsimp only at hslots hbound
      omega
    · exact inv
  | other op hother =>
    refine inv.applied hfree ?_
    intro a ha
    rw [ha] at hother
    cases hother

-- ======== the scheduler

/-- `db'` is reached from `db` by scheduling steps and operations. -/
def SlotReaches (fold : Char → Char) (db db' : Database) : Prop :=
  ∀ offers, ∃ steps offers', Transition.run (slotStep fold) ⟨db, offers⟩ steps = ⟨db', offers'⟩

section Reaches

variable {fold : Char → Char} {db db' db'' : Database}

theorem SlotReaches.refl (db : Database) : SlotReaches fold db db :=
  fun offers => ⟨[], offers, rfl⟩

theorem SlotReaches.trans (h : SlotReaches fold db db')
    (h' : SlotReaches fold db' db'') : SlotReaches fold db db'' := by
  intro offers
  obtain ⟨steps, offers', hrun⟩ := h offers
  obtain ⟨steps', offers'', hrun'⟩ := h' offers'
  refine ⟨steps ++ steps', offers'', ?_⟩
  rw [Transition.run_append, hrun, hrun']

theorem SlotReaches.op (op : Op) (hop : op.isAssign = false) : SlotReaches fold db (apply db op) :=
  fun offers => ⟨[.other op hop], offers, rfl⟩

end Reaches

section Scheduler

variable (env : Env)

theorem hold_reaches (run : Run) (reason : String) (w : World) :
    SlotReaches env.fold w.db (hold env run reason w).2.db := by
  have hop : SlotReaches env.fold w.db (settle w.db
      (setQueueReason run.id reason (env.dbNow w.ticks) w.db)) :=
    .op (.setQueueReason run.id reason (env.dbNow w.ticks)) rfl
  unfold hold
  dsimp only
  cases hset : setQueueReason run.id reason (env.dbNow w.ticks) w.db with
  | error e => exact .refl _
  | ok result => rw [hset] at hop; exact hop

/-- The commit of a run to a server on offer. -/
theorem commit_run {run : Run} {candidate : Candidate} {leaseID : String}
    {now : Int} {w : World} {offers : List (Run × Candidate)} (hoffer : (run, candidate) ∈ offers) :
    ∃ steps, Transition.run (slotStep env.fold) ⟨w.db, offers⟩ steps
      = ⟨(commit env run ((run.leaseRequest candidate now).lease leaseID) now w).2.db, offers⟩ := by
  refine ⟨[.commit run candidate leaseID (env.uuid w.ticks) now], ?_⟩
  rw [Transition.run_cons]
  simp only [slotStep]
  rw [if_pos hoffer]
  show SlotState.mk (settle w.db (assign _ w.db)) offers = _
  unfold commit
  cases assign (run.assignment ((run.leaseRequest candidate now).lease leaseID)
      (env.uuid w.ticks) now) w.db with
  | error e => rfl
  | ok result =>
    obtain ⟨assigned, db'⟩ := result
    cases assigned <;> rfl

theorem tryReserve_lease {request : LeaseRequest} {leaseID : String} {redis redis' : Redis}
    {lease : Lease} (h : tryReserve request leaseID redis = (.ok (some lease), redis')) :
    lease = request.lease leaseID := by
  unfold tryReserve at h
  split at h
  · cases h
  dsimp only at h
  split at h
  · cases h
  · have hreply := Except.ok.inj (Prod.mk.inj h).1
    split at hreply
    · cases hreply
    · exact (Option.some.inj hreply).symm

theorem tryCandidates_run {run : Run} {now : Int} {reason : String}
    {candidates : List Candidate} {offers : List (Run × Candidate)} :
    ∀ {w : World}, (∀ c ∈ candidates, (run, c) ∈ offers) →
      ∃ steps offers', Transition.run (slotStep env.fold) ⟨w.db, offers⟩ steps
        = ⟨(tryCandidates env run now reason candidates w).2.db, offers'⟩ := by
  induction candidates with
  | nil =>
    intro w _
    exact hold_reaches env run reason w offers
  | cons candidate rest ih =>
    intro w hoffers
    unfold tryCandidates
    split
    · exact ⟨[], offers, rfl⟩
    · next redis htry =>
      exact @ih { w.tick with redis } fun c hc => hoffers c (List.mem_cons_of_mem _ hc)
    · next lease redis htry =>
      obtain rfl := tryReserve_lease htry
      obtain ⟨steps, hsteps⟩ := @commit_run env run candidate
        (env.uuid w.ticks) now { w.tick with redis } offers (hoffers candidate List.mem_cons_self)
      exact ⟨steps, offers, hsteps⟩

theorem place_reaches {runID : String} {run : Run} {now : Int}
    {w : World} (hget : w.db.getRun runID = some run) :
    SlotReaches env.fold w.db (place env run now w).2.db := by
  unfold place
  split
  · exact hold_reaches env run _ w
  intro offers
  -- the candidates are offered first
  have hoffer : ∀ c ∈ rankCandidates (candidates env run w), (run, c)
      ∈ offers ++ (filter env.fold run (w.db.listSnapshots
        (env.dbNow w.ticks) run)).map fun c => (run, c) := by
    intro c hc
    refine List.mem_append_right _ (List.mem_map.mpr ⟨c, ?_, rfl⟩)
    exact mem_rankCandidates.mp hc
  obtain ⟨steps, offers', hsteps⟩ := @tryCandidates_run env run now
    (waitReason env run (w.db.listSnapshots (env.dbNow w.ticks) run)
      (candidates env run w)) _ _ w.tick hoffer
  refine ⟨.decide runID (env.dbNow w.ticks) :: steps, offers', ?_⟩
  rw [Transition.run_cons]
  simp only [slotStep]
  rw [hget]
  exact hsteps

/-- `ScheduleOne` is a run of the steps. -/
theorem scheduleOne_slotRun (runID : String) (w : World) :
    SlotReaches env.fold w.db (scheduleOne env runID w).2.db := by
  unfold scheduleOne
  cases hget : w.db.getRun runID with
  | none => exact .refl _
  | some run =>
    dsimp only
    split
    · exact .refl _
    next hstate =>
    split
    · exact .refl _
    split
    · have hop : SlotReaches env.fold w.db (settle w.db
          (expireRun run.id (env.now w.ticks) w.db)) :=
        .op (.expire run.id (env.now w.ticks)) rfl
      cases hexp : expireRun run.id (env.now w.ticks) w.tick.db with
      | error e => exact .refl _
      | ok result =>
        obtain ⟨expired, db'⟩ := result
        have hexp' : expireRun run.id (env.now w.ticks) w.db = .ok (expired, db') := hexp
        cases expired with
        | false =>
          exact absurd hexp' (expireRun_waiting hget (not_not.mp hstate))
        | true =>
          rw [hexp'] at hop
          dsimp only
          split <;> exact hop
    · have hplace := @place_reaches env runID run (env.now w.ticks) w.tick hget
      exact hplace

theorem retryFailed_reaches (at_ : Int) (runIDs : List String) :
    ∀ w : World, SlotReaches env.fold w.db (retryFailed env at_ runIDs w).2.db := by
  induction runIDs with
  | nil => intro w; exact .refl _
  | cons runID rest ih =>
    intro w
    have hop : SlotReaches env.fold w.db (settle w.db
        (retryRun runID (env.uuid w.ticks) at_ true w.db)) :=
      .op (.retry runID (env.uuid w.ticks) at_ true) rfl
    unfold retryFailed
    cases hretry : retryRun runID (env.uuid w.ticks) at_ true w.db with
    | error e =>
      dsimp only
      split
      · exact ih w.tick
      · exact .refl _
    | ok result =>
      rw [hretry] at hop
      exact hop.trans (ih { w.tick with db := result.2 })

theorem drain_reaches (count : Nat) :
    ∀ w : World, SlotReaches env.fold w.db (drain env count w).2.db := by
  induction count with
  | zero => intro w; exact .refl _
  | succ count ih =>
    intro w
    unfold drain
    split
    · exact .refl _
    next run queue hpop =>
    have hcall := scheduleOne_slotRun env run.id
      { w with queue, attempted := w.attempted ++ [run.id] }
    split
    · next hatt =>
      have hcall' : SlotReaches env.fold w.db (attempt env run queue w).2.db := hcall
      rw [hatt] at hcall'
      exact hcall'
    · next hatt =>
      have hcall' : SlotReaches env.fold w.db (attempt env run queue w).2.db := hcall
      rw [hatt] at hcall'
      exact hcall'.trans (ih _)

/-- `Scan` is a run of the steps. -/
theorem scan_slotRun (w : World) : SlotReaches env.fold w.db (scan env w).2.db := by
  have hprep : SlotReaches env.fold w.db (prepareScan env w).2.db := by
    have hretry := retryFailed_reaches env (env.now w.ticks) w.db.retryCandidates w.tick
    unfold prepareScan
    split
    · next h =>
      rw [h] at hretry
      exact hretry
    · next h =>
      rw [h] at hretry
      dsimp only
      split <;> exact hretry
  unfold scan
  split
  · next h =>
    rw [h] at hprep
    exact hprep
  · next h =>
    rw [h] at hprep
    exact hprep.trans (drain_reaches env _ _)

end Scheduler

-- ======== the runs

/-- A server stays within its slots along every run in which assignments
rest on snapshots that cover what is active, and runs come back to free
slots. -/
theorem server_slots_within (fold : Char → Char) (db : Database)
    (refs : db.ServerRefs) (within : db.ServersWithin) (steps : List SlotStep)
    (free : Transition.Guarded (slotStep fold) SlotsFree ⟨db, []⟩ steps) :
    (Transition.run (slotStep fold) ⟨db, []⟩ steps).db.ServersWithin := by
  have hinit : SlotInv ⟨db, []⟩ := by
    refine ⟨within, refs, ?_⟩
    intro offer hoffer
    cases hoffer
  exact (Transition.Guarded.invariant
    (fun _ _ inv hfree => SlotInv.step inv hfree) hinit free).within

-- ======== samples

instance (s : SlotState) : (step : SlotStep) → Decidable (SlotsFree s step)
  | .decide .. => isTrue trivial
  | .commit .. => inferInstanceAs (Decidable (_ ≤ _))
  | .other .. => inferInstanceAs (Decidable (∀ r ∈ s.db.runs.rows, _ → _))

/-- The first waiting run, and the candidate it is offered. -/
def Sample.offer : Run × Candidate :=
  let db := (twoWaiting 100).db
  let run := (db.getRun "run-1").get (by decide)
  (run, (filter id run (db.listSnapshots 5 run)).head (by decide))

/-- The first run is assigned, a heartbeat reports it, and then the
second one is considered. -/
def Sample.reported : List SlotStep :=
  [.decide "run-1" 5, .commit offer.1 offer.2 "lease-1" "token-1" 5,
    .other (.heartbeat (heartbeat "server" 2 1) 6) rfl,
    .decide "run-2" 7]

theorem server_slots_within_reported :
    (Transition.run (slotStep id) ⟨(Sample.twoWaiting 100).db, []⟩ Sample.reported).db.ServersWithin
    ∧ (Transition.run (slotStep id) ⟨(Sample.twoWaiting 100).db, []⟩
      Sample.reported).db.slotsUsed "server" = 1 :=
  ⟨server_slots_within id (Sample.twoWaiting 100).db (by decide)
    (by decide) Sample.reported (by decide), by decide⟩

/-- One scan gives two runs to a server with one slot. -/
theorem server_slots_exceeded : ∃ (env : Env) (w w' : World), w.db.ServerRefs ∧ w.db.ServersWithin
      ∧ scan env w = (.ok (), w') ∧ ¬ w'.db.ServersWithin :=
  ⟨Sample.env, Sample.twoWaiting 100, _, by decide, by decide, Prod.ext (by decide) rfl, by decide⟩

end Yunling
