/-
At most one live attempt of a lineage.

A retry is made of an attempt the platform has recorded gone. The record
is true, and with it no attempt that has a successor is alive or can
still be started, along every run of the system that keeps to four rules
(`Careful`):

- an assignment is written to an agent's connection after the agent's
  first report, not while an authoritative report of it is on its way,
  and not for a run recorded gone that the agent has not claimed;
- an attempt that is ended without having been started (by a dispatcher,
  or by the agent's event number 1) has no process there and no
  assignment left to start it from;
- no message brings a run recorded gone back to `running`;
- a process that is stopped has ended when the stop is over.

Nothing in the code sees to the first three. The connection of an agent
is registered before its first report is sent, so an assignment may wait
in it while the report declares the run absent (`two_live_attempts`).

# Shape of the argument

The agents' side is `AgentInv`, the database's is `AttemptInv`. They
meet in `FleetInv.quiet`: what is recorded gone can run nowhere. A run
is given to one server, so that only this server's agent is asked
(`FleetInv.elsewhere`).
-/
import Yunling.Agent.Proofs.Custody
import Yunling.Fleet.Basic
import Yunling.Platform.Proofs.Attempts

namespace Yunling

open Relational Executor

-- ======== the rules

/-- A dispatcher fails a run only where the agent cannot run it, and
sends it only past the agent's start-up. -/
def Fleet.HandsOver (s : Fleet) (run : DispatchRun)
    (payload : Option String) (sending : Sending) : Prop :=
  ((dispatchDecision run payload).isSome → (s.agents run.serverID).mayRun run.id = false)
  ∧ (dispatchDecision run payload = none → sending = .written →
    (s.agents run.serverID).phase ≠ .dialed ∧ (s.agents run.serverID).reporting = false
      ∧ ∀ r ∈ s.db.runs.rows, r.id = run.id → r.processConfirmedGone = true →
        (s.agents run.serverID).runner.host.claimed run.id = true)

/-- The run an agent's message ends without having started it. -/
def AgentMessage.unstarted? : AgentMessage → Option String
  | .event e =>
    if e.sequence = 1 ∧ e.type ≠ "started" then some e.runID else none
  | .report .. => none

/-- A message ends an unstarted run only where the agent cannot run it,
and brings back no run recorded gone. -/
def Fleet.Arrives (s : Fleet) (serverID : String) (m : AgentMessage) (now : Int) : Prop :=
  (∀ runID ∈ m.unstarted?, (s.agents serverID).mayRun runID = false)
    ∧ ∀ r ∈ s.db.runs.rows, reenters s.db (m.op serverID now) r = true →
      r.processConfirmedGone = false

/-- The rules, step by step. -/
def Careful (s : Fleet) : FleetOp → Prop
  | .handOver i payload sending _ =>
    ∀ run ∈ s.claimed[i]?, s.HandsOver run payload sending
  | .deliver serverID i now =>
    ∀ m ∈ (s.agents serverID).next? i, s.Arrives serverID m now
  | .agent _ act => act.thorough = true
  | _ => True

-- ======== the invariant

/-- The database, the dispatchers and the agents together. -/
structure FleetInv (s : Fleet) : Prop where
  attempts : AttemptInv s.db
  claimed : ∀ c ∈ s.claimed, Placed s.db c.serverID c.id
  agents : ∀ serverID, AgentInv (Placed s.db serverID) (s.agents serverID)
  /-- what is recorded gone can run nowhere -/
  quiet : ∀ r ∈ s.db.runs.rows, r.processConfirmedGone = true →
    ∀ serverID, (s.agents serverID).mayRun r.id = false

theorem fleetInv_empty : FleetInv .empty := by
  refine ⟨attemptInv_empty, ?_, fun _ => agentInv_unborn _, ?_⟩
  · intro c hc; cases hc
  · intro r hr; cases hr

section Steps

variable {s : Fleet} (inv : FleetInv s) {serverID : String} {f : Agent → Agent}
include inv

/-- A run can only run where it was given. -/
theorem FleetInv.elsewhere {serverID runID : String} (hp : Placed s.db serverID runID)
    (h : (s.agents serverID).mayRun runID = false) (serverID' : String) :
    (s.agents serverID').mayRun runID = false := by
  rw [Bool.eq_false_iff]
  intro hmay
  have hp' := (inv.agents serverID').known hmay
  rw [hp.unique hp', h] at hmay
  cases hmay

theorem FleetInv.queued {r : TaskRun} (hr : r ∈ s.db.runs.rows)
    (hq : r.state = .queued) (serverID : String) : (s.agents serverID).mayRun r.id = false := by
  rw [Bool.eq_false_iff]
  intro hmay
  obtain ⟨r', hr', hid, -, hq'⟩ := (inv.agents serverID).known hmay
  have heq := s.db.runs.eq_of_key_eq hr hr' hid.symm
  rw [← heq] at hq'
  exact hq' hq

/-- A transaction that brings back nothing recorded gone, and records
gone only what can run nowhere. -/
theorem FleetInv.apply {op : Op} (hback : ∀ r ∈ s.db.runs.rows, reenters s.db op r = true →
      r.processConfirmedGone = false) (hbury : ∀ r ∈ s.db.runs.rows, buries op r = true →
      ∀ serverID, (s.agents serverID).mayRun r.id = false) :
    FleetInv { s with db := apply s.db op } := by
  have heff := apply_effect s.db op
  refine ⟨inv.attempts.step hback, ?_, ?_, ?_⟩
  · intro c hc
    exact heff.placed (inv.claimed c hc)
  · intro serverID
    exact (inv.agents serverID).mono fun x hx => heff.placed hx
  · intro r' hr' hgone serverID
    obtain ⟨r, hr, hid, hcase⟩ := heff.gone hr' hgone
    rw [← hid]
    rcases hcase with hold | hq | hbur
    · exact inv.quiet r hr hold serverID
    · exact inv.queued hr hq serverID
    · exact hbury r hr hbur serverID

/-- An agent takes a step after which a run may run that could not only
if it is not recorded gone. -/
theorem FleetInv.onAgent (hinv : AgentInv (Placed s.db serverID) (f (s.agents serverID)))
    (hnew : ∀ r ∈ s.db.runs.rows, r.processConfirmedGone = true →
      (f (s.agents serverID)).mayRun r.id = true → (s.agents serverID).mayRun r.id = true) :
    FleetInv (s.onAgent serverID f) := by
  refine ⟨inv.attempts, inv.claimed, ?_, ?_⟩
  · intro other
    by_cases h : other = serverID
    · subst h
      simpa [Fleet.onAgent] using hinv
    · simpa [Fleet.onAgent, h] using inv.agents other
  · intro r hr hgone other
    by_cases h : other = serverID
    · subst h
      by_contra hrun
      have hmay : (f (s.agents other)).mayRun r.id = true := by
        simpa [Fleet.onAgent] using hrun
      have hold := hnew r hr hgone hmay
      rw [inv.quiet r hr hgone other] at hold
      cases hold
    · simpa [Fleet.onAgent, h] using inv.quiet r hr hgone other

/-- A step that keeps an agent's own invariant. -/
theorem FleetInv.custody (h : Custody (Placed s.db serverID) (s.agents serverID)
      (f (s.agents serverID))) : FleetInv (s.onAgent serverID f) :=
  inv.onAgent h.inv fun r _ _ hmay => h.within r.id hmay

theorem FleetInv.drop {claimed : List DispatchRun}
    (h : ∀ c ∈ claimed, c ∈ s.claimed) : FleetInv { s with claimed } :=
  ⟨inv.attempts, fun c hc => inv.claimed c (h c hc), inv.agents, inv.quiet⟩

end Steps

-- ======== dispatch

/-- What is no agent's word brings back nothing and buries nothing. -/
theorem silent_of_direct {op : Op} (h : op.direct = true) (db : Database) (r : TaskRun) :
    reenters db op r = false ∧ buries op r = false := by
  cases op <;> first
    | exact ⟨Bool.and_false _, rfl⟩
    | cases h

/-- A claimed run was given to the server it is claimed for. -/
theorem placed_of_candidate {db : Database} {cutoff : Int} {limit : Nat}
    {r : TaskRun} (h : r ∈ db.dispatchCandidates cutoff limit) :
    Placed db (db.dispatchRun r).serverID (db.dispatchRun r).id := by
  obtain ⟨hr, hdue⟩ := List.mem_filter.mp ((List.mem_insertionSort _).mp (List.mem_of_mem_take h))
  simp only [TaskRun.dispatchDue, Bool.and_eq_true, beq_iff_eq] at hdue
  obtain ⟨⟨⟨hstate, -⟩, hserver⟩, -⟩ := hdue
  obtain ⟨serverID, hid⟩ := Option.isSome_iff_exists.mp hserver
  refine ⟨r, hr, rfl, ?_, ?_⟩
  · show r.assignedServerId = some (r.assignedServerId.getD "")
    rw [hid]
    rfl
  · rw [hstate]
    decide

section Dispatch

variable {s : Fleet} (inv : FleetInv s)
include inv

theorem FleetInv.claim (cutoff now : Int) (limit : Nat) : FleetInv (s.claim cutoff now limit) := by
  have hdb : FleetInv
      { s with db := Yunling.apply s.db (.claim cutoff now limit) } := by
    refine inv.apply ?_ ?_
    · intro r _ h
      exact absurd h (by simp [reenters])
    · intro r _ h
      cases h
  refine ⟨hdb.attempts, ?_, hdb.agents, hdb.quiet⟩
  intro c hc
  rcases List.mem_append.mp hc with hold | hnew
  · exact hdb.claimed c hold
  · obtain ⟨r, hr, rfl⟩ := List.mem_map.mp hnew
    exact (apply_effect s.db (.claim cutoff now limit)).placed (placed_of_candidate hr)

theorem FleetInv.handOver {run : DispatchRun}
    (hp : Placed s.db run.serverID run.id) {payload : Option String}
    {sending : Sending} (h : s.HandsOver run payload sending)
    (now : Int) : FleetInv (s.handOver run payload sending now) := by
  obtain ⟨hfail, hsend⟩ := h
  unfold Fleet.handOver
  cases hdecision : dispatchDecision run payload with
  | some message =>
    have hcannot := hfail (Option.isSome_of_eq_some hdecision)
    refine inv.apply ?_ ?_
    · intro r _ hre
      exact absurd hre (by
        simp [reenters, DispatchRun.failure, stateForAgentEvent])
    · intro r _ hbur
      have hid : r.id = run.id := by
        have := (Bool.and_eq_true_iff.mp hbur).1
        exact beq_iff_eq.mp this
      rw [hid]
      exact inv.elsewhere hp hcannot
  | none =>
    cases sending with
    | failed =>
      refine inv.apply ?_ ?_
      · intro r _ hre
        exact absurd hre (by simp [reenters])
      · intro r _ hbur
        cases hbur
    | lost => exact inv
    | written =>
      obtain ⟨hopen, hfree, hgone⟩ := hsend hdecision rfl
      cases hphase : (s.agents run.serverID).phase with
      | dialed => exact absurd hphase hopen
      | offline =>
        -- nobody reads it
        refine inv.custody ?_
        have hsame : (s.agents run.serverID).receive (.assign ⟨run.id, run.executionToken⟩)
            = s.agents run.serverID := if_pos hphase
        rw [hsame]
        exact ⟨inv.agents _, fun _ hx => hx⟩
      | serving =>
        refine inv.onAgent ((inv.agents _).assign hp hphase hfree) ?_
        intro r hr hrgone hmay
        rcases Agent.mayRun_assign hmay with hold | ⟨hid, hnew⟩
        · exact hold
        · rw [hid, hgone r hr hid hrgone] at hnew
          cases hnew

end Dispatch

-- ======== messages

variable {m : AgentMessage} {a : Agent}

theorem Agent.wire_carried {i : Nat} (h : m ∈ a.wire[i]?.getD []) : Carried a.wire m := by
  cases hwire : a.wire[i]? with
  | none =>
    rw [hwire] at h
    cases h
  | some messages =>
    rw [hwire] at h
    exact ⟨messages, List.mem_of_getElem? hwire, h⟩

theorem Agent.next?_carried {i : Nat} (h : a.next? i = some m) : Carried a.wire m :=
  Agent.wire_carried (List.mem_of_mem_head? h)

section Messages

variable {s : Fleet} (inv : FleetInv s) {serverID : String} {now : Int}
include inv

/-- What an event of an agent ends can run nowhere. -/
theorem FleetInv.event_buries {e : AgentRunEvent} (hm : Carried (s.agents serverID).wire (.event e))
    (hunstarted : ∀ runID ∈ (AgentMessage.event e).unstarted?,
      (s.agents serverID).mayRun runID = false)
    {r : TaskRun} (hbur : buries (.runEvent now e) r = true)
    (other : String) : (s.agents other).mayRun r.id = false := by
  obtain ⟨hid, hterm⟩ := Bool.and_eq_true_iff.mp hbur
  rw [beq_iff_eq.mp hid]
  obtain ⟨hp, htrue⟩ := (inv.agents serverID).vouched e (Or.inr hm)
  refine inv.elsewhere hp ?_ other
  by_cases hone : e.sequence = 1
  · -- not started: the rule says so
    refine hunstarted e.runID ?_
    have htype : e.type ≠ "started" := by
      intro hstarted
      rw [hstarted] at hterm
      cases hterm
    exact if_pos ⟨hone, htype⟩
  · -- started: the agent vouches for it
    obtain ⟨hclaimed, hdead⟩ := htrue hone
    simp [Agent.mayRun, Agent.startable, hclaimed, hdead]

/-- What an authoritative report leaves out can run nowhere. -/
theorem FleetInv.report_buries {authoritative : Bool}
    {processes : List RunningProcess} (hm : Carried (s.agents serverID).wire
      (.report authoritative processes)) {r : TaskRun} (hr : r ∈ s.db.runs.rows) (hbur : buries
      (.reconcile ⟨serverID, authoritative, processes⟩ now) r = true)
    (other : String) : (s.agents other).mayRun r.id = false := by
  simp only [buries, TaskRun.openOn, Bool.and_eq_true, beq_iff_eq] at hbur
  obtain ⟨⟨hauth, hserver, hstate⟩, -⟩ := hbur
  rw [hauth] at hm
  have hp : Placed s.db serverID r.id := by
    refine ⟨r, hr, rfl, hserver, fun hq => ?_⟩
    rw [hq] at hstate
    cases hstate
  obtain ⟨hwaiting, hdead⟩ := (inv.agents serverID).reporting
    (Agent.reporting_iff.mpr ⟨processes, hm⟩) r.id
  refine inv.elsewhere hp ?_ other
  simp [Agent.mayRun, Agent.startable, hwaiting, hdead]

theorem FleetInv.deliver {i : Nat}
    (h : ∀ m ∈ (s.agents serverID).next? i, s.Arrives serverID m now) :
    FleetInv (s.deliver serverID i now) := by
  unfold Fleet.deliver
  cases hnext : (s.agents serverID).next? i with
  | none => exact inv
  | some m =>
    obtain ⟨hunstarted, hback⟩ := h m hnext
    have hm := Agent.next?_carried hnext
    have hdb : FleetInv
        { s with db := Yunling.apply s.db (m.op serverID now) } := by
      refine inv.apply hback ?_
      intro r hr hbur
      cases m with
      | event e => exact inv.event_buries hm hunstarted hbur
      | report authoritative processes =>
        exact inv.report_buries hm hr hbur
    refine hdb.custody (f := (·.keep i _)) ((hdb.agents serverID).keep ?_)
    intro m' hm'
    split at hm'
    · exact Agent.wire_carried (List.mem_of_mem_tail hm')
    · cases hm'

end Messages

-- ======== runs

/-- Every step that keeps the rules keeps the invariant. -/
theorem FleetInv.step {s : Fleet} (inv : FleetInv s) {op : FleetOp}
    (h : Careful s op) : FleetInv (s.step op) := by
  cases op with
  | platform op hdirect =>
    refine inv.apply ?_ ?_
    · intro r _ hre
      rw [(silent_of_direct hdirect s.db r).1] at hre
      cases hre
    · intro r _ hbur
      rw [(silent_of_direct hdirect s.db r).2] at hbur
      cases hbur
  | claim cutoff now limit => exact inv.claim cutoff now limit
  | handOver i payload sending now =>
    unfold Fleet.step
    dsimp only
    cases hrun : s.claimed[i]? with
    | none => exact inv
    | some run =>
      have hp := inv.claimed run (List.mem_of_getElem? hrun)
      have hdrop : FleetInv
          { s with claimed := s.claimed.eraseIdx i } :=
        inv.drop fun c hc => List.mem_of_mem_eraseIdx hc
      exact hdrop.handOver hp (h run hrun) now
  | abandon i => exact inv.drop fun c hc => List.mem_of_mem_eraseIdx hc
  | deliver serverID i now => exact inv.deliver h
  | agent serverID act =>
    exact inv.custody (f := (·.act act)) ((inv.agents serverID).act h)

theorem fleetInv_run {ops : List FleetOp} (h : Transition.Guarded Fleet.step Careful .empty ops) :
    FleetInv (Transition.run Fleet.step .empty ops) :=
  Transition.Guarded.invariant (fun _ _ inv hc => inv.step hc) fleetInv_empty h

/-- One live attempt of each lineage. -/
structure Fleet.OneAttempt (s : Fleet) : Prop where
  /-- a retry creates a run only when no attempt of its lineage is alive
  or can still be started -/
  created : ∀ runID freshID at_ automatic,
    ∀ next ∈ (apply s.db (.retry runID freshID at_ automatic)).runs.rows,
      (∀ r ∈ s.db.runs.rows, r.id ≠ next.id) → ∀ r ∈ s.db.runs.rows, r.root = next.root →
      ∀ serverID, (s.agents serverID).mayRun r.id = false
  /-- nor is one ever again, once it has a successor -/
  replaced : ∀ r ∈ s.db.runs.rows, ∀ r' ∈ s.db.runs.rows,
    r.root = r'.root → r.attempt < r'.attempt → ∀ serverID, (s.agents serverID).mayRun r.id = false
  /-- and at most one is assigned, syncing or running -/
  active : ∀ r ∈ s.db.runs.rows, ∀ r' ∈ s.db.runs.rows,
    r.root = r'.root → r.state.active = true → r'.state.active = true → r = r'

/-- Along every run of the system that keeps the rules, a lineage has at
most one live attempt. -/
theorem one_live_attempt {ops : List FleetOp}
    (h : Transition.Guarded Fleet.step Careful .empty ops) :
    (Transition.run Fleet.step .empty ops).OneAttempt := by
  have inv := fleetInv_run h
  generalize Transition.run Fleet.step .empty ops = s at inv
  constructor
  · intro runID freshID at_ automatic next hnext hnew r hr hroot
    refine inv.quiet r hr ?_
    -- a row with a new id is one that was inserted
    cases apply_effect s.db (.retry runID freshID at_ automatic) with
    | rewrite f released runs change leases =>
      rw [runs] at hnext
      obtain ⟨old, hold, rfl⟩ := List.mem_map.mp hnext
      exact absurd (change old hold).sameRun.id.symm (hnew old hold)
    | assigned a run hop hassigned => cases hop
    | triggered d id versionID type trigger parameters now fresh runs leases hop =>
        obtain ⟨definitionID, hop⟩ := hop
        cases hop
    | retried run id at' automatic' hop hrun retryable last fresh runs leases =>
        rw [runs] at hnext
        rcases List.mem_append.mp hnext with hold | hlast
        · exact absurd rfl (hnew next hold)
        · rw [List.mem_singleton.mp hlast] at hroot
          exact inv.attempts.over hrun retryable last hr hroot
  · intro r hr r' hr' hroot hlt
    exact inv.quiet r hr (inv.attempts.replaced r hr r' hr' hroot hlt)
  · intro r hr r' hr' hroot hact hact'
    exact inv.attempts.active_unique hr hr' hroot hact hact'

/-- Along the same runs, what has a process on an agent or can still get
one there is a run that was given to this agent's server and is not
recorded gone. -/
theorem agent_runs_own_runs {ops : List FleetOp}
    (h : Transition.Guarded Fleet.step Careful .empty ops) {serverID runID : String}
    (hmay : ((Transition.run Fleet.step .empty ops).agents serverID).mayRun runID = true) :
    ∃ r ∈ (Transition.run Fleet.step .empty ops).db.runs.rows, r.id = runID
      ∧ r.assignedServerId = some serverID ∧ r.state ≠ .queued
      ∧ r.processConfirmedGone = false := by
  have inv := fleetInv_run h
  obtain ⟨r, hr, hid, hserver, hq⟩ := (inv.agents serverID).known hmay
  refine ⟨r, hr, hid, hserver, hq, ?_⟩
  rw [Bool.eq_false_iff]
  intro hgone
  have hquiet := inv.quiet r hr hgone serverID
  rw [hid, hmay] at hquiet
  cases hquiet

-- ======== concrete runs

instance (s : Fleet) (run : DispatchRun) (payload : Option String)
    (sending : Sending) : Decidable (s.HandsOver run payload sending) :=
  inferInstanceAs (Decidable (_ ∧ _))

instance (s : Fleet) (serverID : String) (m : AgentMessage) (now : Int) :
    Decidable (s.Arrives serverID m now) :=
  inferInstanceAs (Decidable (_ ∧ _))

instance (s : Fleet) : (op : FleetOp) → Decidable (Careful s op)
  | .platform .. => isTrue trivial
  | .claim .. => isTrue trivial
  | .handOver i payload sending _ =>
    inferInstanceAs (Decidable (∀ run ∈ s.claimed[i]?, s.HandsOver run payload sending))
  | .abandon _ => isTrue trivial
  | .deliver serverID i now =>
    inferInstanceAs (Decidable (∀ m ∈ (s.agents serverID).next? i, s.Arrives serverID m now))
  | .agent _ act => inferInstanceAs (Decidable (act.thorough = true))

namespace Sample

/-- Operations of the platform as steps of the system. -/
def platform (ops : List Op) : List FleetOp :=
  ops.filterMap fun op =>
    if h : op.direct = true then some (.platform op h) else none

/-- A command handled without anything going wrong. -/
def answer (now : Int) : Agent.Answer where
  trial := {
    invalid := none
    unreadable := false
    unreadableAgain := false
    unprepared := none
    claim := .done
    launch := none
    save := .done
    now }
  exitCode := 0
  ended := true
  failed := false
  usage := none

/-- The agent connects and reports; then a run is assigned, handed over,
started, fails, and is retried. -/
def orderly : List FleetOp :=
  platform (setup [definition "task" 1])
    ++ [.agent "server" .connect, .agent "server" (.firstReport true), .deliver "server" 0 4]
    ++ platform (start "task" "first" "token" 5)
    ++ [.claim 5 6 20, .handOver 0 none .written 6, .agent "server" (.handle (answer 7)),
      .agent "server" (.forward "first"), .deliver "server" 0 8,
      .agent "server" (.finish "first" (.exited 1 none) 9 none .done),
      .agent "server" (.forward "first"), .deliver "server" 0 10]
    ++ platform [.retry "first" "second" 11 false,
      .assign (assignment "second" "server" "token-2" "lease-second" 12)]

/-- The agent connects, and a run is handed over to it before its report
has arrived. -/
def declared : List FleetOp :=
  platform (setup [definition "task" 2] ++ start "task" "first" "token" 5)
    ++ [.agent "server" .connect, .claim 5 6 20,
      .handOver 0 none .written 6, .agent "server" (.firstReport true),
      .deliver "server" 0 7]

/-- The run is retried; the agent starts it all the same. -/
def overtaken : List FleetOp :=
  declared ++ platform [.retry "first" "second" 8 false] ++ [.agent "server" (.handle (answer 9)),
      .agent "server" (.forward "first"), .deliver "server" 0 10]
    ++ platform [.assign (assignment "second" "server" "token-2" "lease-second" 11)]

end Sample

/-- A retry in an orderly run: the first attempt has failed and the
second one is assigned. -/
theorem one_live_attempt_orderly : (Transition.run Fleet.step .empty Sample.orderly).OneAttempt
      ∧ (Transition.run Fleet.step .empty Sample.orderly).db.runs.rows.map
        (fun r => (r.id, r.attempt, r.state)) = [("first", 1, .failed), ("second", 2, .assigned)] :=
  ⟨one_live_attempt (by decide), by decide⟩

/-- The first attempt of the orderly run, with its process. -/
theorem agent_runs_own_runs_first :
    ∃ r ∈ (Transition.run Fleet.step .empty (Sample.orderly.take 14)).db.runs.rows, r.id = "first"
      ∧ r.assignedServerId = some "server" ∧ r.state ≠ .queued ∧ r.processConfirmedGone = false :=
  agent_runs_own_runs (by decide) (by decide)

/-- A successor is created while the agent holds the assignment of the
first attempt, and in the end both attempts are active and the first
one's process is alive. -/
theorem two_live_attempts : (let s := Transition.run Fleet.step .empty Sample.declared;
      (s.agents "server").startable "first" = true ∧ ∃ next ∈
          (apply s.db (.retry "first" "second" 8 false)).runs.rows,
          next.id = "second" ∧ next.retryOf = some "first")
    ∧ (let s := Transition.run Fleet.step .empty Sample.overtaken;
      ∃ r ∈ s.db.runs.rows, ∃ r' ∈ s.db.runs.rows, r.root = r'.root ∧ r.attempt < r'.attempt
          ∧ r.state.active = true ∧ r'.state.active = true
          ∧ (s.agents "server").runner.host.alive r.id = true) := by
  decide

end Yunling
