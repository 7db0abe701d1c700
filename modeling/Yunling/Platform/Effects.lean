/-
What one operation can do to runs and leases, said once.

`apply_effect` inverts every operation into one of four shapes:

- `rewrite`: every run row changes by a `Change`, no row is added, and
  the leases of some runs are released;
- `assigned`: one queued run is given to a server, with a new lease;
- `triggered`: one new first attempt;
- `retried`: one new attempt of a lineage, and the leases of the run it
  replaces are released.

Every invariant of the platform is proved against these shapes. No later
proof unfolds a transaction.

# Changes

`Change op db r r' released` lists the ways a row `r` of `db` can become
`r'` under `op`, with the guards that led there; `released` says whether
the leases of that run are released by the same transaction. The rows
added by the last three shapes are not changes of anything.
-/
import Yunling.Platform.Basic

namespace Yunling

open Relational Scheduler

variable {db db' : Database} {r r' run : TaskRun} {op : Op} {released : Bool} {a : Assignment}

-- ======== vocabulary

/-- A lease row under a transaction that releases, at the given
instants, the open leases of some runs. -/
def ResourceLease.releaseBy (released : String → Option Int) (l : ResourceLease) : ResourceLease :=
  { l with releasedAt := l.releasedAt.or (released l.taskRunId) }

/-- Releasing the leases of one run, if at all. -/
def releaseOne (runID : String) (at_ : Option Int) (id : String) : Option Int :=
  if id = runID then at_ else none

/-- How a run row changes under one operation, and whether the run's
leases are released with it. -/
inductive Change (op : Op) (db : Database) (r : TaskRun) : TaskRun → Bool → Prop
  /-- not touched -/
  | keep : Change op db r r false
  /-- bookkeeping columns only -/
  | note (resultSummary : String) (dispatchAttempts : Nat)
      (lastDispatchAt : Option Int) (dispatchError : String) (updatedAt : Int) : Change op db r
        { r with
          resultSummary, dispatchAttempts, lastDispatchAt, dispatchError,
          updatedAt } false
  /-- waited too long -/
  | expire (at_ : Int) (queued : r.state = .queued) : Change op db r (r.expire at_) false
  /-- cancelled while queued -/
  | cancel (at_ : Int) (queued : r.state = .queued) : Change op db r (r.cancelQueued at_) false
  /-- cancelled while queued, with its definition -/
  | disable (at_ : Int) (queued : r.state = .queued) :
      Change op db r (r.cancelWithDefinition at_) false
  /-- an accepted agent event -/
  | event (now : Int) (e : AgentRunEvent) (state : RunState) (hop : op = .runEvent now e)
      (htype : stateForAgentEvent e.type = some state)
      (hid : r.id = e.runID) (htoken : r.token = e.executionToken) (hnew : e.stored db = none)
      (hnext : e.sequence = e.expectedSequence db)
      (hvalid : validAgentTransition r.state state = true) :
      Change op db r ((e.dated now).record state r) state.terminal
  /-- its server went offline -/
  | lose (serverID : String) (at_ : Int) (hop : op = .serverOffline serverID at_)
      (active : r.activeOn serverID = true) : Change op db r (r.lose at_) false
  /-- reported alive -/
  | resume (report : RunningReport) (at_ : Int) (hop : op = .reconcile report at_)
      (onServer : r.openOn report.serverID = true) (confirmed : report.confirms r = true) :
      Change op db r (r.resume at_) false
  /-- reported absent, once more -/
  | absent (report : RunningReport) (at_ : Int) (hop : op = .reconcile report at_)
      (onServer : r.openOn report.serverID = true) (authoritative : report.authoritative = true)
      (unconfirmed : report.confirms r = false) (gone : r.processConfirmedGone = true) :
      Change op db r r true
  /-- reported absent for the first time -/
  | vanish (report : RunningReport) (at_ : Int) (hop : op = .reconcile report at_)
      (onServer : r.openOn report.serverID = true) (authoritative : report.authoritative = true)
      (unconfirmed : report.confirms r = false) (alive : r.processConfirmedGone = false) :
      Change op db r (r.vanish at_) true
  /-- retried before; the request only repeats -/
  | retry (freshID : String) (at_ : Int) (automatic : Bool)
      (hop : op = .retry r.id freshID at_ automatic) (retryable : r.retryable = true) :
      Change op db r r true

/-- An assignment that went through: what held before, and what it
wrote. -/
structure Assigned (db : Database) (a : Assignment) (run : TaskRun) (db' : Database) : Prop where
  mem : run ∈ db.runs.rows
  id_eq : run.id = a.runID
  queued : run.state = .queued
  due : run.queuedAt ≤ a.assignedAt
  quota : db.countActive run.taskDefinitionId < run.maxConcurrency
  token : ∀ r ∈ db.runs.rows, r.executionToken ≠ some a.executionToken
  server : ∃ s ∈ db.servers.rows, s.id = a.serverID
  released : ∀ l ∈ db.leases.rows, l.taskRunId = a.runID → l.releasedAt ≠ none
  runs : db'.runs.rows = db.runs.rows.map
    (Table.amend (fun r => r.id == a.runID) (TaskRun.assignTo a))
  leases : db'.leases.rows = db.leases.rows ++ [a.leaseRow]

/-- The rows after an assignment: the assigned run, and all others as
they were. -/
theorem Assigned.mem_runs (h : Assigned db a run db') :
    r' ∈ db'.runs.rows ↔ r' = run.assignTo a ∨ r' ∈ db.runs.rows ∧ r'.id ≠ a.runID := by
  rw [h.runs, List.mem_map]
  constructor
  · intro ⟨r, hr, heq⟩
    by_cases hid : r.id = a.runID
    · have hrun := db.runs.eq_of_key_eq hr h.mem (hid.trans h.id_eq.symm)
      rw [Table.amend_pos (by simp [hid]), hrun] at heq
      exact Or.inl heq.symm
    · rw [Table.amend_neg (by simp [hid])] at heq
      rw [← heq]
      exact Or.inr ⟨hr, hid⟩
  · intro hcase
    rcases hcase with heq | ⟨hr, hid⟩
    · refine ⟨run, h.mem, ?_⟩
      rw [Table.amend_pos (by simp [h.id_eq]), heq]
    · exact ⟨r', hr, Table.amend_neg (by simp [hid])⟩

/-- The assigned run was queued: a run that is not is left alone. -/
theorem Assigned.keeps (h : Assigned db a run db') (hr : r ∈ db.runs.rows)
    (hq : r.state ≠ .queued) :
    r ∈ db'.runs.rows := by
  refine h.mem_runs.mpr (Or.inr ⟨hr, fun hid => hq ?_⟩)
  rw [db.runs.eq_of_key_eq hr h.mem (hid.trans h.id_eq.symm)]
  exact h.queued

/-- What an operation does to runs and leases. -/
inductive Effect (op : Op) (db db' : Database) : Prop
  | rewrite (f : TaskRun → TaskRun) (released : String → Option Int)
      (runs : db'.runs.rows = db.runs.rows.map f) (change : ∀ r ∈ db.runs.rows,
        Change op db r (f r) (released r.id).isSome) (leases : db'.leases.rows
        = db.leases.rows.map (ResourceLease.releaseBy released))
  | assigned (a : Assignment) (run : TaskRun) (hop : op = .assign a) (h : Assigned db a run db')
  | triggered (d : Definition) (id versionID : String)
      (type : TriggerType) (trigger : Trigger) (parameters : Parameters) (now : Int)
      (fresh : ∀ r ∈ db.runs.rows, r.id ≠ id) (runs : db'.runs.rows = db.runs.rows
        ++ [d.newRun id versionID type trigger parameters now])
      (leases : db'.leases.rows = db.leases.rows)
      (hop : ∃ definitionID, op = .trigger definitionID id trigger now)
  | retried (run : TaskRun) (id : String) (at_ : Int) (automatic : Bool)
      (hop : op = .retry run.id id at_ automatic)
      (hrun : run ∈ db.runs.rows) (retryable : run.retryable = true)
      (last : ∀ r ∈ db.runs.rows, r.retryOf = some run.root → r.attempt ≤ run.attempt)
      (fresh : ∀ r ∈ db.runs.rows, r.id ≠ id)
      (runs : db'.runs.rows = db.runs.rows ++ [run.nextAttempt id at_])
      (leases : db'.leases.rows = db.leases.rows.map
        (ResourceLease.releaseBy (releaseOne run.id (some at_))))

-- ======== frames

namespace Database

/-- Runs and leases are left alone. -/
structure Frame (db db' : Database) : Prop where
  runs : db'.runs = db.runs
  leases : db'.leases = db.leases

theorem Frame.trans {db₁ db₂ db₃ : Database} (h : Frame db₁ db₂)
    (h' : Frame db₂ db₃) : Frame db₁ db₃ := ⟨h'.runs.trans h.runs, h'.leases.trans h.leases⟩

theorem Frame.foldl {α : Type} {f : Database → α → Database}
    (h : ∀ db a, Frame db (f db a)) (db : Database) (l : List α) : Frame db (l.foldl f db) := by
  induction l generalizing db with
  | nil => exact ⟨rfl, rfl⟩
  | cons a l ih => exact (h db a).trans (ih (f db a))

theorem frame_append (db : Database) (runID eventType : String)
    (state : RunState) (payload : Payload) (at_ : Int) :
    Frame db (db.appendSystemRunEvent runID eventType state payload at_) := ⟨rfl, rfl⟩

theorem frame_appendForEach (db : Database) (runs : List (String × Int))
    (eventType : String) (state : RunState) (payload : Payload) :
    Frame db (db.appendForEach runs eventType state payload) := by
  exact Frame.foldl (fun db run => db.frame_append ..) db runs

theorem frame_saveRunUsage (db : Database) (runID : String) (usage : Option ResourceUsage) :
    Frame db (saveRunUsage db runID usage) := by
  unfold saveRunUsage
  split
  · exact ⟨rfl, rfl⟩
  split
  · exact ⟨rfl, rfl⟩
  · split
    · exact ⟨rfl, rfl⟩
    · exact frame_append ..

theorem releaseLeases_rows (db : Database) (runID : String) (at_ : Int) :
    (db.releaseLeases runID at_).leases.rows = db.leases.rows.map
        (ResourceLease.releaseBy (releaseOne runID (some at_))) := by
  refine List.map_congr_left fun l _ => ?_
  obtain ⟨id, run, server, resources, expires, released, created⟩ := l
  by_cases hid : run = runID
  · cases released <;>
      simp [Table.amend, ResourceLease.releaseBy, releaseOne, hid]
  · cases released <;>
      simp [Table.amend, ResourceLease.releaseBy, releaseOne, hid]

theorem map_releaseBy_none (l : List ResourceLease) :
    l.map (ResourceLease.releaseBy fun _ => none) = l := by
  have hid : ResourceLease.releaseBy (fun _ => none) = id := by
    funext l
    simp [ResourceLease.releaseBy]
  rw [hid, List.map_id]

theorem releaseOne_none (runID : String) : releaseOne runID none = fun _ => none := by
  funext id
  unfold releaseOne
  split <;> rfl

end Database

-- ======== common effects

section Common

variable {op : Op} {db db' : Database} {f : TaskRun → TaskRun}

/-- An operation that leaves runs and leases alone. -/
theorem Effect.of_frame (h : db.Frame db') : Effect op db db' := by
  refine .rewrite id (fun _ => none) ?_ (fun r _ => .keep) ?_
  · rw [h.runs, List.map_id]
  · rw [h.leases, Database.map_releaseBy_none]

/-- An operation that updates some run rows and no lease. -/
theorem Effect.of_update {p : TaskRun → Bool}
    (runs : db'.runs.rows = db.runs.rows.map (Table.amend p f)) (leases : db'.leases = db.leases)
    (change : ∀ r ∈ db.runs.rows, p r = true → Change op db r (f r) false) : Effect op db db' := by
  refine .rewrite (Table.amend p f) (fun _ => none) runs ?_ ?_
  · intro r hr
    cases hp : p r with
    | true =>
      rw [Table.amend_pos hp]
      exact change r hr hp
    | false =>
      rw [Table.amend_neg hp]
      exact .keep
  · rw [leases, Database.map_releaseBy_none]

variable {run : TaskRun} {runID : String} (hrun : db.runs.find? runID = some run)

include hrun

/-- An operation that updates the row with one id and may release that
run's leases. -/
theorem Effect.of_updateRun_release {at_ : Option Int}
    (runs : db'.runs.rows = db.runs.rows.map (Table.amend (fun r => r.id == runID) f))
    (leases : db'.leases.rows = db.leases.rows.map (ResourceLease.releaseBy (releaseOne runID at_)))
    (change : Change op db run (f run) at_.isSome) : Effect op db db' := by
  refine .rewrite _ _ runs (fun r hr => ?_) leases
  obtain ⟨hmem, hkey⟩ := db.runs.find?_eq_some.mp hrun
  by_cases hid : r.id = runID
  · have hr' := db.runs.eq_of_key_eq hr hmem (hid.trans hkey.symm)
    subst hr'
    rw [Table.amend_pos (by simp [hid]), releaseOne, if_pos hid]
    exact change
  · rw [Table.amend_neg (by simp [hid]), releaseOne, if_neg hid]
    exact .keep

/-- An operation that updates the row with one id. -/
theorem Effect.of_updateRun
    (runs : db'.runs.rows = db.runs.rows.map (Table.amend (fun r => r.id == runID) f))
    (leases : db'.leases = db.leases) (change : Change op db run (f run) false) :
    Effect op db db' := by
  have hleases : db'.leases.rows = db.leases.rows.map
      (ResourceLease.releaseBy (releaseOne runID none)) := by
    rw [leases, Database.releaseOne_none, Database.map_releaseBy_none]
  exact .of_updateRun_release hrun runs hleases change

end Common

-- ======== definitions and triggers

section Operations

variable (db : Database) {e : AgentRunEvent} {state : RunState} {a : Assignment}

theorem setEnabled_effect (id : String) (enabled cancelQueued : Bool) (now : Nat → Int) :
    Effect (.setEnabled id enabled cancelQueued now) db
      (apply db (.setEnabled id enabled cancelQueued now)) := by
  show Effect _ db (settle db (setEnabled id enabled cancelQueued now db))
  unfold setEnabled
  split
  · exact .of_frame ⟨rfl, rfl⟩
  split
  · have hloop := Database.frame_appendForEach
      { db with
        definitions := db.definitions.update (fun d => d.id == id)
          (fun d => { d with enabled, updatedAt := now 0 }) fun _ => rfl
        runs := db.runs.update (TaskRun.queuedOf id)
          (TaskRun.cancelWithDefinition (now 1)) fun _ => rfl }
      (((db.runs.rows.filter (TaskRun.queuedOf id)).map (·.id)).mapIdx
        fun i runID => (runID, now (i + 2)))
      "run.cancelled" .cancelled { message := some "任务停用并取消排队" }
    refine .of_update (p := TaskRun.queuedOf id) (congrArg Table.rows hloop.runs) hloop.leases ?_
    · intro r _ hq
      simp only [TaskRun.queuedOf, Bool.and_eq_true, beq_iff_eq] at hq
      exact .disable (now 1) hq.2
  · exact .of_frame ⟨rfl, rfl⟩

theorem trigger_effect (definitionID freshID : String) (trigger : Trigger) (now : Int) :
    Effect (.trigger definitionID freshID trigger now) db
      (apply db (.trigger definitionID freshID trigger now)) := by
  show Effect _ db (settle db (triggerRun definitionID freshID trigger now db))
  unfold triggerRun
  dsimp only
  repeat' split
  -- every refusal leaves the tables alone; the last branch inserts
  any_goals exact .of_frame ⟨rfl, rfl⟩
  next hins =>
    obtain ⟨hrows, hfresh⟩ := Table.insert?_eq_some hins
    exact .triggered _ _ _ _ _ _ _ hfresh hrows rfl ⟨_, rfl⟩

theorem cancelRun_effect (runID : String) (now : Int) (sent : Bool) :
    Effect (.cancelRun runID now sent) db (apply db (.cancelRun runID now sent)) := by
  show Effect _ db (settle db (cancelRun runID now sent db))
  unfold cancelRun
  split
  · exact .of_frame ⟨rfl, rfl⟩
  next run hrun =>
  split
  · next hq => exact .of_updateRun hrun rfl rfl (.cancel now hq)
  · split
    · exact .of_frame ⟨rfl, rfl⟩
    · split <;> exact .of_frame ⟨rfl, rfl⟩

-- ======== scheduling

theorem prepareSync_frame {db prepared : Database} {serverID versionID : String}
    (h : db.prepareSync serverID versionID = .ok prepared) :
    db.Frame prepared ∧ prepared.servers = db.servers := by
  unfold Database.prepareSync at h
  split at h
  · cases h
    exact ⟨⟨rfl, rfl⟩, rfl⟩
  · split at h
    · cases h
      exact ⟨⟨rfl, rfl⟩, rfl⟩
    · cases h

/-- What the constraints of `resource_leases` say about an accepted
row. -/
theorem leaseAllowed_spec {db : Database} {l : ResourceLease} (h : db.leaseAllowed l = true) :
    (∃ s ∈ db.servers.rows, s.id = l.serverId) ∧ ∀ m ∈ db.leases.rows, m.taskRunId = l.taskRunId →
        m.releasedAt ≠ none := by
  simp only [Database.leaseAllowed, Bool.and_eq_true, Bool.not_eq_true',
    List.any_eq_false, beq_iff_eq, Option.isNone_iff_eq_none, not_and] at h
  obtain ⟨⟨-, hserver⟩, hopen⟩ := h
  obtain ⟨s, hs⟩ := Option.isSome_iff_exists.mp hserver
  exact ⟨⟨s, db.servers.find?_eq_some.mp hs⟩, hopen⟩

theorem assign_refused {db db' : Database} (h : assign a db = .ok (false, db')) : db.Frame db' := by
  unfold assign at h
  repeat' split at h
  all_goals first
    | cases h; exact ⟨rfl, rfl⟩
    -- the commit that only keeps the prepared sync
    | cases h; exact (prepareSync_frame ‹_ = Except.ok _›).1
    | cases h

theorem assign_accepted {db db' : Database} (h : assign a db = .ok (true, db')) :
    ∃ run, Assigned db a run db' := by
  unfold assign at h
  repeat' split at h
  all_goals try cases h
  next run hrun hqueued _ prepared hprep _ hquota htoken hallowed _ leases hins =>
    obtain ⟨hmem, hid⟩ := db.runs.find?_eq_some.mp hrun
    obtain ⟨hframe, hservers⟩ := prepareSync_frame hprep
    obtain ⟨hserver, hopen⟩ := leaseAllowed_spec (Bool.eq_true_of_not_eq_false hallowed)
    obtain ⟨hleases, -⟩ := Table.insert?_eq_some hins
    have hcount : prepared.countActive run.taskDefinitionId
        = db.countActive run.taskDefinitionId := by
      unfold Database.countActive
      rw [hframe.runs]
    simp only [List.any_eq_true, beq_iff_eq, not_exists, not_and] at htoken
    refine ⟨run, hmem, hid, ?_, ?_, ?_, ?_, ?_, ?_, ?_, ?_⟩
    · exact not_not.mp fun hne => hqueued (Or.inl hne)
    · exact not_lt.mp fun hlt => hqueued (Or.inr hlt)
    · rw [← hcount]
      omega
    · rw [← hframe.runs]
      exact htoken
    · rw [← hservers]
      exact hserver
    · rw [← hframe.leases]
      exact hopen
    · rw [← hframe.runs]
      rfl
    · rw [← hframe.leases]
      exact hleases

theorem assign_effect (a : Assignment) : Effect (.assign a) db (apply db (.assign a)) := by
  show Effect _ db (settle db (assign a db))
  rcases h : assign a db with e | ⟨assigned, db'⟩
  · exact .of_frame ⟨rfl, rfl⟩
  cases assigned with
  | false => exact .of_frame (assign_refused h)
  | true =>
    obtain ⟨run, hrun⟩ := assign_accepted h
    exact .assigned a run rfl hrun

theorem expire_effect (runID : String) (at_ : Int) :
    Effect (.expire runID at_) db (apply db (.expire runID at_)) := by
  show Effect _ db (settle db (expireRun runID at_ db))
  unfold expireRun
  split
  · exact .of_frame ⟨rfl, rfl⟩
  next run hrun =>
  split
  · exact .of_frame ⟨rfl, rfl⟩
  · next hq =>
    exact .of_updateRun hrun rfl rfl (.expire at_ (not_not.mp hq))

theorem setQueueReason_effect (runID reason : String) (now : Int) :
    Effect (.setQueueReason runID reason now) db (apply db (.setQueueReason runID reason now)) := by
  show Effect _ db (settle db (setQueueReason runID reason now db))
  unfold setQueueReason
  split
  · exact .of_frame ⟨rfl, rfl⟩
  next run hrun =>
  split
  · exact .of_frame ⟨rfl, rfl⟩
  · exact .of_updateRun hrun rfl rfl (.note reason run.dispatchAttempts run.lastDispatchAt
        run.dispatchError run.updatedAt)

-- ======== dispatch

theorem claim_effect (cutoff now : Int) (limit : Nat) : Effect (.claim cutoff now limit) db
      (apply db (.claim cutoff now limit)) := .of_update rfl rfl fun r _ _ =>
    .note r.resultSummary (r.dispatchAttempts + 1) (some now) "" now

theorem recordResult_effect (runID executionToken dispatchError : String) (now : Int) :
    Effect (.recordResult runID executionToken dispatchError now) db
      (apply db (.recordResult runID executionToken dispatchError now)) :=
  .of_update rfl rfl fun r _ _ =>
    .note r.resultSummary r.dispatchAttempts r.lastDispatchAt (truncateRunes dispatchError) now

-- ======== agents

/-- An event that was already stored changes nothing. -/
theorem applyRunEvent_replay {db db' : Database} (h : applyRunEvent e state db = .ok (false, db')) :
    db' = db := by
  unfold applyRunEvent at h
  repeat' split at h
  all_goals first
    | cases h; rfl
    | cases h

theorem commit_runs (e : AgentRunEvent) (db : Database) (current state : RunState) :
    (e.commit db current state).runs.rows = db.runs.rows.map
      (Table.amend (fun r => r.id == e.runID) (e.record state)) := by
  unfold AgentRunEvent.commit
  split <;> rfl

theorem commit_leases (e : AgentRunEvent) (db : Database) (current state : RunState) :
    (e.commit db current state).leases.rows = db.leases.rows.map
      (ResourceLease.releaseBy (releaseOne e.runID
        (if state.terminal then some e.occurredAt else none))) := by
  unfold AgentRunEvent.commit
  split
  · exact Database.releaseLeases_rows _ _ _
  · rw [Database.releaseOne_none, Database.map_releaseBy_none]
    rfl

/-- A new event: what was checked before it was written. -/
theorem applyRunEvent_new {db db' : Database} (h : applyRunEvent e state db = .ok (true, db')) :
    ∃ run, db.runs.find? e.runID = some run ∧ run.token = e.executionToken
      ∧ e.stored db = none ∧ e.sequence = e.expectedSequence db
      ∧ validAgentTransition run.state state = true ∧ db' = e.commit db run.state state := by
  unfold applyRunEvent at h
  repeat' split at h
  all_goals try cases h
  next run hrun htoken _ hnew hseq hvalid =>
    exact ⟨run, hrun, not_not.mp htoken, hnew, not_not.mp hseq,
      Bool.eq_true_of_not_eq_false hvalid, rfl⟩

theorem runEvent_effect (now : Int) (e : AgentRunEvent) :
    Effect (.runEvent now e) db (apply db (.runEvent now e)) := by
  show Effect _ db (settle db (eventServiceApply now e db))
  unfold eventServiceApply
  split
  · exact .of_frame ⟨rfl, rfl⟩
  next state htype =>
  split
  · exact .of_frame ⟨rfl, rfl⟩
  rcases h : applyRunEvent (e.dated now) state db with _ | ⟨new, db'⟩
  · exact .of_frame ⟨rfl, rfl⟩
  cases new with
  | false =>
    obtain rfl := applyRunEvent_replay h
    exact .of_frame ⟨rfl, rfl⟩
  | true =>
    obtain ⟨run, hrun, htoken, hnew, hseq, hvalid, rfl⟩ := applyRunEvent_new h
    obtain ⟨-, hid⟩ := db.runs.find?_eq_some.mp hrun
    refine .of_updateRun_release hrun (commit_runs _ _ _ _) (commit_leases _ _ _ _) ?_
    have hchange : Change (.runEvent now e) db run
        ((e.dated now).record state run) state.terminal :=
      .event now e state rfl htype hid htoken hnew hseq hvalid
    cases hterm : state.terminal with
    | true | false => rw [hterm] at hchange; exact hchange

theorem serverOffline_effect (serverID : String) (at_ : Int) :
    Effect (.serverOffline serverID at_) db (apply db (.serverOffline serverID at_)) := by
  have hloop := Database.frame_appendForEach
    { db with
      runs := db.runs.update (TaskRun.activeOn serverID) (TaskRun.lose at_) fun _ => rfl }
    (((db.runs.rows.filter (TaskRun.activeOn serverID)).map (·.id)).map fun runID => (runID, at_))
    "run.unknown" .unknown { message := some "执行服务器失联，等待代理重连确认" }
  refine .of_update (p := TaskRun.activeOn serverID)
    (congrArg Table.rows hloop.runs) hloop.leases ?_
  intro r _ hactive
  exact .lose serverID at_ rfl hactive

-- ======== reports

/-- What one iteration of `reconcileRunning` makes of the row it is
about. -/
def RunningReport.row (report : RunningReport) (at_ : Int) (item r : TaskRun) : TaskRun :=
  if report.confirms item then r.resume at_
  else if report.authoritative && !item.processConfirmedGone then
    r.vanish at_
  else r

/-- Whether one iteration releases the leases of its run. -/
def RunningReport.releases (report : RunningReport) (item : TaskRun) : Bool :=
  !report.confirms item && report.authoritative

theorem RunningReport.row_id (report : RunningReport) (at_ : Int)
    (item r : TaskRun) : (report.row at_ item r).id = r.id := by
  unfold RunningReport.row
  split
  · rfl
  · split <;> rfl

theorem reconcileItem_runs (report : RunningReport) (at_ : Int) (db : Database) (item : TaskRun) :
    (reconcileItem report at_ db item).runs
      = db.runs.update (fun r => r.id = item.id) (report.row at_ item)
        (report.row_id at_ item) := by
  apply Table.ext_rows
  rw [Table.update_rows]
  unfold reconcileItem RunningReport.row
  cases report.confirms item with
  | true =>
    have hframe := db.frame_saveRunUsage item.id ((report.process item.id).bind (·.usage))
    rw [if_pos rfl]
    split <;> exact congrArg (List.map _ ·.rows) hframe.runs
  | false =>
    cases report.authoritative with
    | false => exact (Table.map_amend_self (fun _ => rfl) _).symm
    | true =>
      cases item.processConfirmedGone with
      | true => exact (Table.map_amend_self (fun _ => rfl) _).symm
      | false => rfl

theorem reconcileItem_leases (report : RunningReport) (at_ : Int) (db : Database) (item : TaskRun) :
    (reconcileItem report at_ db item).leases.rows
      = db.leases.rows.map (ResourceLease.releaseBy (releaseOne item.id
        (if report.releases item then some at_ else none))) := by
  unfold reconcileItem RunningReport.releases
  cases report.confirms item with
  | true =>
    have hframe := db.frame_saveRunUsage item.id ((report.process item.id).bind (·.usage))
    rw [if_pos rfl, Bool.not_true, Bool.false_and,
      if_neg Bool.false_ne_true, Database.releaseOne_none, Database.map_releaseBy_none]
    split <;> exact congrArg Table.rows hframe.leases
  | false =>
    rw [if_neg Bool.false_ne_true, Bool.not_false, Bool.true_and]
    cases report.authoritative with
    | false =>
      rw [if_pos rfl, if_neg Bool.false_ne_true,
        Database.releaseOne_none, Database.map_releaseBy_none]
    | true =>
      rw [if_neg Bool.true_eq_false.mp, if_pos rfl, ← Database.releaseLeases_rows]
      split <;> rfl

/-- Two releases in a row: the first one counts. -/
theorem releaseBy_releaseBy (f g : String → Option Int) (l : ResourceLease) :
    (l.releaseBy f).releaseBy g = l.releaseBy fun id => (f id).or (g id) := by
  unfold ResourceLease.releaseBy
  simp [Option.or_assoc]

/-- The leases a whole report releases: those of the runs named by some
releasing iteration. -/
theorem foldl_reconcileItem_leases (report : RunningReport) (at_ : Int) :
    ∀ (items : List TaskRun) (db : Database),
      (items.foldl (reconcileItem report at_) db).leases.rows
        = db.leases.rows.map (ResourceLease.releaseBy fun id =>
          if items.any fun i => i.id == id && report.releases i then
            some at_
          else none) := by
  intro items
  induction items with
  | nil =>
    intro db
    exact (Database.map_releaseBy_none _).symm
  | cons item items ih =>
    intro db
    rw [List.foldl_cons, ih, reconcileItem_leases, List.map_map]
    refine List.map_congr_left fun l _ => ?_
    rw [Function.comp, releaseBy_releaseBy]
    congr 1
    funext id
    unfold releaseOne
    by_cases hid : id = item.id
    · subst hid
      cases hrel : report.releases item <;> simp [hrel]
    · have hid' : (item.id == id) = false := by
        simpa using fun h => hid h.symm
      rw [if_neg hid, Option.none_or, List.any_cons, hid', Bool.false_and, Bool.false_or]

theorem foldl_reconcileItem_runs (report : RunningReport) (at_ : Int)
    (db : Database) (p : TaskRun → Bool) :
    ((db.runs.rows.filter p).foldl (reconcileItem report at_) db).runs.rows
      = db.runs.rows.map fun r =>
        if p r then report.row at_ r r else r := by
  have hhom : (db.runs.rows.filter p).foldl (fun u item => u.update (fun r => r.id = item.id)
        (report.row at_ item) (report.row_id at_ item)) db.runs = ((db.runs.rows.filter p).foldl
        (reconcileItem report at_) db).runs := List.foldl_hom Database.runs fun db item =>
      (reconcileItem_runs report at_ db item).symm
  rw [← hhom]
  exact db.runs.foldl_update_rows p (report.row at_) (report.row_id at_)

theorem reconcile_effect (report : RunningReport) (now : Int) :
    Effect (.reconcile report now) db (apply db (.reconcile report now)) := by
  show Effect _ db (settle db (reconcile report now db))
  unfold reconcile
  split
  · exact .of_frame ⟨rfl, rfl⟩
  refine .rewrite _ _ (foldl_reconcileItem_runs report now db _) ?_
    (foldl_reconcileItem_leases report now _ _)
  intro r hr
  -- ids are distinct, so the run's own iteration is the only one
  have hany : ((db.runs.rows.filter (TaskRun.openOn report.serverID)).any
      fun i => i.id == r.id && report.releases i)
      = (r.openOn report.serverID && report.releases r) := by
    rw [Bool.eq_iff_iff, List.any_eq_true, Bool.and_eq_true]
    constructor
    · intro ⟨i, hi, hrel⟩
      obtain ⟨himem, hiopen⟩ := List.mem_filter.mp hi
      rw [Bool.and_eq_true, beq_iff_eq] at hrel
      obtain rfl := db.runs.eq_of_key_eq himem hr hrel.1
      exact ⟨hiopen, hrel.2⟩
    · intro ⟨hopen, hrel⟩
      exact ⟨r, List.mem_filter.mpr ⟨hr, hopen⟩, by simp [hrel]⟩
  rw [hany]
  cases hopen : r.openOn report.serverID with
  | false => exact .keep
  | true =>
    unfold RunningReport.row RunningReport.releases
    cases hconf : report.confirms r with
    | true => exact .resume report now rfl hopen hconf
    | false =>
      cases hauth : report.authoritative with
      | false => exact .keep
      | true =>
        cases hgone : r.processConfirmedGone with
        | true => exact .absent report now rfl hopen hauth hconf hgone
        | false =>
          exact .vanish report now rfl hopen hauth hconf hgone

-- ======== retries

theorem successor_eq_none {db : Database} {rootID : String}
    {attempt : Nat} (h : db.successor rootID attempt = none) :
    ∀ r ∈ db.runs.rows, r.retryOf = some rootID → r.attempt ≤ attempt := by
  intro r hr hroot
  by_contra hlt
  have hmem : r ∈ (db.runs.rows.filter fun r =>
      r.retryOf == some rootID && attempt < r.attempt).insertionSort TaskRun.beforeAttempt := by
    rw [List.mem_insertionSort]
    refine List.mem_filter.mpr ⟨hr, ?_⟩
    simp [hroot, Nat.lt_of_not_le hlt]
  rw [List.head?_eq_none_iff.mp h] at hmem
  cases hmem

/-- A retry that succeeds returns the successor that is there, or the
one it creates. -/
theorem retryRun_ok {runID freshID id : String} {at_ : Int} {automatic : Bool} {db db' : Database}
    (h : retryRun runID freshID at_ automatic db = .ok (id, db')) :
    ∃ run, db.runs.find? runID = some run ∧ run.retryable = true
      ∧ ((∃ next, db.successor run.root run.attempt = some next
          ∧ id = next.id ∧ db' = db.releaseLeases runID at_)
        ∨ (db.successor run.root run.attempt = none ∧ id = freshID
          ∧ (∀ r ∈ db.runs.rows, r.id ≠ freshID)
          ∧ db'.runs.rows = db.runs.rows ++ [run.nextAttempt freshID at_]
          ∧ db'.leases = (db.releaseLeases runID at_).leases)) := by
  unfold retryRun at h
  dsimp only at h
  repeat' split at h
  all_goals try cases h
  · next run hrun _ _ _ _ hretry _ _ next hnext =>
    exact ⟨run, hrun, Bool.eq_true_of_not_eq_false hretry, Or.inl ⟨next, hnext, rfl, rfl⟩⟩
  · next run hrun _ _ _ _ hretry _ _ hlast _ runs hins =>
    obtain ⟨hrows, hfresh⟩ := Table.insert?_eq_some hins
    exact ⟨run, hrun, Bool.eq_true_of_not_eq_false hretry, Or.inr ⟨hlast, rfl, hfresh, hrows, rfl⟩⟩

theorem retry_effect (runID freshID : String) (at_ : Int) (automatic : Bool) :
    Effect (.retry runID freshID at_ automatic) db
      (apply db (.retry runID freshID at_ automatic)) := by
  show Effect _ db (settle db (retryRun runID freshID at_ automatic db))
  rcases h : retryRun runID freshID at_ automatic db with _ | ⟨id, db'⟩
  · exact .of_frame ⟨rfl, rfl⟩
  obtain ⟨run, hrun, hretry, hnext | hnone⟩ := retryRun_ok h
  · obtain ⟨hmem, rfl⟩ := db.runs.find?_eq_some.mp hrun
    obtain ⟨next, -, -, rfl⟩ := hnext
    exact .of_updateRun_release hrun (Table.map_amend_self (fun _ => rfl) _).symm
      (Database.releaseLeases_rows _ _ _) (.retry freshID at_ automatic rfl hretry)
  · obtain ⟨hmem, rfl⟩ := db.runs.find?_eq_some.mp hrun
    obtain ⟨hlast, -, hfresh, hruns, hleases⟩ := hnone
    refine .retried run freshID at_ automatic rfl hmem hretry
      (successor_eq_none hlast) hfresh hruns ?_
    rw [settle_ok, hleases, Database.releaseLeases_rows]

-- ======== assembly

/-- Every operation has one of the four effects. -/
theorem apply_effect (op : Op) : Effect op db (apply db op) := by
  cases op with
  | setEnabled id enabled cancelQueued now =>
    exact setEnabled_effect db id enabled cancelQueued now
  | trigger definitionID freshID trigger now =>
    exact trigger_effect db definitionID freshID trigger now
  | cancelRun runID now sent => exact cancelRun_effect db runID now sent
  | assign a => exact assign_effect db a
  | expire runID at_ => exact expire_effect db runID at_
  | setQueueReason runID reason now =>
    exact setQueueReason_effect db runID reason now
  | claim cutoff now limit => exact claim_effect db cutoff now limit
  | recordResult runID executionToken dispatchError now =>
    exact recordResult_effect db runID executionToken dispatchError now
  | runEvent now e => exact runEvent_effect db now e
  | serverOffline serverID at_ => exact serverOffline_effect db serverID at_
  | reconcile report now => exact reconcile_effect db report now
  | retry runID freshID at_ automatic =>
    exact retry_effect db runID freshID at_ automatic
  | _ =>
    -- the others write definitions, servers, versions and syncs only
    refine .of_frame ?_
    simp only [apply, createDefinition, updateDefinition, deleteDefinition, saveHeartbeat,
      enrollServer, updateServer, revokeServerCredentials, setServerDraining, publishVersion]
    repeat' split
    all_goals exact ⟨rfl, rfl⟩

end Operations

-- ======== consequences

/-- The columns no change touches: what a run is, as opposed to how far
it has come. -/
structure SameRun (r r' : TaskRun) : Prop where
  id : r'.id = r.id
  taskDefinitionId : r'.taskDefinitionId = r.taskDefinitionId
  scriptVersionId : r'.scriptVersionId = r.scriptVersionId
  priority : r'.priority = r.priority
  queuedAt : r'.queuedAt = r.queuedAt
  maxConcurrency : r'.maxConcurrency = r.maxConcurrency
  timeoutSeconds : r'.timeoutSeconds = r.timeoutSeconds
  maxRetries : r'.maxRetries = r.maxRetries
  attempt : r'.attempt = r.attempt
  retryOf : r'.retryOf = r.retryOf

theorem SameRun.refl (r : TaskRun) : SameRun r r := by
  constructor <;> rfl

theorem SameRun.trans {r'' : TaskRun} (h : SameRun r r') (h' : SameRun r' r'') : SameRun r r'' where
  id := h'.id.trans h.id
  taskDefinitionId := h'.taskDefinitionId.trans h.taskDefinitionId
  scriptVersionId := h'.scriptVersionId.trans h.scriptVersionId
  priority := h'.priority.trans h.priority
  queuedAt := h'.queuedAt.trans h.queuedAt
  maxConcurrency := h'.maxConcurrency.trans h.maxConcurrency
  timeoutSeconds := h'.timeoutSeconds.trans h.timeoutSeconds
  maxRetries := h'.maxRetries.trans h.maxRetries
  attempt := h'.attempt.trans h.attempt
  retryOf := h'.retryOf.trans h.retryOf

theorem SameRun.root (h : SameRun r r') : r'.root = r.root := by
  unfold TaskRun.root
  rw [h.retryOf, h.id]

theorem Change.sameRun (h : Change op db r r' released) : SameRun r r' := by
  cases h <;> constructor <;> rfl

theorem sameRun_assignTo (p : TaskRun → Bool) (a : Assignment)
    (r : TaskRun) : SameRun r (Table.amend p (TaskRun.assignTo a) r) := by
  unfold Table.amend
  split <;> constructor <;> rfl

/-- No change moves a run to another server or another assignment. -/
theorem Change.assignment_eq (h : Change op db r r' released) :
    r'.assignedAt = r.assignedAt ∧ r'.assignedServerId = r.assignedServerId
      ∧ r'.executionToken = r.executionToken := by
  cases h <;> exact ⟨rfl, rfl, rfl⟩

/-- The operation takes the run from `unknown` back to `running`: an
agent event, new and next in the run's execution, says that it started,
or a report of its server names it with its token. -/
def reenters (db : Database) (op : Op) (r : TaskRun) : Bool :=
  r.state == .unknown && match op with
    | .runEvent _ e =>
      r.id == e.runID && r.token == e.executionToken && stateForAgentEvent e.type == some .running
        && (e.stored db).isNone && e.sequence == e.expectedSequence db
    | .reconcile report _ =>
      r.openOn report.serverID && report.confirms r
    | _ => false

/-- Assignments apart, an active state is entered from `unknown`
only. -/
theorem Change.reenters (h : Change op db r r' released) (hr : r.state.active = false)
    (hr' : r'.state.active = true) : reenters db op r = true := by
  cases h with
  | keep | note | absent | retry => rw [hr] at hr'; cases hr'
  | expire | cancel | disable | lose | vanish => cases hr'
  | event now e state hop htype hid htoken hnew hnext hvalid =>
    have hactive : state.active = true := hr'
    have hrunning : state = .running := by
      rcases stateForAgentEvent_cases htype with h | h
      · exact h
      · cases state <;> simp_all [RunState.terminal, RunState.active]
    have hunknown : r.state = .unknown := by
      rcases validAgentTransition_cases hvalid with heq | ⟨hfrom, -⟩
      · rw [heq, hactive] at hr; cases hr
      · rcases hfrom with hact | hunk
        · rw [hact] at hr; cases hr
        · exact hunk
    simp [Yunling.reenters, hop, hunknown, hid, htoken, htype, hrunning, hnew, hnext]
  | resume report at_ hop onServer confirmed =>
    have hunknown : r.state = .unknown := by
      simp only [TaskRun.openOn, Bool.and_eq_true, Bool.or_eq_true, beq_iff_eq] at onServer
      rcases onServer.2 with hact | hunk
      · rw [hact] at hr; cases hr
      · exact hunk
    simp [Yunling.reenters, hop, hunknown, onServer, confirmed]

/-- Counting the active runs of a group no change moves them out of: at
most those of before and those that re-enter. -/
theorem countP_active_le {f : TaskRun → TaskRun} {released : String → Option Int}
    (change : ∀ r ∈ db.runs.rows, Change op db r (f r) (released r.id).isSome) {g : TaskRun → Bool}
    (hg : ∀ r ∈ db.runs.rows, g (f r) = g r) :
    (db.runs.rows.map f).countP (fun r => g r && r.state.active)
      ≤ db.runs.rows.countP (fun r => g r && r.state.active)
        + db.runs.rows.countP (fun r => g r && reenters db op r) := by
  refine Nat.le_trans (Table.countP_map_le _ f _) (Nat.add_le_add_left (List.countP_mono_left ?_) _)
  intro r hr hq
  -- a row that joins the count is one that re-enters
  simp only [Bool.and_eq_true, Bool.not_eq_true', Bool.and_eq_false_iff] at hq
  obtain ⟨hbefore, hgroup, hafter⟩ := hq
  rw [hg r hr] at hgroup
  have hinactive : r.state.active = false := by
    rcases hbefore with h | h
    · rw [hgroup] at h; cases h
    · exact h
  rw [Bool.and_eq_true]
  exact ⟨hgroup, (change r hr).reenters hinactive hafter⟩

/-- Nothing goes back to the queue. -/
theorem Change.queued (h : Change op db r r' released) (hq : r'.state = .queued) :
    r.state = .queued := by
  cases h with
  | keep | note | absent | retry => exact hq
  | event now e state hop htype hid htoken hnew hnext hvalid =>
    have hstate : state = .queued := hq
    rcases stateForAgentEvent_cases htype with h | h
    · rw [hstate] at h; cases h
    · rw [hstate] at h; cases h
  | expire | cancel | disable | lose | resume | vanish => cases hq

/-- The operations that add runs. -/
def Op.creates : Op → Bool
  | .trigger .. => true
  | .retry .. => true
  | _ => false

/-- Assignments: the operations only the scheduler may ask for. -/
def Op.isAssign : Op → Bool
  | .assign _ => true
  | _ => false

/-- A run that is not queued is changed, at most. -/
theorem Effect.changed (h : Effect op db db') (hr : r ∈ db.runs.rows) (hq : r.state ≠ .queued) :
    ∃ r' ∈ db'.runs.rows, ∃ released, Change op db r r' released := by
  cases h with
  | rewrite f released runs change leases =>
    refine ⟨f r, ?_, _, change r hr⟩
    rw [runs]
    exact List.mem_map_of_mem hr
  | assigned a run hop h => exact ⟨r, h.keeps hr hq, _, .keep⟩
  | triggered _ _ _ _ _ _ _ _ runs | retried _ _ _ _ _ _ _ _ _ runs =>
    refine ⟨r, ?_, _, .keep⟩
    rw [runs]
    exact List.mem_append_left _ hr

/-- Where a row comes from: it is as an earlier one changed, it is the
assigned one, or it is new. -/
theorem Effect.origin (h : Effect op db db') (hr' : r' ∈ db'.runs.rows) :
    (∃ r ∈ db.runs.rows, ∃ released, Change op db r r' released)
      ∨ (∃ a run, Assigned db a run db' ∧ r' = run.assignTo a)
      ∨ op.creates = true ∧ r'.assignedServerId = none ∧ r'.processConfirmedGone = false := by
  cases h with
  | rewrite f released runs change leases =>
    rw [runs] at hr'
    obtain ⟨r, hr, rfl⟩ := List.mem_map.mp hr'
    exact Or.inl ⟨r, hr, _, change r hr⟩
  | assigned a run hop h =>
    rcases h.mem_runs.mp hr' with heq | ⟨hr, -⟩
    · exact Or.inr (Or.inl ⟨a, run, h, heq⟩)
    · exact Or.inl ⟨r', hr, _, .keep⟩
  | triggered _ _ _ _ _ _ _ _ runs _ hop =>
    obtain ⟨_, rfl⟩ := hop
    rw [runs] at hr'
    rcases List.mem_append.mp hr' with hold | hnew
    · exact Or.inl ⟨r', hold, _, .keep⟩
    · obtain rfl := List.mem_singleton.mp hnew
      exact Or.inr (Or.inr ⟨rfl, rfl, rfl⟩)
  | retried _ _ _ _ hop _ _ _ _ runs =>
    obtain rfl := hop
    rw [runs] at hr'
    rcases List.mem_append.mp hr' with hold | hnew
    · exact Or.inl ⟨r', hold, _, .keep⟩
    · obtain rfl := List.mem_singleton.mp hnew
      exact Or.inr (Or.inr ⟨rfl, rfl, rfl⟩)

/-- Where no run is added, a queued row was queued before. -/
theorem Effect.queued_mem (h : Effect op db db') (hop : op.creates = false)
    (hr' : r' ∈ db'.runs.rows) (hq : r'.state = .queued) :
    ∃ r ∈ db.runs.rows, r.state = .queued ∧ SameRun r r' := by
  rcases h.origin hr' with ⟨r, hr, _, hc⟩ | ⟨a, run, -, rfl⟩ | ⟨hcreates, -⟩
  · exact ⟨r, hr, hc.queued hq, hc.sameRun⟩
  · cases hq
  · rw [hop] at hcreates
    cases hcreates

/-- No row is lost, and no row changes what it is. -/
theorem Effect.mem_runs_of_mem (h : Effect op db db') (hr : r ∈ db.runs.rows) :
    ∃ r' ∈ db'.runs.rows, SameRun r r' := by
  cases h with
  | rewrite f released runs change leases =>
    refine ⟨f r, ?_, (change r hr).sameRun⟩
    rw [runs]
    exact List.mem_map_of_mem hr
  | assigned a run hop h =>
    refine ⟨_, ?_, sameRun_assignTo (fun r => r.id == a.runID) a r⟩
    rw [h.runs]
    exact List.mem_map_of_mem hr
  | triggered d id versionID type trigger parameters now fresh runs leases
  | retried run id at_ automatic hop hrun retryable last fresh runs leases =>
    refine ⟨r, ?_, .refl r⟩
    rw [runs]
    exact List.mem_append_left _ hr

/-- A run row survives every run of the platform. -/
theorem mem_runs_run (hr : r ∈ db.runs.rows) (ops : List Op) :
    ∃ r' ∈ (runOps db ops).runs.rows, SameRun r r' := by
  refine Transition.run_invariant (I := fun db : Database =>
    ∃ r' ∈ db.runs.rows, SameRun r r') ?_ ⟨r, hr, .refl r⟩ ops
  intro db op ⟨s, hs, hsame⟩
  obtain ⟨s', hs', hsame'⟩ := (apply_effect db op).mem_runs_of_mem hs
  exact ⟨s', hs', hsame.trans hsame'⟩

end Yunling
