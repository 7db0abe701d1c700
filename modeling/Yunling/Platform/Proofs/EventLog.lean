/-
The log of agent events: each execution has stored its events once, in
order and without gaps, whatever the agents send and however often.

# Shape of the argument

`apply_logged` says once what an operation adds to `run_events`: rows the
platform writes about itself, which carry no agent number, or the row of
one agent event that passed every check of `ApplyRunEvent`. The invariant
(`LogInv`) is read off these two cases: the numbers of an execution are
`1..n`, the run of a stored event still carries its token, and a run
whose failure is marked for an automatic retry is over.

# What a replay finds

In such a database an event that is stored already is found under its
number, and its run still has its token. So a replay that says the same
is answered as one, and everything else about that number is a conflict.
-/
import Yunling.Platform.Proofs.Outcome

namespace Yunling

open Relational Scheduler

-- ======== vocabulary

/-- The events stored for one execution of a run. -/
def Database.execution (db : Database) (runID token : String) : List RunEvent :=
  db.events.filter fun e =>
    e.taskRunId == runID && e.executionToken == some token

/-- The server-owned marker of an automatic retry is set. -/
def RunEvent.marked (e : RunEvent) : Bool :=
  e.payload.automaticRetry == some true

/-- The marked events of one run. -/
def Database.marks (db : Database) (runID : String) : Nat :=
  db.events.countP fun e => e.taskRunId == runID && e.marked

-- ======== system entries

/-- An event the platform writes about a run by itself. -/
structure RunEvent.System (e : RunEvent) : Prop where
  number : e.agentSequence = none
  token : e.executionToken = none
  mark : e.payload.automaticRetry = none

/-- Only events of the platform's own were added. -/
def Database.Notes (db db' : Database) : Prop :=
  ∃ new, db'.events = db.events ++ new ∧ ∀ e ∈ new, e.System

namespace Database

variable {db db' : Database}

theorem Notes.of_eq (h : db'.events = db.events) : Notes db db' :=
  ⟨[], by simp [h], by simp⟩

theorem Notes.trans {db₁ db₂ db₃ : Database} (h : Notes db₁ db₂)
    (h' : Notes db₂ db₃) : Notes db₁ db₃ := by
  obtain ⟨new, hnew, hsys⟩ := h
  obtain ⟨new', hnew', hsys'⟩ := h'
  refine ⟨new ++ new', by rw [hnew', hnew, List.append_assoc], ?_⟩
  intro e he
  rcases List.mem_append.mp he with he | he
  · exact hsys e he
  · exact hsys' e he

theorem Notes.foldl {α : Type} {f : Database → α → Database}
    (h : ∀ db a, Notes db (f db a)) (db : Database) (l : List α) : Notes db (l.foldl f db) := by
  induction l generalizing db with
  | nil => exact .of_eq rfl
  | cons a l ih => exact (h db a).trans (ih (f db a))

/-- One event of the platform, in a database whose log is `db`'s. -/
theorem notes_append (h : db'.events = db.events) (runID eventType : String) (state : RunState)
    (payload : Payload) (hmark : payload.automaticRetry = none) (at_ : Int) :
    Notes db (db'.appendSystemRunEvent runID eventType state payload at_) := by
  refine ⟨_, congrArg (· ++ _) h, ?_⟩
  intro e he
  rw [List.mem_singleton.mp he]
  exact ⟨rfl, rfl, hmark⟩

theorem notes_appendForEach (h : db'.events = db.events)
    (runs : List (String × Int)) (eventType : String) (state : RunState) (payload : Payload)
    (hmark : payload.automaticRetry = none) :
    Notes db (db'.appendForEach runs eventType state payload) := by
  refine (Notes.of_eq h).trans ?_
  exact Notes.foldl (fun db run => notes_append rfl run.1 _ _ _ hmark run.2) db' runs

theorem notes_saveRunUsage (db : Database) (runID : String) (usage : Option ResourceUsage) :
    Notes db (saveRunUsage db runID usage) := by
  unfold saveRunUsage
  repeat' split
  all_goals first
    | exact .of_eq rfl
    | exact notes_append rfl _ _ _ _ rfl _

theorem notes_reconcileItem (report : RunningReport) (at_ : Int) (db : Database) (item : TaskRun) :
    Notes db (reconcileItem report at_ db item) := by
  unfold reconcileItem
  repeat' split
  · exact (notes_saveRunUsage db item.id _).trans (.of_eq rfl)
  · exact (notes_saveRunUsage db item.id _).trans (notes_append rfl _ _ _ _ rfl _)
  · exact .of_eq rfl
  · exact .of_eq rfl
  · exact notes_append rfl _ _ _ _ rfl _

end Database

-- ======== one step

/-- What an operation adds to the log of events. -/
inductive Logged (op : Op) (db db' : Database) : Prop
  /-- nothing an agent said -/
  | notes (h : db.Notes db')
  /-- one agent event, new and next in its execution -/
  | agent (now : Int) (e : AgentRunEvent) (state : RunState)
      (run : TaskRun) (hop : op = .runEvent now e)
      (htype : stateForAgentEvent e.type = some state)
      (hwell : (blank e.runID || blank e.executionToken
        || e.sequence == 0 || e.usage.any (!·.valid)) = false)
      (hrun : db.runs.find? e.runID = some run)
      (htoken : run.token = e.executionToken)
      (hnext : e.sequence = e.expectedSequence db)
      (hvalid : validAgentTransition run.state state = true)
      (hdb : db' = (e.dated now).commit db run.state state)

theorem commit_events (e : AgentRunEvent) (db : Database) (current state : RunState) :
    (e.commit db current state).events = db.events ++ [e.row db current state] := by
  unfold AgentRunEvent.commit
  split <;> rfl

theorem runEvent_logged (db : Database) (now : Int) (e : AgentRunEvent) :
    Logged (.runEvent now e) db (apply db (.runEvent now e)) := by
  show Logged _ db (settle db (eventServiceApply now e db))
  unfold eventServiceApply
  split
  · exact .notes (.of_eq rfl)
  next state htype =>
  split
  · exact .notes (.of_eq rfl)
  next hwell =>
  rcases h : applyRunEvent (e.dated now) state db with _ | ⟨new, db'⟩
  · exact .notes (.of_eq rfl)
  cases new with
  | false =>
    obtain rfl := applyRunEvent_replay h
    exact .notes (.of_eq rfl)
  | true =>
    obtain ⟨run, hrun, htoken, -, hnext, hvalid, rfl⟩ := applyRunEvent_new h
    exact .agent now e state run rfl htype
      (Bool.eq_false_of_not_eq_true hwell) hrun htoken hnext hvalid rfl

/-- The operations that carry an agent event. -/
def Op.isRunEvent : Op → Bool
  | .runEvent .. => true
  | _ => false

/-- All others add events of the platform's own, if any. -/
theorem apply_notes (db : Database) {op : Op}
    (hop : op.isRunEvent = false) : db.Notes (apply db op) := by
  cases op with
  | runEvent now e => cases hop
  | setEnabled id enabled cancelQueued now =>
    simp only [apply, setEnabled]
    repeat' split
    all_goals first
      | exact .of_eq rfl
      | exact Database.notes_appendForEach rfl _ _ _ _ rfl
  | trigger definitionID freshID trigger now =>
    simp only [apply, triggerRun]
    repeat' split
    all_goals first
      | exact .of_eq rfl
      | refine ⟨_, rfl, fun e he => ?_⟩
        rw [List.mem_singleton.mp he]
        exact ⟨rfl, rfl, rfl⟩
  | assign a =>
    have hkept : ∀ {serverID versionID : String} {prepared : Database},
        db.prepareSync serverID versionID = .ok prepared → prepared.events = db.events := by
      intro serverID versionID prepared hprep
      unfold Database.prepareSync at hprep
      repeat' split at hprep
      all_goals first
        | obtain rfl := Except.ok.inj hprep; rfl
        | cases hprep
    simp only [apply, assign]
    repeat' split
    all_goals first
      | exact .of_eq rfl
      | exact .of_eq (hkept ‹_›)
      | have hsame := hkept ‹db.prepareSync _ _ = Except.ok _›
        exact (Database.Notes.of_eq hsame).trans (Database.notes_append rfl _ _ _ _ rfl _)
  | serverOffline serverID at_ => exact Database.notes_appendForEach rfl _ _ _ _ rfl
  | reconcile report now =>
    simp only [apply, reconcile]
    split
    · exact .of_eq rfl
    · exact Database.Notes.foldl (Database.notes_reconcileItem report now) db _
  | _ =>
    -- one statement, and at most one event
    simp only [apply, createDefinition, updateDefinition, deleteDefinition, cancelRun, expireRun,
      setQueueReason, retryRun, saveHeartbeat, enrollServer, updateServer, revokeServerCredentials,
      setServerDraining, publishVersion]
    repeat' split
    all_goals first
      | exact .of_eq rfl
      | exact Database.notes_append rfl _ _ _ _ rfl _

/-- Every operation adds one of the two kinds. -/
theorem apply_logged (db : Database) (op : Op) : Logged op db (apply db op) := by
  cases op with
  | runEvent now e => exact runEvent_logged db now e
  | _ => exact .notes (apply_notes db rfl)

-- ======== the invariant

/-- A row an agent event left: the number, token and type it carried are
well formed, and its run still runs, or ran, under that token. -/
structure Genuine (db : Database) (row : RunEvent) : Prop where
  number : ∃ n, row.agentSequence = some n ∧ n ≠ 0
  type : ∃ type, row.eventType = "run." ++ type ∧ (stateForAgentEvent type).isSome = true
  named : blank row.taskRunId = false
  usage : row.payload.usage.any (!·.valid) = false
  run : ∃ token, row.executionToken = some token ∧ blank token = false
    ∧ ∃ run ∈ db.runs.rows, run.id = row.taskRunId
      ∧ run.executionToken = some token ∧ run.state ≠ .queued

/-- What the log of every reachable database satisfies. -/
structure LogInv (db : Database) : Prop where
  numbered : ∀ runID token, ∃ n, (db.execution runID token).map (·.agentSequence)
      = (List.range' 1 n).map some
  origin : ∀ row ∈ db.events, row.System ∨ Genuine db row
  /-- a marked run is over -/
  ended : ∀ row ∈ db.events, row.marked = true → ∃ run ∈ db.runs.rows, run.id = row.taskRunId
      ∧ run.state.terminal = true
  once : ∀ runID, db.marks runID ≤ 1

theorem logInv_empty : LogInv .empty where
  numbered := fun _ _ => ⟨0, rfl⟩
  origin := fun row hrow => by cases hrow
  ended := fun row hrow => by cases hrow
  once := fun _ => Nat.zero_le 1

/-- A run that left the queue keeps its token, and does not go back. -/
theorem Effect.keeps_token {op : Op} {db db' : Database}
    (h : Effect op db db') {r : TaskRun} (hr : r ∈ db.runs.rows) (hq : r.state ≠ .queued) :
    ∃ r' ∈ db'.runs.rows, r'.id = r.id
      ∧ r'.executionToken = r.executionToken ∧ r'.state ≠ .queued := by
  obtain ⟨r', hr', _, hc⟩ := h.changed hr hq
  exact ⟨r', hr', hc.sameRun.id, hc.assignment_eq.2.2, fun hq' => hq (hc.queued hq')⟩

theorem Genuine.step {db : Database} {row : RunEvent}
    (h : Genuine db row) (op : Op) : Genuine (apply db op) row := by
  obtain ⟨token, htoken, hblank, run, hrun, hid, hsame, hq⟩ := h.run
  obtain ⟨run', hrun', hid', hsame', hq'⟩ := (apply_effect db op).keeps_token hrun hq
  exact { h with
    run := ⟨token, htoken, hblank, run', hrun', hid'.trans hid, hsame'.trans hsame, hq'⟩ }

-- ======== steps of the log

section Steps

variable {db db' : Database} {e : AgentRunEvent} {run : TaskRun} {row : RunEvent} {state : RunState}

/-- The platform's own events are in no execution. -/
theorem Database.Notes.execution_eq (h : db.Notes db') (runID token : String) :
    db'.execution runID token = db.execution runID token := by
  obtain ⟨new, hnew, hsys⟩ := h
  unfold Database.execution
  rw [hnew, List.filter_append, List.append_right_eq_self, List.filter_eq_nil_iff]
  intro e he
  simp [(hsys e he).token]

theorem Database.Notes.marks_eq (h : db.Notes db') (runID : String) :
    db'.marks runID = db.marks runID := by
  obtain ⟨new, hnew, hsys⟩ := h
  unfold Database.marks
  rw [hnew, List.countP_append, Nat.add_eq_left, List.countP_eq_zero]
  intro e he
  simp [RunEvent.marked, (hsys e he).mark]

theorem Database.Notes.mem (h : db.Notes db') (hrow : row ∈ db'.events) :
    row ∈ db.events ∨ row.System := by
  obtain ⟨new, hnew, hsys⟩ := h
  rw [hnew] at hrow
  exact (List.mem_append.mp hrow).imp_right (hsys row)

theorem foldl_max_range' (n : Nat) : (List.range' 1 n).foldl max 0 = n := by
  induction n with
  | zero => rfl
  | succ n ih =>
    rw [List.range'_concat, List.foldl_append]
    simp only [List.foldl_cons, List.foldl_nil]
    omega

/-- The next number of an execution that stored `n` events. -/
theorem AgentRunEvent.expectedSequence_eq {n : Nat}
    (h : (db.execution e.runID e.executionToken).map (·.agentSequence)
      = (List.range' 1 n).map some) : e.expectedSequence db = n + 1 := by
  have hnumbers : (db.events.filter e.sameExecution).map
      (fun row => row.agentSequence.getD 0) = List.range' 1 n := by
    have hget := congrArg (List.map (·.getD 0)) h
    rw [List.map_map] at hget
    refine hget.trans ?_
    simp [Function.comp_def]
  unfold AgentRunEvent.expectedSequence
  rw [hnumbers, foldl_max_range']

/-- Two rows of an execution with one number are one row. -/
theorem LogInv.number_unique (inv : LogInv db) {runID token : String} {row' : RunEvent}
    (h : row ∈ db.execution runID token) (h' : row' ∈ db.execution runID token)
    (heq : row.agentSequence = row'.agentSequence) : row = row' := by
  obtain ⟨n, hn⟩ := inv.numbered runID token
  refine List.inj_on_of_nodup_map (f := (·.agentSequence)) ?_ h h' heq
  rw [hn]
  exact List.Nodup.map (Option.some_injective Nat) List.nodup_range'

/-- A stored number is found. -/
theorem LogInv.stored_eq (inv : LogInv db) (h : row ∈ db.execution e.runID e.executionToken)
    (hnum : row.agentSequence = some e.sequence) : e.stored db = some row := by
  have hrow := List.mem_filter.mp h
  cases hfind : e.stored db with
  | none =>
    have hnot := List.find?_eq_none.mp hfind row hrow.1
    have hsame : e.sameExecution row = true := hrow.2
    simp [hsame, hnum] at hnot
  | some found =>
    have hf := List.find?_some hfind
    simp only [Bool.and_eq_true, beq_iff_eq] at hf
    have hmem : found ∈ db.execution e.runID e.executionToken :=
      List.mem_filter.mpr ⟨List.mem_of_find?_eq_some hfind, hf.1⟩
    rw [inv.number_unique hmem h (hf.2.trans hnum.symm)]

theorem LogInv.notes (inv : LogInv db) {op : Op}
    (h : db.Notes (apply db op)) : LogInv (apply db op) := by
  constructor
  · intro runID token
    rw [h.execution_eq]
    exact inv.numbered runID token
  · intro row hrow
    rcases h.mem hrow with hold | hnew
    · exact (inv.origin row hold).imp_right fun hg => hg.step op
    · exact Or.inl hnew
  · intro row hrow hmark
    rcases h.mem hrow with hold | hnew
    · obtain ⟨run, hrun, hid, hterm⟩ := inv.ended row hold hmark
      obtain ⟨run', hrun', hid', hstate, -⟩ := (apply_effect db op).terminal hrun hterm
      exact ⟨run', hrun', hid'.trans hid, hstate ▸ hterm⟩
    · simp [RunEvent.marked, hnew.mark] at hmark
  · intro runID
    rw [h.marks_eq]
    exact inv.once runID

/-- The run of an accepted event, afterwards. -/
theorem mem_commit_runs (hrun : db.runs.find? e.runID = some run) (current state : RunState) :
    e.record state run ∈ (e.commit db current state).runs.rows := by
  obtain ⟨hmem, hid⟩ := db.runs.find?_eq_some.mp hrun
  rw [commit_runs]
  refine List.mem_map.mpr ⟨run, hmem, Table.amend_pos ?_⟩
  simp [hid]

/-- The run a well-formed event speaks for has its token. -/
theorem TaskRun.executionToken_eq {token : String} (htoken : run.token = token)
    (hblank : blank token = false) : run.executionToken = some token := by
  unfold TaskRun.token at htoken
  cases hrun : run.executionToken with
  | none =>
    rw [hrun] at htoken
    rw [← htoken] at hblank
    cases hblank
  | some t => rw [hrun, Option.getD_some] at htoken; rw [htoken]

/-- Only an event that ends a run is marked, and only if the run was not
over yet. -/
theorem AgentRunEvent.row_marked {current : RunState} (h : (e.row db current state).marked = true) :
    current.terminal = false ∧ state.terminal = true := by
  have hmark : (!current.terminal && (state == .failed || state == .timedOut)) = true := by
    simpa [RunEvent.marked, AgentRunEvent.row] using h
  simp only [Bool.and_eq_true, Bool.not_eq_true', Bool.or_eq_true, beq_iff_eq] at hmark
  refine ⟨hmark.1, ?_⟩
  rcases hmark.2 with heq | heq <;> rw [heq] <;> rfl

/-- A run that is not over has no marked event. -/
theorem LogInv.marks_eq_zero (inv : LogInv db)
    (hrun : run ∈ db.runs.rows) (hopen : run.state.terminal = false) : db.marks run.id = 0 := by
  unfold Database.marks
  rw [List.countP_eq_zero]
  intro row hrow hmark
  simp only [Bool.and_eq_true, beq_iff_eq] at hmark
  obtain ⟨run', hrun', hid, hterm⟩ := inv.ended row hrow hmark.2
  have heq := db.runs.eq_of_key_eq hrun' hrun (hid.trans hmark.1)
  rw [heq, hopen] at hterm
  cases hterm

theorem LogInv.agent (inv : LogInv db) {op : Op} {now : Int}
    (htype : stateForAgentEvent e.type = some state)
    (hwell : (blank e.runID || blank e.executionToken
      || e.sequence == 0 || e.usage.any (!·.valid)) = false)
    (hrun : db.runs.find? e.runID = some run) (htoken : run.token = e.executionToken)
    (hnext : e.sequence = e.expectedSequence db)
    (hdb : apply db op = (e.dated now).commit db run.state state) : LogInv (apply db op) := by
  simp only [Bool.or_eq_false_iff, beq_eq_false_iff_ne] at hwell
  obtain ⟨⟨⟨hid, hblank⟩, hseq⟩, husage⟩ := hwell
  have hevents : (apply db op).events = db.events ++ [(e.dated now).row db run.state state] := by
    rw [hdb, commit_events]
  have hafter : (e.dated now).record state run ∈ (apply db op).runs.rows := by
    rw [hdb]
    exact mem_commit_runs (e := e.dated now) hrun run.state state
  obtain ⟨hmem, hkey⟩ := db.runs.find?_eq_some.mp hrun
  constructor
  · intro runID token
    obtain ⟨n, hn⟩ := inv.numbered runID token
    unfold Database.execution at hn ⊢
    rw [hevents, List.filter_append]
    by_cases hexec : e.runID = runID ∧ e.executionToken = token
    · -- the row goes to the end of its execution
      obtain ⟨rfl, rfl⟩ := hexec
      refine ⟨n + 1, ?_⟩
      rw [e.expectedSequence_eq hn] at hnext
      rw [List.map_append, hn, List.range'_concat]
      simp [AgentRunEvent.row, AgentRunEvent.dated, hnext, Nat.add_comm]
    · refine ⟨n, ?_⟩
      rw [← hn]
      congr 1
      rw [List.append_right_eq_self, List.filter_eq_nil_iff]
      intro row hrow hsame
      obtain rfl := List.mem_singleton.mp hrow
      simp only [AgentRunEvent.row, AgentRunEvent.dated, Bool.and_eq_true,
        beq_iff_eq, Option.some.injEq] at hsame
      exact hexec hsame
  · intro row hrow
    rw [hevents] at hrow
    rcases List.mem_append.mp hrow with hold | hnew
    · exact (inv.origin row hold).imp_right fun hg => hg.step op
    obtain rfl := List.mem_singleton.mp hnew
    refine Or.inr ⟨⟨e.sequence, rfl, hseq⟩, ⟨e.type, rfl, by rw [htype]; rfl⟩, hid, husage,
      ⟨e.executionToken, rfl, hblank, _, hafter, hkey, TaskRun.executionToken_eq htoken hblank, ?_⟩⟩
    show state ≠ .queued
    rcases stateForAgentEvent_cases htype with h | h
    · rw [h]; decide
    · intro hq; rw [hq] at h; cases h
  · intro row hrow hmark
    rw [hevents] at hrow
    rcases List.mem_append.mp hrow with hold | hnew
    · obtain ⟨run', hrun', hid', hterm⟩ := inv.ended row hold hmark
      obtain ⟨run'', hrun'', hid'', hstate, -⟩ :=
        (apply_effect db op).terminal hrun' hterm
      exact ⟨run'', hrun'', hid''.trans hid', hstate ▸ hterm⟩
    · obtain rfl := List.mem_singleton.mp hnew
      exact ⟨_, hafter, hkey, (AgentRunEvent.row_marked hmark).2⟩
  · intro runID
    have hold := inv.once runID
    unfold Database.marks at hold ⊢
    rw [hevents, List.countP_append, List.countP_singleton]
    split
    · next hmark =>
      simp only [Bool.and_eq_true, beq_iff_eq] at hmark
      have hnone := inv.marks_eq_zero hmem (AgentRunEvent.row_marked hmark.2).1
      have hsame : run.id = runID := hkey.trans hmark.1
      rw [hsame] at hnone
      unfold Database.marks at hnone
      omega
    · omega

theorem LogInv.step (inv : LogInv db) (op : Op) : LogInv (apply db op) := by
  cases apply_logged db op with
  | notes h => exact inv.notes h
  | agent now e state run hop htype hwell hrun htoken hnext hvalid hdb =>
    exact inv.agent htype hwell hrun htoken hnext hdb

end Steps

/-- The invariant holds in every database the platform reaches. -/
theorem logInv_run (ops : List Op) : LogInv (runOps .empty ops) :=
  Transition.run_invariant (fun _ op inv => inv.step op) logInv_empty ops

-- ======== deliveries

section Deliveries

variable {db : Database} (inv : LogInv db) {e : AgentRunEvent}
  {row : RunEvent}
include inv

/-- The run and the row a stored event is met with. -/
theorem LogInv.genuine (h : row ∈ db.execution e.runID e.executionToken) :
    Genuine db row ∧ ∃ run, db.runs.find? e.runID = some run ∧ run.token = e.executionToken := by
  obtain ⟨hrow, hexec⟩ := List.mem_filter.mp h
  simp only [Bool.and_eq_true, beq_iff_eq] at hexec
  rcases inv.origin row hrow with hsys | hg
  · rw [hsys.token] at hexec
    cases hexec.2
  refine ⟨hg, ?_⟩
  obtain ⟨token, htoken, -, run, hrun, hid, hsame, -⟩ := hg.run
  rw [hexec.2] at htoken
  cases htoken
  refine ⟨run, db.runs.find?_eq_some.mpr ⟨hrun, hid.trans hexec.1⟩, ?_⟩
  rw [TaskRun.token, hsame, Option.getD_some]

variable (h : row ∈ db.execution e.runID e.executionToken)
  (hnum : row.agentSequence = some e.sequence)

include h hnum

/-- What `ApplyRunEvent` answers under a stored number. -/
theorem LogInv.applyRunEvent_stored (state : RunState) : applyRunEvent e state db
      = if e.agrees row then .ok (false, db)
        else .error .runEventConflict := by
  obtain ⟨-, run, hrun, htoken⟩ := inv.genuine h
  unfold applyRunEvent
  simp [hrun, htoken, inv.stored_eq h hnum]

/-- A stored event delivered again is acknowledged, and nothing is
written. -/
theorem LogInv.replay (hsame : e.agrees row = true) (now : Int) :
    eventServiceApply now e db = .ok (false, db) := by
  obtain ⟨hg, -⟩ := inv.genuine h
  obtain ⟨-, hexec⟩ := List.mem_filter.mp h
  simp only [Bool.and_eq_true, beq_iff_eq] at hexec
  obtain ⟨n, hn, hzero⟩ := hg.number
  obtain ⟨type, htype, hstate⟩ := hg.type
  obtain ⟨token, htoken, hblank, -⟩ := hg.run
  rw [hexec.2] at htoken
  cases htoken
  rw [hnum] at hn
  cases hn
  have hagrees := hsame
  unfold AgentRunEvent.agrees at hsame
  simp only [Bool.and_eq_true, beq_iff_eq] at hsame
  obtain ⟨⟨⟨htext, -⟩, -⟩, husage⟩ := hsame
  obtain rfl : e.type = type := (String.append_right_inj _).mp (htext.symm.trans htype)
  obtain ⟨state, hstate⟩ := Option.isSome_iff_exists.mp hstate
  -- every check in front of the store passed the first time
  have hwell : (blank e.runID || blank e.executionToken
      || e.sequence == 0 || e.usage.any (!·.valid)) = false := by
    rw [← husage, ← hexec.1, hg.named, hblank, hg.usage]
    simp [hzero]
  unfold eventServiceApply
  rw [hstate]
  simp only [hwell, Bool.false_eq_true, if_false]
  have happly := inv.applyRunEvent_stored (e := e.dated now) h hnum state
  rw [happly]
  exact if_pos hagrees

/-- Anything else under a stored number is refused. -/
theorem LogInv.conflict (hother : e.agrees row = false) (now : Int) :
    ∃ err, eventServiceApply now e db = .error err := by
  unfold eventServiceApply
  split
  · exact ⟨_, rfl⟩
  next state _ =>
  split
  · exact ⟨_, rfl⟩
  · refine ⟨.runEventConflict, ?_⟩
    rw [inv.applyRunEvent_stored (e := e.dated now) h hnum state]
    exact if_neg (Bool.not_eq_true _ ▸ hother)

end Deliveries

/-- A number that is neither stored nor the next one is refused, in any
database. -/
theorem eventServiceApply_skipped {db : Database} {e : AgentRunEvent} (hnew : e.stored db = none)
    (hskip : e.sequence ≠ e.expectedSequence db) (now : Int) :
    ∃ err, eventServiceApply now e db = .error err := by
  unfold eventServiceApply
  split
  · exact ⟨_, rfl⟩
  split
  · exact ⟨_, rfl⟩
  have hnew' : (e.dated now).stored db = none := hnew
  have hskip' : (e.dated now).sequence ≠ (e.dated now).expectedSequence db := hskip
  unfold applyRunEvent
  rw [hnew']
  split
  · exact ⟨_, rfl⟩
  · split
    · exact ⟨_, rfl⟩
    · exact ⟨.runEventSequence, rfl⟩

/-- Agent events are applied exactly once and without gaps. In every
database the platform reaches, whatever agents sent: the numbers stored
for an execution are `1..n`; a stored event delivered again with the same
type, exit code, message and usage is acknowledged and changes no table;
one that differs, and one that skips a number, is refused and changes no
table; and at most one event of a run carries the mark of an automatic
retry. -/
theorem agent_events_exactly_once (ops : List Op) : (∀ runID token, ∃ n,
      ((runOps .empty ops).execution runID token).map (·.agentSequence)
        = (List.range' 1 n).map some) ∧ (∀ (now : Int) (e : AgentRunEvent),
      ∀ row ∈ (runOps .empty ops).execution e.runID e.executionToken,
        row.agentSequence = some e.sequence → e.agrees row = true →
        eventServiceApply now e (runOps .empty ops) = .ok (false, runOps .empty ops)
          ∧ apply (runOps .empty ops) (.runEvent now e) = runOps .empty ops)
    ∧ (∀ (now : Int) (e : AgentRunEvent),
      (∃ row ∈ (runOps .empty ops).execution e.runID e.executionToken,
          row.agentSequence = some e.sequence ∧ e.agrees row = false)
        ∨ (e.stored (runOps .empty ops) = none
          ∧ e.sequence ≠ e.expectedSequence (runOps .empty ops)) →
        (∃ err, eventServiceApply now e (runOps .empty ops) = .error err)
          ∧ apply (runOps .empty ops) (.runEvent now e) = runOps .empty ops)
    ∧ ∀ runID, (runOps .empty ops).marks runID ≤ 1 := by
  have inv := logInv_run ops
  refine ⟨inv.numbered, ?_, ?_, inv.once⟩
  · intro now e row hrow hnum hsame
    have hreplay := inv.replay hrow hnum hsame now
    refine ⟨hreplay, ?_⟩
    show settle _ (eventServiceApply now e _) = _
    rw [hreplay]
    rfl
  · intro now e hrefused
    have herr : ∃ err, eventServiceApply now e (runOps .empty ops) = .error err := by
      rcases hrefused with ⟨row, hrow, hnum, hother⟩ | ⟨hnew, hskip⟩
      · exact inv.conflict hrow hnum hother now
      · exact eventServiceApply_skipped hnew hskip now
    refine ⟨herr, ?_⟩
    obtain ⟨err, herr⟩ := herr
    show settle _ (eventServiceApply now e _) = _
    rw [herr]
    rfl

/-- Every event is the platform's own, or one an agent sent for a run it
was given, under that run's token; and a run is marked for an automatic
retry only when it is over. -/
theorem event_log_genuine (ops : List Op) :
    (∀ row ∈ (runOps .empty ops).events, row.System ∨ Genuine (runOps .empty ops) row)
      ∧ ∀ row ∈ (runOps .empty ops).events, row.marked = true →
        ∃ run ∈ (runOps .empty ops).runs.rows, run.id = row.taskRunId
          ∧ run.state.terminal = true :=
  ⟨(logInv_run ops).origin, (logInv_run ops).ended⟩

end Yunling
