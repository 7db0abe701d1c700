/-
The outcome of a run: its terminal state, when it finished and with
which exit code.

No operation removes a run, its states form a path from the queue, and
there is no way on from a terminal one (`run_life_cycle`). So the state
is final. The other two columns are not. The transition
table accepts an event that reports the state the run is already in, and
an accepted terminal event writes `finished_at` and `exit_code` anew,
unlike `started_at`, which keeps its first value. So an outcome is kept
along every run without such a repeated end (`outcome_kept`), and is
rewritten by one (`outcome_rewritten`): the dispatcher fails a run whose
agent had started it already, and the agent's own failure comes second.
-/
import Yunling.Platform.Effects

namespace Yunling

open Relational Scheduler

-- ======== vocabulary

/-- What a finished run is remembered by. -/
def TaskRun.outcome (r : TaskRun) : RunState × Option Int × Option Int :=
  (r.state, r.finishedAt, r.exitCode)

/-- The operation is a new event, next in its execution, that reports
once more the end its run already has. -/
def repeatsEnd (db : Database) : Op → Bool
  | .runEvent _ e =>
    (db.runs.find? e.runID).any (fun r => r.state.terminal && r.token == e.executionToken
      && stateForAgentEvent e.type == some r.state)
      && (e.stored db).isNone && e.sequence == e.expectedSequence db
  | _ => false

-- ======== one row

/-- A terminal row is not active, nor unknown. -/
theorem RunState.terminal_not_open {s : RunState}
    (h : s.terminal = true) : s.active = false ∧ s ≠ .unknown := by
  cases s <;> simp_all [RunState.terminal, RunState.active]

theorem TaskRun.not_openOn_of_terminal {r : TaskRun} {serverID : String}
    (h : r.state.terminal = true) : r.openOn serverID = false := by
  obtain ⟨hactive, hunknown⟩ := RunState.terminal_not_open h
  simp [TaskRun.openOn, hactive, hunknown]

/-- What an operation can do to a finished run: nothing, unless it
repeats the end. -/
theorem Change.terminal {op : Op} {db : Database} {r r' : TaskRun} {released : Bool}
    (h : Change op db r r' released) (hr : r ∈ db.runs.rows) (hterm : r.state.terminal = true) :
    r'.state = r.state ∧ (repeatsEnd db op = false → r'.outcome = r.outcome) := by
  have hne : r.state ≠ .queued := by
    intro hq
    rw [hq] at hterm
    cases hterm
  cases h with
  | keep | note | absent | retry => exact ⟨rfl, fun _ => rfl⟩
  | expire at_ hq | cancel at_ hq | disable at_ hq => exact absurd hq hne
  | event now e state hop htype hid htoken hnew hnext hvalid =>
    obtain ⟨hactive, hunknown⟩ := RunState.terminal_not_open hterm
    rcases validAgentTransition_cases hvalid with heq | ⟨hfrom, -⟩
    · refine ⟨heq.symm, fun hrep => ?_⟩
      -- the event is a repeated end
      have hfind : db.runs.find? e.runID = some r := db.runs.find?_eq_some.mpr ⟨hr, hid⟩
      rw [hop, repeatsEnd, hfind, hnew, hnext, htype, ← heq] at hrep
      simp [hterm, htoken] at hrep
    · rcases hfrom with h | h
      · rw [hactive] at h; cases h
      · exact absurd h hunknown
  | lose serverID at_ hop active =>
    have := (RunState.terminal_not_open hterm).1
    simp [TaskRun.activeOn, this] at active
  | resume report at_ hop onServer confirmed
  | vanish report at_ hop onServer authoritative unconfirmed alive =>
    rw [TaskRun.not_openOn_of_terminal hterm] at onServer
    cases onServer

-- ======== one step

/-- A finished run after an operation: the same run, the same state, and
the same outcome unless the operation repeats its end. -/
theorem Effect.terminal {op : Op} {db db' : Database}
    (h : Effect op db db') {r : TaskRun} (hr : r ∈ db.runs.rows) (hterm : r.state.terminal = true) :
    ∃ r' ∈ db'.runs.rows, r'.id = r.id ∧ r'.state = r.state
      ∧ (repeatsEnd db op = false → r'.outcome = r.outcome) := by
  have hq : r.state ≠ .queued := by
    intro hq
    rw [hq] at hterm
    cases hterm
  obtain ⟨r', hr', _, hc⟩ := h.changed hr hq
  exact ⟨r', hr', hc.sameRun.id, hc.terminal hr hterm⟩

-- ======== the runs

/-- A finished run keeps its outcome, along every run of the platform
that does not repeat an end. -/
theorem outcome_kept (db : Database) (ops : List Op)
    (once : Transition.Guarded apply (fun db op => repeatsEnd db op = false) db ops) (r : TaskRun)
    (hr : r ∈ db.runs.rows) (hterm : r.state.terminal = true) :
    ∃ r' ∈ (runOps db ops).runs.rows, r'.id = r.id ∧ r'.outcome = r.outcome := by
  refine Transition.Guarded.invariant (I := fun db : Database =>
    ∃ r' ∈ db.runs.rows, r'.id = r.id ∧ r'.outcome = r.outcome) ?_
    ⟨r, hr, rfl, rfl⟩ once
  intro db op ⟨s, hs, hid, hout⟩ hguard
  have hstate : s.state = r.state := congrArg Prod.fst hout
  obtain ⟨s', hs', hid', -, hout'⟩ := (apply_effect db op).terminal hs (hstate ▸ hterm)
  exact ⟨s', hs', hid'.trans hid, (hout' hguard).trans hout⟩

/-- A run the dispatcher has failed although its agent started it. -/
def failedByDispatch : List Op :=
  Sample.setup [Sample.definition "task" 1] ++ Sample.start "task" "run" "token" 5
    ++ [.runEvent 10 (DispatchRun.failure
      ⟨"run", "token", "server", some .drifted, false, false, false⟩
      "任务启动前脚本尚未校验就绪，已阻止执行" 10)]

/-- The agent's own report: the start it could not deliver before, which
is now a conflict, and its failure as event number 2. -/
def lateReport : List Op :=
  [.runEvent 20 (Sample.event "run" "token" 1 "started" 8),
    .runEvent 20 (Sample.event "run" "token" 2 "failed" 20)]

/-- A late success is refused: the outcome stays. -/
theorem outcome_kept_late_success : ∃ r' ∈ (runOps (runOps .empty failedByDispatch)
        [.runEvent 20 (Sample.event "run" "token" 2 "succeeded" 20)] ).runs.rows,
      r'.id = "run" ∧ r'.outcome = (.failed, some 10, some (-1)) := by
  have hrow : ((runOps .empty failedByDispatch).runs.find? "run").map
      (·.outcome) = some (.failed, some 10, some (-1)) := by decide
  obtain ⟨r, hfind, hout⟩ := Option.map_eq_some_iff.mp hrow
  obtain ⟨hr, hid⟩ := Table.find?_eq_some _ |>.mp hfind
  have hstate : r.state = .failed := congrArg Prod.fst hout
  obtain ⟨r', hr', hid', hout'⟩ := outcome_kept (runOps .empty failedByDispatch)
    [.runEvent 20 (Sample.event "run" "token" 2 "succeeded" 20)]
    (by decide) r hr (by rw [hstate]; rfl)
  exact ⟨r', hr', hid'.trans hid, hout'.trans hout⟩

/-- A repeated end rewrites the outcome: the run finished at 10 with -1,
and later it finished at 20 with 0. -/
theorem outcome_rewritten : ∃ (ops later : List Op) (runID : String)
    (before after : RunState × Option Int × Option Int),
    ((runOps .empty ops).runs.find? runID).map (·.outcome) = some before ∧ before.1.terminal = true
      ∧ ((runOps .empty (ops ++ later)).runs.find? runID).map (·.outcome) = some after
      ∧ before ≠ after := ⟨failedByDispatch, lateReport, "run", (.failed, some 10, some (-1)),
    (.failed, some 20, some 0), by decide, by decide, by decide, by decide⟩

-- ======== the life of a run

/-- The states a run can go to from each. -/
def RunState.next : RunState → List RunState
  | .queued => [.assigned, .cancelled, .expired]
  | .assigned | .syncing | .running | .unknown =>
    [.running, .unknown, .succeeded, .failed, .timedOut, .cancelled]
  | _ => []

/-- A path of such steps. -/
def RunState.Onward : RunState → RunState → Prop :=
  Relation.ReflTransGen fun s s' => s' ∈ s.next

theorem Change.onward {op : Op} {db : Database} {r r' : TaskRun} {released : Bool}
    (h : Change op db r r' released) : r.state.Onward r'.state := by
  cases h with
  | keep | note | absent | retry => exact .refl
  | expire at_ hq | cancel at_ hq | disable at_ hq =>
    rw [hq]
    exact .single (by simp [RunState.next, TaskRun.expire, TaskRun.cancelQueued,
      TaskRun.cancelWithDefinition])
  | event now e state hop htype hid htoken hnew hnext hvalid =>
    by_cases heq : state = r.state
    · exact heq ▸ .refl
    refine .single ?_
    show state ∈ r.state.next
    unfold stateForAgentEvent at htype
    repeat' split at htype
    all_goals cases htype <;> revert hvalid heq <;> cases r.state <;> decide
  | lose serverID at_ hop active =>
    have hactive := (Bool.and_eq_true_iff.mp active).2
    refine .single ?_
    show RunState.unknown ∈ r.state.next
    revert hactive
    cases r.state <;> decide
  | resume report at_ hop onServer | vanish report at_ hop onServer =>
    have hopen := (Bool.and_eq_true_iff.mp onServer).2
    refine .single ?_
    simp only [TaskRun.resume, TaskRun.vanish]
    revert hopen
    cases r.state <;> decide

/-- No run is removed or made another one. Each goes on from where it
was, and the new ones begin in the queue. -/
def Database.GoesOn (db db' : Database) : Prop :=
  ∃ f new, db'.runs.rows = db.runs.rows.map f ++ new
    ∧ (∀ r ∈ db.runs.rows, SameRun r (f r) ∧ r.state.Onward (f r).state)
    ∧ ∀ r ∈ new, RunState.Onward .queued r.state

theorem Database.GoesOn.trans {db₁ db₂ db₃ : Database} (h : db₁.GoesOn db₂)
    (h' : db₂.GoesOn db₃) : db₁.GoesOn db₃ := by
  obtain ⟨f, new, hrows, hold, hnew⟩ := h
  obtain ⟨g, new', hrows', hold', hnew'⟩ := h'
  rw [hrows] at hrows' hold'
  refine ⟨g ∘ f, new.map g ++ new', by simp [hrows'], fun r hr => ?_, fun r hr => ?_⟩
  · obtain ⟨hsame, hpath⟩ := hold' (f r) (List.mem_append_left _ (List.mem_map_of_mem hr))
    exact ⟨(hold r hr).1.trans hsame, (hold r hr).2.trans hpath⟩
  · rcases List.mem_append.mp hr with hr | hr
    · obtain ⟨s, hs, rfl⟩ := List.mem_map.mp hr
      exact (hnew s hs).trans (hold' s (List.mem_append_right _ hs)).2
    · exact hnew' r hr

theorem Effect.goesOn {op : Op} {db db' : Database} (h : Effect op db db') : db.GoesOn db' := by
  cases h with
  | rewrite f released runs change =>
    exact ⟨f, [], by rw [runs, List.append_nil],
      fun r hr => ⟨(change r hr).sameRun, (change r hr).onward⟩, by simp⟩
  | assigned a run hop h =>
    refine ⟨_, [], by rw [h.runs, List.append_nil],
      fun r hr => ⟨sameRun_assignTo _ a r, ?_⟩, by simp⟩
    unfold Table.amend
    split
    · next hid =>
      have hrun := db.runs.eq_of_key_eq hr h.mem ((beq_iff_eq.mp hid).trans h.id_eq.symm)
      rw [hrun, h.queued]
      exact .single List.mem_cons_self
    · exact .refl
  | triggered d _ versionID type trigger parameters now fresh runs
  | retried run _ at_ automatic hop hrun retryable last fresh runs =>
    refine ⟨id, [_], by rw [runs, List.map_id], fun r _ => ⟨.refl r, .refl⟩, fun r hr => ?_⟩
    rw [List.mem_singleton.mp hr]
    exact .refl

/-- Runs live on along every run of the platform. -/
theorem run_life_cycle (db : Database) (ops : List Op) : db.GoesOn (runOps db ops) :=
  Transition.run_invariant (fun _ op h => h.trans (apply_effect _ op).goesOn)
    ⟨id, [], by simp, fun r _ => ⟨.refl r, .refl⟩, by simp⟩ ops

-- ======== execution tokens

theorem RunState.Onward.from_queued {s : RunState} (h : s.Onward .queued) : s = .queued := by
  rcases Relation.ReflTransGen.cases_tail h with heq | ⟨t, -, hnext⟩
  · exact heq.symm
  · exfalso
    revert hnext
    cases t <;> decide

/-- A run has no token in the queue, and no two runs have one in common. -/
structure Database.TokensApart (db : Database) : Prop where
  queued : ∀ r ∈ db.runs.rows, r.state = .queued → r.executionToken = none
  distinct : (db.runs.rows.filterMap TaskRun.executionToken).Nodup

theorem Effect.tokensApart {op : Op} {db db' : Database} (h : Effect op db db')
    (inv : db.TokensApart) : db'.TokensApart := by
  cases h with
  | rewrite f released runs change =>
    have hkept : ∀ r ∈ db.runs.rows, (TaskRun.executionToken ∘ f) r = r.executionToken :=
      fun r hr => (change r hr).assignment_eq.2.2
    constructor
    · rw [runs, List.forall_mem_map]
      intro r hr hqueued
      have honward := (change r hr).onward
      rw [hqueued] at honward
      exact (hkept r hr).trans (inv.queued r hr honward.from_queued)
    · rw [runs, List.filterMap_map, List.filterMap_congr hkept]
      exact inv.distinct
  | assigned a run hop h =>
    constructor
    · intro r hr hqueued
      rcases h.mem_runs.mp hr with rfl | ⟨hr, -⟩
      · cases hqueued
      · exact inv.queued r hr hqueued
    · have hdistinct := inv.distinct
      rw [h.runs, List.filterMap_map]
      unfold List.Nodup at hdistinct ⊢
      rw [List.pairwise_filterMap] at hdistinct ⊢
      refine (hdistinct.and (List.pairwise_map.mp db.runs.nodup)).imp_of_mem ?_
      rintro r r' hr hr' ⟨hne, hid⟩ t ht t' ht' rfl
      simp only [Function.comp, Table.amend, beq_iff_eq] at ht ht'
      -- the token is new, and only one of two runs gets it
      split at ht <;> split at ht'
      · exact hid (‹r.id = _›.trans ‹r'.id = _›.symm)
      · exact h.token r' hr' (ht'.trans ht.symm)
      · exact h.token r hr (ht.trans ht'.symm)
      · exact hne t ht t ht' rfl
  | triggered d id versionID type trigger parameters now fresh runs
  | retried run id at_ automatic hop hrun retryable last fresh runs =>
    constructor
    · rw [runs, List.forall_mem_append, List.forall_mem_singleton]
      exact ⟨inv.queued, fun _ => rfl⟩
    · rw [runs, List.filterMap_append]
      simpa [Definition.newRun, TaskRun.nextAttempt] using inv.distinct

/-- A run keeps the token it has. -/
theorem Effect.token_kept {op : Op} {db db' : Database} {r : TaskRun} {token : String}
    (h : Effect op db db') (inv : db.TokensApart) (hr : r ∈ db.runs.rows)
    (htoken : r.executionToken = some token) :
    ∃ r' ∈ db'.runs.rows, r'.id = r.id ∧ r'.executionToken = some token := by
  cases h with
  | rewrite f released runs change =>
    exact ⟨f r, runs ▸ List.mem_map_of_mem hr, (change r hr).sameRun.id,
      (change r hr).assignment_eq.2.2.trans htoken⟩
  | assigned a run hop h =>
    refine ⟨r, h.mem_runs.mpr (Or.inr ⟨hr, fun hid => ?_⟩), rfl, htoken⟩
    have hrun := db.runs.eq_of_key_eq hr h.mem (hid.trans h.id_eq.symm)
    rw [hrun, inv.queued run h.mem h.queued] at htoken
    cases htoken
  | triggered d id versionID type trigger parameters now fresh runs
  | retried run id at_ automatic hop hrun retryable last fresh runs =>
    exact ⟨r, runs ▸ List.mem_append_left _ hr, rfl, htoken⟩

/-- A run that an operation adds has no token yet. -/
theorem Effect.new_untokened {op : Op} {db db' : Database} {r' : TaskRun} (h : Effect op db db')
    (hr' : r' ∈ db'.runs.rows) (hnew : ∀ r ∈ db.runs.rows, r.id ≠ r'.id) :
    r'.executionToken = none := by
  cases h with
  | rewrite f released runs change =>
    obtain ⟨r, hr, rfl⟩ := List.mem_map.mp (runs ▸ hr')
    exact absurd (change r hr).sameRun.id.symm (hnew r hr)
  | assigned a run hop h =>
    rcases h.mem_runs.mp hr' with rfl | ⟨hr, -⟩
    · exact absurd rfl (hnew run h.mem)
    · exact absurd rfl (hnew r' hr)
  | triggered d id versionID type trigger parameters now fresh runs
  | retried run id at_ automatic hop hrun retryable last fresh runs =>
    rcases List.mem_append.mp (runs ▸ hr') with hr | hr
    · exact absurd rfl (hnew r' hr)
    · rw [List.mem_singleton.mp hr]
      rfl

/-- In every database the platform can reach, no two runs have an
execution token in common. A run keeps the token it has, so no operation
moves one to another run, and a run that an operation adds has none. -/
theorem execution_tokens_distinct (ops : List Op) :
    ((runOps .empty ops).runs.rows.filterMap TaskRun.executionToken).Nodup
      ∧ (∀ r ∈ (runOps .empty ops).runs.rows, ∀ token, r.executionToken = some token →
          ∀ later, ∃ r' ∈ (runOps (runOps .empty ops) later).runs.rows,
            r'.id = r.id ∧ r'.executionToken = some token)
      ∧ ∀ op, ∀ r' ∈ (apply (runOps .empty ops) op).runs.rows,
          (∀ r ∈ (runOps .empty ops).runs.rows, r.id ≠ r'.id) → r'.executionToken = none := by
  have hinv : (runOps .empty ops).TokensApart := Transition.run_invariant
    (fun _ op inv => (apply_effect _ op).tokensApart inv)
    ⟨by simp [Database.empty], by simp [Database.empty]⟩ ops
  refine ⟨hinv.distinct, fun r hr token htoken later => ?_,
    fun op r' hr' hnew => (apply_effect _ op).new_untokened hr' hnew⟩
  have hboth := Transition.run_invariant (I := fun db : Database => db.TokensApart
      ∧ ∃ r' ∈ db.runs.rows, r'.id = r.id ∧ r'.executionToken = some token)
    (fun db op => by
      rintro ⟨inv, s, hs, hid, hs'⟩
      obtain ⟨s', hmem, hid', htoken'⟩ := (apply_effect db op).token_kept inv hs hs'
      exact ⟨(apply_effect db op).tokensApart inv, s', hmem, hid'.trans hid, htoken'⟩)
    ⟨hinv, r, hr, rfl, htoken⟩ later
  exact hboth.2

end Yunling
