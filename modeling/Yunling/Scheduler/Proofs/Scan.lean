/-
Which waiting runs a scan attempts.

`Scan` counts the runs in the queue and pops that many times. A run that
cannot be placed goes back into the same queue, with the priority and the
queue time it had; it is then the first one again
(`Queue.pop_push_popped`), and takes the turn of another run. So a scan
calls `ScheduleOne` once for every waiting run exactly when none of its
calls but the last finds a run that has to wait
(`scan_attempts_each_once_iff`). A run of high priority that no server
can take starves the others (`scan_starves`).
-/
import Yunling.Scheduler.Proofs.ScheduleOne

namespace Yunling

open Relational OrderBy Scheduler

-- ======== the condition

section Scan

variable (env : Env)

/-- No call of the loop but the last finds a run that has to wait. -/
def Unblocked : Nat → World → Prop
  | 0, _ => True
  | 1, _ => True
  | count + 2, w =>
    match w.queue.pop with
    | none => True
    | some (run, queue) =>
      w.blocked env run.id = false ∧ Unblocked (count + 1) (attempt env run queue w).2

end Scan

-- ======== queue

namespace Queue

variable {q : Queue} {run other : Run}

theorem mem_push (hrun : run.id ≠ "") :
    other ∈ (q.push run).items.rows ↔ other = run ∨ other ∈ q.items.rows ∧ other.id ≠ run.id := by
  unfold push
  rw [dif_neg hrun]
  exact Table.mem_upsert

theorem mem_remove {runID : String} :
    other ∈ (q.remove runID).items.rows ↔ other ∈ q.items.rows ∧ other.id ≠ runID := by
  unfold remove
  rw [Table.mem_delete]
  simp

theorem len_remove (h : run ∈ q.items.rows) : (q.remove run.id).len + 1 = q.len :=
  (q.items.perm_cons_delete h).length_eq.symm

theorem remove_remove (q : Queue) (runID : String) :
    (q.remove runID).remove runID = q.remove runID := by
  have hitems : ((q.remove runID).remove runID).items = (q.remove runID).items := by
    apply Table.ext_rows
    show (q.items.rows.filter _).filter _ = q.items.rows.filter _
    simp
  cases hr : (q.remove runID).remove runID
  cases hr' : q.remove runID
  rw [hr, hr'] at hitems
  cases hitems
  rfl

theorem pop_eq_some {q' : Queue} (h : q.pop = some (run, q')) :
    run ∈ q.items.rows ∧ (∀ other ∈ q.items.rows, run.before other) ∧ q' = q.remove run.id := by
  unfold pop at h
  split at h
  · cases h
  · next selected hsel =>
    cases h
    obtain ⟨hmem, hleast⟩ := head?_insertionSort hsel
    exact ⟨hmem, hleast, rfl⟩

theorem pop_isSome (h : run ∈ q.items.rows) : ∃ first q', q.pop = some (first, q') := by
  unfold pop
  cases hsel : (q.items.rows.insertionSort Run.before).head? with
  | none =>
    rw [List.head?_eq_none_iff] at hsel
    have hmem := (List.mem_insertionSort Run.before).mpr h
    rw [hsel] at hmem
    cases hmem
  | some first => exact ⟨first, _, rfl⟩

theorem len_of_pop_none (h : q.pop = none) : q.len = 0 := by
  cases hrows : q.items.rows with
  | nil => simp [len, hrows]
  | cons first rest =>
    have hmem : first ∈ q.items.rows := by
      rw [hrows]
      exact List.mem_cons_self
    obtain ⟨run, q', hpop⟩ := pop_isSome hmem
    rw [h] at hpop
    cases hpop

end Queue

/-- Two runs that come before each other have one id. -/
theorem before_antisymm {a b : Run} (hab : a.before b) (hba : b.before a) : a.id = b.id := by
  rcases hab with hab | ⟨hpri, hab⟩
  · rcases hba with hba | ⟨hpri, -⟩ <;> omega
  rcases hba with hba | ⟨-, hba⟩
  · omega
  rcases hab with hab | ⟨hqueued, hab⟩
  · rcases hba with hba | ⟨hqueued, -⟩ <;> omega
  · rcases hba with hba | ⟨-, hba⟩
    · omega
    · exact le_antisymm hab hba

theorem SameTurn.before {a b c : Run} (h : SameTurn a b) (hac : a.before c) : b.before c := by
  unfold Run.before OrderBy.Lex Asc at hac ⊢
  dsimp only at hac ⊢
  rw [← h.id, ← h.priority, ← h.queuedAt]
  exact hac

/-- A run that goes back with the keys it had is the next one again. -/
theorem Queue.pop_push_popped {q q' : Queue} {run back : Run} (hpop : q.pop = some (run, q'))
    (hsame : SameTurn run back) : ∃ q'', (q'.push back).pop = some (back, q'') := by
  obtain ⟨hmem, hleast, rfl⟩ := Queue.pop_eq_some hpop
  have hnamed : back.id ≠ "" := by
    rw [← hsame.id]
    exact q.named run hmem
  have hin : back ∈ ((q.remove run.id).push back).items.rows :=
    (Queue.mem_push hnamed).mpr (Or.inl rfl)
  obtain ⟨first, q'', hfirst⟩ := Queue.pop_isSome hin
  refine ⟨q'', ?_⟩
  rw [hfirst]
  obtain ⟨hfmem, hfleast, -⟩ := Queue.pop_eq_some hfirst
  rcases (Queue.mem_push hnamed).mp hfmem with rfl | ⟨hfq, hne⟩
  · rfl
  · -- the first one was behind the popped run, and is before it now
    have hbehind := hsame.before (hleast first (Queue.mem_remove.mp hfq).1)
    exact absurd (before_antisymm (hfleast back hin) hbehind) hne

-- ======== calls

section Loop

variable {env : Env} {count : Nat} {q' : Queue} {w w' : World}

/-- One call of the loop. -/
structure Attempted (env : Env) (run back : Run) (q' : Queue) (w w' : World) : Prop where
  /-- what the database has of the run -/
  get : w.db.getRun run.id = some back
  waiting : w.blocked env run.id = true → back.state = .queued
  queue : if w.blocked env run.id then w'.queue = q'.push back
    else w'.queue = q'
  attempted : w'.attempted = w.attempted ++ [run.id]
  db : w.db.Advances w'.db

theorem attempt_ok {run : Run} {outcome : Outcome} (hpop : w.queue.pop = some (run, q'))
    (h : attempt env run q' w = (.ok outcome, w')) : ∃ back, Attempted env run back q' w w' := by
  obtain ⟨back, hget, hwaiting, hdone⟩ := scheduleOne_ok h
  have hget' : w.db.getRun run.id = some back := hget
  have hid : back.id = run.id := by
    obtain ⟨r, hr, hreads⟩ := Database.getRun_eq_some hget'
    exact hreads.id.trans (w.db.runs.find?_eq_some.mp hr).2
  refine ⟨back, hget', hwaiting, ?_, hdone.attempted, hdone.db⟩
  have hqueue : if w.blocked env run.id then w'.queue = q'.push back
      else w'.queue = q' ∨ w'.queue = q'.remove back.id := hdone.queue
  cases hb : w.blocked env run.id with
  | true =>
    rw [hb] at hqueue
    exact hqueue
  | false =>
    rw [hb] at hqueue
    obtain ⟨-, -, rfl⟩ := Queue.pop_eq_some hpop
    -- the popped run is not there to be removed
    rw [hid, Queue.remove_remove, or_self] at hqueue
    exact hqueue

/-- A loop that returns and has something to pop. -/
theorem drain_succ (h : drain env (count + 1) w = (.ok (), w')) :
    (w.queue.pop = none ∧ w' = w) ∨ ∃ run back q' w₁, w.queue.pop = some (run, q')
        ∧ (attempt env run q' w).2 = w₁ ∧ Attempted env run back q' w w₁
        ∧ drain env count w₁ = (.ok (), w') := by
  unfold drain at h
  split at h
  · next hpop => exact Or.inl ⟨hpop, ((Prod.mk.inj h).2).symm⟩
  next run q' hpop =>
  split at h
  · cases h
  · next w₁ hatt =>
    obtain ⟨back, hback⟩ := attempt_ok hpop hatt
    exact Or.inr ⟨run, back, q', w₁, hpop, by rw [hatt], hback, h⟩

theorem drain_attempted : ∀ {w w' : World}, drain env count w = (.ok (), w') → ∀ id,
      w.attempted.count id ≤ w'.attempted.count id := by
  induction count with
  | zero =>
    intro w w' h id
    rw [(Prod.mk.inj h).2]
  | succ count ih =>
    intro w w' h id
    rcases drain_succ h with ⟨-, rfl⟩ | ⟨run, back, q', w₁, -, -, hatt, hrest⟩
    · exact Nat.le_refl _
    · refine Nat.le_trans ?_ (ih hrest id)
      rw [hatt.attempted, List.count_append]
      exact Nat.le_add_right _ _

-- ======== the loop, unblocked

/-- Where no call but the last is blocked, the loop calls `scheduleOne`
for the runs of the queue, each once. -/
theorem drain_unblocked : ∀ {w w' : World}, w.queue.len = count → Unblocked env count w →
      drain env count w = (.ok (), w') → w'.attempted.Perm
        (w.attempted ++ w.queue.items.rows.map (·.id)) := by
  induction count with
  | zero =>
    intro w w' hlen _ h
    rw [← (Prod.mk.inj h).2, List.eq_nil_of_length_eq_zero hlen]
    simp
  | succ count ih =>
    intro w w' hlen hun h
    rcases drain_succ h with ⟨hpop, -⟩ | ⟨run, back, q', w₁, hpop, hw₁, hatt, hrest⟩
    · rw [Queue.len_of_pop_none hpop] at hlen
      cases hlen
    obtain ⟨hmem, -, hq'⟩ := Queue.pop_eq_some hpop
    have hlen' : q'.len = count := by
      have := Queue.len_remove hmem
      rw [← hq'] at this
      omega
    have hids : (w.queue.items.rows.map (·.id)).Perm (run.id :: q'.items.rows.map (·.id)) := by
      rw [hq']
      exact (w.queue.items.perm_cons_delete hmem).map (·.id)
    have hgoal : (w₁.attempted ++ q'.items.rows.map (·.id)).Perm
        (w.attempted ++ w.queue.items.rows.map (·.id)) := by
      rw [hatt.attempted, List.append_assoc]
      exact (hids.symm).append_left _
    refine List.Perm.trans ?_ hgoal
    cases count with
    | zero =>
      -- the last call: nothing is left, whatever it did
      rw [← (Prod.mk.inj hrest).2, List.eq_nil_of_length_eq_zero hlen']
      simp
    | succ count =>
      unfold Unblocked at hun
      rw [hpop] at hun
      obtain ⟨hfree, hun'⟩ := hun
      have hqueue := hatt.queue
      rw [hfree] at hqueue
      rw [← hqueue]
      rw [hw₁] at hun'
      exact ih (hqueue ▸ hlen') hun' hrest

-- ======== the loop, blocked

/-- The queue has the waiting runs in their places. -/
def World.Fresh (w : World) : Prop :=
  ∀ run ∈ w.queue.items.rows, ∀ back, w.db.getRun run.id = some back →
    back.state = .queued → SameTurn run back

/-- An attempt that does not push the run back keeps the entries
fresh. -/
theorem World.Fresh.attempted {run back : Run}
    (hfresh : w.Fresh) (hatt : Attempted env run back q' w w') (hpop : w.queue.pop = some (run, q'))
    (hb : w.blocked env run.id = false) : w'.Fresh := by
  intro e he e' hget hq
  obtain ⟨-, -, hq'⟩ := Queue.pop_eq_some hpop
  have hqueue := hatt.queue
  rw [hb] at hqueue
  rw [hqueue, hq'] at he
  obtain ⟨e₀, hget₀, hq₀, hsame₀⟩ := hatt.db e.id e' hget hq
  have hsame := hfresh e (Queue.mem_remove.mp he).1 e₀ hget₀ hq₀
  exact ⟨hsame.id.trans hsame₀.id, hsame.priority.trans hsame₀.priority,
    hsame.queuedAt.trans hsame₀.queuedAt⟩

/-- A fresh entry that is pushed back is popped again by the next
call. -/
theorem drain_pushed_back {run back : Run} {w w₁ w' : World} (hfresh : w.Fresh)
    (hatt : Attempted env run back q' w w₁) (hpop : w.queue.pop = some (run, q'))
    (hb : w.blocked env run.id = true) (hrest : drain env (count + 1) w₁ = (.ok (), w')) :
    w.attempted.count run.id + 2 ≤ w'.attempted.count run.id := by
  obtain ⟨hmem, -, -⟩ := Queue.pop_eq_some hpop
  have hsame := hfresh run hmem back hatt.get (hatt.waiting hb)
  have hqueue := hatt.queue
  rw [hb] at hqueue
  obtain ⟨q'', hpop'⟩ := Queue.pop_push_popped hpop hsame
  rw [← hqueue] at hpop'
  rcases drain_succ hrest with ⟨hnone, -⟩ | ⟨run', back', q₂, w₂, hpop₂, -, hatt₂, hrest₂⟩
  · rw [hpop'] at hnone
    cases hnone
  rw [hpop'] at hpop₂
  cases hpop₂
  have hmore := drain_attempted hrest₂ run.id
  rw [hatt₂.attempted, hatt.attempted, ← hsame.id, List.count_append,
    List.count_append, List.count_singleton_self] at hmore
  exact hmore

/-- A blocked call that is not the last attempts some waiting run
twice. -/
theorem drain_blocked : ∀ {w w' : World}, w.Fresh → ¬ Unblocked env count w →
      drain env count w = (.ok (), w') → ∃ run, w.db.getRun run.id = some run ∧ run.state = .queued
        ∧ w.attempted.count run.id + 2 ≤ w'.attempted.count run.id := by
  induction count with
  | zero => intro w w' _ hun; exact absurd trivial hun
  | succ count ih =>
    intro w w' hfresh hun h
    cases count with
    | zero => exact absurd trivial hun
    | succ count =>
      rcases drain_succ h with ⟨hpop, -⟩ | ⟨run, back, q', w₁, hpop, hw₁, hatt, hrest⟩
      · unfold Unblocked at hun
        rw [hpop] at hun
        exact absurd trivial hun
      cases hb : w.blocked env run.id with
      | true =>
        have hmem := (Queue.pop_eq_some hpop).1
        have hwaiting := hatt.waiting hb
        have hsame := hfresh run hmem back hatt.get hwaiting
        refine ⟨back, ?_, hwaiting, ?_⟩ <;> rw [← hsame.id]
        · exact hatt.get
        · exact drain_pushed_back hfresh hatt hpop hb hrest
      | false =>
        have hun₁ : ¬ Unblocked env (count + 1) w₁ := by
          intro hun₁
          refine hun ?_
          unfold Unblocked
          rw [hpop]
          exact ⟨hb, by rw [hw₁]; exact hun₁⟩
        have hfresh₁ := hfresh.attempted hatt hpop hb
        obtain ⟨e, hget, hq, hcount⟩ := ih hfresh₁ hun₁ hrest
        obtain ⟨e₀, hget₀, hq₀, hsame₀⟩ := hatt.db e.id e hget hq
        refine ⟨e₀, ?_, hq₀, ?_⟩
        · rw [hsame₀.id]
          exact hget₀
        · rw [hsame₀.id]
          rw [hatt.attempted, List.count_append] at hcount
          omega

end Loop

-- ======== listing

theorem mem_listQueued {db : Database} {run : Run} :
    run ∈ db.listQueued ↔ db.getRun run.id = some run ∧ run.state = .queued := by
  unfold Database.listQueued
  rw [List.mem_insertionSort, List.mem_filterMap]
  constructor
  · intro ⟨r, hr, hsched⟩
    obtain ⟨hmem, hq⟩ := List.mem_filter.mp hr
    have hreads := db.scheduled_reads hsched
    have hfind : db.runs.find? run.id = some r := db.runs.find?_eq_some.mpr ⟨hmem, hreads.id.symm⟩
    unfold Database.getRun
    rw [hfind]
    exact ⟨hsched, hreads.state.trans (by simpa using hq)⟩
  · intro ⟨hget, hq⟩
    obtain ⟨r, hr, hsched⟩ := Option.bind_eq_some_iff.mp hget
    have hreads := db.scheduled_reads hsched
    have hrq : r.state = .queued := hreads.state.symm.trans hq
    exact ⟨r, List.mem_filter.mpr ⟨(db.runs.find?_eq_some.mp hr).1, by simp [hrq]⟩, hsched⟩

/-- A run in the queue after pushing a list is one of the list, or was
there and the list has no run of its id. -/
theorem Queue.of_mem_foldl_push {runs : List Run} : ∀ {q : Queue} {run : Run},
      run ∈ (runs.foldl Queue.push q).items.rows → run ∈ runs ∨ run ∈ q.items.rows
        ∧ ∀ other ∈ runs, other.id ≠ "" → other.id ≠ run.id := by
  induction runs with
  | nil => intro q run h; exact Or.inr ⟨h, by simp⟩
  | cons first runs ih =>
    intro q run h
    rcases ih h with hmem | ⟨hmem, hother⟩
    · exact Or.inl (List.mem_cons_of_mem _ hmem)
    by_cases hnamed : first.id = ""
    · -- a run without an id is not pushed
      have hq : q.push first = q := dif_pos hnamed
      rw [hq] at hmem
      refine Or.inr ⟨hmem, fun other ho hid => ?_⟩
      rcases List.mem_cons.mp ho with rfl | ho
      · exact absurd hnamed hid
      · exact hother other ho hid
    · rcases (Queue.mem_push hnamed).mp hmem with rfl | ⟨hmem, hne⟩
      · exact Or.inl List.mem_cons_self
      · refine Or.inr ⟨hmem, fun other ho hid => ?_⟩
        rcases List.mem_cons.mp ho with rfl | ho
        · exact fun he => hne he.symm
        · exact hother other ho hid

/-- A run that was pushed, or was there, is in the queue under its
id. -/
theorem Queue.foldl_push_mem {runs : List Run} : ∀ {q : Queue} {id : String}, id ≠ "" →
      ((∃ run ∈ runs, run.id = id) ∨ ∃ run ∈ q.items.rows, run.id = id) →
      ∃ run ∈ (runs.foldl Queue.push q).items.rows, run.id = id := by
  induction runs with
  | nil =>
    intro q id _ h
    rcases h with ⟨run, hmem, -⟩ | h
    · cases hmem
    · exact h
  | cons first runs ih =>
    intro q id hid h
    refine ih hid ?_
    by_cases hfirst : first.id = id
    · have hnamed : first.id ≠ "" := hfirst ▸ hid
      exact Or.inr ⟨first, (Queue.mem_push hnamed).mpr (Or.inl rfl), hfirst⟩
    rcases h with ⟨run, hmem, hrun⟩ | ⟨run, hmem, hrun⟩
    · rcases List.mem_cons.mp hmem with rfl | hmem
      · exact absurd hrun hfirst
      · exact Or.inl ⟨run, hmem, hrun⟩
    · refine Or.inr ⟨run, ?_, hrun⟩
      by_cases hnamed : first.id = ""
      · have hq : q.push first = q := dif_pos hnamed
        rw [hq]
        exact hmem
      · refine (Queue.mem_push hnamed).mpr (Or.inr ⟨hmem, ?_⟩)
        exact fun he => hfirst (he.symm.trans hrun)

/-- Pushing the waiting runs puts each in its place. -/
theorem fresh_listQueued {w : World} {q : Queue}
    (h : w.queue = w.db.listQueued.foldl Queue.push q) : w.Fresh := by
  intro run hrun back hget hq
  have hid : back.id = run.id := by
    obtain ⟨r, hr, hreads⟩ := Database.getRun_eq_some hget
    exact hreads.id.trans (w.db.runs.find?_eq_some.mp hr).2
  have hlisted : back ∈ w.db.listQueued := by
    refine mem_listQueued.mpr ⟨?_, hq⟩
    rw [hid]
    exact hget
  have hnamed := w.queue.named run hrun
  rw [h] at hrun
  rcases Queue.of_mem_foldl_push hrun with hmem | ⟨-, hother⟩
  · rw [(mem_listQueued.mp hmem).1] at hget
    cases hget
    exact ⟨rfl, rfl, rfl⟩
  · exact absurd hid (hother back hlisted (hid ▸ hnamed))

-- ======== the scan

section Scan

variable {env : Env}

theorem retryFailed_attempted {at_ : Int} {runIDs : List String} :
    ∀ {w w' : World} {result : Except ScheduleError Unit},
      retryFailed env at_ runIDs w = (result, w') → w'.attempted = w.attempted := by
  induction runIDs with
  | nil =>
    intro w w' result h
    rw [← (Prod.mk.inj h).2]
  | cons runID rest ih =>
    intro w w' result h
    unfold retryFailed at h
    repeat' split at h
    · have hrest := ih h
      exact hrest
    · rw [← (Prod.mk.inj h).2]
      rfl
    · have hrest := ih h
      exact hrest

theorem prepareScan_ok {w w₁ : World} (h : prepareScan env w = (.ok (), w₁)) :
    w₁.attempted = w.attempted ∧ ∃ q, w₁.queue = w₁.db.listQueued.foldl Queue.push q := by
  unfold prepareScan at h
  split at h
  · cases h
  next w₀ hretry =>
  have hkept := retryFailed_attempted hretry
  dsimp only at h
  split at h
  · cases h
  · obtain ⟨-, rfl⟩ := Prod.mk.inj h
    exact ⟨hkept, w₀.queue, rfl⟩

/-- The world a scan lists the waiting runs in, and drains. -/
def prepared (env : Env) (w : World) : World := (prepareScan env w).2

/-- A scan that returns without an error calls `ScheduleOne` exactly once
for every run it listed, if and only if no call but the last finds a run
that has to wait. (A run without an id is never queued.) -/
theorem scan_attempts_each_once_iff (env : Env) (w w' : World) (h : scan env w = (.ok (), w')) :
    (∀ run ∈ (prepared env w).db.listQueued,
      w'.attempted.count run.id = w.attempted.count run.id + 1)
    ↔ (∀ run ∈ (prepared env w).db.listQueued, run.id ≠ "")
      ∧ Unblocked env (prepared env w).queue.len (prepared env w) := by
  unfold scan at h
  split at h
  · cases h
  next w₁ hprep =>
  have hw₁ : prepared env w = w₁ := by
    unfold prepared
    rw [hprep]
  rw [hw₁]
  obtain ⟨hattempted, q, hqueue⟩ := prepareScan_ok hprep
  -- the count, where the loop went through the queue
  have hcount : Unblocked env w₁.queue.len w₁ → ∀ id, w'.attempted.count id = w.attempted.count id
        + (w₁.queue.items.rows.map (·.id)).count id := by
    intro hun id
    rw [(drain_unblocked rfl hun h).count_eq, List.count_append, hattempted]
  constructor
  · intro honce
    have hun : Unblocked env w₁.queue.len w₁ := by
      by_contra hblocked
      obtain ⟨run, hget, hq, htwice⟩ := drain_blocked (fresh_listQueued hqueue) hblocked h
      have hrun := honce run (mem_listQueued.mpr ⟨hget, hq⟩)
      rw [hattempted] at htwice
      omega
    refine ⟨fun run hrun hempty => ?_, hun⟩
    have hrun' := honce run hrun
    rw [hcount hun, hempty] at hrun'
    have hzero : (w₁.queue.items.rows.map (·.id)).count "" = 0 := by
      rw [List.count_eq_zero]
      intro hmem
      obtain ⟨e, he, hid⟩ := List.mem_map.mp hmem
      exact w₁.queue.named e he hid
    omega
  · intro ⟨hnamed, hun⟩ run hrun
    obtain ⟨e, he, hid⟩ : ∃ e ∈ w₁.queue.items.rows, e.id = run.id := by
      rw [hqueue]
      exact Queue.foldl_push_mem (hnamed run hrun) (Or.inl ⟨run, hrun, rfl⟩)
    have hone : (w₁.queue.items.rows.map (·.id)).count run.id = 1 :=
      List.count_eq_one_of_mem w₁.queue.items.nodup (List.mem_map.mpr ⟨e, he, hid⟩)
    rw [hcount hun, hone]

end Scan

-- ======== samples

theorem unblocked_pop {env : Env} {count : Nat} {w : World} {run : Run}
    {queue : Queue} (hpop : w.queue.pop = some (run, queue)) :
    Unblocked env (count + 2) w ↔ w.blocked env run.id = false
      ∧ Unblocked env (count + 1) (attempt env run queue w).2 := by
  conv_lhs => unfold Unblocked
  rw [hpop]

instance Unblocked.decidable (env : Env) :
    (count : Nat) → (w : World) → Decidable (Unblocked env count w)
  | 0, _ => isTrue trivial
  | 1, _ => isTrue trivial
  | count + 2, w =>
    match hpop : w.queue.pop with
    | none => isTrue (by unfold Unblocked; rw [hpop]; trivial)
    | some (run, queue) =>
      have : Decidable (Unblocked env (count + 1) (attempt env run queue w).2) :=
        Unblocked.decidable env (count + 1) (attempt env run queue w).2
      decidable_of_iff (w.blocked env run.id = false
          ∧ Unblocked env (count + 1) (attempt env run queue w).2) (unblocked_pop hpop).symm

/-- A clock that stands still, and ids that do not repeat. -/
def Sample.env : Env where
  now := fun _ => 5
  dbNow := fun _ => 5
  uuid := fun n => String.ofList (List.replicate (n + 1) 'i')
  fold := id
  raise := fun _ => true

/-- Two waiting runs of different tasks: the first one has the higher
priority and needs so many millicores, the second one fits. -/
def Sample.twoWaiting (cpuMillicores : Int) : World where
  db := runOps .empty (setup [{ definition "first" 1 with
              priority := 90, resources := ⟨cpuMillicores, 100, 100⟩ },
            definition "second" 1]
      ++ [.trigger "first" "run-1" trigger 5, .trigger "second" "run-2" trigger 5,
        -- only asks for the script, which is then installed
        .assign (assignment "run-2" "server" "token" "lease" 5),
        .saveSync "server" "version" .ready (some "digest")])
  redis := .empty
  queue := .empty
  ticks := 0
  attempted := []

/-- Where both fit, both are attempted. -/
theorem scan_attempts_each_once_two :
    (∀ run ∈ (prepared Sample.env (Sample.twoWaiting 100)).db.listQueued,
      (scan Sample.env (Sample.twoWaiting 100)).2.attempted.count run.id
        = (Sample.twoWaiting 100).attempted.count run.id + 1)
    ∧ (scan Sample.env (Sample.twoWaiting 100)).2.attempted = ["run-1", "run-2"] :=
  ⟨(scan_attempts_each_once_iff Sample.env (Sample.twoWaiting 100) _
    (Prod.ext (by decide) rfl)).mpr (by decide), by decide⟩

/-- A run no server can take keeps one that would be assigned from being
attempted at all. -/
theorem scan_starves : ∃ (env : Env) (w w' : World) (run : Run), scan env w = (.ok (), w')
      ∧ run ∈ (prepared env w).db.listQueued ∧ w'.attempted.count run.id = w.attempted.count run.id
      ∧ (scheduleOne env run.id (prepared env w)).1 = .ok .assigned :=
  ⟨Sample.env, Sample.twoWaiting 9000, _,
    ((Sample.twoWaiting 9000).db.getRun "run-2").get (by decide),
    Prod.ext (by decide) rfl, by decide, by decide, by decide⟩

end Yunling
