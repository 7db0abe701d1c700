/-
Retry lineages.

A lineage is a first attempt and every run that retries it, directly or
through a later attempt: `retry_of` always names the root. However
requests, failures and agents interleave, the rows of a lineage carry
the attempts 1, 2, …, n in the order they were created, n never exceeds
the retry budget by more than the first attempt, and a request that
names a run gets the run with the next attempt, always the same one.

# The argument

`retryRun` inserts only when no run of the lineage has a later attempt
than the one named (`Effect.retried`). Under the invariant the named run
then has the last attempt, so the new row extends 1..n to 1..n+1. Every
other operation keeps the columns a lineage is made of (`SameRun`).
-/
import Yunling.Platform.Effects

namespace Yunling

open Relational OrderBy Scheduler

variable {db : Database} {r : TaskRun}

-- ======== vocabulary

/-- The runs of a lineage, oldest first. -/
def Database.lineage (db : Database) (rootID : String) : List TaskRun :=
  db.runs.rows.filter fun r => r.root == rootID

theorem mem_lineage {rootID : String} :
    r ∈ db.lineage rootID ↔ r ∈ db.runs.rows ∧ r.root = rootID := by
  unfold Database.lineage
  rw [List.mem_filter, beq_iff_eq]

/-- The shape of every lineage. -/
structure LineageInv (db : Database) : Prop where
  /-- a retry hangs off a first attempt -/
  rooted : ∀ r ∈ db.runs.rows, ∀ x, r.retryOf = some x →
    ∃ s ∈ db.runs.rows, s.id = x ∧ s.retryOf = none
  /-- a run that retries nothing is a first attempt -/
  first : ∀ r ∈ db.runs.rows, r.retryOf = none → r.attempt = 1
  /-- attempts are numbered as they are created -/
  attempts : ∀ x, (db.lineage x).map (·.attempt) = List.range' 1 (db.lineage x).length
  /-- the budget is a property of the lineage -/
  budget : ∀ r ∈ db.runs.rows, ∀ s ∈ db.runs.rows, r.root = s.root → r.maxRetries = s.maxRetries
  /-- and holds -/
  within : ∀ r ∈ db.runs.rows, r.attempt ≤ r.maxRetries + 1

-- ======== reading a lineage

section Reading

variable {db : Database} (inv : LineageInv db)
include inv

theorem LineageInv.attempt_bounds {r : TaskRun} (hr : r ∈ db.runs.rows) :
    1 ≤ r.attempt ∧ r.attempt ≤ (db.lineage r.root).length := by
  have hmem : r.attempt ∈ (db.lineage r.root).map (·.attempt) :=
    List.mem_map_of_mem (mem_lineage.mpr ⟨hr, rfl⟩)
  rw [inv.attempts r.root, List.mem_range'_1] at hmem
  omega

/-- Every number up to the length of a lineage is some run's attempt. -/
theorem LineageInv.exists_attempt {x : String} {n : Nat} (hpos : 1 ≤ n)
    (hn : n ≤ (db.lineage x).length) : ∃ r ∈ db.runs.rows, r.root = x ∧ r.attempt = n := by
  have hmem : n ∈ (db.lineage x).map (·.attempt) := by
    rw [inv.attempts x, List.mem_range'_1]
    omega
  obtain ⟨r, hr, rfl⟩ := List.mem_map.mp hmem
  obtain ⟨hrows, hroot⟩ := mem_lineage.mp hr
  exact ⟨r, hrows, hroot, rfl⟩

/-- Two runs of a lineage with one attempt are one run. -/
theorem LineageInv.eq_of_attempt_eq {r s : TaskRun} (hr : r ∈ db.runs.rows) (hs : s ∈ db.runs.rows)
    (hroot : r.root = s.root) (h : r.attempt = s.attempt) : r = s := by
  have hnodup : ((db.lineage s.root).map (·.attempt)).Nodup := by
    rw [inv.attempts s.root]
    exact List.nodup_range'
  exact List.inj_on_of_nodup_map hnodup (mem_lineage.mpr ⟨hr, hroot⟩) (mem_lineage.mpr ⟨hs, rfl⟩) h

/-- A later attempt points at the root. -/
theorem LineageInv.retryOf_eq {r : TaskRun} (hr : r ∈ db.runs.rows)
    (h : 1 < r.attempt) : r.retryOf = some r.root := by
  cases hret : r.retryOf with
  | none =>
    have := inv.first r hr hret
    omega
  | some x =>
    unfold TaskRun.root
    rw [hret]
    rfl

/-- A run no other retries is the last of its lineage. -/
theorem LineageInv.attempt_eq_length {run : TaskRun} (hrun : run ∈ db.runs.rows)
    (last : ∀ r ∈ db.runs.rows, r.retryOf = some run.root → r.attempt ≤ run.attempt) :
    run.attempt = (db.lineage run.root).length := by
  obtain ⟨hpos, hle⟩ := inv.attempt_bounds hrun
  obtain ⟨r, hr, hroot, hatt⟩ := inv.exists_attempt (Nat.le_trans hpos hle) (Nat.le_refl _)
  by_cases hone : r.attempt = 1
  · omega
  have hpoint := inv.retryOf_eq hr (by
    omega)
  rw [hroot] at hpoint
  have := last r hr hpoint
  omega

end Reading

-- ======== the steps

section Steps

variable {op : Op} {db db' : Database} (inv : LineageInv db)
include inv

/-- A row-wise change of how far runs have come. -/
theorem LineageInv.rewrite {f : TaskRun → TaskRun} (hsame : ∀ r ∈ db.runs.rows, SameRun r (f r))
    (runs : db'.runs.rows = db.runs.rows.map f) : LineageInv db' := by
  have hlineage : ∀ x, db'.lineage x = (db.lineage x).map f := by
    intro x
    unfold Database.lineage
    rw [runs, List.filter_map]
    congr 1
    refine List.filter_congr fun r hr => ?_
    show ((f r).root == x) = (r.root == x)
    rw [(hsame r hr).root]
  constructor
  · rw [runs]
    intro r' hr' x hx
    obtain ⟨r, hr, rfl⟩ := List.mem_map.mp hr'
    rw [(hsame r hr).retryOf] at hx
    obtain ⟨s, hs, hid, hnone⟩ := inv.rooted r hr x hx
    exact ⟨f s, List.mem_map_of_mem hs, (hsame s hs).id.trans hid, (hsame s hs).retryOf.trans hnone⟩
  · rw [runs]
    intro r' hr' hnone
    obtain ⟨r, hr, rfl⟩ := List.mem_map.mp hr'
    rw [(hsame r hr).attempt]
    exact inv.first r hr ((hsame r hr).retryOf.symm.trans hnone)
  · intro x
    rw [hlineage, List.length_map, List.map_map, ← inv.attempts x]
    refine List.map_congr_left fun r hr => ?_
    exact (hsame r (mem_lineage.mp hr).1).attempt
  · rw [runs]
    intro r' hr' s' hs' hroot
    obtain ⟨r, hr, rfl⟩ := List.mem_map.mp hr'
    obtain ⟨s, hs, rfl⟩ := List.mem_map.mp hs'
    rw [(hsame r hr).root, (hsame s hs).root] at hroot
    rw [(hsame r hr).maxRetries, (hsame s hs).maxRetries]
    exact inv.budget r hr s hs hroot
  · rw [runs]
    intro r' hr'
    obtain ⟨r, hr, rfl⟩ := List.mem_map.mp hr'
    rw [(hsame r hr).attempt, (hsame r hr).maxRetries]
    exact inv.within r hr

/-- No run of the database belongs to the lineage of an unused id. -/
theorem LineageInv.lineage_fresh {id : String}
    (fresh : ∀ r ∈ db.runs.rows, r.id ≠ id) : db.lineage id = [] := by
  rw [List.eq_nil_iff_forall_not_mem]
  intro r hr
  obtain ⟨hrows, hroot⟩ := mem_lineage.mp hr
  unfold TaskRun.root at hroot
  cases hret : r.retryOf with
  | none =>
    rw [hret] at hroot
    exact fresh r hrows hroot
  | some x =>
    rw [hret] at hroot
    obtain ⟨s, hs, hid, -⟩ := inv.rooted r hrows x hret
    exact fresh s hs (hid.trans hroot)

/-- One more run: the next attempt of its lineage. -/
theorem LineageInv.create {r : TaskRun} (runs : db'.runs.rows = db.runs.rows ++ [r])
    (rooted : ∀ x, r.retryOf = some x → ∃ s ∈ db.runs.rows, s.id = x ∧ s.retryOf = none)
    (first : r.retryOf = none → r.attempt = 1) (next : r.attempt = (db.lineage r.root).length + 1)
    (budget : ∀ s ∈ db.runs.rows, s.root = r.root → s.maxRetries = r.maxRetries)
    (within : r.attempt ≤ r.maxRetries + 1) : LineageInv db' := by
  have hcases : ∀ {s}, s ∈ db'.runs.rows → s ∈ db.runs.rows ∨ s = r := by
    intro s hs
    rw [runs] at hs
    rcases List.mem_append.mp hs with hs | hs
    · exact Or.inl hs
    · exact Or.inr (List.mem_singleton.mp hs)
  have hkeep : ∀ {s}, s ∈ db.runs.rows → s ∈ db'.runs.rows := by
    intro s hs
    rw [runs]
    exact List.mem_append_left _ hs
  constructor
  · intro s hs x hx
    obtain ⟨t, ht, hid, hnone⟩ : ∃ t ∈ db.runs.rows, t.id = x ∧ t.retryOf = none := by
      rcases hcases hs with hs | rfl
      · exact inv.rooted s hs x hx
      · exact rooted x hx
    exact ⟨t, hkeep ht, hid, hnone⟩
  · intro s hs hnone
    rcases hcases hs with hs | rfl
    · exact inv.first s hs hnone
    · exact first hnone
  · intro x
    have hl : db'.lineage x = db.lineage x ++ [r].filter fun s => s.root == x := by
      unfold Database.lineage
      rw [runs, List.filter_append]
    by_cases hx : r.root = x
    · subst hx
      have hone : [r].filter (fun s => s.root == r.root) = [r] := by simp
      rw [hl, hone, List.map_append, List.length_append, inv.attempts,
        List.map_singleton, List.length_singleton, next, List.range'_1_concat, Nat.add_comm 1]
    · have hnil : [r].filter (fun s => s.root == x) = [] := by simp [hx]
      rw [hl, hnil, List.append_nil]
      exact inv.attempts x
  · intro s hs t ht hroot
    rcases hcases hs with hs | rfl
    · rcases hcases ht with ht | rfl
      · exact inv.budget s hs t ht hroot
      · exact budget s hs hroot
    · rcases hcases ht with ht | rfl
      · exact (budget t ht hroot.symm).symm
      · rfl
  · intro s hs
    rcases hcases hs with hs | rfl
    · exact inv.within s hs
    · exact within

theorem LineageInv.step : LineageInv (apply db op) := by
  cases apply_effect db op with
  | rewrite f released runs change leases =>
    exact inv.rewrite (fun r hr => (change r hr).sameRun) runs
  | assigned a run hop h =>
    exact inv.rewrite (fun r _ => sameRun_assignTo _ a r) h.runs
  | triggered d id versionID type trigger parameters now fresh runs leases =>
    have hempty := inv.lineage_fresh fresh
    refine inv.create runs ?_ (fun _ => rfl) ?_ ?_ ?_
    · intro x hx
      cases hx
    · show 1 = (db.lineage id).length + 1
      rw [hempty]
      rfl
    · intro s hs hroot
      have hmem : s ∈ db.lineage id := mem_lineage.mpr ⟨hs, hroot⟩
      rw [hempty] at hmem
      cases hmem
    · show 1 ≤ d.maxRetries + 1
      omega
  | retried run id at_ automatic hop hrun retryable last fresh runs leases =>
    have hroot : (run.nextAttempt id at_).root = run.root := rfl
    simp only [TaskRun.retryable, Bool.and_eq_true, decide_eq_true_eq] at retryable
    refine inv.create runs ?_ ?_ ?_ ?_ ?_
    · intro x hx
      cases hx
      unfold TaskRun.root
      cases hret : run.retryOf with
      | none => exact ⟨run, hrun, rfl, hret⟩
      | some y => exact inv.rooted run hrun y hret
    · intro hnone
      cases hnone
    · rw [hroot, ← inv.attempt_eq_length hrun last]
      rfl
    · intro s hs hsroot
      exact inv.budget s hs run hrun hsroot
    · have hbudget : run.attempt ≤ run.maxRetries := retryable.1.2
      show run.attempt + 1 ≤ run.maxRetries + 1
      omega

end Steps

theorem lineageInv_empty : LineageInv Database.empty := by
  constructor
  · intro r hr; cases hr
  · intro r hr; cases hr
  · intro x; rfl
  · intro r hr; cases hr
  · intro r hr; cases hr

/-- The lineage invariant holds in every reachable database. -/
theorem lineageInv_run (ops : List Op) : LineageInv (runOps .empty ops) :=
  Transition.run_invariant (fun _ _ inv => inv.step) lineageInv_empty ops

-- ======== successors

/-- The successor a retry finds has the next attempt. -/
theorem LineageInv.successor_eq_some (inv : LineageInv db) {run next : TaskRun}
    (hrun : run ∈ db.runs.rows) (h : db.successor run.root run.attempt = some next) :
    next ∈ db.runs.rows ∧ next.root = run.root ∧ next.attempt = run.attempt + 1 := by
  obtain ⟨hmem, hleast⟩ := head?_insertionSort h
  obtain ⟨hnext, hcond⟩ := List.mem_filter.mp hmem
  rw [Bool.and_eq_true, beq_iff_eq, decide_eq_true_eq] at hcond
  have hroot : next.root = run.root := by
    unfold TaskRun.root
    rw [hcond.1]
    rfl
  refine ⟨hnext, hroot, ?_⟩
  -- attempts are contiguous: somebody has the number right after the run's
  have hbound := (inv.attempt_bounds hnext).2
  rw [hroot] at hbound
  obtain ⟨r, hr, hrroot, hratt⟩ := inv.exists_attempt (x := run.root)
    (n := run.attempt + 1) (by omega) (by omega)
  have hpos := (inv.attempt_bounds hrun).1
  have hpoint := inv.retryOf_eq hr (by omega)
  rw [hrroot] at hpoint
  have hle : next.attempt ≤ r.attempt := by
    refine (hleast r (List.mem_filter.mpr ⟨hr, ?_⟩)).key_le
    rw [Bool.and_eq_true, beq_iff_eq, decide_eq_true_eq]
    exact ⟨hpoint, by omega⟩
  omega

/-- What a successful retry leaves behind: the run it returned, as the
next attempt of the lineage of the run it named. -/
theorem LineageInv.retryRun_next {db db' : Database} (inv : LineageInv db)
    {runID freshID id : String} {at_ : Int} {automatic : Bool}
    (h : retryRun runID freshID at_ automatic db = .ok (id, db')) :
    ∃ run ∈ db.runs.rows, run.id = runID
      ∧ ∃ next ∈ db'.runs.rows, next.id = id ∧ next.root = run.root
        ∧ next.attempt = run.attempt + 1 := by
  obtain ⟨run, hrun, -, hnext | hnone⟩ := retryRun_ok h
  · obtain ⟨hmem, hid⟩ := db.runs.find?_eq_some.mp hrun
    obtain ⟨next, hsucc, rfl, rfl⟩ := hnext
    obtain ⟨hin, hroot, hatt⟩ := inv.successor_eq_some hmem hsucc
    exact ⟨run, hmem, hid, next, hin, rfl, hroot, hatt⟩
  · obtain ⟨hmem, hid⟩ := db.runs.find?_eq_some.mp hrun
    obtain ⟨-, rfl, -, hruns, -⟩ := hnone
    refine ⟨run, hmem, hid, run.nextAttempt id at_, ?_, rfl, rfl, rfl⟩
    rw [hruns]
    exact List.mem_append_right _ (List.mem_singleton.mpr rfl)

/-- Requests that name one run get one successor, whatever happens
between them. -/
theorem LineageInv.same_successor {db db₁ db₂ : Database} (inv : LineageInv db)
    {runID fresh₁ fresh₂ id₁ id₂ : String} {t₁ t₂ : Int} {auto₁ auto₂ : Bool} {later : List Op}
    (h₁ : retryRun runID fresh₁ t₁ auto₁ db = .ok (id₁, db₁))
    (h₂ : retryRun runID fresh₂ t₂ auto₂ (runOps db₁ later) = .ok (id₂, db₂)) : id₁ = id₂ := by
  have inv₁ : LineageInv db₁ := by
    have hstep : LineageInv (apply db (.retry runID fresh₁ t₁ auto₁)) := inv.step
    rw [apply, h₁] at hstep
    exact hstep
  have inv₂ : LineageInv (runOps db₁ later) :=
    Transition.run_invariant (fun _ _ inv => inv.step) inv₁ later
  obtain ⟨run, hrun, hid, next, hnext, rfl, hroot, hatt⟩ := inv.retryRun_next h₁
  -- the run and its successor as the second request finds them
  obtain ⟨run₁, hrun₁, hsame₁⟩ : ∃ r ∈ db₁.runs.rows, SameRun run r := by
    have heff := apply_effect db (.retry runID fresh₁ t₁ auto₁)
    rw [apply, h₁] at heff
    exact heff.mem_runs_of_mem hrun
  obtain ⟨run₂, hrun₂, hsame₂⟩ := mem_runs_run hrun₁ later
  obtain ⟨next₂, hnext₂, hsucc₂⟩ := mem_runs_run hnext later
  have hsame := hsame₁.trans hsame₂
  obtain ⟨run', hfind, -, hold | hnew⟩ := retryRun_ok h₂
  · obtain ⟨hmem', hid'⟩ := (runOps db₁ later).runs.find?_eq_some.mp hfind
    obtain rfl := (runOps db₁ later).runs.eq_of_key_eq hmem' hrun₂
      (hid'.trans (hid.symm.trans hsame.id.symm))
    obtain ⟨found, hfound, rfl, -⟩ := hold
    obtain ⟨hin, hfroot, hfatt⟩ := inv₂.successor_eq_some hrun₂ hfound
    have heq : next₂ = found := by
      refine inv₂.eq_of_attempt_eq hnext₂ hin ?_ ?_
      · rw [hsucc₂.root, hfroot, hsame.root, hroot]
      · rw [hsucc₂.attempt, hfatt, hsame.attempt, hatt]
    rw [← heq, hsucc₂.id]
  · obtain ⟨hmem', hid'⟩ := (runOps db₁ later).runs.find?_eq_some.mp hfind
    obtain rfl := (runOps db₁ later).runs.eq_of_key_eq hmem' hrun₂
      (hid'.trans (hid.symm.trans hsame.id.symm))
    -- impossible: the first successor is still there
    have hpos := (inv.attempt_bounds hrun).1
    have hatt₂ : next₂.attempt = run'.attempt + 1 := by
      rw [hsucc₂.attempt, hatt, hsame.attempt]
    have hpoint := inv₂.retryOf_eq hnext₂ (by
      rw [hsucc₂.attempt]
      omega)
    rw [hsucc₂.root, hroot, ← hsame.root] at hpoint
    have := successor_eq_none hnew.1 next₂ hnext₂ hpoint
    omega

-- ======== lineages

/-- A lineage is exactly one first attempt, whose id it carries, and
retries that point at it. -/
theorem LineageInv.retryOf_iff (inv : LineageInv db) {x : String} (hr : r ∈ db.lineage x) :
    (r.attempt = 1 → r.id = x ∧ r.retryOf = none) ∧ (r.attempt ≠ 1 → r.retryOf = some x) := by
  obtain ⟨hmem, hroot⟩ := mem_lineage.mp hr
  constructor
  · intro hone
    cases hret : r.retryOf with
    | none =>
      unfold TaskRun.root at hroot
      rw [hret] at hroot
      exact ⟨hroot, rfl⟩
    | some y =>
      -- the root has attempt 1 as well, so it would be this very run
      obtain ⟨s, hs, hid, hnone⟩ := inv.rooted r hmem y hret
      have hsroot : s.root = r.root := by
        unfold TaskRun.root
        rw [hnone, hret]
        exact hid
      have heq := inv.eq_of_attempt_eq hs hmem hsroot ((inv.first s hs hnone).trans hone.symm)
      rw [heq, hret] at hnone
      cases hnone
  · intro hne
    have hpos := (inv.attempt_bounds hmem).1
    rw [← hroot]
    exact inv.retryOf_eq hmem (by omega)

/-- Lineages never fork and respect the budget. In every reachable
database the attempts of a lineage are 1..n, each used once; the first
is the root and every other run points at it; n is at most one more than
the retry budget; and two requests for one run that both succeed, however
far apart, return the same successor. -/
theorem retry_lineage (ops : List Op) : (∀ x, ((runOps .empty ops).lineage x).map (·.attempt)
      = List.range' 1 ((runOps .empty ops).lineage x).length)
    ∧ (∀ x, ∀ r ∈ (runOps .empty ops).lineage x, (r.attempt = 1 → r.id = x ∧ r.retryOf = none)
          ∧ (r.attempt ≠ 1 → r.retryOf = some x)) ∧ (∀ x, ∀ r ∈ (runOps .empty ops).lineage x,
        ((runOps .empty ops).lineage x).length ≤ r.maxRetries + 1)
    ∧ ∀ (runID fresh₁ fresh₂ id₁ id₂ : String) (t₁ t₂ : Int)
        (auto₁ auto₂ : Bool) (db₁ db₂ : Database) (later : List Op),
        retryRun runID fresh₁ t₁ auto₁ (runOps .empty ops) = .ok (id₁, db₁) →
        retryRun runID fresh₂ t₂ auto₂ (runOps db₁ later) = .ok (id₂, db₂) → id₁ = id₂ := by
  have inv := lineageInv_run ops
  refine ⟨inv.attempts, fun x r hr => inv.retryOf_iff hr, ?_, ?_⟩
  · intro x r hr
    obtain ⟨hmem, hroot⟩ := mem_lineage.mp hr
    have hlen : 1 ≤ ((runOps .empty ops).lineage x).length := List.length_pos_of_mem hr
    obtain ⟨s, hs, hsroot, hatt⟩ := inv.exists_attempt hlen (Nat.le_refl _)
    rw [← hatt, inv.budget r hmem s hs (hroot.trans hsroot.symm)]
    exact inv.within s hs
  · intro runID fresh₁ fresh₂ id₁ id₂ t₁ t₂ auto₁ auto₂ db₁ db₂ later h₁ h₂
    exact inv.same_successor h₁ h₂

end Yunling
