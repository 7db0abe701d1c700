/-
Each instant of a plan is consumed once.

A scan reads the due plans without a lock, so what it has read may be old
when it gets to trigger it. What it commits is not: the transaction has
the row of the plan from the moment it compares it with what was read to
its end, and it shares the row of the definition, which keeps `SetEnabled`
out. So a firing is of the plan as it is, the plan moves on in the same
commit, and the next firing finds the next instant.

# One transaction at a time

`Commits` is what a commit may do by the locks it holds; `Effect` what it
does: it fires one plan, or it leaves the firings and the runs' instants
alone and touches only the plan its call edits. Every session is checked
against it alone (`sound_session`); the rest is about the sequence of
committed states.
-/
import Yunling.Platform.Basic
import Yunling.Task.Schedule

namespace Yunling.Task

open Relational Transactions

-- ======== cron

/-- The next instant is later. -/
theorem firstFiring_le {fires : Int → Bool} {n : Nat} {candidate t : Int}
    (h : firstFiring fires candidate n = some t) : candidate ≤ t := by
  induction n generalizing candidate with
  | zero => cases h
  | succ n ih =>
    unfold firstFiring at h
    split at h
    · exact le_of_eq (Option.some.inj h)
    · have := ih h
      have hminute : (0 : Int) < minute := by decide
      omega

theorem Cron.lt_nextCronTime {cron : Cron} {expression timezone : String} {after t : Int}
    (h : cron.nextCronTime expression timezone after = some t) : after < t := by
  unfold Cron.nextCronTime at h
  split at h
  · have hle := firstFiring_le h
    have hminute : (0 : Int) < minute := by decide
    have := Int.lt_ediv_add_one_mul_self after hminute
    omega
  · cases h

-- ======== states

/-- The row is still the one that was read, and enabled. -/
structure DueSchedule.Matches (item : DueSchedule) (row : Schedule) : Prop where
  definitionID : row.definitionID = item.definitionID
  enabled : row.enabled = true
  fireTime : row.nextRunAt = some item.fireTime
  expression : row.cronExpression = item.expression
  timezone : row.timezone = item.timezone
  updatedAt : row.updatedAt = item.updatedAt

/-- The plan is in force: its row is still the one that was read, and its
definition is enabled. -/
def InForce (item : DueSchedule) (p : Plans) : Prop :=
  (∃ row, p.schedules.find? item.id = some row ∧ item.Matches row)
    ∧ p.enabledDefinition item.definitionID = true

/-- One run for each definition and instant. -/
def Planned (p : Plans) : Prop :=
  ∀ r ∈ p.db.runs.rows, ∀ r' ∈ p.db.runs.rows, ∀ t,
    r.taskDefinitionId = r'.taskDefinitionId → r.scheduledFor = some t →
      r'.scheduledFor = some t → r = r'

theorem scheduleTaken_iff {db : Database} {definitionID : String} {t : Int} :
    db.scheduleTaken definitionID (some t) = true
      ↔ ∃ r ∈ db.runs.rows, r.taskDefinitionId = definitionID ∧ r.scheduledFor = some t := by
  unfold Database.scheduleTaken
  simp

theorem Plans.find?_updateSchedule (id : String) (f : Schedule → Schedule)
    (hf : ∀ s, (f s).id = s.id) (p : Plans) (id' : String) :
    (p.updateSchedule id f hf).schedules.find? id' = if id' = id then (p.schedules.find? id').map f
        else p.schedules.find? id' := Table.find?_update_key _ (fun _ => rfl) f hf id'

theorem Plans.plan_eq_some {p : Plans} {id definitionID : String} {row : Schedule} :
    p.plan id definitionID = some row ↔ p.schedules.find? id = some row
        ∧ row.definitionID = definitionID := by
  unfold Plans.plan
  simp [Option.filter_eq_some_iff]

-- ======== effects

/-- A plan in force is moved on. -/
structure Fires (cron : Cron) (p p' : Plans) (f : Firing) : Prop where
  inForce : InForce f.item p
  advanced : ∃ row next now, p.schedules.find? f.item.id = some row
    ∧ cron.nextCronTime row.cronExpression row.timezone f.item.fireTime = some next
    ∧ p'.schedules.find? f.item.id = some (row.advance next now)
  others : ∀ id, id ≠ f.item.id → p'.schedules.find? id = p.schedules.find? id
  noted : p'.fired = p.fired ++ [f]
  taken : p'.db.scheduleTaken f.item.definitionID (some f.item.fireTime) = true
  /-- The run that is new is the one of the firing. -/
  runs : ∀ r ∈ p'.db.runs.rows, r ∈ p.db.runs.rows
    ∨ f.run = some r.id ∧ r.taskDefinitionId = f.item.definitionID
      ∧ r.scheduledFor = some f.item.fireTime

/-- The firings and the instants of the runs stay; of the plans only the
one that is edited changes. -/
structure Quiet (edits : Option String) (p p' : Plans) : Prop where
  noted : p'.fired = p.fired
  runs : ∀ r' ∈ p'.db.runs.rows, ∃ r ∈ p.db.runs.rows, r.id = r'.id
    ∧ r.taskDefinitionId = r'.taskDefinitionId
    ∧ r.scheduledFor = r'.scheduledFor
  schedules : ∀ id, edits ≠ some id → p'.schedules.find? id = p.schedules.find? id

/-- What a commit may do, by the locks of its transaction. -/
structure Commits (cron : Cron) (call : PlanCall) (held : List PlanLock)
    (p p' : Plans) : Prop where
  definitions : ∀ id, .definitionUpdate id ∈ held
    ∨ p'.db.definitions.find? id = p.db.definitions.find? id
  schedules : ∀ id, .schedule id ∈ held
    ∨ p'.schedules.find? id = p.schedules.find? id
  taken : ∀ d t, .fire d t ∈ held
    ∨ p'.db.scheduleTaken d (some t) = p.db.scheduleTaken d (some t)
  stays : ∀ d t, p.db.scheduleTaken d (some t) = true →
    p'.db.scheduleTaken d (some t) = true
  runIDs : ∀ id, .run id ∈ held
    ∨ (p'.db.runs.find? id).isSome = (p.db.runs.find? id).isSome
  effect : (∃ f, Fires cron p p' f) ∨ Quiet call.edits p p'

-- ======== knowledge

section Sessions

variable {ι : Type} {i : ι} {cron : Cron} {calls : ι → PlanCall} {held : List PlanLock}
  {item : DueSchedule} {p : Plans} {call : PlanCall} {input : ScheduleInput}
  {definitionID planID : String} {now stamp : Int} {d : Definition}

/-- The rules of the calls. -/
abbrev Sound (cron : Cron) (calls : ι → PlanCall) (i : ι) (tx : PlanTx)
    (held : List PlanLock) (K : Plans → Prop)
    (pending : Plans → Plans) : Prop :=
  Safe PlanLock.clash (fun i => Commits cron (calls i)) Planned i tx held K pending

abbrev Kept (cron : Cron) (calls : ι → PlanCall) (i : ι)
    (held : List PlanLock) (K : Plans → Prop) : Prop :=
  Stable PlanLock.clash (fun i => Commits cron (calls i)) Planned i held K

theorem PlanLock.clash_comm (l l' : PlanLock) : l.clash l' = l'.clash l := by
  cases l <;> cases l' <;> simp [PlanLock.clash, eq_comm]

theorem kept_definition {id : String}
    (hlock : .definitionShare id ∈ held ∨ .definitionUpdate id ∈ held) (o : Option Definition) :
    Kept cron calls i held fun p => p.db.definitions.find? id = o := by
  rcases hlock with hlock | hlock <;>
    exact .of_lock hlock (by simp [PlanLock.clash]) fun hG hK =>
      (hG.definitions id).imp_right (·.trans hK)

theorem kept_schedule {id : String} (hlock : .schedule id ∈ held) (o : Option Schedule) :
    Kept cron calls i held fun p => p.schedules.find? id = o :=
  .of_lock hlock (by simp [PlanLock.clash]) fun hG hK => (hG.schedules id).imp_right (·.trans hK)

theorem kept_free {d : String} {t : Int} (hlock : .fire d t ∈ held) :
    Kept cron calls i held fun p => p.db.scheduleTaken d (some t) = false :=
  .of_lock hlock (by simp [PlanLock.clash]) fun hG hK => (hG.taken d t).imp_right (·.trans hK)

theorem kept_taken {d : String} {t : Int} :
    Kept cron calls i held fun p => p.db.scheduleTaken d (some t) = true :=
  fun _ _ _ _ _ _ _ _ hG hK => hG.stays d t hK

theorem kept_runID {id : String} (hlock : .run id ∈ held) (b : Bool) :
    Kept cron calls i held fun p => (p.db.runs.find? id).isSome = b :=
  .of_lock hlock (by simp [PlanLock.clash]) fun hG hK => (hG.runIDs id).imp_right (·.trans hK)

-- ======== firing

/-- The run of a firing is there. -/
structure Inserts (held : List PlanLock) (f : Firing) (p q : Plans) : Prop where
  schedules : q.schedules = p.schedules
  fired : q.fired = p.fired
  definitions : q.db.definitions = p.db.definitions
  planned : Planned q
  here : q.db.scheduleTaken f.item.definitionID (some f.item.fireTime) = true
  taken : ∀ d t, .fire d t ∈ held ∨ q.db.scheduleTaken d (some t) = p.db.scheduleTaken d (some t)
  stays : ∀ d t, p.db.scheduleTaken d (some t) = true → q.db.scheduleTaken d (some t) = true
  runIDs : ∀ id, .run id ∈ held ∨ (q.db.runs.find? id).isSome = (p.db.runs.find? id).isSome
  runs : ∀ r ∈ q.db.runs.rows, r ∈ p.db.runs.rows
    ∨ f.run = some r.id ∧ r.taskDefinitionId = f.item.definitionID
      ∧ r.scheduledFor = some f.item.fireTime

theorem inserts_none (hp : Planned p) (h : p.db.scheduleTaken item.definitionID (some item.fireTime)
      = true) : Inserts held ⟨item, none⟩ p p where
  schedules := rfl
  fired := rfl
  definitions := rfl
  planned := hp
  here := h
  taken := fun _ _ => Or.inr rfl
  stays := fun _ _ h => h
  runIDs := fun _ => Or.inr rfl
  runs := fun _ h => Or.inl h

theorem Plans.insertRun_rows {run : TaskRun} (secretRefs : List (String × String))
    (hfree : p.db.runs.find? run.id = none) :
    (p.insertRun run secretRefs).db.runs.rows = p.db.runs.rows ++ [run]
      ∧ ∀ id, (p.insertRun run secretRefs).db.runs.find? id
        = if id = run.id then some run else p.db.runs.find? id := by
  have hsome : ∃ runs, p.db.runs.insert? run = some runs := by
    exact ⟨_, dif_pos hfree⟩
  obtain ⟨runs, hruns⟩ := hsome
  unfold Plans.insertRun
  rw [hruns]
  exact ⟨(Table.insert?_eq_some hruns).1, Table.find?_insert? hruns⟩

theorem inserts_some (run : TaskRun) (secretRefs : List (String × String)) (hp : Planned p)
    (hfire : .fire item.definitionID item.fireTime ∈ held) (hrun : .run run.id ∈ held)
    (hdefinition : run.taskDefinitionId = item.definitionID)
    (hinstant : run.scheduledFor = some item.fireTime)
    (hnone : p.db.scheduleTaken item.definitionID (some item.fireTime) = false)
    (hfree : (p.db.runs.find? run.id).isSome = false) :
    Inserts held ⟨item, some run.id⟩ p (p.insertRun run secretRefs) := by
  obtain ⟨hrows, hfind⟩ := Plans.insertRun_rows secretRefs
    (Option.isNone_iff_eq_none.mp (Option.isSome_eq_false_iff.mp hfree))
  have hnew : ∀ r ∈ p.db.runs.rows, r.taskDefinitionId = item.definitionID →
      r.scheduledFor ≠ some item.fireTime := by
    intro r hr hd ht
    rw [scheduleTaken_iff.mpr ⟨r, hr, hd, ht⟩] at hnone
    cases hnone
  have hsame : (p.insertRun run secretRefs).schedules = p.schedules
      ∧ (p.insertRun run secretRefs).fired = p.fired
      ∧ (p.insertRun run secretRefs).db.definitions = p.db.definitions := by
    unfold Plans.insertRun
    split <;> exact ⟨rfl, rfl, rfl⟩
  have hold : ∀ d t, p.db.scheduleTaken d (some t) = true →
      (p.insertRun run secretRefs).db.scheduleTaken d (some t) = true := by
    intro d t h
    obtain ⟨r, hr, hdt⟩ := scheduleTaken_iff.mp h
    exact scheduleTaken_iff.mpr ⟨r, by rw [hrows]; exact List.mem_append_left _ hr, hdt⟩
  refine ⟨hsame.1, hsame.2.1, hsame.2.2, ?_, ?_, fun d t => ?_, hold, fun id => ?_, fun r hr => ?_⟩
  · intro r hr r' hr' t hd ht ht'
    rw [hrows, List.mem_append, List.mem_singleton] at hr hr'
    rcases hr with hr | rfl <;> rcases hr' with hr' | rfl
    · exact hp r hr r' hr' t hd ht ht'
    · rw [hinstant] at ht'
      cases ht'
      exact absurd ht (hnew r hr (hd.trans hdefinition))
    · rw [hinstant] at ht
      cases ht
      exact absurd ht' (hnew r' hr' (hd.symm.trans hdefinition))
    · rfl
  · exact scheduleTaken_iff.mpr ⟨run, by rw [hrows]; simp, hdefinition, hinstant⟩
  · by_cases hdt : d = item.definitionID ∧ t = item.fireTime
    · exact Or.inl (by rw [hdt.1, hdt.2]; exact hfire)
    refine Or.inr (Bool.eq_iff_iff.mpr ⟨fun h => ?_, hold d t⟩)
    obtain ⟨r, hr, hd, ht⟩ := scheduleTaken_iff.mp h
    rw [hrows, List.mem_append, List.mem_singleton] at hr
    rcases hr with hr | rfl
    · exact scheduleTaken_iff.mpr ⟨r, hr, hd, ht⟩
    · exact absurd ⟨hd.symm.trans hdefinition, Option.some.inj (ht.symm.trans hinstant)⟩ hdt
  · by_cases hid : id = run.id
    · exact Or.inl (hid ▸ hrun)
    · exact Or.inr (by rw [hfind, if_neg hid])
  · rw [hrows, List.mem_append, List.mem_singleton] at hr
    rcases hr with hr | rfl
    · exact Or.inl hr
    · exact Or.inr ⟨rfl, hdefinition, hinstant⟩

theorem commit_firing {f : Firing} {row : Schedule} {next : Int} {p q : Plans}
    (hq : Inserts held f p q) (hlock : .schedule f.item.id ∈ held)
    (hdefinition : p.db.definitions.find? f.item.definitionID = some d)
    (henabled : d.enabled = true) (hrow : p.schedules.find? f.item.id = some row)
    (hmatches : f.item.Matches row)
    (hnext : cron.nextCronTime row.cronExpression row.timezone f.item.fireTime = some next) :
    Planned ((q.updateSchedule f.item.id (Schedule.advance next now)
        (Schedule.advance_id next now)).note f) ∧ Commits cron call held p
        ((q.updateSchedule f.item.id (Schedule.advance next now)
          (Schedule.advance_id next now)).note f) := by
  have hfind : ∀ id, ((q.updateSchedule f.item.id
      (Schedule.advance next now) (Schedule.advance_id next now)).note f).schedules.find? id
      = if id = f.item.id then (p.schedules.find? id).map (Schedule.advance next now)
        else p.schedules.find? id := by
    intro id
    refine (Plans.find?_updateSchedule f.item.id
      (Schedule.advance next now) (Schedule.advance_id next now) q id).trans ?_
    rw [hq.schedules]
  refine ⟨hq.planned, ?_⟩
  exact {
    definitions := fun id => Or.inr (by
      show q.db.definitions.find? id = _
      rw [hq.definitions])
    schedules := fun id => by
      by_cases hid : id = f.item.id
      · exact Or.inl (hid ▸ hlock)
      · exact Or.inr (by rw [hfind, if_neg hid])
    taken := hq.taken
    stays := hq.stays
    runIDs := hq.runIDs
    effect := Or.inl ⟨f, {
      inForce := ⟨⟨row, hrow, hmatches⟩, by
        unfold Plans.enabledDefinition
        rw [hdefinition]
        exact henabled⟩
      advanced := ⟨row, next, now, hrow, hnext, by
        rw [hfind, if_pos rfl, hrow, Option.map_some]⟩
      others := fun id hid => by rw [hfind, if_neg hid]
      noted := by
        show q.fired ++ [f] = _
        rw [hq.fired]
      taken := hq.here
      runs := hq.runs }⟩ }

/-- The locks of a trigger that has compared its plan. -/
abbrev planLocks (item : DueSchedule) : List PlanLock :=
  [.schedule item.id, .definitionShare item.definitionID]

/-- What it knows. -/
def Compared (item : DueSchedule) (d : Definition) (row : Schedule) (p : Plans) : Prop :=
  p.db.definitions.find? item.definitionID = some d ∧ p.schedules.find? item.id = some row

theorem kept_compared (hsub : planLocks item ⊆ held)
    (d : Definition) (row : Schedule) : Kept cron calls i held (Compared item d row) :=
  (kept_definition (Or.inl (hsub (by simp))) (some d)).and
    (kept_schedule (hsub (by simp)) (some row))

theorem safe_lockDueSchedule {stop : PlanError → PlanTx} {next : Int → PlanTx}
    (hstop : ∀ e held K, Sound cron calls i (stop e) held K id) (hnext : ∀ row t, item.Matches row →
      cron.nextCronTime row.cronExpression row.timezone item.fireTime = some t →
      Sound cron calls i (next t) (planLocks item) (Compared item d row) id) :
    Sound cron calls i (lockDueSchedule cron item stop next) [.definitionShare item.definitionID]
      (fun p => p.db.definitions.find? item.definitionID = some d) id := by
  have hkept : ∀ held, PlanLock.definitionShare item.definitionID ∈ held →
      Kept cron calls i held fun p =>
        p.db.definitions.find? item.definitionID = some d :=
    fun held hmem => kept_definition (Or.inl hmem) (some d)
  refine safe_look (hkept _ List.mem_cons_self) fun snapshot _ _ => ?_
  split
  · exact hstop _ _ _
  refine safe_lock (hkept _ List.mem_cons_self) fun p _ hp => ?_
  cases hplan : p.plan item.id item.definitionID with
  | none =>
    refine ⟨_, stable_true i _, trivial, ?_⟩
    simp only [id, hplan]
    exact hstop _ _ _
  | some row =>
    obtain ⟨hrow, hdefinition⟩ := Plans.plan_eq_some.mp hplan
    refine ⟨Compared item d row, kept_compared (List.Subset.refl _) d row, ⟨hp, hrow⟩, ?_⟩
    simp only [id, hplan]
    split
    · exact hstop _ _ _
    next hcompare =>
    push Not at hcompare
    obtain ⟨henabled, hfire, hexpression, htimezone, hupdated⟩ := hcompare
    split
    · exact hstop _ _ _
    next t hnextTime =>
    exact hnext row t ⟨hdefinition, by simpa using henabled, hfire,
      hexpression, htimezone, hupdated⟩ hnextTime

theorem sound_trigger {freshID : String} {next : Except PlanError String → PlanTx}
    (hnext : ∀ result, Sound cron calls i (next result) [] (fun _ => True) id) :
    Sound cron calls i (trigger cron item freshID now next) [] (fun _ => True) id := by
  have hstop : ∀ e held K, Sound cron calls i
      (.rollback (next (.error e))) held K id := fun e _ _ =>
    hnext (.error e)
  refine ⟨hnext _, safe_look (stable_true i _) fun snapshot _ _ => ?_⟩
  split
  · exact hstop _ _ _
  refine safe_lock (stable_true i _) fun p _ _ => ?_
  cases hdefinition : p.db.definitions.find? item.definitionID with
  | none =>
    refine ⟨_, stable_true i _, trivial, ?_⟩
    simp only [id, hdefinition]
    exact hstop _ _ _
  | some d =>
    refine ⟨_, kept_definition (Or.inl List.mem_cons_self) (some d), hdefinition, ?_⟩
    simp only [id, hdefinition]
    split
    · exact hstop _ _ _
    next henabled =>
    refine safe_lockDueSchedule hstop fun row t hmatches ht => ?_
    refine safe_look (kept_compared (List.Subset.refl _) d row) fun p _ _ => ?_
    split
    · exact hstop _ _ _
    next versionID parameters _ =>
    have henabled : d.enabled = true := by simpa using henabled
    have hkept : ∀ held, planLocks item ⊆ held → Kept cron calls i held (Compared item d row) :=
      fun held hsub => kept_compared hsub d row
    intro p _ hcompared
    refine ⟨fun htaken => ⟨_, (hkept _ (List.Subset.refl _)).and
        kept_taken, ⟨hcompared, htaken⟩, ?_⟩,
      fun hfree => ⟨_, (hkept _ (List.subset_cons_self _ _)).and
        (kept_free List.mem_cons_self), ⟨hcompared, hfree⟩, ?_⟩⟩
    · exact safe_write (safe_write ⟨fun p hp hK =>
      commit_firing (inserts_none hp hK.2) (by simp) hK.1.1 henabled hK.1.2 hmatches ht, hnext _⟩)
    intro p _ hK
    refine ⟨fun _ => ⟨_, stable_true i _, trivial, hstop _ _ _⟩,
      fun hunused => ⟨_, ((hkept _ (by simp)).and
        (kept_free (by simp))).and (kept_runID List.mem_cons_self false), ⟨hK, hunused⟩, ?_⟩⟩
    refine safe_write (safe_write (safe_write ⟨fun p hp hK => ?_, hnext _⟩))
    have hid : d.id = item.definitionID := (p.db.definitions.find?_eq_some.mp hK.1.1.1).2
    have hinserts : Inserts (.run freshID
        :: .fire item.definitionID item.fireTime :: planLocks item)
        ⟨item, some freshID⟩ p (p.insertRun (d.newRun freshID versionID
          .schedule item.trigger parameters now) d.secretBindings) :=
      inserts_some (d.newRun freshID versionID .schedule item.trigger
          parameters now) d.secretBindings hp
        (List.mem_cons_of_mem _ List.mem_cons_self) List.mem_cons_self hid rfl hK.1.2 hK.2
    exact commit_firing hinserts (by simp) hK.1.1.1 henabled hK.1.1.2 hmatches ht

theorem sound_triggerDue {draws : Nat → Draw} (items : List DueSchedule)
    (n : Nat) (runs : List String) (failures : List (String × PlanError)) :
    Sound cron calls i (triggerDue cron draws items n runs failures) [] (fun _ => True) id := by
  induction items generalizing n runs failures with
  | nil => trivial
  | cons item rest ih =>
    unfold triggerDue
    split
    · trivial
    refine sound_trigger fun result => ?_
    cases result with
    | ok run => exact ih _ _ _
    | error e =>
      dsimp only
      split
      · exact ih _ _ _
      · exact ih _ _ _

-- ======== edits

theorem commit_edit {id : String} {p p' : Plans} (hp : Planned p) (hlock : .schedule id ∈ held)
    (hedits : call.edits = some id) (hdb : p'.db = p.db) (hfired : p'.fired = p.fired)
    (hothers : ∀ id', id' ≠ id → p'.schedules.find? id' = p.schedules.find? id') :
    Planned p' ∧ Commits cron call held p p' := by
  refine ⟨by unfold Planned; rw [hdb]; exact hp, ?_⟩
  exact {
    definitions := fun _ => Or.inr (by rw [hdb])
    schedules := fun id' => by
      by_cases hid : id' = id
      · exact Or.inl (hid ▸ hlock)
      · exact Or.inr (hothers id' hid)
    taken := fun _ _ => Or.inr (by rw [hdb])
    stays := fun _ _ h => by rw [hdb]; exact h
    runIDs := fun _ => Or.inr (by rw [hdb])
    effect := Or.inr {
      noted := hfired
      runs := fun r hr => ⟨r, by rw [← hdb]; exact hr, rfl, rfl, rfl⟩
      schedules := fun id' hne => by
        refine hothers id' fun heq => hne ?_
        rw [hedits, heq] } }

theorem safe_refuse (e : PlanError) (K : Plans → Prop) (pending : Plans → Plans) :
    Sound cron calls i (refuse e) held K pending := trivial

theorem sound_onPlan {next : Schedule → PlanTx}
    (hnext : ∀ row, Sound cron calls i (next row) [.schedule planID]
      (fun p => p.schedules.find? planID = some row) id) :
    Sound cron calls i (onPlan planID definitionID next) [] (fun _ => True) id := by
  refine ⟨trivial, safe_look (stable_true i _) fun snapshot _ _ => ?_⟩
  split
  · exact safe_refuse _ _ _
  refine safe_lock (stable_true i _) fun p _ _ => ?_
  cases hplan : p.plan planID definitionID with
  | none =>
    refine ⟨_, stable_true i _, trivial, ?_⟩
    simp only [id, hplan]
    exact safe_refuse _ _ _
  | some row =>
    refine ⟨_, kept_schedule List.mem_cons_self (some row), (Plans.plan_eq_some.mp hplan).1, ?_⟩
    simp only [id, hplan]
    exact hnext row

theorem sound_updateSchedule (hcall : (calls i).edits = some planID) :
    Sound cron calls i (updateSchedule cron planID input now stamp) [] (fun _ => True) id := by
  unfold updateSchedule
  dsimp only
  split
  · trivial
  refine sound_onPlan fun row => safe_write ⟨fun p hp _ =>
    commit_edit hp List.mem_cons_self hcall rfl rfl fun id' hne => ?_,
    trivial⟩
  exact (Plans.find?_updateSchedule _ _ _ p id').trans (if_neg hne)

theorem find?_deleteSchedule {id' : String} (hne : id' ≠ planID) :
    (p.deleteSchedule planID).schedules.find? id' = p.schedules.find? id' :=
  p.schedules.find?_delete fun s _ hkey => by simp [hkey, hne]

theorem sound_deleteSchedule (hcall : (calls i).edits = some planID) :
    Sound cron calls i (deleteSchedule definitionID planID) [] (fun _ => True) id :=
  sound_onPlan fun _ => safe_write ⟨fun _ hp _ =>
    commit_edit hp List.mem_cons_self hcall rfl rfl fun _ hne => find?_deleteSchedule hne, trivial⟩

theorem Plans.insertSchedule_same (s : Schedule) (p : Plans) :
    (p.insertSchedule s).db = p.db ∧ (p.insertSchedule s).fired = p.fired
      ∧ ∀ id', id' ≠ s.id → (p.insertSchedule s).schedules.find? id' = p.schedules.find? id' := by
  unfold Plans.insertSchedule
  split
  · next schedules hinsert =>
    exact ⟨rfl, rfl, fun id' hne => by
      rw [Table.find?_insert? hinsert, if_neg hne]⟩
  · exact ⟨rfl, rfl, fun _ _ => rfl⟩

theorem sound_createSchedule (hcall : (calls i).edits = some planID) :
    Sound cron calls i (createSchedule cron input planID now stamp) [] (fun _ => True) id := by
  unfold createSchedule
  dsimp only
  split
  · trivial
  refine ⟨trivial, fun p _ _ => ⟨fun _ =>
    ⟨_, stable_true i _, trivial, safe_refuse _ _ _⟩, fun _ =>
    ⟨_, stable_true i _, trivial, safe_look (stable_true i _) fun p _ _ => ?_⟩⟩⟩
  split
  · exact safe_refuse _ _ _
  refine safe_write ⟨fun p hp _ => ?_, trivial⟩
  obtain ⟨hdb, hfired, hothers⟩ := Plans.insertSchedule_same _ p
  exact commit_edit hp List.mem_cons_self hcall hdb hfired hothers

-- ======== definitions

theorem appendForEach_same (db : Database) (runs : List (String × Int))
    (eventType : String) (state : RunState) (payload : Payload) :
    (db.appendForEach runs eventType state payload).definitions = db.definitions
      ∧ (db.appendForEach runs eventType state payload).runs = db.runs := by
  induction runs generalizing db with
  | nil => exact ⟨rfl, rfl⟩
  | cons run runs ih => exact ih _

/-- `SetEnabled` changes one definition, and of the runs neither the
instants nor the ids. -/
theorem Plans.setEnabled_same (definitionID : String)
    (enabled cancelQueued : Bool) (now : Nat → Int) (p : Plans) : (∀ id', id' ≠ definitionID →
        (p.setEnabled definitionID enabled cancelQueued
          now).db.definitions.find? id' = p.db.definitions.find? id') ∧ ∃ f : TaskRun → TaskRun,
        (∀ r, (f r).id = r.id ∧ (f r).taskDefinitionId = r.taskDefinitionId
          ∧ (f r).scheduledFor = r.scheduledFor) ∧ (p.setEnabled definitionID enabled cancelQueued
          now).db.runs.rows = p.db.runs.rows.map f := by
  have hswitch : ∀ id', id' ≠ definitionID →
      (p.db.definitions.update (fun d => d.id == definitionID)
        (fun d => { d with enabled, updatedAt := now 0 })
        fun _ => rfl).find? id' = p.db.definitions.find? id' := by
    exact fun id' hne =>
      (Table.find?_update_key _ (fun _ => rfl) _ _ id').trans (if_neg hne)
  unfold Plans.setEnabled Yunling.setEnabled
  split
  · exact ⟨fun _ _ => rfl, id, fun _ => ⟨rfl, rfl, rfl⟩, (List.map_id _).symm⟩
  split
  · refine ⟨fun id' hne => (congrArg (Table.find? · id')
        (appendForEach_same _ _ _ _ _).1).trans (hswitch id' hne),
      Table.amend (TaskRun.queuedOf definitionID)
        (TaskRun.cancelWithDefinition (now 1)), fun r => ?_,
      congrArg Table.rows (appendForEach_same _ _ _ _ _).2⟩
    unfold Table.amend
    split <;> exact ⟨rfl, rfl, rfl⟩
  · exact ⟨hswitch, id, fun _ => ⟨rfl, rfl, rfl⟩, (List.map_id _).symm⟩

theorem commit_setEnabled (hp : Planned p) (hlock : .definitionUpdate definitionID ∈ held)
    (enabled cancelQueued : Bool) (now : Nat → Int) :
    Planned (p.setEnabled definitionID enabled cancelQueued now) ∧ Commits cron call held p
        (p.setEnabled definitionID enabled cancelQueued now) := by
  obtain ⟨hdefinitions, f, hf, hrows⟩ :=
    Plans.setEnabled_same definitionID enabled cancelQueued now p
  have htaken : ∀ d t, (p.setEnabled definitionID enabled cancelQueued
      now).db.scheduleTaken d (some t) = p.db.scheduleTaken d (some t) := by
    intro d t
    rw [Bool.eq_iff_iff, scheduleTaken_iff, scheduleTaken_iff, hrows]
    constructor
    · rintro ⟨r', hr', hd, ht⟩
      obtain ⟨r, hr, rfl⟩ := List.mem_map.mp hr'
      exact ⟨r, hr, (hf r).2.1.symm.trans hd, (hf r).2.2.symm.trans ht⟩
    · rintro ⟨r, hr, hd, ht⟩
      exact ⟨f r, List.mem_map_of_mem hr, (hf r).2.1.trans hd, (hf r).2.2.trans ht⟩
  have hids : ∀ runID, ((p.setEnabled definitionID enabled cancelQueued
      now).db.runs.find? runID).isSome = (p.db.runs.find? runID).isSome := by
    intro runID
    rw [Bool.eq_iff_iff, Option.isSome_iff_exists, Option.isSome_iff_exists]
    simp only [Table.find?_eq_some, hrows]
    constructor
    · rintro ⟨r', hr', hid⟩
      obtain ⟨r, hr, rfl⟩ := List.mem_map.mp hr'
      exact ⟨r, hr, (hf r).1.symm.trans hid⟩
    · rintro ⟨r, hr, hid⟩
      exact ⟨f r, List.mem_map_of_mem hr, (hf r).1.trans hid⟩
  refine ⟨?_, ?_⟩
  · intro r hr r' hr' t hd ht ht'
    rw [hrows] at hr hr'
    obtain ⟨a, ha, rfl⟩ := List.mem_map.mp hr
    obtain ⟨b, hb, rfl⟩ := List.mem_map.mp hr'
    rw [(hf a).2.1, (hf b).2.1] at hd
    rw [(hf a).2.2] at ht
    rw [(hf b).2.2] at ht'
    rw [hp a ha b hb t hd ht ht']
  · exact {
      definitions := fun id' => by
        by_cases hid : id' = definitionID
        · exact Or.inl (hid ▸ hlock)
        · exact Or.inr (hdefinitions id' hid)
      schedules := fun _ => Or.inr rfl
      taken := fun d t => Or.inr (htaken d t)
      stays := fun d t h => (htaken d t).trans h
      runIDs := fun runID => Or.inr (hids runID)
      effect := Or.inr {
        noted := rfl
        runs := fun r' hr' => by
          rw [hrows] at hr'
          obtain ⟨r, hr, rfl⟩ := List.mem_map.mp hr'
          exact ⟨r, hr, (hf r).1.symm, (hf r).2.1.symm, (hf r).2.2.symm⟩
        schedules := fun _ _ => rfl } }

theorem sound_setEnabled {enabled cancelQueued : Bool} {now : Nat → Int} :
    Sound cron calls i (setEnabled definitionID enabled cancelQueued now)
      [] (fun _ => True) id := by
  refine ⟨trivial, safe_look (stable_true i _) fun snapshot _ _ => ?_⟩
  split
  · exact safe_refuse _ _ _
  refine safe_lock (stable_true i _) (safe_look (stable_true i _) fun p _ _ => ?_)
  split
  · exact safe_refuse _ _ _
  exact safe_write ⟨fun p hp _ => commit_setEnabled hp List.mem_cons_self
    enabled cancelQueued now, trivial⟩

theorem sound_session (hcall : calls i = call) :
    Sound cron calls i (call.session cron) [] (fun _ => True) id := by
  cases call with
  | due now draws =>
    exact ⟨trivial, safe_look (stable_true i _) fun p _ _ => sound_triggerDue _ _ _ _⟩
  | create input planID now stamp =>
    exact sound_createSchedule (by rw [hcall]; rfl)
  | update planID input now stamp =>
    exact sound_updateSchedule (by rw [hcall]; rfl)
  | delete definitionID planID =>
    exact sound_deleteSchedule (by rw [hcall]; rfl)
  | enable definitionID enabled cancelQueued now => exact sound_setEnabled

end Sessions

-- ======== histories

/-- One instant after the other: the list is consumed on the way from the
first to the last. -/
inductive Successive (next : Int → Option Int) : Option Int → List Int → Option Int → Prop where
  | nil (at_ : Option Int) : Successive next at_ [] at_
  | cons {t t' : Int} {ts : List Int} {last : Option Int}
    (h : next t = some t') (rest : Successive next (some t') ts last) :
    Successive next (some t) (t :: ts) last

/-- No instant comes twice. -/
theorem Successive.increasing {next : Int → Option Int} (hnext : ∀ t t', next t = some t' → t < t')
    {first last : Option Int} {ts : List Int} (h : Successive next first ts last) :
    ts.Pairwise (· < ·) ∧ ∀ t, first = some t → ∀ t' ∈ ts, t ≤ t' := by
  induction h with
  | nil at_ => exact ⟨List.Pairwise.nil, fun _ _ _ h => absurd h List.not_mem_nil⟩
  | cons h rest ih =>
    have hlater := fun t' ht' =>
      lt_of_lt_of_le (hnext _ _ h) (ih.2 _ rfl t' ht')
    refine ⟨List.Pairwise.cons hlater ih.1, ?_⟩
    rintro t ht t' ht'
    cases ht
    rcases List.mem_cons.mp ht' with rfl | hmem
    · exact le_refl _
    · exact le_of_lt (hlater t' hmem)

/-- The instants of a plan that were consumed. -/
def instants (id : String) (fired : List Firing) : List Int :=
  (fired.filter fun f => f.item.id = id).map fun f => f.item.fireTime

section Histories

variable {ι : Type} [DecidableEq ι] {cron : Cron} {calls : ι → PlanCall}
  {sys : System ι Plans PlanLock PlanAnswer} {id : String} {row : Schedule}

/-- The clients and the plans, from the start. -/
def launch (cron : Cron) (calls : ι → PlanCall) (p : Plans) : System ι Plans PlanLock PlanAnswer :=
  .start p fun i => (calls i).session cron

/-- The step is no edit of the plan. -/
def Unedited (calls : ι → PlanCall) (id : String)
    (sys : System ι Plans PlanLock PlanAnswer) (op : Move ι) : Prop :=
  (calls op.client).edits ≠ some id ∨ (sys.step PlanLock.clash op).db.schedules.find? id
      = sys.db.schedules.find? id

abbrev Running (cron : Cron) (calls : ι → PlanCall)
    (sys : System ι Plans PlanLock PlanAnswer) : Prop :=
  Secure PlanLock.clash (fun i => Commits cron (calls i)) Planned sys

theorem running_launch {p : Plans} (hp : Planned p) (ops : List (Move ι)) :
    Running cron calls (Transition.run (System.step PlanLock.clash) (launch cron calls p) ops) :=
  (Secure.start hp fun _ => sound_session rfl).run PlanLock.clash_comm ops

/-- A step that is no edit leaves a plan alone, or consumes its
instant. -/
theorem step_unedited (hsys : Running cron calls sys) {op : Move ι}
    (hrow : sys.db.schedules.find? id = some row) (hop : Unedited calls id sys op) :
    ((sys.step PlanLock.clash op).db.schedules.find? id = some row
      ∧ instants id (sys.step PlanLock.clash op).db.fired = instants id sys.db.fired)
    ∨ ∃ t next now, row.nextRunAt = some t
      ∧ cron.nextCronTime row.cronExpression row.timezone t = some next
      ∧ (sys.step PlanLock.clash op).db.schedules.find? id = some (row.advance next now)
      ∧ instants id (sys.step PlanLock.clash op).db.fired = instants id sys.db.fired ++ [t]
      ∧ (sys.step PlanLock.clash op).db.db.scheduleTaken row.definitionID (some t) = true := by
  rcases hsys.moves PlanLock.clash_comm op with heq | hmoves
  · rw [heq]
    exact Or.inl ⟨hrow, rfl⟩
  rcases hmoves.effect with ⟨f, hfires⟩ | hquiet
  · have hinstants : instants id (sys.step PlanLock.clash op).db.fired = instants id sys.db.fired
          ++ if f.item.id = id then [f.item.fireTime] else [] := by
      unfold instants
      rw [hfires.noted, List.filter_append]
      by_cases hid : f.item.id = id <;> simp [hid]
    by_cases hid : f.item.id = id
    · subst hid
      obtain ⟨row', next, now, hrow', hnext, hafter⟩ := hfires.advanced
      obtain ⟨row'', hrow'', hmatches⟩ := hfires.inForce.1
      cases hrow.symm.trans hrow'
      cases hrow.symm.trans hrow''
      refine Or.inr ⟨f.item.fireTime, next, now, hmatches.fireTime, hnext, hafter, ?_, ?_⟩
      · rw [hinstants, if_pos rfl]
      · rw [hmatches.definitionID]
        exact hfires.taken
    · refine Or.inl ⟨(hfires.others id (Ne.symm hid)).trans hrow, ?_⟩
      rw [hinstants, if_neg hid, List.append_nil]
  · refine Or.inl ⟨?_, by rw [hquiet.noted]⟩
    rcases hop with hedits | hsame
    · exact (hquiet.schedules id hedits).trans hrow
    · exact hsame.trans hrow

section Running

variable (hsys : Running cron calls sys) {d : String} {t : Int}
  (h : sys.db.db.scheduleTaken d (some t) = true)

include hsys h

theorem taken_stays (op : Move ι) :
    (sys.step PlanLock.clash op).db.db.scheduleTaken d (some t) = true := by
  rcases hsys.moves PlanLock.clash_comm op with heq | hmoves
  · rwa [heq]
  · exact hmoves.stays d t h

theorem taken_stays_run (ops : List (Move ι)) :
    (Transition.run (System.step PlanLock.clash) sys ops).db.db.scheduleTaken
      d (some t) = true := by
  induction ops generalizing sys with
  | nil => exact h
  | cons op ops ih =>
    exact ih (hsys.step PlanLock.clash_comm op) (taken_stays hsys h op)

end Running

/-- What a plan has consumed on the way from one state to a later one, and
where it stands then. -/
structure Consumed (cron : Cron) (id : String) (row : Schedule)
    (p p' : Plans) (ts : List Int) (row' : Schedule) : Prop where
  after : p'.schedules.find? id = some row'
  definitionID : row'.definitionID = row.definitionID
  expression : row'.cronExpression = row.cronExpression
  timezone : row'.timezone = row.timezone
  fired : instants id p'.fired = instants id p.fired ++ ts
  successive : Successive (cron.nextCronTime row.cronExpression row.timezone)
      row.nextRunAt ts row'.nextRunAt
  taken : ∀ t ∈ ts, p'.db.scheduleTaken row.definitionID (some t) = true

/-- A plan that nobody edits consumes its instants one after the other. -/
theorem run_unedited {ops : List (Move ι)} (hsys : Running cron calls sys)
    (hrow : sys.db.schedules.find? id = some row)
    (hops : Transition.Guarded (System.step PlanLock.clash) (Unedited calls id) sys ops) :
    ∃ ts row', Consumed cron id row sys.db
      (Transition.run (System.step PlanLock.clash) sys ops).db ts row' := by
  induction ops generalizing sys row with
  | nil =>
    exact ⟨[], row, hrow, rfl, rfl, rfl, (List.append_nil _).symm, .nil _,
      fun _ h => absurd h List.not_mem_nil⟩
  | cons op ops ih =>
    obtain ⟨hop, hrest⟩ := hops
    have hsys' := hsys.step PlanLock.clash_comm op
    rcases step_unedited hsys hrow hop with
      ⟨hrow', hsame⟩ | ⟨t, next, now, hnow, hnext, hrow', hmore, htaken⟩
    · obtain ⟨ts, row', hc⟩ := ih hsys' hrow' hrest
      exact ⟨ts, row', { hc with fired := by rw [← hsame]; exact hc.fired }⟩
    obtain ⟨ts, row', hc⟩ := ih hsys' hrow' hrest
    refine ⟨t :: ts, row', hc.after, hc.definitionID, hc.expression, hc.timezone, ?_, ?_, ?_⟩
    · have hfired := hc.fired
      rw [hmore, List.append_assoc] at hfired
      exact hfired
    · rw [hnow]
      exact .cons hnext hc.successive
    · intro t' ht'
      rcases List.mem_cons.mp ht' with rfl | hmem
      · exact taken_stays_run hsys' htaken ops
      · exact hc.taken t' hmem

/-- Calls that edit other plans, or none. -/
theorem guarded_unedited (h : ∀ i, (calls i).edits ≠ some id) (ops : List (Move ι)) :
    Transition.Guarded (System.step PlanLock.clash) (Unedited calls id) sys ops := by
  induction ops generalizing sys with
  | nil => trivial
  | cons op ops ih => exact ⟨Or.inl (h op.client), ih⟩

/-- A run that a step adds is the run of a plan in force. -/
theorem step_runs (hsys : Running cron calls sys) (op : Move ι) {r : TaskRun}
    (hr : r ∈ (sys.step PlanLock.clash op).db.db.runs.rows) :
    (∃ r₀ ∈ sys.db.db.runs.rows, r₀.id = r.id ∧ r₀.taskDefinitionId = r.taskDefinitionId
      ∧ r₀.scheduledFor = r.scheduledFor)
    ∨ ∃ f, (sys.step PlanLock.clash op).db.fired = sys.db.fired ++ [f]
      ∧ f.run = some r.id ∧ f.item.definitionID = r.taskDefinitionId
      ∧ r.scheduledFor = some f.item.fireTime ∧ InForce f.item sys.db := by
  rcases hsys.moves PlanLock.clash_comm op with heq | hmoves
  · rw [heq] at hr
    exact Or.inl ⟨r, hr, rfl, rfl, rfl⟩
  rcases hmoves.effect with ⟨f, hfires⟩ | hquiet
  · rcases hfires.runs r hr with hold | ⟨hid, hdefinition, hfor⟩
    · exact Or.inl ⟨r, hold, rfl, rfl, rfl⟩
    · exact Or.inr ⟨f, hfires.noted, hid, hdefinition.symm, hfor, hfires.inForce⟩
  · exact Or.inl (hquiet.runs r hr)

/-- However the scans and the edits interleave: there is one run for each
definition and instant; a plan that nobody edits consumes its instants one
after the other from the one it has, and each has its run; and a run is
committed only for a plan that is then as it was read, with its definition
enabled. -/
theorem firings_once (cron : Cron) (calls : ι → PlanCall) (p : Plans)
    (hp : Planned p) (ops : List (Move ι)) :
    let sys := Transition.run (System.step PlanLock.clash) (launch cron calls p) ops
    Planned sys.db
    ∧ (∀ id row, sys.db.schedules.find? id = some row → ∀ more,
        Transition.Guarded (System.step PlanLock.clash) (Unedited calls id) sys more →
        ∃ ts row', ts.Pairwise (· < ·) ∧ Consumed cron id row sys.db
          (Transition.run (System.step PlanLock.clash) sys more).db ts row')
    ∧ ∀ op, ∀ r ∈ (sys.step PlanLock.clash op).db.db.runs.rows,
        (∃ r₀ ∈ sys.db.db.runs.rows, r₀.id = r.id ∧ r₀.taskDefinitionId = r.taskDefinitionId
          ∧ r₀.scheduledFor = r.scheduledFor)
        ∨ ∃ f, (sys.step PlanLock.clash op).db.fired = sys.db.fired ++ [f]
          ∧ f.run = some r.id ∧ f.item.definitionID = r.taskDefinitionId
          ∧ r.scheduledFor = some f.item.fireTime
          ∧ InForce f.item sys.db := by
  intro sys
  have hsys : Running cron calls sys := running_launch hp ops
  refine ⟨hsys.holds, fun id row hrow more hmore => ?_,
    fun op r hr => step_runs hsys op hr⟩
  obtain ⟨ts, row', hc⟩ := run_unedited hsys hrow hmore
  refine ⟨ts, row', ?_, hc⟩
  exact (hc.successive.increasing fun _ _ => Cron.lt_nextCronTime).1

end Histories

namespace Hourly

/-- Every hour on the hour. -/
def cron : Cron where
  parses := fun _ => true
  located := fun _ => true
  fires := fun _ _ t => t % (60 * minute) = 0
  limit := fun _ t => t + 120 * minute

/-- One plan, due at noon. -/
def plan : Schedule where
  id := "plan"
  definitionID := "task"
  cronExpression := "0 * * * *"
  timezone := "UTC"
  enabled := true
  nextRunAt := some (720 * minute)
  createdAt := 0
  updatedAt := 0

def plans : Plans where
  db := runOps .empty (Sample.setup [Sample.definition "task" 1])
  schedules := ⟨[plan], by decide⟩
  fired := []

/-- Two scans at half past one. -/
def calls (second : Bool) : PlanCall :=
  .due (810 * minute) fun _ =>
    { freshID := if second then "second" else "first"
      now := 810 * minute
      cancelled := false }

/-- Statement by statement in turn. -/
def ops : List (Move Bool) :=
  (List.replicate 20 [Move.go false, Move.go true]).flatten

end Hourly

theorem firings_once_hourly : (Transition.run (System.step PlanLock.clash)
      (launch Hourly.cron Hourly.calls Hourly.plans) Hourly.ops).db.fired.length = 1
    ∧ ∃ ts row', ts.Pairwise (· < ·) ∧ Consumed Hourly.cron "plan" Hourly.plan Hourly.plans
        (Transition.run (System.step PlanLock.clash)
          (launch Hourly.cron Hourly.calls Hourly.plans) Hourly.ops).db ts row' :=
  ⟨by decide +kernel, (firings_once Hourly.cron Hourly.calls Hourly.plans
      (fun _ hr => absurd hr List.not_mem_nil) []).2.1 "plan" Hourly.plan (by decide) Hourly.ops
      (guarded_unedited (fun _ h => by cases h) Hourly.ops)⟩

end Yunling.Task
