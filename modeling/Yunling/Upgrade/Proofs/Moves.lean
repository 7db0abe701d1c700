/-
What a call can do to the targets of a plan, said once.

Under one command a target only ever goes deeper into its states
(`TargetStatus.depth`); it goes back only under a command with a new id.
`Target.Moved` says this of one target, and where and when it may change
at all; `Plan.Evolves` says it of a plan. Every call of the service and
of the coordinator is shown to evolve the plan it reads.
-/
import Yunling.Lib.Pointwise
import Yunling.Upgrade.Proofs.Turns

namespace Yunling.Upgrade

open Fallible

-- ======== moves

/-- How far a target has come under its command. -/
def TargetStatus.depth : TargetStatus → Nat
  | .waiting => 0
  | .draining => 1
  | .downloading => 2
  | .verifying => 3
  | .installing => 4
  | .reconnecting => 5
  | .healthChecking => 6
  | .succeeded => 7
  | .rollingBack => 8
  | .rolledBack => 9
  | .cancelled => 10
  | .manualIntervention => 11

theorem depth_le_manual (status : TargetStatus) :
    status.depth ≤ TargetStatus.manualIntervention.depth := by
  cases status <;> simp [TargetStatus.depth]

/-- The target was given to its agent, or is being drained for that. -/
def Target.begun (t : Target) : Prop :=
  t.status ≠ .waiting ∧ t.status ≠ .cancelled

/-- The columns of a target that no call changes. -/
structure Target.Same (t t' : Target) : Prop where
  id : t'.id = t.id
  serverID : t'.serverID = t.serverID
  batchNumber : t'.batchNumber = t.batchNumber
  sourceVersion : t'.sourceVersion = t.sourceVersion
  targetVersion : t'.targetVersion = t.targetVersion

theorem Target.Same.refl (t : Target) : t.Same t := ⟨rfl, rfl, rfl, rfl, rfl⟩

theorem Target.Same.trans {t t' t'' : Target} (h : t.Same t') (h' : t'.Same t'') : t.Same t'' :=
  ⟨h'.id.trans h.id, h'.serverID.trans h.serverID, h'.batchNumber.trans h.batchNumber,
    h'.sourceVersion.trans h.sourceVersion, h'.targetVersion.trans h.targetVersion⟩

/-- What a call at `now` does to a target of a plan whose current batch
is `batch`, with ids from `issued` on; a target that is being drained
has been so for at most `bound`. -/
inductive Target.Moved (now : Int) (issued batch : Nat) (bound : Int) (t : Target) : Target → Prop
  | kept : Moved now issued batch bound t t
  | moved (t' : Target) (same : t.Same t') (place : t.batchNumber = batch
        ∨ t.status = .waiting ∧ t'.status = .cancelled)
      (time : t'.updatedAt = now) (started : t'.status ≠ .waiting)
      (cancelled : t'.status = .cancelled → t.status = .waiting) (order : t'.commandID = t.commandID
          ∧ t.status.depth ≤ t'.status.depth ∨ issued ≤ t'.commandID)
      (drains : t'.status = .draining → ∀ startedAt ∈ t'.startedAt, now - startedAt ≤ bound)
      (began : t'.startedAt = t.startedAt ∨ t.status = .waiting ∧ t'.startedAt = some now) :
      Moved now issued batch bound t t'

section Moves

variable {now : Int} {issued batch : Nat} {bound : Int} {t t' t'' : Target}

section Moved

variable (h : t.Moved now issued batch bound t')

include h

theorem Target.Moved.same : t.Same t' := by
  cases h with
  | kept => exact .refl t
  | moved _ same => exact same

theorem Target.Moved.begun (hb : t.begun) : t'.begun := by
  cases h with
  | kept => exact hb
  | moved _ same place time started cancelled =>
    exact ⟨started, fun hc => hb.1 (cancelled hc)⟩

theorem Target.Moved.waiting (hw : t'.status = .waiting) : t' = t := by
  cases h with
  | kept => rfl
  | moved _ same place time started => exact absurd hw started

theorem Target.Moved.trans (h' : t'.Moved now issued batch bound t'') :
    t.Moved now issued batch bound t'' := by
  cases h with
  | kept => exact h'
  | moved _ same place time started cancelled order drains began =>
    cases h' with
    | kept =>
      exact .moved _ same place time started cancelled order drains began
    | moved _ same' place' time' started' cancelled' order' drains' began' =>
      -- what moved once is not waiting any more
      have hkept : t''.startedAt = t'.startedAt := began'.resolve_right fun h => started h.1
      refine .moved _ (same.trans same') ?_ time' started' ?_ ?_ drains' (hkept ▸ began)
      · rcases place' with hbatch | ⟨hwaiting, -⟩
        · exact Or.inl (same.batchNumber.symm.trans hbatch)
        · exact absurd hwaiting started
      · exact fun hc => absurd (cancelled' hc) started
      · rcases order' with ⟨hcommand, hdepth⟩ | hnew
        · rcases order with ⟨hcommand', hdepth'⟩ | hnew'
          · exact Or.inl ⟨hcommand.trans hcommand', hdepth'.trans hdepth⟩
          · exact Or.inr (by omega)
        · exact Or.inr hnew

end Moved

theorem Target.Moved.mono {issued' : Nat} (hle : issued ≤ issued')
    (h : t.Moved now issued' batch bound t') : t.Moved now issued batch bound t' := by
  cases h with
  | kept => exact .kept
  | moved _ same place time started cancelled order drains began =>
    refine .moved _ same place time started cancelled ?_ drains began
    rcases order with hsame | hnew
    · exact Or.inl hsame
    · exact Or.inr (by omega)

end Moves

-- ======== plans

/-- What a call at `now` with ids from `issued` on does to a plan, the
end of a scan apart. -/
structure Plan.Evolves (now : Int) (issued : Nat) (p p' : Plan) : Prop where
  release : p'.targetReleaseID = p.targetReleaseID
  drain : p'.drainTimeoutSeconds = p.drainTimeoutSeconds
  reconnect : p'.reconnectTimeoutSeconds = p.reconnectTimeoutSeconds
  verification : p'.verificationSeconds = p.verificationSeconds
  revision : p'.revision = p.revision
  batch : p'.currentBatch = p.currentBatch
  cancel : p'.cancelRequested = p.cancelRequested
  targets : List.Forall₂ (Target.Moved now issued p.currentBatch p.drainTimeout)
    p.targets p'.targets

section Plans

variable {now : Int} {issued : Nat} {p p' p'' : Plan}

theorem Plan.Evolves.refl (p : Plan) : p.Evolves now issued p := ⟨rfl, rfl, rfl, rfl, rfl, rfl, rfl,
    List.forall₂_same.mpr fun _ _ => .kept⟩

theorem Plan.Evolves.drainTimeout (h : p.Evolves now issued p') :
    p'.drainTimeout = p.drainTimeout := by
  unfold Plan.drainTimeout
  rw [h.drain]

theorem Plan.Evolves.reconnectTimeout (h : p.Evolves now issued p') :
    p'.reconnectTimeout = p.reconnectTimeout := by
  unfold Plan.reconnectTimeout
  rw [h.reconnect]

theorem Plan.Evolves.trans (h : p.Evolves now issued p')
    (h' : p'.Evolves now issued p'') : p.Evolves now issued p'' := by
  refine ⟨h'.release.trans h.release, h'.drain.trans h.drain, h'.reconnect.trans h.reconnect,
    h'.verification.trans h.verification, h'.revision.trans h.revision,
    h'.batch.trans h.batch, h'.cancel.trans h.cancel, ?_⟩
  have htargets := h'.targets
  rw [h.batch, h.drainTimeout] at htargets
  exact Pointwise.trans (fun _ _ _ => Target.Moved.trans) h.targets htargets

theorem Plan.Evolves.mono {issued' : Nat} (hle : issued ≤ issued')
    (h : p.Evolves now issued' p') : p.Evolves now issued p' :=
  { h with targets := h.targets.imp fun _ _ hm => hm.mono hle }

/-- A target of before is one of after, moved. -/
theorem Plan.Evolves.mem_left (h : p.Evolves now issued p') {t : Target}
    (ht : t ∈ p.targets) : ∃ t' ∈ p'.targets, t.Moved now issued p.currentBatch p.drainTimeout t' :=
  Pointwise.mem_left h.targets ht

/-- A target of after is one of before, moved. -/
theorem Plan.Evolves.mem_right (h : p.Evolves now issued p') {t' : Target}
    (ht : t' ∈ p'.targets) : ∃ t ∈ p.targets, t.Moved now issued p.currentBatch p.drainTimeout t' :=
  Pointwise.mem_right h.targets ht

/-- One target moves, and with it the columns of the plan that say how
it is going. -/
theorem Plan.Evolves.put {i : Nat} {t t' : Target} (ht : p.targets[i]? = some t)
    (hm : t.Moved now issued p.currentBatch p.drainTimeout t')
    (status : PlanStatus) (pauseReason : String) (finishedAt : Option Int) :
    p.Evolves now issued { p with
      targets := p.targets.set i t', status, pauseReason, finishedAt } :=
  ⟨rfl, rfl, rfl, rfl, rfl, rfl, rfl, Pointwise.set (fun _ => .kept) ht hm⟩

end Plans

-- ======== rollback

/-- What a rollback of `batch` makes of a target, with ids from `issued`
up to `drawn`. -/
inductive Target.RollsTo (batch failed : Nat) (errorCode : String)
    (now : Int) (issued drawn : Nat) (t : Target) : Target → Prop
  | left (h : t.batchNumber ≠ batch ∨ t.status.settled = true) :
      RollsTo batch failed errorCode now issued drawn t t
  /-- nothing was installed, so the target is done at once -/
  | done (hb : t.batchNumber = batch) (hs : t.status.settled = false)
      (hu : t.uninstalled failed errorCode = true) :
      RollsTo batch failed errorCode now issued drawn t { t with
        status := .rolledBack, updatedAt := now, finishedAt := some now }
  | told (commandID : Nat) (hb : t.batchNumber = batch) (hs : t.status.settled = false)
      (hu : t.uninstalled failed errorCode = false)
      (hlow : issued ≤ commandID) (hhigh : commandID < drawn) :
      RollsTo batch failed errorCode now issued drawn t { t with
        status := .rollingBack, commandID, updatedAt := now
        finishedAt := none }

section Rollback

variable {batch failed : Nat} {errorCode : String} {now : Int}
  {issued drawn : Nat} {bound : Int} {t t' : Target}

theorem Target.RollsTo.mono {issued' : Nat} (hle : issued ≤ issued')
    (h : t.RollsTo batch failed errorCode now issued' drawn t') :
    t.RollsTo batch failed errorCode now issued drawn t' := by
  cases h with
  | left h => exact .left h
  | done hb hs hu => exact .done hb hs hu
  | told commandID hb hs hu hlow hhigh =>
    exact .told commandID hb hs hu (Nat.le_trans hle hlow) hhigh

variable (h : t.RollsTo batch failed errorCode now issued drawn t')

include h

theorem Target.RollsTo.moved : t.Moved now issued batch bound t' := by
  cases h with
  | left => exact .kept
  | done hb hs hu =>
    refine .moved _ ⟨rfl, rfl, rfl, rfl, rfl⟩ (Or.inl hb) rfl (by simp)
      (by simp) (Or.inl ⟨rfl, ?_⟩) (by simp) (Or.inl rfl)
    cases hst : t.status <;>
      simp_all [TargetStatus.settled, TargetStatus.depth]
  | told commandID hb hs hu hlow hhigh =>
    exact .moved _ ⟨rfl, rfl, rfl, rfl, rfl⟩ (Or.inl hb) rfl (by simp)
      (by simp) (Or.inr hlow) (by simp) (Or.inl rfl)

theorem Target.RollsTo.settled (hb : t'.batchNumber = batch) : t'.status.settled = true := by
  cases h with
  | left h => exact h.resolve_left (not_not.mpr hb)
  | done => rfl
  | told => rfl

end Rollback

/-- The loop of a rollback, target by target. -/
theorem rollbackTargets_rolls (plan : Plan) (batch failed : Nat) (errorCode : String) (now : Int) :
    ∀ (targets : List Target) (issued : Nat),
      let r := rollbackTargets plan batch failed errorCode now targets issued
      issued ≤ r.2.2 ∧ List.Forall₂
        (Target.RollsTo batch failed errorCode now issued r.2.2) targets r.1
  | [], issued => ⟨Nat.le_refl _, .nil⟩
  | t :: targets, issued => by
      unfold rollbackTargets
      dsimp only
      split
      · next hleft =>
        obtain ⟨hle, hrest⟩ := rollbackTargets_rolls plan batch failed errorCode now targets issued
        exact ⟨hle, .cons (.left hleft) hrest⟩
      next hleft =>
      rw [not_or, not_not, Bool.not_eq_true] at hleft
      split
      · next hu =>
        obtain ⟨hle, hrest⟩ := rollbackTargets_rolls plan batch failed
          errorCode now targets issued
        exact ⟨hle, .cons (.done hleft.1 hleft.2 hu) hrest⟩
      · next hu =>
        rw [Bool.not_eq_true] at hu
        obtain ⟨hle, hrest⟩ := rollbackTargets_rolls plan batch failed
          errorCode now targets (issued + 1)
        refine ⟨Nat.le_of_succ_le hle, .cons (.told issued hleft.1 hleft.2 hu (Nat.le_refl _) hle)
          (hrest.imp fun _ _ h => h.mono (Nat.le_succ _))⟩

/-- Its commands are those of the targets that begin to roll back. -/
theorem rollbackTargets_commands (plan : Plan) (batch failed : Nat)
    (errorCode : String) (now : Int) : ∀ (targets : List Target) (issued : Nat),
      let r := rollbackTargets plan batch failed errorCode now targets issued
      (∀ c ∈ r.2.1, ∃ t' ∈ r.1, t'.status = .rollingBack
          ∧ c.serverID = t'.serverID ∧ c.command = rollbackCommand plan t')
        ∧ ∀ t' ∈ r.1, t'.status = .rollingBack → t' ∈ targets
          ∨ t'.updatedAt = now ∧ t'.batchNumber = batch ∧ issued ≤ t'.commandID
            ∧ ⟨t'.serverID, rollbackCommand plan t'⟩ ∈ r.2.1
  | [], issued => ⟨(fun c hc => by cases hc), fun t' ht' => by cases ht'⟩
  | t :: targets, issued => by
      unfold rollbackTargets
      dsimp only
      have hskip : ∀ {first : Target} {r : List Target × List SentCommand
            × Nat}, (first = t ∨ first.status ≠ .rollingBack) →
          ((∀ c ∈ r.2.1, ∃ t' ∈ r.1, t'.status = .rollingBack ∧ c.serverID = t'.serverID
              ∧ c.command = rollbackCommand plan t')
            ∧ ∀ t' ∈ r.1, t'.status = .rollingBack → t' ∈ targets
              ∨ t'.updatedAt = now ∧ t'.batchNumber = batch ∧ issued ≤ t'.commandID
                ∧ ⟨t'.serverID, rollbackCommand plan t'⟩ ∈ r.2.1) →
          (∀ c ∈ r.2.1, ∃ t' ∈ first :: r.1, t'.status = .rollingBack ∧ c.serverID = t'.serverID
              ∧ c.command = rollbackCommand plan t')
            ∧ ∀ t' ∈ first :: r.1, t'.status = .rollingBack → t' ∈ t :: targets ∨ t'.updatedAt = now
                ∧ t'.batchNumber = batch ∧ issued ≤ t'.commandID
                ∧ ⟨t'.serverID, rollbackCommand plan t'⟩ ∈ r.2.1 := by
        rintro first r hfirst ⟨hfor, htold⟩
        refine ⟨fun c hc => ?_, fun t' ht' hst => ?_⟩
        · obtain ⟨t', ht', h⟩ := hfor c hc
          exact ⟨t', List.mem_cons_of_mem _ ht', h⟩
        · rcases List.mem_cons.mp ht' with rfl | ht'
          · rcases hfirst with rfl | hne
            · exact Or.inl List.mem_cons_self
            · exact absurd hst hne
          · exact (htold t' ht' hst).imp_left (List.mem_cons_of_mem _)
      split
      · exact hskip (Or.inl rfl) (rollbackTargets_commands plan batch failed
          errorCode now targets issued)
      next hleft =>
      rw [not_or, not_not] at hleft
      split
      · exact hskip (Or.inr (by simp)) (rollbackTargets_commands plan batch failed errorCode now
            targets issued)
      -- the first target begins to roll back, under a new command
      obtain ⟨hfor, htold⟩ := rollbackTargets_commands plan batch failed
        errorCode now targets (issued + 1)
      refine ⟨fun c hc => ?_, fun t' ht' hst => ?_⟩
      · rcases List.mem_cons.mp hc with rfl | hc
        · exact ⟨_, List.mem_cons_self, rfl, rfl, rfl⟩
        · obtain ⟨t', ht', h⟩ := hfor c hc
          exact ⟨t', List.mem_cons_of_mem _ ht', h⟩
      · rcases List.mem_cons.mp ht' with rfl | ht'
        · exact Or.inr ⟨rfl, hleft.1, Nat.le_refl _, List.mem_cons_self⟩
        · exact (htold t' ht' hst).imp (List.mem_cons_of_mem _)
            fun ⟨htime, hb, hnew, hc⟩ => ⟨htime, hb,
              Nat.le_of_succ_le hnew, List.mem_cons_of_mem _ hc⟩

/-- What the loop of a rollback does: the targets move, the batch is
settled, and every command is for a target that is rolling back. -/
structure RolledBack (plan : Plan) (now : Int) (issued batch : Nat)
    (bound : Int) (targets : List Target)
    (result : List Target × List SentCommand × Nat) : Prop where
  moved : List.Forall₂ (Target.Moved now issued batch bound) targets result.1
  below : (∀ t ∈ targets, t.commandID < issued) → ∀ t' ∈ result.1, t'.commandID < result.2.2
  kinds : ∀ t' ∈ result.1, t' ∈ targets ∨ t'.status.settled = true
  issued : issued ≤ result.2.2
  settled : ∀ t' ∈ result.1, t'.batchNumber = batch → t'.status.settled = true
  commands : ∀ c ∈ result.2.1, ∃ t' ∈ result.1, t'.status = .rollingBack ∧ c.serverID = t'.serverID
      ∧ c.command = rollbackCommand plan t'

theorem Plan.rolledBack (p : Plan) (batch failed : Nat) (errorCode : String) (now : Int)
    (issued : Nat) : RolledBack p now issued batch p.drainTimeout p.targets
      (rollbackTargets p batch failed errorCode now p.targets issued) := by
  obtain ⟨hle, hrolls⟩ := rollbackTargets_rolls p batch failed errorCode now p.targets issued
  refine ⟨hrolls.imp fun _ _ h => h.moved, fun hb t' ht' => ?_,
    fun t' ht' => ?_, hle, fun t' ht' hb => ?_,
    (rollbackTargets_commands p batch failed errorCode now p.targets issued).1⟩
  · obtain ⟨t, ht, h⟩ := Pointwise.mem_right hrolls ht'
    cases h with
    | left => exact Nat.lt_of_lt_of_le (hb t' ht) hle
    | done => exact Nat.lt_of_lt_of_le (hb t ht) hle
    | told commandID _ _ _ _ hhigh => exact hhigh
  · obtain ⟨t, ht, h⟩ := Pointwise.mem_right hrolls ht'
    cases h with
    | left => exact Or.inl ht
    | done => exact Or.inr rfl
    | told => exact Or.inr rfl
  · obtain ⟨t, -, h⟩ := Pointwise.mem_right hrolls ht'
    exact h.settled hb

/-- A rollback of the current batch evolves the plan. -/
theorem rollbackBatch_evolves (p : Plan) (failed : Nat) (errorCode : String) (now : Int)
    (issued : Nat) :
    p.Evolves now issued (rollbackBatch p p.currentBatch failed errorCode now issued).1 :=
  ⟨rfl, rfl, rfl, rfl, rfl, rfl, rfl,
    (p.rolledBack p.currentBatch failed errorCode now issued).moved⟩

-- ======== scans

/-- What a turn of a scan does. -/
structure Scan.Moves (s s' : Scan) : Prop where
  now : s'.now = s.now
  plan : s.plan.Evolves s.now s.issued s'.plan
  issued : s.issued ≤ s'.issued
  below : (∀ t ∈ s.plan.targets, t.commandID < s.issued) →
    ∀ t ∈ s'.plan.targets, t.commandID < s'.issued
  unchanged : s'.changed = false → s.changed = false ∧ s'.plan = s.plan
  commands : ∀ c ∈ s'.commands, c ∈ s.commands
    ∨ ∃ t ∈ s'.plan.targets, t.id = c.command.targetID ∧ t.begun
  mayStart : s.mayStart = false → s'.mayStart = false
  active : s.plan.status.active = true → s'.plan.status.active = true

namespace Scan

variable {s s' s'' : Scan} {i : Nat} {t : Target} {reads : Reads}

theorem Moves.refl (s : Scan) : s.Moves s :=
  ⟨rfl, .refl _, Nat.le_refl _, fun h => h, fun h => ⟨h, rfl⟩,
    fun _ h => Or.inl h, fun h => h, fun h => h⟩

theorem Moves.trans (h : s.Moves s') (h' : s'.Moves s'') : s.Moves s'' := by
  have hplan := h'.plan
  rw [h.now] at hplan
  have hplan := hplan.mono h.issued
  refine ⟨h'.now.trans h.now, h.plan.trans hplan,
    Nat.le_trans h.issued h'.issued, fun hb => h'.below (h.below hb),
    fun hc => ?_, fun c hc => ?_, fun hs => h'.mayStart (h.mayStart hs),
    fun ha => h'.active (h.active ha)⟩
  · obtain ⟨hmiddle, heq⟩ := h'.unchanged hc
    obtain ⟨hstart, heq'⟩ := h.unchanged hmiddle
    exact ⟨hstart, heq.trans heq'⟩
  rcases h'.commands c hc with hc | hnew
  · rcases h.commands c hc with hc | ⟨t, ht, hid, hb⟩
    · exact Or.inl hc
    · obtain ⟨t', ht', hm⟩ := h'.plan.mem_left ht
      exact Or.inr ⟨t', ht', hm.same.id.trans hid, hm.begun hb⟩
  · exact Or.inr hnew

/-- A target of the current batch goes deeper. -/
theorem Moves.put (ht : s.plan.targets[i]? = some t) (hb : t.batchNumber = s.plan.currentBatch)
    {t' : Target} (same : t.Same t') (time : t'.updatedAt = s.now) (started : t'.status ≠ .waiting)
    (cancelled : t'.status ≠ .cancelled) (command : t'.commandID = t.commandID)
    (depth : t.status.depth ≤ t'.status.depth)
    (drains : t'.status = .draining → t'.startedAt = some s.now)
    (began : t'.startedAt = t.startedAt ∨ t.status = .waiting ∧ t'.startedAt = some s.now) :
    s.Moves (s.put i t') := by
  refine ⟨rfl, ?_, Nat.le_refl _, fun hb t'' ht'' => ?_,
    (fun h => by cases h), fun _ h => Or.inl h, fun h => h, fun h => h⟩
  case refine_2 =>
    rcases List.mem_or_eq_of_mem_set ht'' with ht'' | rfl
    · exact hb t'' ht''
    · rw [command]
      exact hb t (List.mem_of_getElem? ht)
  have hmoved : t.Moved s.now s.issued s.plan.currentBatch s.plan.drainTimeout t' := by
    refine .moved _ same (Or.inl hb) time started
      (fun h => absurd h cancelled) (Or.inl ⟨command, depth⟩) ?_ began
    intro hd startedAt hmem
    rw [drains hd, Option.mem_some] at hmem
    have hbound : 0 ≤ s.plan.drainTimeout := by
      unfold Plan.drainTimeout second
      omega
    omega
  exact Plan.Evolves.put ht hmoved s.plan.status s.plan.pauseReason s.plan.finishedAt

/-- The plan is paused, and nothing new begins. -/
theorem Moves.pause (h : s.Moves s') (pauseReason : String)
    {mayStart : Bool} (hm : s'.mayStart = false → mayStart = false) : s.Moves { s' with
      plan := { s'.plan with status := .paused, pauseReason }
      changed := true
      mayStart } :=
  ⟨h.now, { h.plan with }, h.issued, h.below, (fun h => by cases h),
    h.commands, fun hs => hm (h.mayStart hs), fun _ => rfl⟩

theorem Moves.send (h : s.Moves s') {c : SentCommand}
    (hc : ∃ t ∈ s'.plan.targets, t.id = c.command.targetID ∧ t.begun) :
    s.Moves { s' with commands := s'.commands ++ [c] } := by
  refine ⟨h.now, h.plan, h.issued, h.below, h.unchanged, fun c' hc' => ?_, h.mayStart, h.active⟩
  rcases List.mem_append.mp hc' with hc' | hc'
  · exact h.commands c' hc'
  · rw [List.mem_singleton.mp hc']
    exact Or.inr hc

theorem Moves.sourceVersionChanged (ht : s.plan.targets[i]? = some t)
    (hb : t.batchNumber = s.plan.currentBatch) : s.Moves (s.sourceVersionChanged i t) := by
  have hput : s.Moves (s.put i (t.sourceVersionChanged s.now)) :=
    .put ht hb ⟨rfl, rfl, rfl, rfl, rfl⟩ rfl (by simp [Target.sourceVersionChanged])
      (by simp [Target.sourceVersionChanged]) rfl (depth_le_manual _)
      (by simp [Target.sourceVersionChanged]) (Or.inl rfl)
  exact hput.pause sourceChangedText fun _ => rfl

theorem Moves.rollback (hb : t.batchNumber = s.plan.currentBatch)
    (errorCode : String) : s.Moves (s.rollback t errorCode) := by
  have hrolled := s.plan.rolledBack t.batchNumber t.id errorCode s.now s.issued
  refine ⟨rfl, ?_, hrolled.issued, hrolled.below, (fun h => by cases h),
    fun c hc => ?_, fun h => h, fun _ => rfl⟩
  · have hev := rollbackBatch_evolves s.plan t.id errorCode s.now s.issued
    rw [← hb] at hev
    exact hev
  · rcases List.mem_append.mp hc with hc | hc
    · exact Or.inl (List.mem_filter.mp hc).1
    · obtain ⟨t', ht', hst, -, hcommand⟩ := hrolled.commands c hc
      exact Or.inr ⟨t', ht', by rw [hcommand]; rfl, by simp [Target.begun, hst]⟩

/-- Every turn of the loop moves targets of the current batch. -/
theorem visit_moves (h : visit reads s i = .ok s') : s.Moves s' := by
  cases visit_turned h with
  | left => exact .refl s
  | drained here status mayStart =>
    exact .put here.at_index here.batch ⟨rfl, rfl, rfl, rfl, rfl⟩ rfl
      (by simp [Target.drain]) (by simp [Target.drain]) rfl
      (by simp [status, Target.drain, TargetStatus.depth]) (fun _ => rfl) (Or.inr ⟨status, rfl⟩)
  | expired => exact (Moves.refl s).pause _ fun h => h
  | switched here => exact .sourceVersionChanged here.at_index here.batch
  | @downloads t runtime a here status =>
    have hput : s.Moves (s.put i (t.download s.now)) :=
      .put here.at_index here.batch ⟨rfl, rfl, rfl, rfl, rfl⟩ rfl
        (by simp [Target.download]) (by simp [Target.download]) rfl
        (by simp [status, Target.download, TargetStatus.depth])
        (by simp [Target.download]) (Or.inl rfl)
    exact hput.send ⟨t.download s.now, List.mem_set here.lt _, rfl,
      by simp [Target.begun, Target.download]⟩
  | repeated here status =>
    refine (Moves.refl s).send ⟨_, here.mem, rfl, fun hw => ?_, fun hc => ?_⟩
    · rw [hw] at status
      cases status
    · rw [hc] at status
      cases status
  | failed here => exact .rollback here.batch _
  | succeeded here status =>
    exact .put here.at_index here.batch ⟨rfl, rfl, rfl, rfl, rfl⟩ rfl
      (by simp [Target.succeed]) (by simp [Target.succeed]) rfl
      (by simp [status, Target.succeed, TargetStatus.depth]) (by simp [Target.succeed]) (Or.inl rfl)
  | @lost t here status =>
    have hput : s.Moves (s.put i (t.rollbackTimeout s.now)) :=
      .put here.at_index here.batch ⟨rfl, rfl, rfl, rfl, rfl⟩ rfl (by simp [Target.rollbackTimeout])
        (by simp [Target.rollbackTimeout]) rfl
        (depth_le_manual _) (by simp [Target.rollbackTimeout]) (Or.inl rfl)
    exact hput.pause _ fun h => h
  | resent here status =>
    exact (Moves.refl s).send ⟨_, here.mem, rfl, by simp [Target.begun, status]⟩

theorem visits_moves {indices : List Nat}
    (h : indices.foldlM (visit reads) s = .ok s') : s.Moves s' :=
  foldlM_rel (R := Moves) .refl .trans visit_moves h

end Scan

end Yunling.Upgrade
