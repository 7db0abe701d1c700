/-
Batches that are finished.

A plan goes from batch to batch: the next one begins when all targets of
the current one have succeeded, and the plan has succeeded with its last
batch. `Plan.Orderly` is that order. It is kept by every call but one:
`ApplyUpgradeEvent` looks a target up by its command alone, and takes
`failed` for a target of whatever batch. A failure that arrives after the
batch of its target is done (`takesBack`) rolls that batch back, and the
plan goes on with the current one.

# Main results

- `finished_batches_stay`: without such a failure, batches before the
  current one have succeeded, and so has every target of a plan that has.
- `late_failure_reopens_batch`: with one, they have not.
-/
import Yunling.Upgrade.Proofs.Calls

namespace Yunling.Upgrade

open Fallible

-- ======== order

/-- The batches of a plan are done one after the other. -/
structure Plan.Orderly (p : Plan) : Prop where
  current : 1 ≤ p.currentBatch
  /-- no batch is left out -/
  filled : ∀ t ∈ p.targets, 1 < t.batchNumber → ∃ t' ∈ p.targets, t'.batchNumber + 1 = t.batchNumber
  earlier : ∀ t ∈ p.targets, t.batchNumber < p.currentBatch → t.status = .succeeded
  done : p.status = .succeeded → ∀ t ∈ p.targets, t.status = .succeeded

/-- What a call does to the targets of earlier batches, if it spares
them. -/
structure Plan.Spares (p p' : Plan) : Prop where
  batch : p'.currentBatch = p.currentBatch
  targets : List.Forall₂ (fun t t' : Target =>
    t'.batchNumber = t.batchNumber ∧ (t.batchNumber < p.currentBatch → t.status = .succeeded →
        t'.status = .succeeded)) p.targets p'.targets

section Order

variable {p p' : Plan} {t : Target} {issued batch : Nat} {now : Int}

theorem Plan.Orderly.ordered (h : p.Orderly) (rank : Nat → Nat) : (p.ordered rank).Orderly where
  current := h.current
  filled t ht hb := by
    obtain ⟨t', ht', heq⟩ := h.filled t (mem_ordered.mp ht) hb
    exact ⟨t', mem_ordered.mpr ht', heq⟩
  earlier t ht := h.earlier t (mem_ordered.mp ht)
  done hd t ht := h.done hd t (mem_ordered.mp ht)

/-- What spares the earlier batches keeps the order, as long as the plan
is not over. -/
theorem Plan.Orderly.spares (h : p.Orderly) (hs : p.Spares p')
    (hstatus : p'.status ≠ .succeeded) : p'.Orderly := by
  refine ⟨hs.batch ▸ h.current, fun t' ht' hb => ?_, fun t' ht' hb => ?_,
    fun hd => absurd hd hstatus⟩
  · obtain ⟨t, ht, hbatch, -⟩ := Pointwise.mem_right hs.targets ht'
    obtain ⟨t₁, ht₁, heq⟩ := h.filled t ht (hbatch ▸ hb)
    obtain ⟨t₁', ht₁', hbatch₁, -⟩ := Pointwise.mem_left hs.targets ht₁
    exact ⟨t₁', ht₁', by omega⟩
  · obtain ⟨t, ht, hbatch, hkept⟩ := Pointwise.mem_right hs.targets ht'
    have hlt : t.batchNumber < p.currentBatch := by
      rw [← hbatch, ← hs.batch]
      exact hb
    exact hkept hlt (h.earlier t ht hlt)

/-- Batches follow each other, so the first one missing is the end. -/
theorem Plan.Orderly.last (h : p.Orderly) (hlast : p.hasBatch (p.currentBatch + 1) = false)
    (ht : t ∈ p.targets) : t.batchNumber ≤ p.currentBatch := by
  have hnone : ∀ n, ∀ t ∈ p.targets, t.batchNumber ≠ p.currentBatch + 1 + n := by
    intro n
    induction n with
    | zero =>
      intro t ht heq
      simp only [Plan.hasBatch, List.any_eq_false, beq_iff_eq] at hlast
      exact hlast t ht heq
    | succ n ih =>
      intro t ht heq
      obtain ⟨t', ht', hbefore⟩ := h.filled t ht (by omega)
      exact ih t' ht' (by omega)
  by_contra hgt
  exact hnone (t.batchNumber - (p.currentBatch + 1)) t ht (by omega)

theorem Plan.batchSucceeded_iff (h : p.batchSucceeded batch = true) (ht : t ∈ p.targets)
    (hb : t.batchNumber = batch) : t.status = .succeeded := by
  simp only [Plan.batchSucceeded, Bool.and_eq_true, List.all_eq_true] at h
  simpa [hb] using h.2 t ht

theorem Scan.leave_orderly {scan : Scan} (h : scan.plan.Orderly) : scan.leave.plan.Orderly := by
  unfold Scan.leave
  split
  · exact { h with done := fun hd => by cases hd }
  split
  · next hdone =>
    rw [Bool.and_eq_true] at hdone
    have hcurrent : ∀ t ∈ scan.plan.targets, t.batchNumber ≤ scan.plan.currentBatch →
        t.status = .succeeded := by
      intro t ht hle
      rcases Nat.lt_or_eq_of_le hle with hlt | heq
      · exact h.earlier t ht hlt
      · exact Plan.batchSucceeded_iff hdone.2 ht heq
    split
    · next hnext =>
      -- one batch on: its targets have not succeeded
      refine ⟨Nat.le_succ_of_le h.current, h.filled,
        fun t ht hb => hcurrent t ht (Nat.le_of_lt_succ hb), fun hd t ht => h.done hd t ht⟩
    · next hlast =>
      rw [Bool.not_eq_true] at hlast
      exact { h with
        done := fun _ t ht => hcurrent t ht (h.last hlast ht) }
  · exact h

theorem Plan.Evolves.spares (h : p.Evolves now issued p') : p.Spares p' := by
  refine ⟨h.batch, h.targets.imp fun t t' hm => ⟨hm.same.batchNumber, fun hlt hdone => ?_⟩⟩
  cases hm with
  | kept => exact hdone
  | moved _ same place =>
    rcases place with heq | ⟨hw, -⟩
    · omega
    · rw [hdone] at hw
      cases hw

/-- One target is rewritten, which has not succeeded or is not of an
earlier batch. -/
theorem Plan.Spares.put {i : Nat} {t' : Target} (ht : p.targets[i]? = some t)
    (hbatch : p'.currentBatch = p.currentBatch) (htargets : p'.targets = p.targets.set i t')
    (hsame : t'.batchNumber = t.batchNumber)
    (hfree : t.status ≠ .succeeded ∨ p.currentBatch ≤ t.batchNumber) : p.Spares p' := by
  refine ⟨hbatch, htargets ▸ Pointwise.set (fun t => ⟨rfl, fun _ h => h⟩)
    ht ⟨hsame, fun hlt hdone => ?_⟩⟩
  rcases hfree with hne | hle
  · exact absurd hdone hne
  · omega

/-- A rollback of a batch that is not an earlier one. -/
theorem Plan.Spares.rollback {failed : Nat} {errorCode : String} (hle : p.currentBatch ≤ batch) :
    p.Spares (rollbackBatch p batch failed errorCode now issued).1 := by
  have hrolled := p.rolledBack batch failed errorCode now issued
  refine ⟨rfl, hrolled.moved.imp fun t t' hm => ⟨hm.same.batchNumber, fun hlt hdone => ?_⟩⟩
  cases hm with
  | kept => exact hdone
  | moved _ same place =>
    rcases place with heq | ⟨hw, -⟩
    · omega
    · rw [hdone] at hw
      cases hw

end Order

-- ======== calls

/-- An agent reports a failure of a target whose batch is done. -/
def takesBack (s : Store) : Call → Bool
  | .event _ serverID e _ => e.stage == .failed
    && s.plan.targets.any fun t => t.id == e.targetID
      && t.serverID == serverID && t.commandID == e.commandID
      && t.batchNumber < s.plan.currentBatch
  | _ => false

section Calls

variable {s : Store} {rank : Nat → Nat} {call : Call} {o : Outcome}
  {p p' : Plan} {issued : Nat}

/-- A failure that takes nothing back is not one of an earlier batch. -/
theorem current_failure {t : Target} {e : UpgradeEvent} {now : Int}
    {serverID : String} {fate : Store.Fate} (ht : t ∈ s.plan.targets)
    (hanswers : t.Answers serverID e.targetID e.commandID) (hstage : e.stage = .failed)
    (h : takesBack s (.event now serverID e fate) = false) :
    s.plan.currentBatch ≤ t.batchNumber := by
  simp only [takesBack, hstage, beq_self_eq_true, Bool.true_and, List.any_eq_false] at h
  have hnot := h t ht
  simp only [hanswers.id, hanswers.serverID, hanswers.commandID,
    beq_self_eq_true, Bool.true_and, decide_eq_true_eq, not_lt] at hnot
  exact hnot

theorem PlanStatus.active_ne {status : PlanStatus}
    (h : status.active = true) : status ≠ .succeeded := by
  rintro rfl
  cases h

/-- A call that takes nothing back keeps the order. -/
theorem Decided.orderly (hd : Decided s.plan s.issued call o)
    (h : s.plan.Orderly) (hkeeps : takesBack s call = false) (hp' : p' ∈ o.save) : p'.Orderly := by
  cases hd with
  | scan active loop =>
    have hm := Scan.visits_moves loop
    split at hp'
    · cases hp'
      exact Scan.leave_orderly (h.spares hm.plan.spares (PlanStatus.active_ne (hm.active active)))
    · cases hp'
  | ignored | noted => cases hp'
  | stuck active ht answers stage =>
    cases hp'
    have hle := current_failure (List.mem_of_getElem? ht) answers stage hkeeps
    refine h.spares (.put ht rfl rfl rfl (Or.inr hle)) ?_
    exact PlanStatus.active_ne rfl
  | failed active ht answers stage =>
    cases hp'
    have hle := current_failure (List.mem_of_getElem? ht) answers stage hkeeps
    exact h.spares (.rollback hle) (PlanStatus.active_ne rfl)
  | advanced active ht answers stage moves forward =>
    cases hp'
    have hne := (forward_depth stage moves forward).2.1
    exact h.spares (.put ht rfl rfl rfl (Or.inl hne)) (PlanStatus.active_ne active)
  | back active ht upgrade answers status
  | right active ht upgrade answers status =>
    cases hp'
    refine h.spares (.put ht rfl rfl rfl (Or.inl ?_)) (PlanStatus.active_ne active)
    simp [status]
  | wrong active ht upgrade answers status =>
    cases hp'
    refine h.spares (.put ht rfl rfl rfl (Or.inl ?_)) (PlanStatus.active_ne rfl)
    simp [status]
  | paused | resumed =>
    cases hp'
    exact { h with done := fun hd => by cases hd }
  | cancelled status pauseReason finishedAt active ends =>
    cases hp'
    refine h.spares ⟨rfl, List.forall₂_map_right_iff.mpr (List.forall₂_same.mpr fun t _ => ?_)⟩ ?_
    · refine ⟨(cancelTarget_moved _ s.issued 0 0 t).same.batchNumber, fun _ hdone => ?_⟩
      unfold Plan.cancelTarget
      rw [if_neg (by simp [hdone])]
      exact hdone
    · rw [ends]
      split <;> simp
  | retried cancel ht id status =>
    cases hp'
    refine h.spares (.put ht rfl rfl rfl (Or.inl ?_)) (PlanStatus.active_ne rfl)
    rcases status with hst | hst <;> simp [hst]

theorem takesBack_ordered (rank : Nat → Nat) (s : Store) (call : Call) :
    takesBack { s with plan := s.plan.ordered rank } call = takesBack s call := by
  cases call with
  | event now serverID e fate =>
    have hany : ∀ f : Target → Bool, (s.plan.ordered rank).targets.any f = s.plan.targets.any f :=
      fun f => (List.perm_insertionSort _ s.plan.targets).any_eq
    have hbatch : (s.plan.ordered rank).currentBatch = s.plan.currentBatch := rfl
    simp only [takesBack, hany, hbatch]
  | _ => rfl

theorem step_orderly (h : s.plan.Orderly) (hkeeps : takesBack s call = false) :
    (s.step rank call).plan.Orderly := by
  rcases step_plan rank s call with hsame | ⟨o, p, ho, hp, hsaved⟩
  · rw [hsame]
    exact h
  · rw [hsaved]
    rw [← takesBack_ordered rank] at hkeeps
    exact { ho.orderly (s := { s with plan := s.plan.ordered rank })
      (h.ordered rank) hkeeps hp with }

end Calls

-- ======== creation

theorem batchOf_pred {batchSize index : Nat} (h : 1 < batchOf batchSize index) :
    ∃ before < index, batchOf batchSize before + 1 = batchOf batchSize index := by
  have hindex : index ≠ 0 := by
    rintro rfl
    simp [batchOf] at h
  by_cases hfirst : (index - 1) / batchSize = 0
  · refine ⟨0, Nat.pos_of_ne_zero hindex, ?_⟩
    simp [batchOf, hindex, hfirst]
  -- a batch size earlier, which is still behind the first server
  have hle : batchSize ≤ index - 1 := by
    by_contra hgt
    exact hfirst (Nat.div_eq_of_lt (Nat.not_le.mp hgt))
  have hpos : 0 < batchSize := by
    rcases Nat.eq_zero_or_pos batchSize with rfl | hpos
    · simp at hfirst
    · exact hpos
  refine ⟨index - batchSize, by omega, ?_⟩
  have hsub : index - batchSize - 1 = index - 1 - batchSize := by omega
  have hdiv := Nat.div_eq_sub_div hpos hle
  have hne : index - batchSize ≠ 0 := by omega
  simp only [batchOf, hindex, hne, if_false, hsub]
  omega

theorem newTarget_mem {plan : Plan} {release : ReleaseInfo} {now : Int}
    {servers : List ServerInfo} {index : Nat} (h : index < servers.length) :
    newTarget plan release now (plan.id + 1 + 2 * index) index servers[index]
      ∈ (plan.withTargets release now servers).1.targets := by
  refine List.mem_map.mpr ⟨(servers[index], index), ?_, rfl⟩
  rw [List.mem_zipIdx_iff_getElem?]
  exact List.getElem?_eq_getElem h

theorem created_orderly {input : CreatePlanInput} {rollbackSource : Option Target} {active : Bool}
    {reads : Reads} {now : Int} {issued drawn : Nat} {plan : Plan}
    (h : createPlan input rollbackSource active reads now issued = .ok (plan, drawn)) :
    plan.Orderly := by
  obtain ⟨release, servers, heq⟩ := createPlan_ok h
  cases heq
  refine ⟨Nat.le_refl _, fun t ht hb => ?_, fun t ht hb => ?_, fun hd => by cases hd⟩
  · obtain ⟨server, index, hlt, rfl⟩ := mem_withTargets ht
    obtain ⟨before, hbefore, hpred⟩ := batchOf_pred hb
    exact ⟨_, newTarget_mem (Nat.lt_trans hbefore hlt), hpred⟩
  · obtain ⟨server, index, hlt, rfl⟩ := mem_withTargets ht
    have hpos := batchOf_pos input.applyPlanDefaults.batchSize index
    exact absurd hb (Nat.not_lt.mpr hpos)

-- ======== the result

/-- After any calls without a failure that comes too late, all batches
before the current one have succeeded, and a plan has succeeded with all
its targets. -/
theorem finished_batches_stay (rank : Nat → Nat) {input : CreatePlanInput}
    {rollbackSource : Option Target} {active : Bool} {reads : Reads}
    {now : Int} {issued drawn : Nat} {plan : Plan}
    (hcreate : createPlan input rollbackSource active reads now issued
      = .ok (plan, drawn)) (calls : List Call) (hcalls : Transition.Guarded (Store.step rank)
      (fun s call => takesBack s call = false) (Store.created plan drawn now) calls) :
    let s := Transition.run (Store.step rank) (Store.created plan drawn now) calls
    (∀ t ∈ s.plan.targets, t.batchNumber < s.plan.currentBatch → t.status = .succeeded)
      ∧ (s.plan.status = .succeeded → ∀ t ∈ s.plan.targets, t.status = .succeeded) := by
  intro s
  have horderly : s.plan.Orderly := hcalls.invariant
    (I := fun s => s.plan.Orderly) (fun _ _ h hg => step_orderly h hg) (created_orderly hcreate)
  exact ⟨horderly.earlier, horderly.done⟩

/-- After any calls in time, no target of a batch after the current one
has begun, and its agent was never sent a command. -/
theorem later_batches_wait (rank : Nat → Nat) {input : CreatePlanInput}
    {rollbackSource : Option Target} {active : Bool} {reads : Reads}
    {now : Int} {issued drawn : Nat} {plan : Plan}
    (hcreate : createPlan input rollbackSource active reads now issued = .ok (plan, drawn))
    (calls : List Call) (hcalls : Transition.Guarded (Store.step rank)
      (fun s call => lawful s call = true ∧ timely s call = true)
      (Store.created plan drawn now) calls) :
    let s := Transition.run (Store.step rank) (Store.created plan drawn now) calls
    ∀ t ∈ s.plan.targets, s.plan.currentBatch < t.batchNumber →
      ¬ t.begun ∧ ∀ c ∈ s.sent, c.command.targetID ≠ t.id := by
  intro s t ht hlater
  have hinv : s.Inv := inv_run hcreate hcalls
  have hwaits := hinv.later t ht hlater
  exact ⟨hwaits, fun c hc heq => hwaits (hinv.sent c hc t ht heq.symm)⟩

/-- A plan for two servers, one after the other. -/
def twoServers : CreatePlanInput :=
  { oneServer with serverIDs := ["first", "second"] }

/-- What is created from it at time `0`. -/
def twoPlan : Plan × Nat :=
  let release : ReleaseInfo := ⟨"release", "1.1.0", .available, [selfUpgradeCapability],
    [⟨"linux", "amd64", "agent", "sum", "url", 1⟩]⟩
  (newPlan twoServers.applyPlanDefaults release 0 0).withTargets release 0
    (["first", "second"].map fun id => ⟨id, .online, "1.0.0", "linux",
      "amd64", true, false, [selfUpgradeCapability]⟩)

/-- The first server is upgraded. -/
def upgradesFirst : List Call :=
  [.scan 0 (fleet old 0) ⟨true, true, 0⟩, .scan second (fleet old second) ⟨true, true, 1⟩,
    .event (2 * second) "first" ⟨1, 2, .reconnecting, 2 * second, "", ""⟩ ⟨true, true, 0⟩,
    .heartbeat (3 * second) ⟨"first", "1.1.0", some (2, 1)⟩ ⟨true, true, 0⟩,
    .scan (60 * second) (fleet (fun _ => "1.1.0") (60 * second)) ⟨true, true, 0⟩]

/-- The second batch begins with the first one done. -/
theorem finished_batches_stay_second :
    let s := Transition.run (Store.step id) (Store.created twoPlan.1 twoPlan.2 0) upgradesFirst
    s.plan.currentBatch = 2 ∧ ∀ t ∈ s.plan.targets, t.batchNumber < s.plan.currentBatch →
        t.status = .succeeded :=
  ⟨by decide, (@finished_batches_stay id twoServers none false (fleet old 0)
    0 0 twoPlan.2 twoPlan.1 rfl upgradesFirst (by decide)).1⟩

/-- The first server installs, and the second one waits. -/
theorem later_batches_wait_second :
    let s := Transition.run (Store.step id) (Store.created twoPlan.1 twoPlan.2 0)
      (upgradesFirst.take 2)
    (s.plan.targets.any fun t => s.plan.currentBatch < t.batchNumber) = true
      ∧ ∀ t ∈ s.plan.targets, s.plan.currentBatch < t.batchNumber → ¬ t.begun :=
  ⟨by decide, fun t ht hlater => (@later_batches_wait id twoServers none false (fleet old 0)
    0 0 twoPlan.2 twoPlan.1 rfl (upgradesFirst.take 2) (by decide) t ht hlater).1⟩

/-- A failure of the first server that arrives then rolls it back, and it
is no longer what a batch before the current one has to be. -/
theorem late_failure_reopens_batch :
    createPlan twoServers none false (fleet old 0) 0 0 = .ok twoPlan
      ∧ let s := Transition.run (Store.step id)
          (Store.created twoPlan.1 twoPlan.2 0) (upgradesFirst
            ++ [.event (61 * second) "first"
              ⟨1, 2, .failed, 61 * second, "apply_failed", ""⟩
              ⟨true, true, 1⟩])
        s.plan.currentBatch = 2
          ∧ ∃ t ∈ s.plan.targets, t.batchNumber < s.plan.currentBatch
            ∧ t.status = .rollingBack := by
  refine ⟨rfl, by decide, by decide⟩

end Yunling.Upgrade
