/-
When a pause takes effect.

A plan that is paused starts nothing, scan after scan. In the scan that
pauses it this is not so: a drain or a rollback that takes too long
pauses the plan, but what the loop may start is decided before the loop
and taken back only when a version does not match. A target whose turn
comes later is still drained, or told to install (`Overtaken`).

# Turns

What a turn does depends on the target, on what is read of its server,
and on the parts of the scan that `Scan.terms` collects. Until a turn
rolls the batch back, or finds another version, they are as they were
before the loop, and the targets ahead are as well (`clear_state`).
-/
import Yunling.Upgrade.Proofs.Failures

namespace Yunling.Upgrade

open Fallible

namespace Scan

-- ======== verdicts

/-- The turn of a target finds that its agent runs something else. -/
def switches (s : Scan) (reads : Reads) (t : Target) : Bool :=
  match reads.runtime t.serverID with
  | .error _ => false
  | .ok runtime =>
    if t.status = .draining then
      s.drains && !s.drainExpired t && idle runtime && runtime.agentVersion != t.sourceVersion
    else t.status.underway && runtime.agentVersion != t.sourceVersion
      && runtime.agentVersion != t.targetVersion

/-- The turn of a target pauses the plan and leaves the rest of the
batch. -/
def halts (s : Scan) (reads : Reads) (t : Target) : Bool :=
  match t.status with
  | .draining => s.drains && s.drainExpired t || s.switches reads t
  | .rollingBack => s.plan.reconnectTimeout ≤ s.now - t.updatedAt
  | _ => s.switches reads t

/-- The turn of a target starts it, or tells it to install. -/
def starts (s : Scan) (reads : Reads) (t : Target) : Bool :=
  match t.status with
  | .waiting => s.mayStart
  | .draining => s.drains && !s.drainExpired t
    && match reads.runtime t.serverID with
      | .error _ => false
      | .ok runtime => idle runtime && runtime.agentVersion == t.sourceVersion
  | _ => false

/-- A target that had not begun to install was moved on, or a command was
computed for it. -/
def Starts (s s' : Scan) (i : Nat) : Prop :=
  ∃ t, s.plan.targets[i]? = some t ∧ (t.status = .waiting ∨ t.status = .draining)
    ∧ ((∃ t', s'.plan.targets[i]? = some t' ∧ t'.status ≠ t.status
        ∧ (t'.status = .draining ∨ t'.status = .downloading))
      ∨ s'.commands ≠ s.commands)

/-- The scan after the turns before `i`. -/
def Reached (reads : Reads) (s : Scan) (i : Nat) (s' : Scan) : Prop :=
  (List.range i).foldlM (visit reads) s = .ok s'

/-- Once a turn has paused the plan, no later turn starts anything. -/
def PausesAtOnce (reads : Reads) (s₀ : Scan) : Prop :=
  ∀ i j s s' u u', i < j → j < s₀.plan.targets.length →
    Reached reads s₀ i s → Reached reads s₀ (i + 1) s' →
    s.plan.status ≠ .paused → s'.plan.status = .paused →
    Reached reads s₀ j u → Reached reads s₀ (j + 1) u' → ¬ Starts u u' j

/-- No turn before `k` rolls the batch back or, unless the plan is being
cancelled, finds another version. -/
def Clear (reads : Reads) (s : Scan) (k : Nat) : Prop :=
  ∀ i < k, ∀ t, s.Here i t → s.fails reads t = false
    ∧ (s.plan.cancelRequested = true ∨ s.switches reads t = false)

/-- A turn pauses the plan, and a later one starts a target. -/
def Overtaken (reads : Reads) (s : Scan) : Prop :=
  s.plan.status ≠ .paused ∧ ∃ i j t u, i < j ∧ s.Here i t ∧ s.Here j u
    ∧ s.halts reads t = true ∧ s.starts reads u = true
    ∧ s.Clear reads j

-- ======== turns

variable {s s' s₀ : Scan} {i k : Nat} {t : Target} {reads : Reads}

/-- What a turn that does not roll the batch back does. -/
structure Spec (reads : Reads) (s : Scan) (i : Nat) (t : Target) (s' : Scan) : Prop where
  others : ∀ j, j ≠ i → s'.plan.targets[j]? = s.plan.targets[j]?
  mayStart : s'.mayStart = (s.mayStart && !s.switches reads t)
  paused : s'.plan.status = .paused ↔ s.plan.status = .paused ∨ s.halts reads t = true
  starts : Starts s s' i ↔ s.starts reads t = true

theorem starts_iff (here : s.Here i t) : Starts s s' i
    ↔ (t.status = .waiting ∨ t.status = .draining)
      ∧ ((∃ t', s'.plan.targets[i]? = some t' ∧ t'.status ≠ t.status
          ∧ (t'.status = .draining ∨ t'.status = .downloading)) ∨ s'.commands ≠ s.commands) := by
  simp [Starts, here.at_index]

theorem not_starts_self (s : Scan) (i : Nat) : ¬ Starts s s i := by
  rintro ⟨t, ht, -, ⟨t', ht', hne, -⟩ | hne⟩
  · rw [ht] at ht'
    exact hne (Option.some.inj ht' ▸ rfl)
  · exact hne rfl

theorem Spec.same (hswitches : s.switches reads t = false) (hhalts : s.halts reads t = false)
    (hstarts : s.starts reads t = false) : Spec reads s i t s :=
  ⟨fun _ _ => rfl, by simp [hswitches], by simp [hhalts],
    iff_of_false (not_starts_self s i) (by simp [hstarts])⟩

/-- The target is set aside for an operator. -/
theorem Spec.switched (here : s.Here i t) (hswitches : s.switches reads t = true)
    (hhalts : s.halts reads t = true) (hstarts : s.starts reads t = false) :
    Spec reads s i t (s.sourceVersionChanged i t) := by
  refine ⟨fun j hj => List.getElem?_set_ne hj.symm, by
    simp [hswitches, sourceVersionChanged], by
    simp [hhalts, sourceVersionChanged], ?_⟩
  simp [starts_iff here, hstarts, sourceVersionChanged, put, here.lt, Target.sourceVersionChanged]

theorem visitDraining_spec (here : s.Here i t) (hst : t.status = .draining)
    (h : s.visitDraining reads i t = .ok s') : Spec reads s i t s' := by
  unfold visitDraining at h
  cases hdrains : s.drains with
  | false =>
    rw [hdrains] at h
    cases h
    refine .same ?_ ?_ ?_ <;>
      simp [switches, halts, starts, hst, hdrains] <;> split <;> rfl
  | true =>
    cases hlate : s.drainExpired t with
    | true =>
      simp only [hdrains, hlate] at h
      cases h
      have hswitches : s.switches reads t = false := by
        simp only [switches, hst, hlate]
        split <;> simp
      refine ⟨fun _ _ => rfl, by simp [hswitches], by simp [halts, hst, hdrains, hlate], ?_⟩
      simp [starts_iff here, starts, hst, hlate, here.at_index]
    | false =>
      simp only [hdrains, hlate] at h
      obtain ⟨-, -, h⟩ := ok_of_bind h
      obtain ⟨runtime, hread, h⟩ := ok_of_bind h
      cases hidle : idle runtime with
      | false =>
        simp only [hidle] at h
        cases h
        refine .same ?_ ?_ ?_ <;>
          simp [switches, halts, starts, hst, hlate, hread, hidle]
      | true =>
        simp only [hidle] at h
        by_cases hversion : runtime.agentVersion = t.sourceVersion
        · rw [if_neg (by simp), if_neg (not_not.mpr hversion)] at h
          obtain ⟨a, -, h⟩ := ok_of_bind h
          cases h
          refine ⟨fun j hj => List.getElem?_set_ne hj.symm, ?_, ?_, ?_⟩ <;>
            simp [switches, halts, starts, starts_iff here, hst, hdrains,
              hlate, hread, hidle, hversion, put, send, here.lt, Target.download]
        · rw [if_neg (by simp), if_pos hversion] at h
          cases h
          refine .switched here ?_ ?_ ?_ <;>
            simp [switches, halts, starts, hst, hdrains, hlate, hread, hidle, hversion]

/-- A turn is a failure, or does what its verdicts say. -/
theorem visit_spec (here : s.Here i t) (hfails : s.fails reads t = false)
    (h : visit reads s i = .ok s') : Spec reads s i t s' := by
  unfold visit at h
  simp only [here.at_index, here.batch, ne_eq, not_true, if_false] at h
  have hquiet : ∀ status, t.status = status → status.underway = false →
      status ≠ .waiting → status ≠ .draining → status ≠ .rollingBack → Spec reads s i t s := by
    intro status hst hu hw hd hr
    have hswitches : s.switches reads t = false := by
      simp only [switches, hst, hd, hu]
      split <;> simp
    refine .same hswitches ?_ ?_ <;> subst hst
    · unfold halts
      split <;> simp_all
    · unfold starts
      split <;> simp_all
  cases hst : t.status with
  | waiting =>
    have hswitches : s.switches reads t = false := by
      simp only [switches, hst, TargetStatus.underway]
      split <;> simp
    simp only [hst] at h
    split at h
    · next hmay =>
      cases h
      refine ⟨fun j hj => List.getElem?_set_ne hj.symm, ?_, ?_, ?_⟩ <;>
        simp [halts, starts, starts_iff here, hst, hswitches, hmay, put, here.lt, Target.drain]
    · next hmay =>
      cases h
      refine .same hswitches ?_ ?_ <;>
        simp_all [halts, starts]
  | draining =>
    rw [hst] at h
    exact visitDraining_spec here hst h
  | downloading | verifying | installing =>
    simp only [hst, visitInstalling] at h
    obtain ⟨runtime, hread, h⟩ := ok_of_bind h
    split at h
    · next hversion =>
      cases h
      refine .switched here ?_ ?_ ?_ <;>
        simp [switches, halts, starts, hst, hread, hversion, TargetStatus.underway]
    · next hversion =>
      obtain ⟨a, -, h⟩ := ok_of_bind h
      cases h
      have hswitches : s.switches reads t = false := by
        simpa [switches, hst, hread, TargetStatus.underway] using hversion
      refine ⟨fun _ _ => rfl, ?_, ?_, ?_⟩ <;>
        simp [halts, starts, starts_iff here, hst, hswitches, send]
  | reconnecting =>
    simp only [hst, visitReconnecting] at h
    simp only [fails, hst, decide_eq_false_iff_not] at hfails
    rw [if_neg hfails] at h
    cases h
    exact hquiet _ hst rfl (by simp) (by simp) (by simp)
  | healthChecking =>
    simp only [hst, visitHealthChecking] at h
    obtain ⟨runtime, hread, h⟩ := ok_of_bind h
    simp only [fails, hst, hread, Bool.or_eq_false_iff,
      Bool.and_eq_false_iff, decide_eq_false_iff_not] at hfails
    rw [hfails.1, if_neg (by simp)] at h
    split at h
    · cases h
      exact hquiet _ hst rfl (by simp) (by simp) (by simp)
    next hlong =>
    rw [hfails.2.resolve_left (not_not.mpr (Int.not_lt.mp hlong))] at h
    have hs' : s' = s.put i (t.succeed s.now) := by
      cases hdrained : t.sourceDraining with
      | true => simpa [hdrained, pure, Except.pure] using h.symm
      | false =>
        cases hset : reads.setServerDraining t.serverID false <;>
          simp_all [bind, Except.bind, pure, Except.pure]
    obtain ⟨-, hmay, hpaused, -⟩ := hquiet _ hst rfl (by simp) (by simp) (by simp)
    refine hs' ▸ ⟨fun j hj => List.getElem?_set_ne hj.symm, hmay, hpaused, ?_⟩
    simp [starts, starts_iff here, hst]
  | rollingBack =>
    have hswitches : s.switches reads t = false := by
      simp only [switches, hst, TargetStatus.underway]
      split <;> simp
    simp only [hst, visitRollingBack] at h
    split at h <;> cases h
    · refine ⟨fun j hj => List.getElem?_set_ne hj.symm, ?_, ?_, ?_⟩ <;>
        simp_all [halts, starts, starts_iff here, put]
    · refine ⟨fun _ _ => rfl, ?_, ?_, ?_⟩ <;>
        simp_all [halts, starts, starts_iff here]
  | succeeded | rolledBack | manualIntervention | cancelled =>
    rw [hst] at h
    cases h
    exact hquiet _ hst rfl (by simp) (by simp) (by simp)

/-- Only the turn of a target of the batch does anything. -/
theorem visit_absent (hnot : ∀ t, ¬ s.Here i t) (h : visit reads s i = .ok s') : s' = s := by
  cases visit_turned h with
  | left => rfl
  | drained here | expired here | switched here | downloads here
  | repeated here | failed here | succeeded here | lost here
  | resent here => exact absurd here (hnot _)

theorem starts_of_visit (h : visit reads s i = .ok s') (hstarts : Starts s s' i) :
    ∃ t, s.Here i t ∧ s.starts reads t = true := by
  by_cases hhere : ∃ t, s.Here i t
  · obtain ⟨t, here⟩ := hhere
    refine ⟨t, here, ?_⟩
    cases hfails : s.fails reads t with
    | false => exact (visit_spec here hfails h).starts.mp hstarts
    | true =>
      rcases ((starts_iff here).mp hstarts).1 with hst | hst <;>
        simp [fails, hst] at hfails
  · push Not at hhere
    obtain rfl := visit_absent hhere h
    exact absurd hstarts (not_starts_self s' i)

/-- Nothing starts any more: the batch is settled, or the loop may start
nothing. -/
def Stopped (s : Scan) : Prop :=
  (∀ t ∈ s.plan.targets, t.batchNumber = s.plan.currentBatch → t.status.settled = true)
  ∨ s.mayStart = false ∧ s.plan.cancelRequested = false

theorem Stopped.not_starts (hs : s.Stopped) (here : s.Here i t) : s.starts reads t = false := by
  rcases hs with hs | ⟨hmay, hcancel⟩
  · have hsettled := hs t here.mem here.batch
    unfold starts
    split <;> simp_all [TargetStatus.settled]
  · unfold starts
    split <;> simp [drains, hmay, hcancel]

theorem Stopped.visit (hs : s.Stopped) (h : visit reads s i = .ok s') : s'.Stopped := by
  rcases hs with hs | ⟨hmay, hcancel⟩
  · refine Or.inl ?_
    rcases (visit_turned h).settled fun t here => hs t here.mem here.batch
      with ⟨rfl, -⟩ | ⟨t, -, -, -, rfl⟩ | ⟨t, -, -, -, rfl⟩
    · exact hs
    · intro u hu hb
      rcases List.mem_or_eq_of_mem_set hu with hold | rfl
      · exact hs u hold hb
      · rfl
    · exact hs
  · have hmoves := visit_moves h
    exact Or.inr ⟨hmoves.mayStart hmay, hmoves.plan.cancel.trans hcancel⟩

-- ======== loops

theorem reached_succ : Reached reads s₀ (k + 1) s'
    ↔ ∃ s, Reached reads s₀ k s ∧ Scan.visit reads s k = .ok s' := by
  unfold Reached
  rw [List.range_succ, List.foldlM_append]
  constructor
  · intro h
    obtain ⟨s, hs, h⟩ := ok_of_bind h
    obtain ⟨_, hvisit, h⟩ := ok_of_bind h
    cases h
    exact ⟨s, hs, hvisit⟩
  · rintro ⟨s, hs, hvisit⟩
    simp [hs, hvisit, bind, Except.bind, pure, Except.pure]

/-- A loop that ends has been at each of its turns. -/
theorem Reached.earlier {n : Nat} (h : Reached reads s₀ n s') (hk : k ≤ n) :
    ∃ s, Reached reads s₀ k s := by
  induction n generalizing s' with
  | zero => exact ⟨s', Nat.le_zero.mp hk ▸ h⟩
  | succ n ih =>
    obtain ⟨s, hs, -⟩ := reached_succ.mp h
    rcases Nat.le_succ_iff.mp hk with hk | rfl
    · exact ih hs hk
    · exact ⟨s', h⟩

theorem Stopped.reached (hs : s₀.Stopped) (h : Reached reads s₀ k s) : s.Stopped := by
  induction k generalizing s with
  | zero => cases h; exact hs
  | succ k ih =>
    obtain ⟨s', hs', hvisit⟩ := reached_succ.mp h
    exact (ih hs').visit hvisit

/-- What the verdicts on a target depend on, besides `mayStart`. -/
def terms (s : Scan) : Int × Nat × Bool × Int × Int × Int :=
  (s.now, s.plan.currentBatch, s.plan.cancelRequested,
    s.plan.drainTimeout, s.plan.reconnectTimeout, s.plan.verification)

theorem Moves.terms (h : s.Moves s') : s'.terms = s.terms := by
  simp [Scan.terms, h.now, h.plan.batch, h.plan.cancel,
    h.plan.drainTimeout, h.plan.reconnectTimeout, Plan.verification, h.plan.verification]

/-- The scan is as it was before the loop, as far as the turns from `k` on
are concerned. -/
structure Onward (reads : Reads) (s₀ : Scan) (k : Nat) (s : Scan) : Prop where
  terms : s.terms = s₀.terms
  mayStart : s.mayStart = s₀.mayStart
  targets : ∀ j, k ≤ j → s.plan.targets[j]? = s₀.plan.targets[j]?
  paused : s.plan.status = .paused ↔ s₀.plan.status = .paused
    ∨ ∃ i < k, ∃ t, s₀.Here i t ∧ s₀.halts reads t = true

theorem Onward.here (h : Onward reads s₀ k s) {j : Nat} (hj : k ≤ j) :
    s.Here j t ↔ s₀.Here j t := by
  have hbatch : s.plan.currentBatch = s₀.plan.currentBatch := congrArg (·.2.1) h.terms
  constructor
  · exact fun here => ⟨h.targets j hj ▸ here.at_index, here.batch.trans hbatch⟩
  · exact fun here => ⟨h.targets j hj ▸ here.at_index, here.batch.trans hbatch.symm⟩

theorem Onward.verdicts (h : Onward reads s₀ k s) (t : Target) : s.fails reads t = s₀.fails reads t
      ∧ s.switches reads t = s₀.switches reads t ∧ s.halts reads t = s₀.halts reads t
      ∧ s.starts reads t = s₀.starts reads t := by
  have hterms := h.terms
  simp only [Scan.terms, Prod.mk.injEq] at hterms
  obtain ⟨hnow, -, hcancel, hdrain, hreconnect, hverify⟩ := hterms
  have hswitches : s.switches reads t = s₀.switches reads t := by
    simp only [switches, drains, drainExpired, h.mayStart, hnow, hcancel, hdrain]
  refine ⟨?_, hswitches, ?_, ?_⟩
  · simp only [fails, hnow, hreconnect, hverify]
  · simp only [halts, drains, drainExpired, h.mayStart, hnow, hcancel,
      hdrain, hreconnect, hswitches]
  · simp only [starts, drains, drainExpired, h.mayStart, hnow, hcancel, hdrain]

section Loop

variable (hcancel : s₀.plan.cancelRequested = true → s₀.mayStart = false)
include hcancel

theorem clear_state (hclear : s₀.Clear reads k)
    (h : Reached reads s₀ k s) : Onward reads s₀ k s := by
  induction k generalizing s with
  | zero => cases h; exact ⟨rfl, rfl, fun _ _ => rfl, by simp⟩
  | succ k ih =>
    obtain ⟨s', hs', hvisit⟩ := reached_succ.mp h
    have ih := ih (fun i hi => hclear i (Nat.lt_succ_of_lt hi)) hs'
    have hterms := (visit_moves hvisit).terms.trans ih.terms
    by_cases hhere : ∃ t, s'.Here k t
    · obtain ⟨t, here⟩ := hhere
      have here₀ := (ih.here le_rfl).mp here
      obtain ⟨hfails, hswitches, hhalts, -⟩ := ih.verdicts t
      obtain ⟨hok, hor⟩ := hclear k (Nat.lt_succ_self k) t here₀
      have hspec := visit_spec here (hfails.trans hok) hvisit
      refine ⟨hterms, ?_, fun j hj => ?_, ?_⟩
      · rw [hspec.mayStart, hswitches, ih.mayStart]
        rcases hor with hor | hor
        · rw [hcancel hor]; rfl
        · simp [hor]
      · exact (hspec.others j (by omega)).trans (ih.targets j (by omega))
      · rw [hspec.paused, ih.paused, hhalts, or_assoc]
        refine or_congr_right ⟨?_, ?_⟩
        · rintro (⟨i, hi, hrest⟩ | hlast)
          · exact ⟨i, Nat.lt_succ_of_lt hi, hrest⟩
          · exact ⟨k, Nat.lt_succ_self k, t, here₀, hlast⟩
        · rintro ⟨i, hi, t', here', hh⟩
          rcases Nat.lt_succ_iff_lt_or_eq.mp hi with hi | rfl
          · exact Or.inl ⟨i, hi, t', here', hh⟩
          · exact Or.inr (here'.eq here₀ ▸ hh)
    · push Not at hhere
      obtain rfl := visit_absent hhere hvisit
      refine ⟨hterms, ih.mayStart, fun j hj => ih.targets j (by omega), ?_⟩
      rw [ih.paused]
      refine or_congr_right ⟨fun ⟨i, hi, hrest⟩ =>
        ⟨i, Nat.lt_succ_of_lt hi, hrest⟩, fun ⟨i, hi, t, here, hh⟩ => ?_⟩
      rcases Nat.lt_succ_iff_lt_or_eq.mp hi with hi | rfl
      · exact ⟨i, hi, t, here, hh⟩
      · exact absurd ((ih.here le_rfl).mpr here) (hhere t)

/-- After a turn that is not clear nothing starts. -/
theorem stopped_of_unclear (hclear : ¬ s₀.Clear reads k)
    (h : Reached reads s₀ k s) : s.Stopped := by
  induction k generalizing s with
  | zero => exact absurd (fun _ hi => absurd hi (Nat.not_lt_zero _)) hclear
  | succ k ih =>
    obtain ⟨s', hs', hvisit⟩ := reached_succ.mp h
    by_cases hbefore : s₀.Clear reads k
    · have hon := clear_state hcancel hbefore hs'
      unfold Clear at hclear
      push Not at hclear
      obtain ⟨i, hi, t, here, hbad⟩ := hclear
      obtain rfl : i = k := by
        by_contra hne
        have hok := hbefore i (by omega) t here
        exact (hok.2.elim (hbad hok.1).1 fun h => (hbad hok.1).2 h)
      have here' := (hon.here le_rfl).mpr here
      obtain ⟨hfails, hswitches, -⟩ := hon.verdicts t
      cases hbroken : s₀.fails reads t with
      | true =>
        obtain ⟨errorCode, -, hroll⟩ :=
          visit_fails here' (hfails.trans hbroken)
        cases hroll.symm.trans hvisit
        refine Or.inl fun u hu hb => ?_
        exact (told_rollback s'.plan t.id errorCode s'.now s'.issued
          t.batchNumber).1.settled u hu (hb.trans here'.batch.symm)
      | false =>
        obtain ⟨hno, hsw⟩ := hbad hbroken
        have hspec := visit_spec here' (hfails.trans hbroken) hvisit
        refine Or.inr ⟨?_, ?_⟩
        · rw [hspec.mayStart, hswitches, Bool.eq_true_of_not_eq_false hsw]
          simp
        · have hsame : s'.plan.cancelRequested = s₀.plan.cancelRequested :=
            congrArg (·.2.2.1) hon.terms
          rw [(visit_moves hvisit).plan.cancel, hsame]
          exact Bool.eq_false_of_not_eq_true hno
    · exact (ih hbefore hs').visit hvisit

end Loop

/-- A loop overtakes its pause exactly when `Overtaken` says so. -/
theorem pausesAtOnce_iff {n : Nat} (hcancel : s₀.plan.cancelRequested = true → s₀.mayStart = false)
    (hn : s₀.plan.targets.length = n) (hloop : Reached reads s₀ n s') :
    PausesAtOnce reads s₀ ↔ ¬ Overtaken reads s₀ := by
  constructor
  · rintro hat ⟨hnot, i, j, t, u, hij, heret, hereu, hhalts, hstarts, hclear⟩
    have hj : j < n := hn ▸ hereu.lt
    -- the first turn that pauses the plan
    have hfirst : ∃ i < j, ∃ t, s₀.Here i t ∧ s₀.halts reads t = true := ⟨i, hij, t, heret, hhalts⟩
    classical
    obtain ⟨hlt, t', heret', hhalts'⟩ := Nat.find_spec hfirst
    have hmin := fun m => Nat.find_min hfirst (m := m)
    generalize Nat.find hfirst = m at hlt heret' hmin
    have hbefore : ∀ l ≤ j, s₀.Clear reads l := fun l hl m hm =>
      hclear m (by omega)
    obtain ⟨a, ha⟩ := hloop.earlier (show m ≤ n by omega)
    obtain ⟨a', ha'⟩ := hloop.earlier (show m + 1 ≤ n by omega)
    obtain ⟨b, hb⟩ := hloop.earlier (show j ≤ n by omega)
    obtain ⟨b', hb'⟩ := hloop.earlier (show j + 1 ≤ n by omega)
    have hona := clear_state hcancel (hbefore m (by omega)) ha
    have hona' := clear_state hcancel (hbefore (m + 1) hlt) ha'
    have honb := clear_state hcancel (hbefore j le_rfl) hb
    refine hat m j a a' b b' hlt (by omega) ha ha' ?_ ?_ hb hb' ?_
    · intro hpaused
      rcases hona.paused.mp hpaused with h | ⟨l, hl, hrest⟩
      · exact hnot h
      · exact hmin l hl ⟨by omega, hrest⟩
    · exact hona'.paused.mpr (Or.inr ⟨m, Nat.lt_succ_self m, t', heret', hhalts'⟩)
    · obtain ⟨b₁, hb₁, hvisit⟩ := reached_succ.mp hb'
      cases hb₁.symm.trans hb
      have hereu' := (honb.here le_rfl).mpr hereu
      obtain ⟨hfails, -, -, hstart⟩ := honb.verdicts u
      refine (visit_spec hereu' (hfails.trans ?_) hvisit).starts.mpr (hstart.trans hstarts)
      unfold Scan.starts at hstarts
      unfold Scan.fails
      split at hstarts <;> simp_all
  · intro hnot i j s s' u u' hij hj hs hs' hrun hpaused hu hu' hstarts
    obtain ⟨u₁, hu₁, hvisit⟩ := reached_succ.mp hu'
    cases hu₁.symm.trans hu
    obtain ⟨t, here, ht⟩ := starts_of_visit hvisit hstarts
    by_cases hclear : s₀.Clear reads j
    · have honu := clear_state hcancel hclear hu
      have hons := clear_state hcancel (fun m hm => hclear m (by omega) : s₀.Clear reads i) hs
      have hons' := clear_state hcancel
        (fun m hm => hclear m (by omega) : s₀.Clear reads (i + 1)) hs'
      obtain ⟨m, hm, t', here', hh⟩ := (hons'.paused.mp hpaused).resolve_left
          fun h => hrun (hons.paused.mpr (Or.inl h))
      exact hnot ⟨fun h => hrun (hons.paused.mpr (Or.inl h)), m, j, t', t,
        by omega, here', (honu.here le_rfl).mp here, hh,
        (honu.verdicts t).2.2.2.symm.trans ht, hclear⟩
    · rw [(stopped_of_unclear hcancel hclear hu).not_starts here] at ht
      cases ht

-- ======== later scans

theorem visit_paused (hs : s.plan.status = .paused)
    (h : visit reads s i = .ok s') : s'.plan.status = .paused := by
  cases visit_turned h with
  | failed | expired | switched | lost => rfl
  | left | drained | downloads | repeated | succeeded | resent => exact hs

theorem Reached.paused (hs : s₀.plan.status = .paused)
    (h : Reached reads s₀ k s) : s.plan.status = .paused := by
  induction k generalizing s with
  | zero => cases h; exact hs
  | succ k ih =>
    obtain ⟨s', hs', hvisit⟩ := reached_succ.mp h
    exact visit_paused (ih hs') hvisit

end Scan

/-- A paused plan that is not being cancelled. -/
def Plan.Resting (p : Plan) : Prop :=
  p.status = .paused ∧ p.cancelRequested = false

/-- The calls that end a pause, or the plan. -/
def Call.restarts : Call → Bool
  | .resume .. | .retry .. | .cancel .. => true
  | _ => false

/-- No call that could end the pause succeeds. -/
def Unrestarted (rank : Nat → Nat) (s : Store) (call : Call) : Prop :=
  call.restarts = true → (s.step rank call).plan = s.plan

/-- While the plan is paused and nobody restarts it, no turn of any scan
starts a target. -/
def StaysPaused (rank : Nat → Nat) (s : Store) : Prop :=
  s.plan.Resting → ∀ calls, Transition.Guarded (Store.step rank) (Unrestarted rank) s calls →
    ∀ reads now issued k u u', Scan.Reached reads (Scan.enter ((Transition.run (Store.step rank) s
        calls).plan.ordered rank) now issued) k u →
      Scan.Reached reads (Scan.enter ((Transition.run (Store.step rank) s
        calls).plan.ordered rank) now issued) (k + 1) u' →
      ¬ Scan.Starts u u' k

section Stores

variable {rank : Nat → Nat} {s : Store} {p : Plan} {call : Call}

theorem Plan.Resting.stopped (h : p.Resting) (now : Int) (issued : Nat) :
    (Scan.enter p now issued).Stopped := by
  refine Or.inr ⟨?_, h.2⟩
  simp [Scan.enter, h.1]

/-- A call that is no restart leaves a plan paused. -/
theorem Decided.resting {issued : Nat} {o : Outcome} {p' : Plan} (hp : p.Resting)
    (hcall : call.restarts = false) (ho : Decided p issued call o) (hp' : p' ∈ o.save) :
    p'.Resting := by
  cases ho with
  | @scan now reads _ scan active loop =>
    have hmoves := Scan.visits_moves loop
    have hmay : scan.mayStart = false := hmoves.mayStart (by
      simp [Scan.enter, hp.1])
    have hcancel : scan.plan.cancelRequested = false := hmoves.plan.cancel.trans hp.2
    have hleave : scan.leave = scan := by
      simp [Scan.leave, hmay, hcancel]
    rw [hleave] at hp'
    split at hp'
    · cases hp'
      exact ⟨Scan.Reached.paused hp.1 loop, hcancel⟩
    · cases hp'
  | ignored | noted => cases hp'
  | stuck | failed | wrong | paused =>
    cases hp'
    exact ⟨rfl, hp.2⟩
  | advanced | back | right =>
    cases hp'
    exact hp
  | resumed | cancelled | retried => cases hcall

theorem step_resting (hs : s.plan.Resting) (hcall : Unrestarted rank s call) :
    (s.step rank call).plan.Resting := by
  cases hr : call.restarts with
  | true => rw [hcall hr]; exact hs
  | false =>
    rcases step_plan rank s call with hsame | ⟨o, p, ho, hp, hsaved⟩
    · rw [hsame]
      exact hs
    · have hp' : p.Resting := ho.resting (p := s.plan.ordered rank) hs hr hp
      rw [hsaved]
      exact hp'

theorem stays_paused (rank : Nat → Nat) (s : Store) : StaysPaused rank s := by
  intro hs calls hcalls reads now issued k u u' hu hu' hstarts
  have hrest : (Transition.run (Store.step rank) s calls).plan.Resting :=
    Transition.Guarded.invariant (I := fun s => s.plan.Resting)
      (fun _ _ hs hcall => step_resting hs hcall) hs hcalls
  have hstopped := Plan.Resting.stopped
    (p := (Transition.run (Store.step rank) s calls).plan.ordered rank) hrest now issued
  obtain ⟨u₁, hu₁, hvisit⟩ := Scan.reached_succ.mp hu'
  cases hu₁.symm.trans hu
  obtain ⟨t, here, ht⟩ := Scan.starts_of_visit hvisit hstarts
  rw [(hstopped.reached hu).not_starts here] at ht
  cases ht

end Stores

/-- In any scan whose loop ends, a pause takes effect at once unless it is
overtaken; and it lasts. -/
theorem pause_takes_effect (rank : Nat → Nat) (s : Store) (now : Int) (reads : Reads) (final : Scan)
    (hloop : Scan.Reached reads (.enter (s.plan.ordered rank) now s.issued)
      s.plan.targets.length final) :
    (Scan.PausesAtOnce reads (.enter (s.plan.ordered rank) now s.issued) ∧ StaysPaused rank s)
      ↔ ¬ Scan.Overtaken reads (.enter (s.plan.ordered rank) now s.issued) := by
  rw [and_iff_left (stays_paused rank s)]
  refine Scan.pausesAtOnce_iff (fun hc => ?_)
    (List.perm_insertionSort _ s.plan.targets).length_eq hloop
  have hc : s.plan.cancelRequested = true := hc
  simp [Scan.enter, Plan.ordered, hc]

/-- The second batch of `threePlan` fails and is rolled back. The third
server comes back with the old version and is retried; the second one is
silent. -/
def rollsBack : List Call :=
  secondBatch ++ [
    .event (64 * second) "second" ⟨3, 4, .failed, 64 * second, "apply_failed", ""⟩ ⟨true, true, 2⟩,
    .heartbeat (65 * second) ⟨"third", "1.0.0", some (6, 7)⟩ ⟨true, true, 0⟩,
    .retry (183 * second) 6 (fleet old (183 * second)) ⟨true, true, 0⟩]

/-- The store after it. -/
def rolledStore : Store :=
  Transition.run (Store.step id) (Store.created threePlan.1 threePlan.2 0) rollsBack

/-- The reconnect timeout after the second server was told to go back. -/
def lateNow : Int := 184 * second

/-- Then, with a task left on every server. -/
def busyFleet : Reads :=
  { fleet old lateNow with
    runtime := fun serverID =>
      ((fleet old lateNow).runtime serverID).map fun r => { r with runningTasks := 1 } }

/-- The second server pauses the plan; the third one has a task left and is
not told to install. -/
theorem pause_takes_effect_busy :
    rolledStore.plan.status = .running
      ∧ (∃ final, Scan.Reached busyFleet (.enter (rolledStore.plan.ordered id) lateNow
          rolledStore.issued) rolledStore.plan.targets.length final ∧ final.plan.status = .paused)
      ∧ Scan.PausesAtOnce busyFleet (.enter (rolledStore.plan.ordered id) lateNow
          rolledStore.issued)
      ∧ StaysPaused id rolledStore := by
  have hnone : ∀ t ∈ (rolledStore.plan.ordered id).targets,
      (Scan.enter (rolledStore.plan.ordered id) lateNow
        rolledStore.issued).starts busyFleet t = false := by
    decide +kernel
  refine ⟨by decide, ⟨_, rfl, by decide⟩,
    (pause_takes_effect id rolledStore lateNow busyFleet _ rfl).mpr ?_⟩
  rintro ⟨-, i, j, t, u, -, -, here, -, hstarts, -⟩
  rw [hnone u here.mem] at hstarts
  cases hstarts

/-- With no task left, the second server pauses the plan and the third one
is told to install all the same. -/
theorem pause_overtaken : ¬ Scan.PausesAtOnce (fleet old lateNow)
      (.enter (rolledStore.plan.ordered id) lateNow rolledStore.issued) := by
  intro h
  refine h 1 2 _ _ _ _ (by decide) (by decide) rfl rfl (by decide) (by decide) rfl
    rfl ⟨_, rfl, Or.inr (by decide), Or.inl ⟨_, rfl, by decide, Or.inr (by decide)⟩⟩

end Yunling.Upgrade
