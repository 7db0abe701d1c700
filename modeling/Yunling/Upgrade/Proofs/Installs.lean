/-
Where an install comes from, said once.

A target is under way (`TargetStatus.underway`) only after a turn of a
scan that found its server idle, or because its agent says so. `Acts`
says this of a turn, with the installs it adds; `Call.decide_underway`
says it of a call outside the scan, none of which sends an install.
-/
import Yunling.Upgrade.Proofs.Calls
import Yunling.Upgrade.System

namespace Yunling.Upgrade

open Fallible

variable {targets : List Target} {result : List Target × List SentCommand × Nat}
  {issued batch : Nat}

theorem TargetStatus.underway_of_settled {status : TargetStatus}
    (h : status.settled = true) : status.underway = false := by
  cases status <;> first | rfl | cases h

section RolledBack

variable {plan : Plan} {now : Int} {bound : Int}
  (h : RolledBack plan now issued batch bound targets result)

include h

/-- A rollback leaves no target under way that was not. -/
theorem RolledBack.underway {t' : Target} (ht' : t' ∈ result.1) (hu : t'.status.underway = true) :
    t' ∈ targets := by
  rcases h.kinds t' ht' with hold | hsettled
  · exact hold
  · rw [TargetStatus.underway_of_settled hsettled] at hu
    cases hu

theorem RolledBack.action {c : SentCommand} (hc : c ∈ result.2.1) :
    c.command.action = .rollback := by
  obtain ⟨t', -, -, -, hcommand⟩ := h.commands c hc
  rw [hcommand]
  rfl

end RolledBack

/-- Neither does a target that is rewritten to something else. -/
theorem underway_set {i : Nat} {t t' : Target} (ht : t.status.underway = false)
    (ht' : t' ∈ targets.set i t) (hu : t'.status.underway = true) : t' ∈ targets := by
  rcases List.mem_or_eq_of_mem_set ht' with hold | rfl
  · exact hold
  · rw [ht] at hu
    cases hu

-- ======== turns

/-- What a turn does about installs: a target comes under way where its
server was found idle, and an install is for a target under way. -/
structure Scan.Acts (reads : Reads) (i : Nat) (s s' : Scan) : Prop where
  underway : ∀ t' ∈ s'.plan.targets, t'.status.underway = true →
    t' ∈ s.plan.targets ∨ ∃ t, s.toDrain i = some t ∧ t' = t.download s.now ∧ ∃ runtime,
        reads.runtime t.serverID = .ok runtime ∧ idle runtime = true
  installs : ∀ c ∈ s'.commands, c.command.action = .install →
    c ∈ s.commands ∨ ∃ t' ∈ s'.plan.targets, t'.status.underway = true
      ∧ t'.serverID = c.serverID ∧ t'.key = c.key

namespace Scan

variable {s s' : Scan} {i : Nat} {t t' : Target} {reads : Reads}

theorem Acts.same (targets : s'.plan.targets = s.plan.targets)
    (commands : s'.commands = s.commands) : Acts reads i s s' :=
  ⟨fun _ ht' _ => Or.inl (targets ▸ ht'), fun _ hc _ => Or.inl (commands ▸ hc)⟩

/-- A target that is not under way after the turn. -/
theorem Acts.put (targets : s'.plan.targets = s.plan.targets.set i t')
    (commands : s'.commands = s.commands) (hu : t'.status.underway = false) : Acts reads i s s' :=
  ⟨fun _ ht₁ hu₁ => Or.inl (underway_set hu (targets ▸ ht₁) hu₁),
    fun _ hc _ => Or.inl (commands ▸ hc)⟩

theorem Acts.rollback (errorCode : String) : Acts reads i s (s.rollback t errorCode) := by
  have hrolled := s.plan.rolledBack t.batchNumber t.id errorCode s.now s.issued
  refine ⟨fun t' ht' hu => Or.inl (hrolled.underway ht' hu), fun c hc hi => ?_⟩
  rcases List.mem_append.mp hc with hc | hc
  · exact Or.inl (List.mem_filter.mp hc).1
  · rw [hrolled.action hc] at hi
    cases hi

/-- A command, which is for a target under way if it is an install. -/
theorem Acts.send (h : Acts reads i s s') {c : SentCommand}
    (hc : c.command.action = .install → ∃ t' ∈ s'.plan.targets,
      t'.status.underway = true ∧ t'.serverID = c.serverID ∧ t'.key = c.key) :
    Acts reads i s { s' with commands := s'.commands ++ [c] } := by
  refine ⟨h.underway, fun c' hc' hi => ?_⟩
  rcases List.mem_append.mp hc' with hc' | hc'
  · exact h.installs c' hc' hi
  · obtain rfl := List.mem_singleton.mp hc'
    exact Or.inr (hc hi)

theorem toDrain_eq_some (ht : s.plan.targets[i]? = some t)
    (hb : t.batchNumber = s.plan.currentBatch) (hst : t.status = .draining) (hd : s.drains = true)
    (he : s.drainExpired t = false) : s.toDrain i = some t := by
  unfold toDrain
  rw [ht]
  exact if_pos ⟨hb, hst, hd, he⟩

theorem visit_acts (h : visit reads s i = .ok s') : Acts reads i s s' := by
  have hsame : Acts reads i s s := .same rfl rfl
  cases visit_turned h with
  | left => exact hsame
  | expired => exact .same rfl rfl
  | drained | switched | succeeded | lost => exact .put rfl rfl rfl
  | failed => exact .rollback _
  | resent => exact hsame.send fun hi => by cases hi
  | repeated here status =>
    exact hsame.send fun _ => ⟨_, here.mem, status, rfl, rfl⟩
  | @downloads t runtime a here status drains early read free =>
    have hput : Acts reads i s (s.put i (t.download s.now)) := by
      refine ⟨fun t' ht' hu => ?_, fun c hc _ => Or.inl hc⟩
      rcases List.mem_or_eq_of_mem_set ht' with hold | rfl
      · exact Or.inl hold
      · exact Or.inr ⟨t, toDrain_eq_some here.at_index here.batch status
          drains early, rfl, runtime, read, free⟩
    exact hput.send fun _ => ⟨t.download s.now, List.mem_set here.lt _, rfl, rfl, rfl⟩

end Scan

-- ======== calls

/-- The call is an agent's report on a target that has not been given to
it yet, as the plan has it. -/
def Call.reports (call : Call) (t : Target) : Bool :=
  match call with
  | .event _ serverID e _ =>
    t.serverID == serverID && t.key == (e.targetID, e.commandID)
      && (t.status == .waiting || t.status == .draining)
  | _ => false

theorem forwardTransition_underway {current next : TargetStatus}
    (h : forwardTransition current next = true) (hu : next.underway = true) :
    current.underway = true ∨ current = .waiting ∨ current = .draining := by
  cases next with
  | downloading | verifying | installing =>
    cases current <;> simp_all [forwardTransition, TargetStatus.rank, TargetStatus.underway]
  | _ => cases hu

section Calls

variable {p p' : Plan} {t' : Target} {issued : Nat} {o : Outcome} {call : Call}
  (hscan : call.isScan = false) (hu : t'.status.underway = true)

include hscan hu

/-- A target that is under way after a call outside the scan was so
before, or its agent says so. -/
theorem Call.decide_underway (ho : Decided p issued call o) (hp' : p' ∈ o.save)
    (ht' : t' ∈ p'.targets) :
    ∃ t ∈ p.targets, t.serverID = t'.serverID ∧ t.key = t'.key
      ∧ (t.status.underway = true ∨ call.reports t = true) := by
  have hkept : t' ∈ p.targets → ∃ t ∈ p.targets, t.serverID = t'.serverID ∧ t.key = t'.key
        ∧ (t.status.underway = true ∨ call.reports t = true) :=
    fun ht => ⟨t', ht, rfl, rfl, Or.inl hu⟩
  cases ho with
  | scan => cases hscan
  | ignored | noted => cases hp'
  | stuck | back | wrong | right | retried =>
    cases hp'
    exact hkept (underway_set rfl ht' hu)
  | failed =>
    cases hp'
    exact hkept ((p.rolledBack _ _ _ _ issued).underway ht' hu)
  | @advanced now serverID e fate i t status active ht answers stage moves forward =>
      cases hp'
      rcases List.mem_or_eq_of_mem_set ht' with hold | rfl
      · exact hkept hold
      · refine ⟨t, List.mem_of_getElem? ht, rfl, rfl, ?_⟩
        refine (forwardTransition_underway forward hu).imp_right fun hst => ?_
        simp [Call.reports, Target.key, answers.id, answers.serverID, answers.commandID, hst]
  | paused | resumed =>
    cases hp'
    exact hkept ht'
  | cancelled =>
    cases hp'
    obtain ⟨t, ht, rfl⟩ := List.mem_map.mp ht'
    refine hkept ?_
    unfold Plan.cancelTarget at hu ⊢
    split at hu
    · cases hu
    · next hst => rwa [if_neg hst]

theorem Store.step_underway {rank : Nat → Nat} {s : Store}
    (ht' : t' ∈ (s.step rank call).plan.targets) :
    ∃ t ∈ s.plan.targets, t.serverID = t'.serverID ∧ t.key = t'.key
      ∧ (t.status.underway = true ∨ call.reports t = true) := by
  rcases step_plan rank s call with hsame | ⟨o, p, ho, hp, hsaved⟩
  · rw [hsame] at ht'
    exact ⟨t', ht', rfl, rfl, Or.inl hu⟩
  · rw [hsaved] at ht'
    obtain ⟨t, ht, h⟩ := Call.decide_underway hscan hu ho hp ht'
    exact ⟨t, mem_ordered.mp ht, h⟩

end Calls

end Yunling.Upgrade
