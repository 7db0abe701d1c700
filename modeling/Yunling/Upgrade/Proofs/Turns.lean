/-
What a turn of a scan can come to, said once.

`Scan.Turned` has a case for every way the turn of a target ends, with
what the turn found and what it makes of the scan; `visit_turned` shows
that there is no other way. What holds of every turn, and from there of
every scan, is a case analysis on it.
-/
import Yunling.Lib.Fallible
import Yunling.Upgrade.Store

namespace Yunling.Upgrade

open Fallible

/-- The agent of the target has an install to do. -/
def TargetStatus.underway : TargetStatus → Bool
  | .downloading | .verifying | .installing => true
  | _ => false

namespace Scan

/-- The target whose turn it is. -/
structure Here (s : Scan) (i : Nat) (t : Target) : Prop where
  at_index : s.plan.targets[i]? = some t
  batch : t.batchNumber = s.plan.currentBatch

/-- What a turn comes to. -/
inductive Turned (reads : Reads) (s : Scan) (i : Nat) : Scan → Prop
  /-- nothing is to be done yet, or any more -/
  | left (idle : ∀ t, s.Here i t → t.status.underway = false ∧ t.status ≠ .rollingBack) :
      Turned reads s i s
  | drained {t : Target} (here : s.Here i t)
      (status : t.status = .waiting) (mayStart : s.mayStart = true) :
      Turned reads s i (s.put i (t.drain s.now))
  | expired {t : Target} (here : s.Here i t)
      (status : t.status = .draining) (drains : s.drains = true) (late : s.drainExpired t = true) :
      Turned reads s i { s with
        plan := { s.plan with
          status := .paused, pauseReason := "服务器排空超时" }
        changed := true }
  /-- the agent runs something else -/
  | switched {t : Target} (here : s.Here i t)
      (status : t.status = .draining ∨ t.status.underway = true) :
      Turned reads s i (s.sourceVersionChanged i t)
  | downloads {t : Target} {runtime : ServerRuntime} {a : ArtifactInfo}
      (here : s.Here i t) (status : t.status = .draining)
      (drains : s.drains = true) (early : s.drainExpired t = false)
      (read : reads.runtime t.serverID = .ok runtime) (free : idle runtime = true) :
      Turned reads s i ((s.put i (t.download s.now)).send (t.download s.now) a)
  /-- the install is sent again -/
  | repeated {t : Target} {a : ArtifactInfo} (here : s.Here i t)
      (status : t.status.underway = true) : Turned reads s i (s.send t a)
  | failed {t : Target} {errorCode : String} (here : s.Here i t) (status : t.status = .reconnecting
          ∧ s.plan.reconnectTimeout ≤ s.now - t.updatedAt ∨ t.status = .healthChecking)
      (code : errorCode = "reconnect_timeout" ∨ errorCode = "health_check_failed") :
      Turned reads s i (s.rollback t errorCode)
  | succeeded {t : Target} (here : s.Here i t) (status : t.status = .healthChecking) :
      Turned reads s i (s.put i (t.succeed s.now))
  /-- the agent did not come back from a rollback -/
  | lost {t : Target} (here : s.Here i t) (status : t.status = .rollingBack)
      (late : s.plan.reconnectTimeout ≤ s.now - t.updatedAt) :
      Turned reads s i { s.put i (t.rollbackTimeout s.now) with
        plan := { (s.put i (t.rollbackTimeout s.now)).plan with
          status := .paused, pauseReason := "代理回滚超时，需要人工处理" } }
  /-- the rollback is sent again -/
  | resent {t : Target} (here : s.Here i t) (status : t.status = .rollingBack)
      (early : s.now - t.updatedAt < s.plan.reconnectTimeout) :
      Turned reads s i { s with commands := s.commands ++ [⟨t.serverID, rollbackCommand s.plan t⟩] }

variable {s s' : Scan} {i : Nat} {t : Target} {reads : Reads}

theorem Here.eq {t' : Target} (h : s.Here i t) (h' : s.Here i t') : t = t' :=
  Option.some.inj (h.at_index.symm.trans h'.at_index)

theorem Here.mem (h : s.Here i t) : t ∈ s.plan.targets := List.mem_of_getElem? h.at_index

theorem Here.lt (h : s.Here i t) : i < s.plan.targets.length :=
  (List.getElem?_eq_some_iff.mp h.at_index).1

section Here

variable (here : s.Here i t)

include here

theorem Turned.stays (hu : t.status.underway = false) (hr : t.status ≠ .rollingBack) :
    Turned reads s i s :=
  .left fun _ here' => here.eq here' ▸ ⟨hu, hr⟩

theorem visitDraining_turned (hst : t.status = .draining) (h : s.visitDraining reads i t = .ok s') :
    Turned reads s i s' := by
  have hstays : Turned reads s i s := .stays here (by rw [hst]; rfl) (by simp [hst])
  unfold visitDraining at h
  split at h
  · cases h; exact hstays
  next hdrains =>
  rw [Bool.not_eq_true, Bool.not_eq_false'] at hdrains
  split at h
  · next hlate => cases h; exact .expired here hst hdrains hlate
  next hearly =>
  rw [Bool.not_eq_true] at hearly
  obtain ⟨-, -, h⟩ := ok_of_bind h
  obtain ⟨runtime, hread, h⟩ := ok_of_bind h
  split at h
  · cases h; exact hstays
  next hfree =>
  rw [Bool.not_eq_true, Bool.not_eq_false'] at hfree
  split at h
  · cases h; exact .switched here (Or.inl hst)
  · obtain ⟨a, -, h⟩ := ok_of_bind h
    cases h
    exact .downloads here hst hdrains hearly hread hfree

theorem visitInstalling_turned (hst : t.status.underway = true)
    (h : s.visitInstalling reads i t = .ok s') : Turned reads s i s' := by
  obtain ⟨runtime, -, h⟩ := ok_of_bind h
  split at h
  · cases h; exact .switched here (Or.inr hst)
  · obtain ⟨a, -, h⟩ := ok_of_bind h
    cases h
    exact .repeated here hst

theorem visitReconnecting_turned (hst : t.status = .reconnecting) :
    Turned reads s i (s.visitReconnecting t) := by
  unfold visitReconnecting
  split
  · next hlate => exact .failed here (Or.inl ⟨hst, hlate⟩) (Or.inl rfl)
  · exact .stays here (by rw [hst]; rfl) (by simp [hst])

theorem visitHealthChecking_turned (hst : t.status = .healthChecking)
    (h : s.visitHealthChecking reads i t = .ok s') : Turned reads s i s' := by
  obtain ⟨runtime, -, h⟩ := ok_of_bind h
  split at h
  · cases h; exact .failed here (Or.inr hst) (Or.inr rfl)
  split at h
  · cases h; exact .stays here (by rw [hst]; rfl) (by simp [hst])
  split at h
  · cases h; exact .failed here (Or.inr hst) (Or.inr rfl)
  cases hdrained : t.sourceDraining with
  | true =>
    rw [hdrained] at h
    cases h; exact .succeeded here hst
  | false =>
    cases hset : reads.setServerDraining t.serverID false with
    | error e => simp [hdrained, hset] at h
    | ok _ =>
      simp only [hdrained, hset] at h
      cases h; exact .succeeded here hst

theorem visitRollingBack_turned (hst : t.status = .rollingBack) :
    Turned reads s i (s.visitRollingBack i t) := by
  unfold visitRollingBack
  split
  · next hlate => exact .lost here hst hlate
  · next hearly => exact .resent here hst (Int.not_le.mp hearly)

end Here

/-- There is no other way a turn ends. -/
theorem visit_turned (h : visit reads s i = .ok s') : Turned reads s i s' := by
  unfold visit at h
  cases ht : s.plan.targets[i]? with
  | none =>
    rw [ht] at h
    cases h
    exact .left fun t here => by rw [here.at_index] at ht; cases ht
  | some t =>
    rw [ht] at h
    dsimp only at h
    split at h
    · next hb =>
      cases h
      refine .left fun t' here => absurd here.batch ?_
      rw [here.at_index] at ht
      rwa [Option.some.inj ht]
    · next hb =>
      have here : s.Here i t := ⟨ht, not_not.mp hb⟩
      cases hst : t.status with
      | waiting =>
        rw [hst] at h
        dsimp only at h
        split at h
        · next hmay => cases h; exact .drained here hst hmay
        · cases h; exact .stays here (by rw [hst]; rfl) (by simp [hst])
      | draining =>
        rw [hst] at h
        exact visitDraining_turned here hst h
      | downloading | verifying | installing =>
        rw [hst] at h
        exact visitInstalling_turned here (by rw [hst]; rfl) h
      | reconnecting =>
        rw [hst] at h
        cases h; exact visitReconnecting_turned here hst
      | healthChecking =>
        rw [hst] at h
        exact visitHealthChecking_turned here hst h
      | rollingBack =>
        rw [hst] at h
        cases h; exact visitRollingBack_turned here hst
      | succeeded | rolledBack | manualIntervention | cancelled =>
        rw [hst] at h
        cases h; exact .stays here (by rw [hst]; rfl) (by simp [hst])

end Scan

end Yunling.Upgrade
