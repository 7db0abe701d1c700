/-
What a scan does to a plan that is being cancelled, while its servers
answer.

`Scan.Visited` says what one turn of the loop makes of its target: the
whole batch is rolled back, or the target alone is brought on
(`Scan.Turn`). Three loops are read off it, each with an invariant that
says how far it is. After the first nothing is being drained and every
agent that is to install has its command (`landed_loop`); after the
second, late enough, what has begun is done or rolling back
(`closed_loop`); after the third, later still, all is done
(`terminal_loop`).
-/
import Yunling.Upgrade.Proofs.Calls

namespace Yunling.Upgrade

open Fallible

-- ======== servers

/-- The servers of a plan are enabled, reachable and idle, and their
agents run what `versions` says; the release is there, with an artifact
for each of them. -/
structure Healthy (versions : String → String) (p : Plan) (reads : Reads) : Prop where
  servers : ∃ release, reads.release p.targetReleaseID = .ok release
    ∧ ∀ t ∈ p.targets, ∃ runtime, reads.runtime t.serverID = .ok runtime ∧ Scan.idle runtime = true
      ∧ runtime.agentVersion = versions t.serverID
      ∧ (matchingArtifact release.artifacts runtime.agentOS runtime.agentArch).isSome = true
  draining : ∀ t ∈ p.targets, ∀ draining, reads.setServerDraining t.serverID draining = .ok ()

theorem Healthy.like {versions : String → String} {p p' : Plan} {reads : Reads}
    (h : Healthy versions p reads) (hrelease : p'.targetReleaseID = p.targetReleaseID)
    (hservers : ∀ t' ∈ p'.targets, ∃ t ∈ p.targets, t'.serverID = t.serverID) :
    Healthy versions p' reads := by
  obtain ⟨release, hread, hall⟩ := h.servers
  refine ⟨⟨release, hrelease ▸ hread, fun t' ht' => ?_⟩, fun t' ht' => ?_⟩
  · obtain ⟨t, ht, heq⟩ := hservers t' ht'
    rw [heq]
    exact hall t ht
  · obtain ⟨t, ht, heq⟩ := hservers t' ht'
    rw [heq]
    exact h.draining t ht

-- ======== turns

namespace Scan

/-- A command for a target is to be sent. -/
def Commanded (s : Scan) (t : Target) : Prop :=
  ∃ c ∈ s.commands, c.serverID = t.serverID
    ∧ c.command.targetID = t.id ∧ c.command.commandID = t.commandID

/-- What a turn makes of its target. -/
inductive Turn (s s' : Scan) (t : Target) : Target → Prop
  | closed (t' : Target) (done : t'.status.terminal = true)
      (before : t.status ≠ .reconnecting) : Turn s s' t t'
  | commanded (t' : Target) (underway : t'.status.underway = true)
      (before : t.status = .draining ∨ t.status.underway = true)
      (command : s'.Commanded t') : Turn s s' t t'
  | reconnects (before : t.status = .reconnecting)
      (early : s.now - t.updatedAt < s.plan.reconnectTimeout) : Turn s s' t t
  | verifies (before : t.status = .healthChecking)
      (early : s.now - t.updatedAt < s.plan.verification) : Turn s s' t t
  | rollsBack (before : t.status = .rollingBack)
      (early : s.now - t.updatedAt < s.plan.reconnectTimeout) : Turn s s' t t

/-- What a turn makes of the plan. -/
inductive Visited (s : Scan) (i : Nat) (t : Target) (s' : Scan) : Prop
  | batch (settled : ∀ t' ∈ s'.plan.targets,
        t'.batchNumber = s.plan.currentBatch → t'.status.settled = true)
      (before : t.status = .reconnecting ∨ t.status = .healthChecking) : Visited s i t s'
  | target (t' : Target) (targets : s'.plan.targets = s.plan.targets.set i t')
      (commands : ∀ c ∈ s.commands, c ∈ s'.commands) (turn : s.Turn s' t t') : Visited s i t s'

section Visits

variable {s : Scan} {i : Nat} {t : Target} {reads : Reads}
  {versions : String → String}

theorem set_same {targets : List Target} (ht : targets[i]? = some t) :
    targets.set i t = targets := by
  obtain ⟨hi, rfl⟩ := List.getElem?_eq_some_iff.mp ht
  exact List.set_getElem_self hi

theorem Visited.same (ht : s.plan.targets[i]? = some t) (turn : s.Turn s t t) : s.Visited i t s :=
  .target t (set_same ht).symm (fun _ hc => hc) turn

theorem Visited.put {t' : Target} (done : t'.status.terminal = true)
    (before : t.status ≠ .reconnecting) : s.Visited i t (s.put i t') :=
  .target t' rfl (fun _ hc => hc) (.closed t' done before)

theorem Visited.sourceVersionChanged (before : t.status ≠ .reconnecting) :
    s.Visited i t (s.sourceVersionChanged i t) :=
  .target _ rfl (fun _ hc => hc) (.closed _ rfl before)

theorem Visited.rollback (hb : t.batchNumber = s.plan.currentBatch)
    (before : t.status = .reconnecting ∨ t.status = .healthChecking)
    (errorCode : String) : s.Visited i t (s.rollback t errorCode) := by
  have hrolled := s.plan.rolledBack t.batchNumber t.id errorCode s.now s.issued
  exact .batch (fun t' ht' hb' => hrolled.settled t' ht' (hb'.trans hb.symm)) before

theorem artifact_ok (hhealthy : Healthy versions s.plan reads) (ht : t ∈ s.plan.targets)
    {runtime : ServerRuntime} (hruntime : reads.runtime t.serverID = .ok runtime) :
    ∃ a, s.artifact reads runtime = .ok a := by
  obtain ⟨release, hrelease, hall⟩ := hhealthy.servers
  obtain ⟨runtime', hruntime', -, -, hsome⟩ := hall t ht
  obtain rfl : runtime = runtime' := Except.ok.inj (hruntime.symm.trans hruntime')
  obtain ⟨a, ha⟩ := Option.isSome_iff_exists.mp hsome
  refine ⟨a, ?_⟩
  unfold artifact
  rw [hrelease]
  dsimp only [bind, Except.bind]
  rw [ha]
  rfl

theorem runtime_ok (hhealthy : Healthy versions s.plan reads) (ht : t ∈ s.plan.targets) :
    ∃ runtime, reads.runtime t.serverID = .ok runtime ∧ idle runtime = true := by
  obtain ⟨release, -, hall⟩ := hhealthy.servers
  obtain ⟨runtime, hruntime, hidle, -⟩ := hall t ht
  exact ⟨runtime, hruntime, hidle⟩

variable (ht : s.plan.targets[i]? = some t)

include ht

theorem visitDraining_ok (hhealthy : Healthy versions s.plan reads)
    (hcancel : s.plan.cancelRequested = true) (hst : t.status = .draining)
    (hd : s.drainExpired t = false) :
    ∃ s', s.visitDraining reads i t = .ok s' ∧ s.Visited i t s' := by
  have hmem := List.mem_of_getElem? ht
  obtain ⟨runtime, hruntime, hidle⟩ := runtime_ok hhealthy hmem
  obtain ⟨a, ha⟩ := artifact_ok hhealthy hmem hruntime
  have hdrains : s.drains = true := by simp [drains, hcancel]
  have hset := hhealthy.draining t hmem true
  unfold visitDraining
  by_cases hversion : runtime.agentVersion ≠ t.sourceVersion
  · refine ⟨s.sourceVersionChanged i t, ?_, ?_⟩
    · simp [hdrains, hd, hset, hruntime, hidle, hversion, bind, Except.bind, pure, Except.pure]
    · exact .sourceVersionChanged (by simp [hst])
  · refine ⟨(s.put i (t.download s.now)).send (t.download s.now) a, ?_, ?_⟩
    · simp [hdrains, hd, hset, hruntime, hidle, ha, hversion, bind, Except.bind, pure, Except.pure]
    · refine .target (t.download s.now) rfl (fun c hc => List.mem_append_left _ hc) ?_
      exact .commanded _ rfl (Or.inl hst)
        ⟨_, List.mem_append_right _ List.mem_cons_self, rfl, rfl, rfl⟩

theorem visitInstalling_ok (hhealthy : Healthy versions s.plan reads)
    (hst : t.status.underway = true) :
    ∃ s', s.visitInstalling reads i t = .ok s' ∧ s.Visited i t s' := by
  have hmem := List.mem_of_getElem? ht
  obtain ⟨runtime, hruntime, -⟩ := runtime_ok hhealthy hmem
  obtain ⟨a, ha⟩ := artifact_ok hhealthy hmem hruntime
  unfold visitInstalling
  by_cases hversion : runtime.agentVersion ≠ t.sourceVersion
      ∧ runtime.agentVersion ≠ t.targetVersion
  · refine ⟨s.sourceVersionChanged i t, ?_, ?_⟩
    · simp [hruntime, hversion, bind, Except.bind, pure, Except.pure]
    · refine .sourceVersionChanged fun h => ?_
      rw [h] at hst
      cases hst
  · refine ⟨s.send t a, ?_, ?_⟩
    · rw [hruntime]
      show (if runtime.agentVersion ≠ t.sourceVersion ∧ runtime.agentVersion ≠ t.targetVersion then
        pure (s.sourceVersionChanged i t)
        else s.artifact reads runtime >>= fun a => pure (s.send t a)) = _
      rw [if_neg hversion, ha]
      rfl
    · refine .target t (set_same ht).symm (fun c hc => List.mem_append_left _ hc) ?_
      exact .commanded _ hst (Or.inr hst)
        ⟨_, List.mem_append_right _ List.mem_cons_self, rfl, rfl, rfl⟩

theorem visitReconnecting_visited (hb : t.batchNumber = s.plan.currentBatch)
    (hst : t.status = .reconnecting) : s.Visited i t (s.visitReconnecting t) := by
  unfold visitReconnecting
  split
  · exact .rollback hb (Or.inl hst) _
  · next hearly => exact .same ht (.reconnects hst (by omega))

theorem visitHealthChecking_ok (hhealthy : Healthy versions s.plan reads)
    (hb : t.batchNumber = s.plan.currentBatch) (hst : t.status = .healthChecking) :
    ∃ s', s.visitHealthChecking reads i t = .ok s' ∧ s.Visited i t s' := by
  have hmem := List.mem_of_getElem? ht
  obtain ⟨runtime, hruntime, -⟩ := runtime_ok hhealthy hmem
  have hset := hhealthy.draining t hmem false
  have hback : s.Visited i t (s.rollback t "health_check_failed") := .rollback hb (Or.inr hst) _
  have hdone : s.Visited i t (s.put i (t.succeed s.now)) := .put rfl (by simp [hst])
  unfold visitHealthChecking
  rw [hruntime]
  by_cases havailable : runtimeAvailable runtime t.targetVersion s.now = true
  · by_cases hearly : s.now - t.updatedAt < s.plan.verification
    · exact ⟨s, by simp [havailable, hearly, bind, Except.bind, pure,
        Except.pure], .same ht (.verifies hst hearly)⟩
    · by_cases hseen : runtime.lastSeenAt.any (t.updatedAt < ·) = true
      · refine ⟨_, ?_, hdone⟩
        cases hd : t.sourceDraining <;>
          simp [havailable, hearly, hseen, hset, bind, Except.bind, pure, Except.pure]
      · exact ⟨_, by simp [havailable, hearly, hseen, bind, Except.bind, pure, Except.pure], hback⟩
  · exact ⟨_, by simp [havailable, bind, Except.bind, pure, Except.pure], hback⟩

theorem visitRollingBack_visited (hst : t.status = .rollingBack) :
    s.Visited i t (s.visitRollingBack i t) := by
  unfold visitRollingBack
  split
  · exact .target _ rfl (fun _ hc => hc) (.closed _ rfl (by simp [hst]))
  · next hearly =>
    exact .target t (set_same ht).symm (fun c hc => List.mem_append_left _ hc)
      (.rollsBack hst (by omega))

/-- Every turn succeeds, and does what it says. -/
theorem visit_ok (hhealthy : Healthy versions s.plan reads)
    (hcancel : s.plan.cancelRequested = true) (hb : t.batchNumber = s.plan.currentBatch)
    (hw : t.status ≠ .waiting) (hd : t.status = .draining → s.drainExpired t = false) :
    ∃ s', visit reads s i = .ok s' ∧ s.Visited i t s' := by
  unfold visit
  rw [ht]
  dsimp only
  rw [if_neg (not_not.mpr hb)]
  cases hst : t.status with
  | waiting => exact absurd hst hw
  | draining => exact visitDraining_ok ht hhealthy hcancel hst (hd hst)
  | downloading | verifying | installing =>
    exact visitInstalling_ok ht hhealthy (by rw [hst]; rfl)
  | reconnecting => exact ⟨_, rfl, visitReconnecting_visited ht hb hst⟩
  | healthChecking => exact visitHealthChecking_ok ht hhealthy hb hst
  | rollingBack => exact ⟨_, rfl, visitRollingBack_visited ht hst⟩
  | succeeded | rolledBack | manualIntervention | cancelled =>
    exact ⟨s, rfl, .same ht (.closed t (by rw [hst]; rfl) (by simp [hst]))⟩

end Visits

-- ======== loops

/-- A plan that is being cancelled, in time for its drains. -/
structure Cancelling (versions : String → String) (reads : Reads)
    (now : Int) (p : Plan) : Prop where
  healthy : Healthy versions p reads
  cancel : p.cancelRequested = true
  waiting : ∀ t ∈ p.targets, t.status ≠ .waiting
  drains : ∀ t ∈ p.targets, t.status = .draining →
    ∀ startedAt ∈ t.startedAt, now - startedAt ≤ p.drainTimeout

section Loops

variable {versions : String → String} {reads : Reads} {now : Int} {p : Plan} {issued : Nat}
  {s s' : Scan} {t t' : Target} {P : Target → Prop}

/-- It stays one while the scan goes on. -/
theorem Cancelling.moves (h : Cancelling versions reads now p) (hm : (enter p now issued).Moves s) :
    Cancelling versions reads now s.plan := by
  refine ⟨h.healthy.like hm.plan.release fun t' ht' => ?_,
    hm.plan.cancel.trans h.cancel, fun t' ht' hw => ?_, fun t' ht' hd => ?_⟩
  · obtain ⟨t, ht, hmoved⟩ := hm.plan.mem_right ht'
    exact ⟨t, ht, hmoved.same.serverID⟩
  · obtain ⟨t, ht, hmoved⟩ := hm.plan.mem_right ht'
    rw [hmoved.waiting hw] at hw
    exact h.waiting t ht hw
  · obtain ⟨t, ht, hmoved⟩ := hm.plan.mem_right ht'
    rw [hm.plan.drainTimeout]
    cases hmoved with
    | kept => exact h.drains t' ht hd
    | moved _ same place time started cancelled order drains =>
      exact drains hd

/-- The loop of a scan ends, and `Q` is so then. -/
abbrev Loops (reads : Reads) (p : Plan) (now : Int) (issued : Nat) (Q : Scan → Prop) : Prop :=
  ∃ s', (List.range p.targets.length).foldlM (visit reads) (enter p now issued) = .ok s'
    ∧ (enter p now issued).Moves s' ∧ Q s'

/-- The first targets, as far as they are of the current batch. -/
def UpTo (s : Scan) (k : Nat) (P : Target → Prop) : Prop :=
  ∀ i t, i < k → s.plan.targets[i]? = some t → t.batchNumber = s.plan.currentBatch → P t

theorem loop_ok (issued : Nat) (h : Cancelling versions reads now p) {J : Nat → Scan → Prop}
    (hskip : ∀ k s, (enter p now issued).Moves s → J k s → (∀ t, s.plan.targets[k]? = some t →
        t.batchNumber ≠ s.plan.currentBatch) → J (k + 1) s)
    (hvisit : ∀ k s t s', (enter p now issued).Moves s → s.Moves s' →
      J k s → s.plan.targets[k]? = some t → t.batchNumber = s.plan.currentBatch → s.Visited k t s' →
      J (k + 1) s') (hstart : J 0 (enter p now issued)) :
    Loops reads p now issued (J p.targets.length) := by
  refine foldlM_range (I := fun k s => (enter p now issued).Moves s ∧ J k s) ?_ ⟨.refl _, hstart⟩
  rintro k s - ⟨hm, hJ⟩
  by_cases hb : ∃ t, s.plan.targets[k]? = some t ∧ t.batchNumber = s.plan.currentBatch
  · obtain ⟨t, ht, hb⟩ := hb
    have hs := h.moves hm
    have hmem := List.mem_of_getElem? ht
    have hd : t.status = .draining → s.drainExpired t = false := by
      intro hst
      unfold drainExpired
      cases hstarted : t.startedAt with
      | none => rfl
      | some startedAt =>
        have hin := hs.drains t hmem hst startedAt hstarted
        have hnow : s.now = now := hm.now
        simpa [hnow] using hin
    obtain ⟨s', hok, hvisited⟩ := visit_ok ht hs.healthy hs.cancel hb (hs.waiting t hmem) hd
    have hmoves := visit_moves hok
    exact ⟨s', hok, hm.trans hmoves, hvisit k s t s' hm hmoves hJ ht hb hvisited⟩
  · have hne : ∀ t, s.plan.targets[k]? = some t → t.batchNumber ≠ s.plan.currentBatch :=
      fun t ht heq => hb ⟨t, ht, heq⟩
    refine ⟨s, ?_, hm, hskip k s hm hJ hne⟩
    unfold visit
    split
    · rfl
    · next t ht => rw [if_pos (hne t ht)]

theorem upTo_zero : s.UpTo 0 P := fun i _ hi => absurd hi (Nat.not_lt_zero i)

/-- What was visited of the batch, with one target more that is not of
it. -/
theorem UpTo.skip {k : Nat} (h : s.UpTo k P)
    (hne : ∀ t, s.plan.targets[k]? = some t → t.batchNumber ≠ s.plan.currentBatch) :
    s.UpTo (k + 1) P := by
  intro i t hi ht hb
  rcases Nat.lt_succ_iff_lt_or_eq.mp hi with hi | rfl
  · exact h i t hi ht hb
  · exact absurd hb (hne t ht)

theorem UpTo.set {k : Nat} {P P' : Target → Prop} (h : s.UpTo k P) (hmoves : s.Moves s')
    (ht : s.plan.targets[k]? = some t) (htargets : s'.plan.targets = s.plan.targets.set k t')
    (hP : ∀ t, P t → P' t) (ht' : P' t') : s'.UpTo (k + 1) P' := by
  intro i t₁ hi ht₁ hb₁
  rw [hmoves.plan.batch] at hb₁
  rw [htargets] at ht₁
  rcases Nat.lt_succ_iff_lt_or_eq.mp hi with hi | rfl
  · rw [List.getElem?_set_ne (by omega)] at ht₁
    exact hP t₁ (h i t₁ hi ht₁ hb₁)
  · obtain ⟨hlt, -⟩ := List.getElem?_eq_some_iff.mp ht
    rw [List.getElem?_set_self hlt] at ht₁
    cases ht₁
    exact ht'

theorem UpTo.all (h : s.UpTo p.targets.length P) (hm : (enter p now issued).Moves s)
    (ht : t ∈ s.plan.targets) (hb : t.batchNumber = s.plan.currentBatch) : P t := by
  obtain ⟨i, hi, heq⟩ := List.getElem_of_mem ht
  have hlength : p.targets.length = s.plan.targets.length := hm.plan.targets.length_eq
  exact h i t (hlength ▸ hi) (List.getElem?_eq_some_iff.mpr ⟨hi, heq⟩) hb

/-- Nothing is being drained, and who is to install has a command. -/
def Landed (s : Scan) (t : Target) : Prop :=
  t.status ≠ .draining ∧ (t.status.underway = true → s.Commanded t)

theorem Turn.landed (h : s.Turn s' t t') : s'.Landed t' := by
  cases h with
  | closed _ done =>
    refine ⟨fun h => ?_, fun h => ?_⟩ <;>
      cases hst : t'.status <;> simp_all [TargetStatus.terminal, TargetStatus.underway]
  | commanded _ underway before command =>
    refine ⟨fun h => ?_, fun _ => command⟩
    rw [h] at underway
    cases underway
  | reconnects before | verifies before | rollsBack before =>
    refine ⟨by simp [before], fun h => ?_⟩
    rw [before] at h
    cases h

theorem landed_of_settled (h : t.status.settled = true) : s.Landed t := by
  refine ⟨fun hd => ?_, fun hu => ?_⟩ <;>
    cases hst : t.status <;> simp_all [TargetStatus.settled, TargetStatus.underway]

/-- A loop in which every turn lands its target. -/
theorem landed_loop (issued : Nat) (h : Cancelling versions reads now p) :
    Loops reads p now issued fun s' =>
      ∀ t ∈ s'.plan.targets, t.batchNumber = s'.plan.currentBatch → s'.Landed t := by
  obtain ⟨s', hok, hm, hJ⟩ := loop_ok issued h
    (J := fun k s => s.UpTo k s.Landed) (fun k s _ hJ hne => hJ.skip hne)
    (fun k s t s' hm hmoves hJ ht hb hvisited => by
      cases hvisited with
      | batch settled =>
        intro i t' hi ht' hb'
        rw [hmoves.plan.batch] at hb'
        exact landed_of_settled (settled t' (List.mem_of_getElem? ht') hb')
      | target t₁ targets commands turn =>
        refine hJ.set hmoves ht targets (fun t ⟨hdrains, hcommand⟩ => ?_) turn.landed
        refine ⟨hdrains, fun hu => ?_⟩
        obtain ⟨c, hc, heq⟩ := hcommand hu
        exact ⟨c, commands c hc, heq⟩) upTo_zero
  exact ⟨s', hok, hm, fun t ht hb => hJ.all hm ht hb⟩

end Loops

-- ======== late scans

/-- What has begun is done or rolling back. -/
def closed (status : TargetStatus) : Bool :=
  status.terminal || status == .rollingBack

/-- All of the current batch is. -/
def Closed (p : Plan) : Prop :=
  ∀ t ∈ p.targets, t.batchNumber = p.currentBatch → closed t.status = true

/-- A scan late enough for every wait to be over. -/
structure Late (now : Int) (p : Plan) : Prop where
  drains : ∀ t ∈ p.targets, t.status ≠ .draining
  reconnect : ∀ t ∈ p.targets, p.reconnectTimeout ≤ now - t.updatedAt
  verification : ∀ t ∈ p.targets, p.verification ≤ now - t.updatedAt
  /-- an agent that is to install would wait, but another one does not
  come back -/
  stuck : (∃ t ∈ p.targets, t.status.underway = true) →
    ∃ t ∈ p.targets, t.batchNumber = p.currentBatch ∧ t.status = .reconnecting

section Late

variable {versions : String → String} {reads : Reads} {now : Int}
  {p : Plan} {issued : Nat} {s s' : Scan} {t : Target} {k : Nat}

theorem closed_of_settled (h : t.status.settled = true) : closed t.status = true := by
  cases hst : t.status <;>
    simp_all [TargetStatus.settled, closed, TargetStatus.terminal]

theorem Closed.visited (h : Closed s.plan) (hm : s.Moves s') (ht : s.plan.targets[k]? = some t)
    (hb : t.batchNumber = s.plan.currentBatch) (hvisited : s.Visited k t s') : Closed s'.plan := by
  intro t' ht' hb'
  rw [hm.plan.batch] at hb'
  have hclosed := h t (List.mem_of_getElem? ht) hb
  cases hvisited with
  | batch settled => exact closed_of_settled (settled t' ht' hb')
  | target t₁ targets commands turn =>
    rw [targets] at ht'
    rcases List.mem_or_eq_of_mem_set ht' with hold | rfl
    · exact h t' hold hb'
    cases turn with
    | closed _ done => simp [closed, done]
    | commanded _ underway before =>
      rcases before with hst | hst <;>
        cases hs : t.status <;> simp_all [closed, TargetStatus.terminal, TargetStatus.underway]
    | reconnects | verifies | rollsBack => exact hclosed

/-- How far a late scan is: the batch is closed, or what was visited is,
but for agents that are to install. -/
inductive Closing (p : Plan) (k : Nat) (s : Scan) : Prop
  | all (closed : Closed s.plan) : Closing p k s
  | upTo (visited : ∀ i t, i < k → s.plan.targets[i]? = some t →
        t.batchNumber = s.plan.currentBatch → closed t.status = true
          ∨ ∃ t ∈ p.targets, t.status.underway = true)
      (rest : ∀ i, k ≤ i → s.plan.targets[i]? = p.targets[i]?)
      (none : ∀ i t, i < k → p.targets[i]? = some t →
        t.batchNumber = p.currentBatch → t.status ≠ .reconnecting) : Closing p k s

theorem Closing.skip (hm : (enter p now issued).Moves s) (h : Closing p k s)
    (hne : ∀ t, s.plan.targets[k]? = some t → t.batchNumber ≠ s.plan.currentBatch) :
    Closing p (k + 1) s := by
  cases h with
  | all closed => exact .all closed
  | upTo visited rest none =>
    refine .upTo (UpTo.skip visited hne) (fun i hi => rest i (by omega)) (fun i t hi ht hb => ?_)
    · rcases Nat.lt_succ_iff_lt_or_eq.mp hi with hi | rfl
      · exact none i t hi ht hb
      · refine absurd (hb.trans hm.plan.batch.symm) (hne t ?_)
        rw [rest i (Nat.le_refl _), ht]

theorem Closing.visit (hlate : Late now p) (hm : (enter p now issued).Moves s)
    (hmoves : s.Moves s') (h : Closing p k s) (ht : s.plan.targets[k]? = some t)
    (hb : t.batchNumber = s.plan.currentBatch) (hvisited : s.Visited k t s') :
    Closing p (k + 1) s' := by
  cases h with
  | all closed => exact .all (closed.visited hmoves ht hb hvisited)
  | upTo visited rest none =>
    cases hvisited with
    | batch settled =>
      refine .all fun t' ht' hb' => ?_
      rw [hmoves.plan.batch] at hb'
      exact closed_of_settled (settled t' ht' hb')
    | target t' targets commands turn =>
      -- the target is as the scan found it
      have htp : p.targets[k]? = some t := by
        rw [← rest k (Nat.le_refl _), ht]
      have hmem := List.mem_of_getElem? htp
      have hnow : s.now = now := hm.now
      have hreconnect : s.plan.reconnectTimeout ≤ now - t.updatedAt := by
        rw [hm.plan.reconnectTimeout]
        exact hlate.reconnect t hmem
      have hverification : s.plan.verification ≤ now - t.updatedAt := by
        have heq : s.plan.verification = p.verification := by
          unfold Plan.verification
          rw [hm.plan.verification]
          rfl
        rw [heq]
        exact hlate.verification t hmem
      have hturn : (closed t'.status = true ∨ ∃ t ∈ p.targets, t.status.underway = true)
          ∧ t.status ≠ .reconnecting := by
        cases turn with
        | closed _ done before => exact ⟨Or.inl (by simp [closed, done]), before⟩
        | commanded _ underway before =>
          have hu : t.status.underway = true := before.resolve_left (hlate.drains t hmem)
          refine ⟨Or.inr ⟨t, hmem, hu⟩, fun hr => ?_⟩
          rw [hr] at hu
          cases hu
        | reconnects | verifies | rollsBack => omega
      refine .upTo (UpTo.set visited hmoves ht targets (fun _ h => h) hturn.1) (fun i hi => ?_)
        (fun i t₁ hi ht₁ hb₁ => ?_)
      · rw [targets, List.getElem?_set_ne (by omega)]
        exact rest i (by omega)
      · rcases Nat.lt_succ_iff_lt_or_eq.mp hi with hi | rfl
        · exact none i t₁ hi ht₁ hb₁
        · cases htp.symm.trans ht₁
          exact hturn.2

theorem closed_loop (issued : Nat) (h : Cancelling versions reads now p) (hlate : Late now p) :
    Loops reads p now issued fun s' => Closed s'.plan := by
  have hstart : Closing p 0 (enter p now issued) := 
    .upTo upTo_zero (fun i _ => rfl) fun i _ hi => absurd hi (Nat.not_lt_zero i)
  obtain ⟨s', hok, hm, hclosing⟩ := loop_ok issued h (J := Closing p)
    (fun k s hm hJ hne => hJ.skip hm hne) (fun k s t s' hm hmoves hJ ht hb hvisited =>
      hJ.visit hlate hm hmoves ht hb hvisited) hstart
  refine ⟨s', hok, hm, ?_⟩
  cases hclosing with
  | all closed => exact closed
  | upTo visited rest none =>
    intro t ht hb
    rcases UpTo.all visited hm ht hb with hc | hu
    · exact hc
    · obtain ⟨t', ht', hb', hr⟩ := hlate.stuck hu
      obtain ⟨j, hj, heq⟩ := List.getElem_of_mem ht'
      exact absurd hr (none j t' hj (List.getElem?_eq_some_iff.mpr ⟨hj, heq⟩) hb')

theorem terminal_loop (issued : Nat) (h : Cancelling versions reads now p) (hclosed : Closed p)
    (hlate : ∀ t ∈ p.targets, p.reconnectTimeout ≤ now - t.updatedAt) :
    Loops reads p now issued fun s' =>
      ∀ t ∈ s'.plan.targets, t.batchNumber = s'.plan.currentBatch → t.status.terminal = true := by
  obtain ⟨s', hok, hm, hJ⟩ := loop_ok issued h (J := fun k s => s.UpTo k (·.status.terminal = true)
      ∧ ∀ i, k ≤ i → s.plan.targets[i]? = p.targets[i]?)
    (fun k s hm hJ hne => ⟨hJ.1.skip hne, fun i hi => hJ.2 i (by omega)⟩)
    (fun k s t s' hm hmoves hJ ht hb hvisited => by
      have htp : p.targets[k]? = some t := by
        rw [← hJ.2 k (Nat.le_refl _), ht]
      have hmem := List.mem_of_getElem? htp
      have hc := hclosed t hmem (hb.trans hm.plan.batch)
      have hnow : s.now = now := hm.now
      have hreconnect : s.plan.reconnectTimeout ≤ now - t.updatedAt := by
        rw [hm.plan.reconnectTimeout]
        exact hlate t hmem
      cases hvisited with
      | batch settled before =>
        rcases before with hst | hst <;> rw [hst] at hc <;> cases hc
      | target t' targets commands turn =>
        have hdone : t'.status.terminal = true := by
          cases turn with
          | closed _ done => exact done
          | commanded _ underway before =>
            rcases before with hst | hst <;>
              cases hs : t.status <;> simp_all [closed,
                TargetStatus.terminal, TargetStatus.underway]
          | reconnects before | verifies before =>
            rw [before] at hc
            cases hc
          | rollsBack before early => omega
        refine ⟨hJ.1.set hmoves ht targets (fun _ h => h) hdone, fun i hi => ?_⟩
        rw [targets, List.getElem?_set_ne (by omega)]
        exact hJ.2 i (by omega))
    ⟨upTo_zero, fun i _ => rfl⟩
  exact ⟨s', hok, hm, fun t ht hb => hJ.1.all hm ht hb⟩

end Late

end Scan

end Yunling.Upgrade
