/-
Failures inside a batch.

The control plane learns of a failure in four ways: an agent reports
`failed`, an agent does not come back in time, a health check fails, and
an agent comes back with another version. The first three go through
`rollbackBatch`, which pauses the plan and settles the whole batch. The
others touch one target: a version that does not match rolls back the
target it was seen on (`ObserveHeartbeat`), and a rollback that failed
makes one target a case for an operator. The rest of the batch goes on.

# What becomes of the commands

A target that is put in `rolling_back` gets a command with a new id,
which is handed to the sender after the save. The sends stop at the first
one that fails; what is left of them comes with the next scan, for as
long as the agent may take to reconnect (`owes_scan`).

# Main results

- `failure_settles_batch`: what a failure does to its batch, exactly, and
  which commands follow.
- `wrong_version_spares_batch`: a reconnect with another version leaves
  the batch installing.
-/
import Yunling.Upgrade.Proofs.Plans

namespace Yunling.Upgrade

open Fallible

-- ======== detections

/-- A command rolls a target back, under the command the target is at. -/
structure SentCommand.RollsBack (c : SentCommand) (t : Target) : Prop where
  serverID : c.serverID = t.serverID
  action : c.command.action = .rollback
  targetID : c.command.targetID = t.id
  commandID : c.command.commandID = t.commandID

theorem rollbackCommand_rollsBack (p : Plan) (t : Target) :
    SentCommand.RollsBack ⟨t.serverID, rollbackCommand p t⟩ t := ⟨rfl, rfl, rfl, rfl⟩

/-- The turn of a target finds that its agent did not come back in time,
or that its server is not healthy. -/
def Scan.fails (s : Scan) (reads : Reads) (t : Target) : Bool :=
  match t.status with
  | .reconnecting => s.plan.reconnectTimeout ≤ s.now - t.updatedAt
  | .healthChecking =>
    match reads.runtime t.serverID with
    | .error _ => false
    | .ok runtime => !runtimeAvailable runtime t.targetVersion s.now
        || (s.plan.verification ≤ s.now - t.updatedAt && !runtime.lastSeenAt.any (t.updatedAt < ·))
  | _ => false

/-- A call on a plan detects a failure of a target of its current
batch. -/
inductive Detects (p : Plan) (issued : Nat) (t : Target) : Call → Prop
  | reported {now : Int} {serverID : String} {e : UpgradeEvent}
      {fate : Store.Fate} (active : p.status.active = true)
      (mem : t ∈ p.targets) (batch : t.batchNumber = p.currentBatch)
      (answers : t.Answers serverID e.targetID e.commandID)
      (stage : e.stage = .failed) :
      Detects p issued t (.event now serverID e fate)
  | version {now : Int} {h : UpgradeHeartbeat} {fate : Store.Fate}
      {targetID commandID : Nat} (active : p.status.active = true)
      (mem : t ∈ p.targets) (batch : t.batchNumber = p.currentBatch)
      (upgrade : h.upgrade = some (targetID, commandID))
      (answers : t.Answers h.serverID targetID commandID)
      (status : t.status = .reconnecting)
      (other : h.agentVersion ≠ t.targetVersion) :
      Detects p issued t (.heartbeat now h fate)
  | turn {now : Int} {reads : Reads} {fate : Store.Fate} {i : Nat}
      {s : Scan} (loop : (List.range i).foldlM (Scan.visit reads)
        (Scan.enter p now issued) = .ok s) (here : s.Here i t)
      (fails : s.fails reads t = true) :
      Detects p issued t (.scan now reads fate)

/-- The failure goes through `rollbackBatch`. -/
def Call.batchwide (call : Call) (t : Target) : Bool :=
  match call with
  | .scan .. => true
  | .event _ _ e _ =>
    !(e.errorCode == "rollback_failed" || t.status == .rollingBack)
  | _ => false

/-- A batch that is down: the plan is paused, and all of the batch rolls
back, is rolled back or waits for an operator. -/
structure Plan.Down (p : Plan) (batch : Nat) : Prop where
  paused : p.status = .paused
  settled : ∀ t ∈ p.targets, t.batchNumber = batch → t.status.settled = true

/-- A target is rolling back since before, or has begun to at `now` and
has its command, with an id that is new. -/
def Target.Told (p : Plan) (issued : Nat) (commands : List SentCommand)
    (batch : Nat) (now : Int) (t : Target) : Prop :=
  (∃ t₀ ∈ p.targets, t₀.id = t.id ∧ t₀.status = .rollingBack)
    ∨ t.updatedAt = now ∧ t.batchNumber = batch ∧ issued ≤ t.commandID
      ∧ ∃ c ∈ commands, c.RollsBack t

-- ======== one batch

section Batch

variable {p : Plan} {t t' u : Target} {now : Int} {issued : Nat} {targets : List Target} {i : Nat}

/-- Another target than the one that was rewritten. -/
theorem mem_set_of_ne (hu : u ∈ targets) (ht : targets[i]? = some t) (hne : t ≠ u) :
    u ∈ targets.set i t' := by
  obtain ⟨j, hj, rfl⟩ := List.getElem_of_mem hu
  have hij : i ≠ j := by
    rintro rfl
    rw [List.getElem?_eq_getElem hj] at ht
    exact hne (Option.some.inj ht).symm
  have hset := List.getElem?_set_ne hij (l := targets) (a := t')
  rw [List.getElem?_eq_getElem hj] at hset
  exact List.mem_of_getElem? hset

/-- The targets after one of them was rewritten. -/
theorem mem_set_ids (hids : (targets.map (·.id)).Nodup) (ht : targets[i]? = some t)
    (hid : t'.id = t.id) : u ∈ targets.set i t' ↔ u = t' ∨ u ∈ targets ∧ u.id ≠ t.id := by
  have hi := (List.getElem?_eq_some_iff.mp ht).1
  have hset : ((targets.set i t').map (·.id)).Nodup := by
    have hsame := Pointwise.set (R := fun t t' : Target => t'.id = t.id) (fun _ => rfl) ht hid
    rwa [Pointwise.map_eq (fun _ _ hid => hid) hsame]
  constructor
  · intro hu
    by_cases heq : u.id = t.id
    · exact Or.inl (eq_of_id hset hu (List.mem_set hi _) (heq.trans hid.symm))
    · rcases List.mem_or_eq_of_mem_set hu with hold | rfl
      · exact Or.inr ⟨hold, heq⟩
      · exact absurd hid heq
  · rintro (rfl | ⟨hu, hne⟩)
    · exact List.mem_set hi _
    · exact mem_set_of_ne hu ht fun heq => hne (heq ▸ rfl)

/-- One target of a batch goes down alone. -/
theorem down_put (hids : (p.targets.map (·.id)).Nodup) (ht : p.targets[i]? = some t)
    {p' : Plan} (hpaused : p'.status = .paused) (htargets : p'.targets = p.targets.set i t')
    (hid : t'.id = t.id) (hsettled : t'.status.settled = true) : p'.Down t.batchNumber ↔
      ∀ u ∈ p.targets, u.batchNumber = t.batchNumber → u.id ≠ t.id → u.status.settled = true := by
  constructor
  · intro hdown u hu hb hne
    refine hdown.settled u ?_ hb
    rw [htargets]
    exact (mem_set_ids hids ht hid).mpr (Or.inr ⟨hu, hne⟩)
  · intro hothers
    refine ⟨hpaused, fun u hu hb => ?_⟩
    rw [htargets] at hu
    rcases (mem_set_ids hids ht hid).mp hu with rfl | ⟨hu, hne⟩
    · exact hsettled
    · exact hothers u hu hb hne

theorem told_rollback (p : Plan) (failed : Nat) (errorCode : String)
    (now : Int) (issued : Nat) (batch : Nat) :
    let r := rollbackBatch p batch failed errorCode now issued
    r.1.Down batch ∧ ∀ t' ∈ r.1.targets, t'.status = .rollingBack →
      t'.Told p issued r.2.1 batch now := by
  have hrolled := p.rolledBack batch failed errorCode now issued
  refine ⟨⟨rfl, hrolled.settled⟩, fun t' ht' hst => ?_⟩
  have htold := (rollbackTargets_commands p batch failed errorCode now
    p.targets issued).2 t' ht' hst
  exact htold.imp (fun hold => ⟨t', hold, rfl, hst⟩) fun h =>
    ⟨h.1, h.2.1, h.2.2.1, _, h.2.2.2, rollbackCommand_rollsBack p t'⟩

end Batch

-- ======== scans

/-- What is settled and moves on is still settled. -/
theorem forward_settled {current next : TargetStatus} (hs : current.settled = true)
    (hne : current ≠ next) (h : forwardTransition current next = true) : next.settled = true := by
  cases current with
  | cancelled | rollingBack | rolledBack | manualIntervention =>
    cases next <;> simp_all [forwardTransition, TargetStatus.rank, TargetStatus.settled]
  | _ => cases hs

theorem TargetStatus.unsettled_of_underway {status : TargetStatus}
    (h : status.underway = true) : status.settled = false := by
  cases status <;> first | rfl | cases h

namespace Scan

variable {s s' : Scan} {p : Plan} {issued i : Nat} {t : Target}
  {reads : Reads}

theorem visit_fails (here : s.Here i t) (h : s.fails reads t = true) :
    ∃ errorCode, (errorCode = "reconnect_timeout" ∨ errorCode = "health_check_failed")
      ∧ visit reads s i = .ok (s.rollback t errorCode) := by
  unfold visit
  rw [here.at_index]
  dsimp only
  rw [if_neg (not_not.mpr here.batch)]
  unfold fails at h
  cases hst : t.status with
  | reconnecting =>
    rw [hst] at h
    simp only [decide_eq_true_eq] at h
    simp [visitReconnecting, h]
  | healthChecking =>
    rw [hst] at h
    unfold visitHealthChecking
    cases hread : reads.runtime t.serverID with
    | error e => rw [hread] at h; cases h
    | ok runtime =>
      rw [hread] at h
      simp only [Bool.or_eq_true, Bool.and_eq_true, decide_eq_true_eq] at h
      rcases h with hdown | ⟨hlate, hunseen⟩
      · simp [hdown, bind, Except.bind, pure, Except.pure]
      · cases hup : runtimeAvailable runtime t.targetVersion s.now <;>
          simp [hunseen, Int.not_lt.mpr hlate, bind, Except.bind, pure, Except.pure]
  | _ => rw [hst] at h; cases h

/-- Nothing has begun to roll back in this scan. -/
def Calm (p : Plan) (s : Scan) : Prop :=
  ∀ t ∈ s.plan.targets, t.status = .rollingBack →
    ∃ t₀ ∈ p.targets, t₀.id = t.id ∧ t₀.status = .rollingBack

/-- The batch has gone down in this scan. -/
structure Failed (p : Plan) (issued : Nat) (s : Scan) : Prop where
  changed : s.changed = true
  window : 0 < s.plan.reconnectTimeout
  down : s.plan.Down s.plan.currentBatch
  fresh : ∃ t ∈ s.plan.targets, t.batchNumber = s.plan.currentBatch
    ∧ t.status = .rollingBack ∧ t.updatedAt = s.now
  told : ∀ t ∈ s.plan.targets, t.status = .rollingBack →
    t.Told p issued s.commands s.plan.currentBatch s.now

theorem Calm.put {t' : Target} (h : Calm p s) (htargets : s'.plan.targets = s.plan.targets.set i t')
    (hne : t'.status ≠ .rollingBack) : Calm p s' := by
  intro u hu hst
  rw [htargets] at hu
  rcases List.mem_or_eq_of_mem_set hu with hold | rfl
  · exact h u hold hst
  · exact absurd hst hne

/-- A failure inside the current batch takes it down. -/
theorem Calm.rollback (h : Calm p s) (here : s.Here i t) (hwindow : 0 < s.plan.reconnectTimeout)
    (hissued : issued ≤ s.issued) (hst : t.status = .reconnecting ∨ t.status = .healthChecking)
    {errorCode : String}
    (hcode : errorCode = "reconnect_timeout" ∨ errorCode = "health_check_failed") :
    Failed p issued (s.rollback t errorCode) := by
  obtain ⟨hdown, htold⟩ := told_rollback s.plan t.id errorCode s.now s.issued t.batchNumber
  have hbatch : (s.rollback t errorCode).plan.currentBatch = t.batchNumber := here.batch.symm
  refine ⟨rfl, hwindow, hbatch ▸ hdown, ?_, fun t' ht' hroll => ?_⟩
  · -- the target itself is told to roll back
    obtain ⟨-, hrolls⟩ := rollbackTargets_rolls s.plan t.batchNumber t.id
      errorCode s.now s.plan.targets s.issued
    obtain ⟨t', ht', hto⟩ := Pointwise.mem_left hrolls here.mem
    have hunsettled : t.status.settled = false := by
      rcases hst with hst | hst <;> rw [hst] <;> rfl
    cases hto with
    | left hleft =>
      rw [hunsettled] at hleft
      simp at hleft
    | done _ _ hu =>
      rcases hst with hst | hst <;> rcases hcode with rfl | rfl <;>
        simp [Target.uninstalled, hst] at hu
    | told => exact ⟨_, ht', here.batch, rfl, rfl⟩
  · refine (htold t' ht' hroll).imp ?_ fun hnew => ?_
    · rintro ⟨t₀, ht₀, hid, hst₀⟩
      obtain ⟨t₁, ht₁, hid₁, hst₁⟩ := h t₀ ht₀ hst₀
      exact ⟨t₁, ht₁, hid₁.trans hid, hst₁⟩
    · obtain ⟨htime, hb, hid, c, hc, hrolls⟩ := hnew
      exact ⟨htime, hb.trans hbatch.symm, Nat.le_trans hissued hid, c,
        List.mem_append_right _ hc, hrolls⟩

theorem Calm.turned (h : Calm p s) (hwindow : 0 < s.plan.reconnectTimeout)
    (hissued : issued ≤ s.issued) (hturn : Turned reads s i s') :
    Calm p s' ∨ Failed p issued s' := by
  cases hturn with
  | left => exact Or.inl h
  | expired | repeated | resent => exact Or.inl h
  | drained | switched | succeeded | downloads | lost =>
    exact Or.inl (h.put rfl (by simp [Target.drain, Target.succeed,
      Target.sourceVersionChanged, Target.download, Target.rollbackTimeout]))
  | failed here status code =>
    refine Or.inr (h.rollback here hwindow hissued ?_ code)
    exact status.imp_left And.left

/-- A target that is settled has no other turns than these. -/
theorem Turned.settled (hturn : Turned reads s i s')
    (hsettled : ∀ t, s.Here i t → t.status.settled = true) :
    s' = s ∧ (∀ t, s.Here i t → t.status ≠ .rollingBack)
      ∨ (∃ t, s.Here i t ∧ t.status = .rollingBack ∧ s.plan.reconnectTimeout ≤ s.now - t.updatedAt
        ∧ s' = { s.put i (t.rollbackTimeout s.now) with
          plan := { (s.put i (t.rollbackTimeout s.now)).plan with
            status := .paused
            pauseReason := "代理回滚超时，需要人工处理" } })
      ∨ ∃ t, s.Here i t ∧ t.status = .rollingBack ∧ s.now - t.updatedAt < s.plan.reconnectTimeout
        ∧ s' = { s with commands := s.commands ++ [⟨t.serverID, rollbackCommand s.plan t⟩] } := by
  have hno : ∀ {t : Target}, s.Here i t → t.status.settled = false → False := by
    intro t here hs
    rw [hsettled t here] at hs
    cases hs
  cases hturn with
  | left idle => exact Or.inl ⟨rfl, fun t here => (idle t here).2⟩
  | lost here status late =>
    exact Or.inr (Or.inl ⟨_, here, status, late, rfl⟩)
  | resent here status early =>
    exact Or.inr (Or.inr ⟨_, here, status, early, rfl⟩)
  | drained here status | expired here status | downloads here status
  | succeeded here status =>
    exact (hno here (by rw [status]; rfl)).elim
  | failed here status =>
    refine (hno here ?_).elim
    rcases status with ⟨hst, -⟩ | hst <;> rw [hst] <;> rfl
  | switched here status =>
    refine (hno here ?_).elim
    rcases status with hst | hst
    · rw [hst]; rfl
    · exact TargetStatus.unsettled_of_underway hst
  | repeated here status =>
    exact (hno here (TargetStatus.unsettled_of_underway status)).elim

theorem Failed.turned (h : Failed p issued s)
    (hturn : Turned reads s i s') : Failed p issued s' := by
  have hsettled : ∀ t, s.Here i t → t.status.settled = true :=
    fun t here => h.down.settled t here.mem here.batch
  rcases hturn.settled hsettled with ⟨rfl, -⟩
    | ⟨t, here, hst, hlate, rfl⟩ | ⟨t, here, hst, hearly, rfl⟩
  · exact h
  · -- not the target whose failure it was: that one is told just now
    refine ⟨rfl, h.window, ⟨rfl, fun u hu hb => ?_⟩, ?_, fun u hu hroll => ?_⟩
    · rcases List.mem_or_eq_of_mem_set hu with hold | rfl
      · exact h.down.settled u hold hb
      · rfl
    · obtain ⟨u, hu, hb, hroll, htime⟩ := h.fresh
      have hne : u ≠ t := by
        rintro rfl
        have := h.window
        omega
      exact ⟨u, mem_set_of_ne hu here.at_index hne.symm, hb, hroll, htime⟩
    · rcases List.mem_or_eq_of_mem_set hu with hold | rfl
      · exact h.told u hold hroll
      · cases hroll
  · refine ⟨h.changed, h.window, h.down, h.fresh, fun u hu hroll => ?_⟩
    refine (h.told u hu hroll).imp_right fun ⟨htime, hb, hid, c, hc, hrolls⟩ =>
        ⟨htime, hb, hid, c, List.mem_append_left _ hc, hrolls⟩

/-- The end of a scan in which the batch has gone down. -/
theorem Failed.leave (h : Failed p issued s) : s.leave = s := by
  obtain ⟨t, ht, hb, hst, -⟩ := h.fresh
  exact leave_undone ht hb (by rw [hst]; rfl)

/-- A scan with a turn that fails takes the batch down. -/
theorem fails_loop {now : Int} {n : Nat} {final : Scan} (hwindow : 0 < p.reconnectTimeout)
    (hi : i < n) (hbefore : (List.range i).foldlM (visit reads) (enter p now issued) = .ok s)
    (hloop : (List.range n).foldlM (visit reads) (enter p now issued) = .ok final)
    (here : s.Here i t) (hfails : s.fails reads t = true) : Failed p issued final := by
  have hstart : Calm p (enter p now issued) :=
    fun t ht hst => ⟨t, ht, rfl, hst⟩
  have hmoves := visits_moves hbefore
  have hwindow' : 0 < s.plan.reconnectTimeout := by
    rw [hmoves.plan.reconnectTimeout]
    exact hwindow
  have hcases : Calm p s ∨ Failed p issued s := by
    have hloop := foldlM_rel (R := fun s s' : Scan =>
        (0 < s.plan.reconnectTimeout ∧ issued ≤ s.issued ∧ (Calm p s ∨ Failed p issued s)) →
        0 < s'.plan.reconnectTimeout ∧ issued ≤ s'.issued ∧ (Calm p s' ∨ Failed p issued s'))
      (fun _ h => h) (fun h h' hs => h' (h hs))
      (fun {s s' i} hvisit ⟨hw, hle, hs⟩ => by
        have hturn := visit_turned hvisit
        have hmoves := visit_moves hvisit
        refine ⟨by rwa [hmoves.plan.reconnectTimeout], Nat.le_trans hle hmoves.issued, ?_⟩
        rcases hs with hcalm | hfailed
        · exact hcalm.turned hw hle hturn
        · exact Or.inr (hfailed.turned hturn)) hbefore
    exact (hloop ⟨hwindow, Nat.le_refl _, Or.inl hstart⟩).2.2
  have hst : t.status = .reconnecting ∨ t.status = .healthChecking := by
    unfold fails at hfails
    cases hst : t.status with
    | reconnecting => exact Or.inl rfl
    | healthChecking => exact Or.inr rfl
    | _ => rw [hst] at hfails; cases hfails
  obtain ⟨next, hnext, hrest⟩ := foldlM_range_at hi hbefore hloop
  obtain ⟨errorCode, hcode, hvisit⟩ := visit_fails here hfails
  obtain rfl : s.rollback t errorCode = next := Except.ok.inj (hvisit.symm.trans hnext)
  have hfailed : Failed p issued (s.rollback t errorCode) := by
    rcases hcases with hcalm | hfailed
    · exact hcalm.rollback here hwindow' hmoves.issued hst hcode
    · -- once the batch is down no turn fails
      have hsettled := hfailed.down.settled t here.mem here.batch
      rcases hst with hst | hst <;> rw [hst] at hsettled <;> cases hsettled
  exact foldlM_rel (R := fun s s' => Failed p issued s → Failed p issued s')
    (fun _ h => h) (fun h h' hs => h' (h hs))
    (fun hvisit h => h.turned (visit_turned hvisit)) hrest hfailed

end Scan

-- ======== every failure

section Failures

variable {p : Plan} {t : Target} {issued : Nat} {call : Call} {o : Outcome} {now : Int}
  {fate : Store.Fate}

/-- What a failure does, however it is detected: whether its batch goes
down, and that what begins to roll back has its command. -/
structure Plan.Fallen (p : Plan) (issued : Nat) (call : Call)
    (t : Target) (o : Outcome) (p' : Plan) : Prop where
  save : o.save = some p'
  down : p'.Down t.batchNumber ↔ call.batchwide t = true
    ∨ ∀ u ∈ p.targets, u.batchNumber = t.batchNumber → u.id ≠ t.id → u.status.settled = true
  told : ∀ t' ∈ p'.targets, t'.status = .rollingBack →
    t'.Told p issued o.commands t.batchNumber call.now
  batch : p'.currentBatch = t.batchNumber
  reconnect : p'.reconnectTimeout = p.reconnectTimeout

section Nodup

variable (hids : (p.targets.map (·.id)).Nodup) (hactive : p.status.active = true)
  (ht : t ∈ p.targets) (hb : t.batchNumber = p.currentBatch)

include hids hactive ht hb

theorem reported_fallen {serverID : String} {e : UpgradeEvent}
    (ha : t.Answers serverID e.targetID e.commandID) (hstage : e.stage = .failed)
    (ho : (Call.event now serverID e fate).decide p issued = some o) :
    ∃ p', p.Fallen issued (.event now serverID e fate) t o p' := by
  obtain ⟨i, hfound, hat⟩ := matchTarget_mem hids ht ha
  have heq : o = p.applyFailure i t e now issued := by
    simp only [Call.decide, hactive, if_true, Plan.applyUpgradeEvent,
      hfound, hat, hstage, Except.toOption, Option.some.injEq] at ho
    exact ho.symm
  subst heq
  unfold Plan.applyFailure
  split
  · next hback =>
    -- the target alone is given up
    have hnot : (Call.event now serverID e fate).batchwide t = false := by
      rcases hback with hcode | hst
      · simp [Call.batchwide, hcode]
      · simp [Call.batchwide, hst]
    refine ⟨_, rfl, ?_, fun t' ht' hroll => ?_, hb.symm, rfl⟩
    · rw [hnot]
      simp only [Bool.false_eq_true, false_or]
      exact down_put hids hat rfl rfl rfl rfl
    · rcases List.mem_or_eq_of_mem_set ht' with hold | rfl
      · exact Or.inl ⟨t', hold, rfl, hroll⟩
      · cases hroll
  · next hback =>
    obtain ⟨hdown, htold⟩ := told_rollback p t.id e.errorCode now issued t.batchNumber
    have hwide : (Call.event now serverID e fate).batchwide t = true := by
      simpa [Call.batchwide] using hback
    exact ⟨_, rfl, ⟨fun _ => Or.inl hwide, fun _ => hdown⟩, htold, hb.symm, rfl⟩

theorem version_fallen {h : UpgradeHeartbeat} {targetID commandID : Nat}
    (hu : h.upgrade = some (targetID, commandID)) (ha : t.Answers h.serverID targetID commandID)
    (hst : t.status = .reconnecting) (hversion : h.agentVersion ≠ t.targetVersion)
    (ho : (Call.heartbeat now h fate).decide p issued = some o) :
    ∃ p', p.Fallen issued (.heartbeat now h fate) t o p' := by
  obtain ⟨i, hfound, hat⟩ := matchTarget_mem hids ht ha
  simp only [Call.decide, hactive, if_true, Plan.observeHeartbeat, hu,
    hfound, hat, hst, hversion, ne_eq, not_false_eq_true, Option.some.injEq] at ho
  subst ho
  refine ⟨_, rfl, ?_, fun t' ht' hroll => ?_, hb.symm, rfl⟩
  · simp only [Call.batchwide, Bool.false_eq_true, false_or]
    exact down_put hids hat rfl rfl rfl rfl
  · rcases List.mem_or_eq_of_mem_set ht' with hold | rfl
    · exact Or.inl ⟨t', hold, rfl, hroll⟩
    · exact Or.inr ⟨rfl, rfl, Nat.le_refl _, _, List.mem_cons_self, rfl, rfl, rfl, rfl⟩

end Nodup

theorem turn_fallen {reads : Reads} {i : Nat} {s : Scan} (hwindow : 0 < p.reconnectTimeout)
    (hloop : (List.range i).foldlM (Scan.visit reads) (Scan.enter p now issued) = .ok s)
    (here : s.Here i t) (hfails : s.fails reads t = true)
    (ho : (Call.scan now reads fate).decide p issued = some o) :
    ∃ p', p.Fallen issued (.scan now reads fate) t o p' := by
  cases Call.decided ho with
  | ignored h => cases h
  | @scan _ _ _ final active loop =>
    have hmoves := Scan.visits_moves hloop
    have hall := Scan.visits_moves loop
    have hi : i < p.targets.length := hmoves.plan.targets.length_eq ▸ here.lt
    have hfailed := Scan.fails_loop hwindow hi hloop loop here hfails
    have hbatch : final.plan.currentBatch = t.batchNumber :=
      (hall.plan.batch.trans hmoves.plan.batch.symm).trans here.batch.symm
    rw [hfailed.leave]
    refine ⟨final.plan, if_pos hfailed.changed, ?_, fun t' ht' hroll => ?_,
      hbatch, hall.plan.reconnectTimeout⟩
    · exact ⟨fun _ => Or.inl rfl, fun _ => hbatch ▸ hfailed.down⟩
    · have htold := hfailed.told t' ht' hroll
      rw [hbatch, hall.now] at htold
      exact htold

theorem Detects.fallen (h : Detects p issued t call) (hids : (p.targets.map (·.id)).Nodup)
    (hwindow : 0 < p.reconnectTimeout) (ho : call.decide p issued = some o) :
    ∃ p', p.Fallen issued call t o p' := by
  cases h with
  | reported active mem batch answers stage =>
    exact reported_fallen hids active mem batch answers stage ho
  | version active mem batch upgrade answers status other =>
    exact version_fallen hids active mem batch upgrade answers status other ho
  | turn loop here fails => exact turn_fallen hwindow loop here fails ho

end Failures

-- ======== next scans

/-- A batch is down, and one of its targets is to be told to roll
back. -/
structure Plan.Owes (t : Target) (bound : Int) (p : Plan) : Prop where
  active : p.status.active = true
  bound : p.reconnectTimeout = bound
  settled : ∀ u ∈ p.targets, u.batchNumber = p.currentBatch → u.status.settled = true
  mem : t ∈ p.targets
  batch : t.batchNumber = p.currentBatch
  status : t.status = .rollingBack

/-- The call is no scan, tries nothing again, and is not about the
command of the target. -/
def Call.passes (t : Target) : Call → Bool
  | .scan .. | .retry .. => false
  | .event _ serverID e _ => !(t.id == e.targetID
      && t.serverID == serverID && t.commandID == e.commandID)
  | .heartbeat _ h _ => h.upgrade.all fun (targetID, commandID) =>
    !(t.id == targetID && t.serverID == h.serverID && t.commandID == commandID)
  | _ => true

section Owing

variable {p p' : Plan} {t : Target} {bound now : Int} {issued : Nat} {call : Call} {o : Outcome}
  {rank : Nat → Nat} {reads : Reads}

theorem Plan.Owes.ordered (h : p.Owes t bound) (rank : Nat → Nat) : (p.ordered rank).Owes t bound :=
  ⟨h.active, h.bound, fun u hu => h.settled u (mem_ordered.mp hu),
    mem_ordered.mpr h.mem, h.batch, h.status⟩

/-- Another target is rewritten, and stays settled if it was. -/
theorem Plan.Owes.put (h : p.Owes t bound) {i : Nat} {u u' : Target} (hu : p.targets[i]? = some u)
    (hne : u ≠ t) (htargets : p'.targets = p.targets.set i u') (hb : u'.batchNumber = u.batchNumber)
    (hsettled : u.status.settled = true → u'.status.settled = true)
    (hactive : p'.status.active = true) (hbound : p'.reconnectTimeout = p.reconnectTimeout)
    (hbatch : p'.currentBatch = p.currentBatch) : p'.Owes t bound := by
  refine ⟨hactive, hbound.trans h.bound, fun v hv hvb => ?_, ?_,
    h.batch.trans hbatch.symm, h.status⟩
  · rw [htargets] at hv
    rw [hbatch] at hvb
    rcases List.mem_or_eq_of_mem_set hv with hold | rfl
    · exact h.settled v hold hvb
    · exact hsettled (h.settled u (List.mem_of_getElem? hu) (hb.symm.trans hvb))
  · rw [htargets]
    exact mem_set_of_ne h.mem hu hne

/-- What passes a target by leaves its command to be sent. -/
theorem Decided.owes (hd : Decided p issued call o) (h : p.Owes t bound)
    (hpass : call.passes t = true) (hp' : p' ∈ o.save) : p'.Owes t bound := by
  have hevent : ∀ {now : Int} {serverID : String} {e : UpgradeEvent}
      {fate : Store.Fate} {u : Target}, (Call.event now serverID e fate).passes t = true →
      u.Answers serverID e.targetID e.commandID → u ≠ t := by
    rintro now serverID e fate u hpass ha rfl
    simp [Call.passes, ha.id, ha.serverID, ha.commandID] at hpass
  have hbeat : ∀ {now : Int} {hb : UpgradeHeartbeat} {fate : Store.Fate}
      {u : Target} {targetID commandID : Nat}, (Call.heartbeat now hb fate).passes t = true →
      hb.upgrade = some (targetID, commandID) →
      u.Answers hb.serverID targetID commandID → u ≠ t := by
    rintro now hb fate u targetID commandID hpass hu ha rfl
    simp [Call.passes, hu, ha.id, ha.serverID, ha.commandID] at hpass
  cases hd with
  | scan => cases hpass
  | retried => cases hpass
  | ignored | noted => cases hp'
  | stuck active ht answers =>
    cases hp'
    exact h.put ht (hevent hpass answers) rfl rfl (fun _ => rfl) rfl rfl rfl
  | @failed now serverID e fate i u active ht answers =>
    cases hp'
    obtain ⟨-, hrolls⟩ := rollbackTargets_rolls p u.batchNumber u.id
      e.errorCode now p.targets issued
    -- what is settled is left alone
    have hleft : ∀ {v v' : Target}, v.RollsTo u.batchNumber u.id
        e.errorCode now issued (rollbackTargets p u.batchNumber u.id
          e.errorCode now p.targets issued).2.2 v' → v.status.settled = true → v' = v := by
      intro v v' hto hs
      cases hto with
      | left => rfl
      | done _ hs' | told _ _ hs' => rw [hs] at hs'; cases hs'
    refine ⟨rfl, h.bound, fun v' hv' hb => ?_, ?_, h.batch, h.status⟩
    · obtain ⟨v, hv, hto⟩ := Pointwise.mem_right hrolls hv'
      have hsame : v'.batchNumber = v.batchNumber :=
        (show v.Moved _ issued _ 0 v' from hto.moved).same.batchNumber
      have hs := h.settled v hv (hsame.symm.trans hb)
      rw [hleft hto hs]
      exact hs
    · obtain ⟨t', ht', hto⟩ := Pointwise.mem_left hrolls h.mem
      rw [hleft hto (h.settled t h.mem h.batch)] at ht'
      exact ht'
  | advanced active ht answers stage moves forward =>
    cases hp'
    refine h.put ht (hevent hpass answers) rfl rfl (fun hs => ?_) active rfl rfl
    exact forward_settled hs moves forward
  | back active ht upgrade answers =>
    cases hp'
    exact h.put ht (hbeat hpass upgrade answers) rfl rfl (fun _ => rfl) active rfl rfl
  | wrong active ht upgrade answers =>
    cases hp'
    exact h.put ht (hbeat hpass upgrade answers) rfl rfl (fun _ => rfl) rfl rfl rfl
  | right active ht upgrade answers status =>
    cases hp'
    refine h.put ht (hbeat hpass upgrade answers) rfl rfl (fun hs => ?_) active rfl rfl
    rw [status] at hs
    cases hs
  | paused | resumed =>
    cases hp'
    exact { h with active := rfl }
  | @cancelled now fate status pauseReason finishedAt active ends =>
    cases hp'
    have hkept : ∀ {v : Target}, v.status.settled = true → Plan.cancelTarget now v = v := by
      intro v hs
      refine if_neg fun hw => ?_
      rw [hw] at hs
      cases hs
    have hstarted : (p.targets.any fun t =>
        t.status != .waiting && !t.status.terminal) = true := by
      rw [List.any_eq_true]
      exact ⟨t, h.mem, by simp [h.status, TargetStatus.terminal]⟩
    rw [hstarted] at ends
    subst ends
    refine ⟨rfl, h.bound, fun v' hv' hb => ?_, ?_, h.batch, h.status⟩
    · obtain ⟨v, hv, rfl⟩ := List.mem_map.mp hv'
      have hsame := (cancelTarget_moved now 0 0 0 v).same.batchNumber
      have hs := h.settled v hv (hsame.symm.trans hb)
      rw [hkept hs]
      exact hs
    · exact List.mem_map.mpr ⟨t, h.mem, hkept (h.settled t h.mem h.batch)⟩

theorem step_owes {s : Store} (h : s.plan.Owes t bound) (hpass : call.passes t = true) :
    (s.step rank call).plan.Owes t bound := by
  rcases step_plan rank s call with hsame | ⟨o, p, ho, hp, hsaved⟩
  · rw [hsame]
    exact h
  · rw [hsaved]
    exact { ho.owes (h.ordered rank) hpass hp with }

/-- How far a scan is that owes a target its command. -/
structure Scan.Owing (t : Target) (bound now : Int) (j k : Nat) (s : Scan) : Prop where
  now : s.now = now
  plan : s.plan.Owes t bound
  at_index : s.plan.targets[j]? = some t
  told : j < k → ∃ c ∈ s.commands, c.RollsBack t

theorem Scan.visit_settled {s : Scan} {i : Nat} (reads : Reads)
    (h : ∀ t, s.Here i t → t.status.settled = true) : ∃ s', Scan.visit reads s i = .ok s' := by
  unfold Scan.visit
  cases ht : s.plan.targets[i]? with
  | none => exact ⟨_, rfl⟩
  | some t =>
    dsimp only
    split
    · exact ⟨_, rfl⟩
    next hb =>
    have hs := h t ⟨ht, not_not.mp hb⟩
    cases hst : t.status with
    | rollingBack | rolledBack | manualIntervention | cancelled =>
      exact ⟨_, rfl⟩
    | _ => rw [hst] at hs; cases hs

theorem Scan.Owing.visit {j k : Nat} {s : Scan} (h : Scan.Owing t bound now j k s)
    (hearly : now - t.updatedAt < bound) :
    ∃ s', Scan.visit reads s k = .ok s' ∧ Scan.Owing t bound now j (k + 1) s' := by
  have hsettled : ∀ u, s.Here k u → u.status.settled = true :=
    fun u here => h.plan.settled u here.mem here.batch
  obtain ⟨s', hvisit⟩ := Scan.visit_settled reads hsettled
  refine ⟨s', hvisit, ?_⟩
  have hhere : j = k → s.Here k t :=
    fun heq => ⟨heq ▸ h.at_index, h.plan.batch⟩
  rcases (Scan.visit_turned hvisit).settled hsettled with ⟨rfl, hleft⟩
    | ⟨u, here, hst, hlate, rfl⟩ | ⟨u, here, hst, -, rfl⟩
  · refine { h with told := fun hlt => ?_ }
    rcases Nat.lt_or_eq_of_le (Nat.le_of_lt_succ hlt) with hlt | heq
    · exact h.told hlt
    · exact absurd h.plan.status (hleft t (hhere heq))
  · -- not the turn of the target, which is early
    have hjk : j ≠ k := by
      intro heq
      obtain rfl := here.eq (hhere heq)
      rw [h.plan.bound, h.now] at hlate
      omega
    have hne : u ≠ t := by
      rintro rfl
      rw [h.plan.bound, h.now] at hlate
      omega
    refine ⟨h.now, h.plan.put here.at_index hne rfl rfl (fun _ => rfl) rfl
      rfl rfl, ?_, fun hlt => ?_⟩
    · have hset := List.getElem?_set_ne (Ne.symm hjk) (l := s.plan.targets)
        (a := u.rollbackTimeout s.now)
      exact hset.trans h.at_index
    · exact h.told (by omega)
  · refine ⟨h.now, h.plan, h.at_index, fun hlt => ?_⟩
    rcases Nat.lt_or_eq_of_le (Nat.le_of_lt_succ hlt) with hlt | heq
    · obtain ⟨c, hc, hrolls⟩ := h.told hlt
      exact ⟨c, List.mem_append_left _ hc, hrolls⟩
    · obtain rfl := here.eq (hhere heq)
      exact ⟨_, List.mem_append_right _ List.mem_cons_self, rollbackCommand_rollsBack _ _⟩

/-- The next scan tells the agent, if it comes in time. -/
theorem owes_scan (h : p.Owes t bound) {fate : Store.Fate} (hearly : now - t.updatedAt < bound) :
    ∃ o, (Call.scan now reads fate).decide p issued = some o ∧ ∃ c ∈ o.commands, c.RollsBack t := by
  obtain ⟨j, hj, hat⟩ := List.getElem_of_mem h.mem
  obtain ⟨final, hloop, howing⟩ := foldlM_range
    (I := fun k s => Scan.Owing t bound now j k s) (f := Scan.visit reads)
    (n := p.targets.length) (fun k s _ hs => hs.visit hearly) (s := Scan.enter p now issued)
    ⟨rfl, h, hat ▸ List.getElem?_eq_getElem hj, fun hlt => by omega⟩
  obtain ⟨c, hc, hrolls⟩ := howing.told hj
  have ho : (Call.scan now reads fate).decide p issued = some {
      save := if final.leave.changed then some final.leave.plan else none
      event := none
      commands := final.leave.commands
      issued := final.leave.issued } := by
    simp only [Call.decide, h.active, if_true, Plan.scan, hloop, bind,
      Except.bind, pure, Except.pure, Except.toOption]
  exact ⟨_, ho, c, Scan.leave_commands final ▸ hc, hrolls⟩

end Owing

-- ======== the result

/-- The commands that a call hands to the sender: all up to the first one
that fails, once its writes are done. -/
def Outcome.handed (o : Outcome) (fate : Store.Fate) : List SentCommand :=
  if o.save.isSome && !fate.saved || o.event.isSome && !fate.appended then
    []
  else o.commands.take (fate.delivered + 1)

theorem Outcome.handed_clean {o : Outcome} {fate : Store.Fate}
    (h : fate.Clean o) : o.handed fate = o.commands := by
  unfold Outcome.handed
  rw [h.saved, h.appended]
  simpa using List.take_of_length_le (Nat.le_succ_of_le h.delivered)

/-- After any calls, a failure in the current batch takes the whole batch
down exactly if it goes through `rollbackBatch`, or nothing else of the
batch is left to go on. What begins to roll back then has a new command,
and is told so: by the call itself when its sends go through, and, as
long as no message is about the new command and nothing is tried again,
by the next scan in time when the sends of that go through. -/
theorem failure_settles_batch (rank : Nat → Nat) {input : CreatePlanInput}
    {rollbackSource : Option Target} {active : Bool} {reads : Reads}
    {now : Int} {issued drawn : Nat} {plan : Plan}
    (hcreate : createPlan input rollbackSource active reads now issued
      = .ok (plan, drawn)) (calls : List Call) (s : Store)
    (hs : s = Transition.run (Store.step rank)
      (Store.created plan drawn now) calls) (call : Call) (o : Outcome)
    (ho : call.decide (s.plan.ordered rank) s.issued = some o)
    (t : Target) (hdetects : Detects (s.plan.ordered rank) s.issued t call) :
    ∃ p, o.save = some p
      ∧ (p.Down t.batchNumber ↔ call.batchwide t = true
        ∨ ∀ u ∈ s.plan.targets, u.batchNumber = t.batchNumber →
          u.id ≠ t.id → u.status.settled = true)
      ∧ ∀ t' ∈ p.targets, t'.status = .rollingBack →
        (∀ u ∈ s.plan.targets, u.id = t'.id → u.status ≠ .rollingBack) →
        s.issued ≤ t'.commandID
          ∧ (call.fate.Clean o → ∃ c ∈ o.handed call.fate, c.RollsBack t')
          ∧ (p.Down t.batchNumber →
            (s.step rank call).plan = { p with revision := p.revision + 1 } →
            ∀ between, Transition.Guarded (Store.step rank)
              (fun _ call => call.passes t' = true) (s.step rank call)
              between →
            ∀ now' reads' fate,
              now' - call.now < s.plan.reconnectTimeout →
              let s' := Transition.run (Store.step rank)
                (s.step rank call) between
              ∃ o', (Call.scan now' reads' fate).decide
                  (s'.plan.ordered rank) s'.issued = some o'
                ∧ (fate.Clean o' →
                  ∃ c ∈ o'.handed fate, c.RollsBack t')) := by
  have hplain : s.Plain := hs ▸ plain_run hcreate calls
  have hids : ((s.plan.ordered rank).targets.map (·.id)).Nodup :=
    ((List.perm_insertionSort _ s.plan.targets).map _).nodup_iff.mpr
      hplain.ids
  obtain ⟨p, hfallen⟩ := hdetects.fallen hids hplain.reconnect ho
  refine ⟨p, hfallen.save, hfallen.down.trans (or_congr_right
    ⟨fun h u hu => h u (mem_ordered.mpr hu),
      fun h u hu => h u (mem_ordered.mp hu)⟩), fun t' ht' hroll hnew => ?_⟩
  have htold : t'.updatedAt = call.now ∧ t'.batchNumber = t.batchNumber
      ∧ s.issued ≤ t'.commandID ∧ ∃ c ∈ o.commands, c.RollsBack t' := by
    rcases hfallen.told t' ht' hroll with ⟨t₀, ht₀, hid, hst⟩ | htold
    · exact absurd hst (hnew t₀ (mem_ordered.mp ht₀) hid)
    · exact htold
  obtain ⟨htime, hbatch, hid, c, hc, hrolls⟩ := htold
  refine ⟨hid, fun hclean => ⟨c, ?_, hrolls⟩,
    fun hdown hsaved between hbetween now' reads' fate hearly => ?_⟩
  · rw [Outcome.handed_clean hclean]
    exact hc
  have howes : (s.step rank call).plan.Owes t'
      s.plan.reconnectTimeout := by
    rw [hsaved]
    refine ⟨?_, hfallen.reconnect, fun u hu hb => ?_, ht', ?_, hroll⟩
    · rw [hdown.paused]
      rfl
    · exact hdown.settled u hu (hb.trans hfallen.batch)
    · exact hbatch.trans hfallen.batch.symm
  have hlater := hbetween.invariant
    (I := fun s' => s'.plan.Owes t' s.plan.reconnectTimeout)
    (fun _ _ h hpass => step_owes h hpass) howes
  obtain ⟨o', ho', c', hc', hrolls'⟩ := owes_scan (hlater.ordered rank)
    (htime ▸ hearly)
  refine ⟨o', ho', fun hclean => ⟨c', ?_, hrolls'⟩⟩
  rw [Outcome.handed_clean hclean]
  exact hc'

/-- A plan for three servers, the last two of them together. -/
def threeServers : CreatePlanInput :=
  { oneServer with serverIDs := ["first", "second", "third"], batchSize := 2 }

/-- What is created from it at time `0`. -/
def threePlan : Plan × Nat :=
  let release : ReleaseInfo := ⟨"release", "1.1.0", .available, [selfUpgradeCapability],
    [⟨"linux", "amd64", "agent", "sum", "url", 1⟩]⟩
  (newPlan threeServers.applyPlanDefaults release 0 0).withTargets release 0
    (["first", "second", "third"].map fun id => ⟨id, .online, "1.0.0",
      "linux", "amd64", true, false, [selfUpgradeCapability]⟩)

/-- The first server is upgraded, both others install, and one of those
goes down to come back with the new version. -/
def secondBatch : List Call :=
  let versions := fun id => if id == "first" then "1.1.0" else "1.0.0"
  [.scan 0 (fleet old 0) ⟨true, true, 0⟩, .scan second (fleet old second) ⟨true, true, 1⟩,
    .event (2 * second) "first" ⟨1, 2, .reconnecting, 2 * second, "", ""⟩ ⟨true, true, 0⟩,
    .heartbeat (3 * second) ⟨"first", "1.1.0", some (2, 1)⟩ ⟨true, true, 0⟩,
    .scan (60 * second) (fleet versions (60 * second)) ⟨true, true, 0⟩,
    .scan (61 * second) (fleet versions (61 * second)) ⟨true, true, 0⟩,
    .scan (62 * second) (fleet versions (62 * second)) ⟨true, true, 2⟩,
    .event (63 * second) "second" ⟨3, 4, .reconnecting, 63 * second, "", ""⟩ ⟨true, true, 0⟩]

/-- The store after it. -/
def threeStore : Store :=
  Transition.run (Store.step id) (Store.created threePlan.1 threePlan.2 0) secondBatch

/-- The agent of the second server reports that it failed: the third one
goes down with it. -/
theorem failure_settles_batch_reported :
    ∃ o p, (Call.event (64 * second) "second"
        ⟨3, 4, .failed, 64 * second, "apply_failed", ""⟩
        ⟨true, true, 2⟩).decide (threeStore.plan.ordered id)
          threeStore.issued = some o
      ∧ o.save = some p ∧ p.Down 2 := by
  let call := Call.event (64 * second) "second"
    ⟨3, 4, .failed, 64 * second, "apply_failed", ""⟩ ⟨true, true, 2⟩
  have hdecide : (call.decide (threeStore.plan.ordered id)
      threeStore.issued).isSome := by decide
  obtain ⟨t, ht, hb, hid, hserver, hcommand, hst⟩ :
      ∃ t ∈ (threeStore.plan.ordered id).targets, t.batchNumber = 2
        ∧ t.id = 4 ∧ t.serverID = "second" ∧ t.commandID = 3
        ∧ t.status = .reconnecting := by decide
  obtain ⟨p, hsave, hdown, -⟩ := @failure_settles_batch id threeServers none
    false (fleet old 0) 0 0 threePlan.2 threePlan.1 rfl secondBatch
    threeStore rfl call _ (Option.some_get hdecide).symm t
    (.reported (by decide) ht (hb.trans (by decide))
      ⟨hid, hserver, hcommand⟩ rfl)
  refine ⟨_, p, (Option.some_get hdecide).symm, hsave, ?_⟩
  exact hb ▸ hdown.mpr (Or.inl (by simp [call, Call.batchwide, hst]))

/-- It comes back with the old version instead, which the control plane
detects as a failure: it alone is rolled back, and the third one goes on
with its installation. -/
theorem wrong_version_spares_batch :
    createPlan threeServers none false (fleet old 0) 0 0 = .ok threePlan
      ∧ let call := Call.heartbeat (64 * second) ⟨"second", "1.0.0", some (4, 3)⟩ ⟨true, true, 1⟩
        let s := threeStore.step id call
        (∃ t, Detects (threeStore.plan.ordered id) threeStore.issued t call)
          ∧ s.plan.status = .paused ∧ s.plan.currentBatch = 2
          ∧ (∃ t ∈ s.plan.targets, t.batchNumber = 2
            ∧ t.serverID = "second" ∧ t.status = .rollingBack)
          ∧ ∃ t ∈ s.plan.targets, t.batchNumber = 2
            ∧ t.serverID = "third" ∧ t.status = .downloading := by
  refine ⟨rfl, ?_, by decide, by decide, by decide, by decide⟩
  obtain ⟨t, ht, hb, hid, hserver, hcommand, hst, hversion⟩ :
      ∃ t ∈ (threeStore.plan.ordered id).targets, t.batchNumber = 2
        ∧ t.id = 4 ∧ t.serverID = "second" ∧ t.commandID = 3
        ∧ t.status = .reconnecting ∧ "1.0.0" ≠ t.targetVersion := by decide
  exact ⟨t, .version (by decide) ht (hb.trans (by decide)) rfl
    ⟨hid, hserver, hcommand⟩ hst hversion⟩

end Yunling.Upgrade
