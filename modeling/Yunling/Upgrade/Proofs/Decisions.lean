/-
What a call can decide on a plan, said once.

`Decided` has a case for every way a call of the service or of the
coordinator ends, with what the call found and what it is going to write
and send; `Call.decided` shows that there is no other way. Everything
later that holds of every call is a case analysis on it.

# Steps

Whatever is decided, a target keeps its place (`Target.Same`), goes
deeper under its command or gets a new one, and keeps the time it began
at (`Target.Stepped`). This needs no invariant and no good will of the
agents, so it holds along every run (`step_follows`).
-/
import Yunling.Upgrade.Proofs.Moves

namespace Yunling.Upgrade

open Fallible

variable {rank : Nat → Nat}

-- ======== decisions

/-- A message about a command is about the target. -/
structure Target.Answers (t : Target) (serverID : String) (targetID commandID : Nat) : Prop where
  id : t.id = targetID
  serverID : t.serverID = serverID
  commandID : t.commandID = commandID

/-- What a call comes to. -/
inductive Decided (p : Plan) (issued : Nat) : Call → Outcome → Prop
  | scan {now : Int} {reads : Reads} {fate : Store.Fate} {scan : Scan}
      (active : p.status.active = true)
      (loop : (List.range p.targets.length).foldlM (Scan.visit reads)
        (Scan.enter p now issued) = .ok scan) : Decided p issued (.scan now reads fate)
        { save := if scan.leave.changed then some scan.leave.plan else none
          event := none
          commands := scan.leave.commands
          issued := scan.leave.issued }
  | ignored {call : Call} (h : call.isScan = false) : Decided p issued call (.nothing issued)
  /-- a rollback has failed -/
  | stuck {now : Int} {serverID : String} {e : UpgradeEvent}
      {fate : Store.Fate} {i : Nat} {t : Target}
      (active : p.status.active = true) (ht : p.targets[i]? = some t)
      (answers : t.Answers serverID e.targetID e.commandID) (stage : e.stage = .failed)
      (back : e.errorCode = "rollback_failed" ∨ t.status = .rollingBack) :
      Decided p issued (.event now serverID e fate)
        { save := some { p.put i { t with
              status := .manualIntervention
              errorCode := e.errorCode
              errorMessage := e.message
              updatedAt := now } with
            status := .paused, pauseReason := "代理回滚失败，需要人工处理" }
          event := some (t.id, t.commandID, e.stage.name)
          commands := []
          issued }
  /-- an install has failed -/
  | failed {now : Int} {serverID : String} {e : UpgradeEvent}
      {fate : Store.Fate} {i : Nat} {t : Target}
      (active : p.status.active = true) (ht : p.targets[i]? = some t)
      (answers : t.Answers serverID e.targetID e.commandID) (stage : e.stage = .failed)
      (back : ¬ (e.errorCode = "rollback_failed" ∨ t.status = .rollingBack)) :
      Decided p issued (.event now serverID e fate)
        { save := some (rollbackBatch p t.batchNumber t.id e.errorCode now issued).1
          event := some (t.id, t.commandID, e.stage.name)
          commands := (rollbackBatch p t.batchNumber t.id e.errorCode now issued).2.1
          issued := (rollbackBatch p t.batchNumber t.id e.errorCode now issued).2.2 }
  | noted {now : Int} {serverID : String} {e : UpgradeEvent}
      {fate : Store.Fate} {i : Nat} {t : Target}
      (active : p.status.active = true) (ht : p.targets[i]? = some t)
      (answers : t.Answers serverID e.targetID e.commandID) (status : t.status = .rollingBack
          ∧ (e.stage = .reconnecting ∨ e.stage = .succeeded)
        ∨ targetStatusForStage e.stage = some t.status) :
      Decided p issued (.event now serverID e fate)
        ⟨none, some (t.id, t.commandID, e.stage.name), [], issued⟩
  | advanced {now : Int} {serverID : String} {e : UpgradeEvent}
      {fate : Store.Fate} {i : Nat} {t : Target} {status : TargetStatus}
      (active : p.status.active = true) (ht : p.targets[i]? = some t)
      (answers : t.Answers serverID e.targetID e.commandID)
      (stage : targetStatusForStage e.stage = some status) (moves : t.status ≠ status)
      (forward : forwardTransition t.status status = true) :
      Decided p issued (.event now serverID e fate) ⟨some (p.put i (t.advance status e now)),
          some (t.id, t.commandID, e.stage.name), [], issued⟩
  /-- an agent came back from a rollback -/
  | back {now : Int} {h : UpgradeHeartbeat} {fate : Store.Fate} {i : Nat}
      {t : Target} {targetID commandID : Nat}
      (active : p.status.active = true) (ht : p.targets[i]? = some t)
      (upgrade : h.upgrade = some (targetID, commandID))
      (answers : t.Answers h.serverID targetID commandID) (status : t.status = .rollingBack)
      (version : h.agentVersion = t.sourceVersion) : Decided p issued (.heartbeat now h fate)
        ⟨some (p.put i { t with
            status := .rolledBack, updatedAt := now
            finishedAt := some now }), none, [], issued⟩
  /-- an agent came back with another version -/
  | wrong {now : Int} {h : UpgradeHeartbeat} {fate : Store.Fate} {i : Nat}
      {t : Target} {targetID commandID : Nat}
      (active : p.status.active = true) (ht : p.targets[i]? = some t)
      (upgrade : h.upgrade = some (targetID, commandID))
      (answers : t.Answers h.serverID targetID commandID) (status : t.status = .reconnecting)
      (version : h.agentVersion ≠ t.targetVersion) : Decided p issued (.heartbeat now h fate)
        { save := some { p.put i { t with
              status := .rollingBack, commandID := issued
              updatedAt := now } with
            status := .paused
            pauseReason := "代理重连版本不一致，正在回滚" }
          event := none
          commands := [⟨t.serverID, rollbackCommand p { t with
            status := .rollingBack, commandID := issued
            updatedAt := now }⟩]
          issued := issued + 1 }
  /-- an agent came back with the release -/
  | right {now : Int} {h : UpgradeHeartbeat} {fate : Store.Fate} {i : Nat}
      {t : Target} {targetID commandID : Nat}
      (active : p.status.active = true) (ht : p.targets[i]? = some t)
      (upgrade : h.upgrade = some (targetID, commandID))
      (answers : t.Answers h.serverID targetID commandID) (status : t.status = .reconnecting)
      (version : h.agentVersion = t.targetVersion) : Decided p issued (.heartbeat now h fate)
        ⟨some (p.put i { t with
            status := .healthChecking, updatedAt := now }),
          none, [], issued⟩
  | paused {now : Int} {reason : String} {fate : Store.Fate} (active : p.status.active = true) :
      Decided p issued (.pause now reason fate)
        ⟨some { p with status := .paused, pauseReason := reason }, none, [], issued⟩
  | resumed {now : Int} {reads : Reads} {fate : Store.Fate}
      (status : p.status = .paused) (cancel : p.cancelRequested = false) :
      Decided p issued (.resume now reads fate)
        ⟨some { p with status := .running, pauseReason := "" }, none, [], issued⟩
  | cancelled {now : Int} {fate : Store.Fate} (status : PlanStatus)
      (pauseReason : String) (finishedAt : Option Int) (active : p.status.active = true)
      (ends : status = (if p.targets.any fun t =>
          t.status != .waiting && !t.status.terminal then .paused
        else .cancelled)) :
      Decided p issued (.cancel now fate) ⟨some { p with
            targets := p.targets.map (Plan.cancelTarget now)
            status, cancelRequested := true, pauseReason, finishedAt },
          none, [], issued⟩
  | retried {now : Int} {targetID : Nat} {reads : Reads} {fate : Store.Fate} {i : Nat} {t : Target}
      (cancel : p.cancelRequested = false) (ht : p.targets[i]? = some t) (id : t.id = targetID)
      (status : t.status = .rolledBack ∨ t.status = .manualIntervention) :
      Decided p issued (.retry now targetID reads fate) ⟨some { p with
            targets := p.targets.set i (Plan.retried now issued t)
            status := .running
            pauseReason := "" }, none, [], issued + 1⟩

section Decisions

variable {p p' : Plan} {issued drawn : Nat} {reads : Reads} {now : Int} {fate : Store.Fate}
  {o : Outcome} {save : Option Plan} {serverID : String} {t : Target}

theorem matchTarget_spec {targetID commandID i : Nat}
    (h : p.matchTarget serverID targetID commandID = some i) (ht : p.targets[i]? = some t) :
    t.Answers serverID targetID commandID := by
  obtain ⟨hi, heq, -⟩ := List.findIdx?_eq_some_iff_getElem.mp h
  rw [List.getElem?_eq_getElem hi] at ht
  cases ht
  simp only [Bool.and_eq_true, beq_iff_eq] at heq
  exact ⟨heq.1.1, heq.1.2, heq.2⟩

theorem applyUpgradeEvent_decided {e : UpgradeEvent}
    (active : p.status.active = true) (ho : p.applyUpgradeEvent serverID e now issued = .ok o) :
    Decided p issued (.event now serverID e fate) o := by
  unfold Plan.applyUpgradeEvent at ho
  split at ho
  · cases ho; exact .ignored rfl
  next i hfound =>
  split at ho
  · cases ho; exact .ignored rfl
  next t ht =>
  have hanswers := matchTarget_spec hfound ht
  rw [← hanswers.commandID] at ho
  split at ho
  · next hstage =>
    cases ho
    unfold Plan.applyFailure
    rw [← hanswers.commandID]
    split
    · next hback => exact .stuck active ht hanswers hstage hback
    · next hback => exact .failed active ht hanswers hstage hback
  · split at ho
    · next hback =>
      cases ho
      exact .noted active ht hanswers (Or.inl hback)
    split at ho
    · cases ho
    next status hstatus =>
    split at ho
    · next heq =>
      cases ho
      rw [← heq] at hstatus
      exact .noted active ht hanswers (Or.inr hstatus)
    · next hne =>
      split at ho
      · cases ho; exact .ignored rfl
      · next hforward =>
        cases ho
        rw [Bool.not_eq_true, Bool.not_eq_false'] at hforward
        exact .advanced active ht hanswers hstatus hne hforward

theorem observeHeartbeat_decided {h : UpgradeHeartbeat} (active : p.status.active = true) :
    Decided p issued (.heartbeat now h fate) (p.observeHeartbeat h now issued) := by
  unfold Plan.observeHeartbeat
  split
  · exact .ignored rfl
  next targetID commandID hu =>
  split
  · exact .ignored rfl
  next i hfound =>
  split
  · exact .ignored rfl
  next t ht =>
  have hanswers := matchTarget_spec hfound ht
  split
  · next hst =>
    split
    · exact .ignored rfl
    · next hversion =>
      exact .back active ht hu hanswers hst (not_not.mp hversion)
  · next hst =>
    split
    · next hversion =>
      exact .wrong active ht hu hanswers hst hversion
    · next hversion =>
      exact .right active ht hu hanswers hst (not_not.mp hversion)
  · exact .ignored rfl

theorem pause_decided {reason : String} (h : p.pause reason = .ok save) :
    Decided p issued (.pause now reason fate) ⟨save, none, [], issued⟩ := by
  unfold Plan.pause at h
  split at h
  · cases h; exact .ignored rfl
  · next hst => cases h; exact .paused (by rw [hst]; rfl)
  · next hst => cases h; exact .paused (by rw [hst]; rfl)
  · cases h

theorem resume_decided (h : p.resume reads = .ok save) :
    Decided p issued (.resume now reads fate) ⟨save, none, [], issued⟩ := by
  unfold Plan.resume at h
  split at h
  · cases h; exact .ignored rfl
  · cases h; exact .ignored rfl
  · next hst =>
    split at h
    · cases h
    next hcancel =>
    rw [Bool.not_eq_true] at hcancel
    obtain ⟨release, -, h⟩ := ok_of_bind h
    split at h
    · cases h
    · obtain ⟨servers, -, h⟩ := ok_of_bind h
      obtain ⟨-, -, h⟩ := ok_of_bind h
      cases h
      exact .resumed hst hcancel
  · cases h

theorem cancel_decided (h : p.cancel now = .ok save) :
    Decided p issued (.cancel now fate) ⟨save, none, [], issued⟩ := by
  unfold Plan.cancel at h
  split at h
  · cases h; exact .ignored rfl
  split at h
  · cases h
  next hactive =>
  rw [Bool.not_eq_true, Bool.not_eq_false'] at hactive
  dsimp only at h
  split at h
  · next hs => cases h; exact .cancelled _ _ _ hactive (if_pos hs).symm
  · next hs => cases h; exact .cancelled _ _ _ hactive (if_neg hs).symm

/-- What `RetryTarget` saves on the target it finds. -/
theorem retry_ok {i : Nat} (h : p.retry i t reads now issued = .ok (some (p', drawn))) :
    (t.status = .rolledBack ∨ t.status = .manualIntervention) ∧ drawn = issued + 1 ∧ p' = { p with
        targets := p.targets.set i (Plan.retried now issued t)
        status := .running
        pauseReason := "" } := by
  have hserver : ∀ {server : ServerInfo}, (if server.id ≠ t.serverID then
        Except.error UpgradeError.serverIneligible
      else if server.agentVersion ≠ t.sourceVersion then
        .error .upgradeSourceChanged
      else .ok (some ({ p with
        targets := p.targets.set i (Plan.retried now issued t)
        status := .running
        pauseReason := "" }, issued + 1))) = .ok (some (p', drawn)) →
      drawn = issued + 1 ∧ p' = { p with
        targets := p.targets.set i (Plan.retried now issued t)
        status := .running
        pauseReason := "" } := by
    intro server h
    split at h
    · cases h
    · split at h
      · cases h
      · cases h; exact ⟨rfl, rfl⟩
  unfold Plan.retry at h
  cases hst : t.status with
  | rolledBack =>
    rw [hst] at h
    obtain ⟨server, -, h⟩ := ok_of_bind h
    exact ⟨Or.inl rfl, hserver h⟩
  | manualIntervention =>
    rw [hst] at h
    obtain ⟨server, -, h⟩ := ok_of_bind h
    exact ⟨Or.inr rfl, hserver h⟩
  | _ => rw [hst] at h; cases h

theorem retryTarget_decided {targetID : Nat}
    (h : p.retryTarget targetID reads now issued = .ok (some (p', drawn))) :
    Decided p issued (.retry now targetID reads fate) ⟨some p', none, [], drawn⟩ := by
  unfold Plan.retryTarget at h
  split at h
  · cases h
  next hcancel =>
  rw [Bool.not_eq_true] at hcancel
  split at h
  · cases h
  next i hfound =>
  split at h
  · cases h
  next t ht =>
  have hid : t.id = targetID := by
    obtain ⟨hi, heq, -⟩ := List.findIdx?_eq_some_iff_getElem.mp hfound
    rw [List.getElem?_eq_getElem hi] at ht
    cases ht
    exact eq_of_beq heq
  obtain ⟨hst, rfl, rfl⟩ := retry_ok h
  exact .retried hcancel ht hid hst

/-- There is no other way a call ends. -/
theorem Call.decided {call : Call} (ho : call.decide p issued = some o) :
    Decided p issued call o := by
  have hsaving : ∀ {r : Except UpgradeError (Option Plan)},
      Call.saving issued r = some o → ∃ save, r = .ok save ∧ o = ⟨save, none, [], issued⟩ := by
    intro r hr
    cases r with
    | error e => cases hr
    | ok save => cases hr; exact ⟨save, rfl, rfl⟩
  cases call with
  | scan now reads fate =>
    simp only [Call.decide] at ho
    split at ho
    · next hactive =>
      cases hscan : p.scan reads now issued with
      | error e => rw [hscan] at ho; cases ho
      | ok o' =>
        rw [hscan] at ho
        cases ho
        obtain ⟨scan, hloop, hret⟩ := ok_of_bind hscan
        cases hret
        exact .scan hactive hloop
    · cases ho
  | event now serverID e fate =>
    simp only [Call.decide] at ho
    split at ho
    · next hactive =>
      cases hevent : p.applyUpgradeEvent serverID e now issued with
      | error e => rw [hevent] at ho; cases ho
      | ok o' =>
        rw [hevent] at ho
        cases ho
        exact applyUpgradeEvent_decided hactive hevent
    · cases ho
  | heartbeat now h fate =>
    simp only [Call.decide] at ho
    split at ho
    · next hactive => cases ho; exact observeHeartbeat_decided hactive
    · cases ho
  | pause now reason fate =>
    obtain ⟨save, hok, rfl⟩ := hsaving ho
    exact pause_decided hok
  | resume now reads fate =>
    obtain ⟨save, hok, rfl⟩ := hsaving ho
    exact resume_decided hok
  | cancel now fate =>
    obtain ⟨save, hok, rfl⟩ := hsaving ho
    exact cancel_decided hok
  | retry now targetID reads fate =>
    simp only [Call.decide] at ho
    split at ho
    · next hretry => cases ho; exact retryTarget_decided hretry
    · cases ho; exact .ignored rfl
    · cases ho

end Decisions

-- ======== steps

/-- What a call at `now` with ids from `issued` on does to a target. -/
structure Target.Stepped (now : Int) (issued : Nat) (t t' : Target) : Prop where
  same : t.Same t'
  order : t'.commandID = t.commandID ∧ t.status.depth ≤ t'.status.depth ∨ issued ≤ t'.commandID
  began : t'.startedAt = t.startedAt ∨ t.status = .waiting ∧ t'.startedAt = some now
  waits : t'.status = .waiting → t' = t

/-- What a call does to a plan. -/
structure Plan.Steps (now : Int) (issued : Nat) (p p' : Plan) : Prop where
  drain : p'.drainTimeoutSeconds = p.drainTimeoutSeconds
  reconnect : p'.reconnectTimeoutSeconds = p.reconnectTimeoutSeconds
  revision : p'.revision = p.revision
  targets : List.Forall₂ (Target.Stepped now issued) p.targets p'.targets

section Steps

variable {p p' : Plan} {issued : Nat} {now : Int} {t t' : Target} {call : Call} {o : Outcome}
  {scan : Scan}

theorem Target.Stepped.refl (t : Target) : t.Stepped now issued t :=
  ⟨.refl t, Or.inl ⟨rfl, Nat.le_refl _⟩, Or.inl rfl, fun _ => rfl⟩

theorem Target.Moved.stepped {batch : Nat} {bound : Int}
    (h : t.Moved now issued batch bound t') : t.Stepped now issued t' := by
  cases h with
  | kept => exact .refl t
  | moved _ same place time started cancelled order drains began =>
    exact ⟨same, order, began, fun hw => absurd hw started⟩

theorem Plan.Evolves.steps (h : p.Evolves now issued p') : p.Steps now issued p' :=
  ⟨h.drain, h.reconnect, h.revision, h.targets.imp fun _ _ hm => hm.stepped⟩

theorem Plan.Steps.put {i : Nat} (ht : p.targets[i]? = some t)
    (hd : p'.drainTimeoutSeconds = p.drainTimeoutSeconds)
    (hr : p'.reconnectTimeoutSeconds = p.reconnectTimeoutSeconds) (hv : p'.revision = p.revision)
    (h : p'.targets = p.targets.set i t') (hs : t.Stepped now issued t') : p.Steps now issued p' :=
  ⟨hd, hr, hv, h ▸ Pointwise.set (fun t => .refl t) ht hs⟩

/-- An event moves a target on, and then records its stage. -/
theorem forward_depth {stage : UpgradeStage} {current status : TargetStatus}
    (h : targetStatusForStage stage = some status) (hne : current ≠ status)
    (hf : forwardTransition current status = true) :
    current.depth ≤ status.depth ∧ current ≠ .succeeded
      ∧ status ≠ .waiting ∧ status ≠ .cancelled ∧ status ≠ .draining := by
  cases stage <;> simp only [targetStatusForStage, Option.some.injEq,
    reduceCtorEq] at h <;> subst h <;> cases current <;>
    simp_all [forwardTransition, TargetStatus.rank, TargetStatus.depth]

theorem cancelTarget_moved (now : Int) (issued batch : Nat) (bound : Int) (t : Target) :
    t.Moved now issued batch bound (Plan.cancelTarget now t) := by
  unfold Plan.cancelTarget
  split
  · next hw =>
    exact .moved _ ⟨rfl, rfl, rfl, rfl, rfl⟩ (Or.inr ⟨hw, rfl⟩) rfl (by simp) (fun _ => hw)
      (Or.inl ⟨rfl, by simp [hw, TargetStatus.depth]⟩) (by simp) (Or.inl rfl)
  · exact .kept

theorem cancelTarget_commandID (now : Int) (t : Target) :
    (Plan.cancelTarget now t).commandID = t.commandID := by
  unfold Plan.cancelTarget
  split <;> rfl

/-- The end of a scan only says how the plan is going. -/
theorem Scan.leave_cases (scan : Scan) : scan.leave = scan
    ∨ ∃ status currentBatch finishedAt, scan.leave = { scan with
      plan := { scan.plan with status, currentBatch, finishedAt }
      changed := true } := by
  unfold Scan.leave
  split
  · exact Or.inr ⟨_, _, _, rfl⟩
  split
  · split
    · exact Or.inr ⟨_, _, _, rfl⟩
    · exact Or.inr ⟨_, _, _, rfl⟩
  · exact Or.inl rfl

theorem Scan.leave_targets (scan : Scan) : scan.leave.plan.targets = scan.plan.targets := by
  rcases scan.leave_cases with h | ⟨_, _, _, h⟩ <;> rw [h]

theorem Scan.leave_issued (scan : Scan) : scan.leave.issued = scan.issued := by
  rcases scan.leave_cases with h | ⟨_, _, _, h⟩ <;> rw [h]

theorem Scan.leave_commands (scan : Scan) : scan.leave.commands = scan.commands := by
  rcases scan.leave_cases with h | ⟨_, _, _, h⟩ <;> rw [h]

/-- While a target of the current batch is not done, it says nothing. -/
theorem Scan.leave_undone {t : Target} (ht : t ∈ scan.plan.targets)
    (hb : t.batchNumber = scan.plan.currentBatch) (hst : t.status.terminal = false) :
    scan.leave = scan := by
  have hterminal : scan.plan.allTargetsTerminal = false := by
    unfold Plan.allTargetsTerminal
    rw [List.all_eq_false]
    exact ⟨t, ht, by simp [hst]⟩
  have hsucceeded : scan.plan.batchSucceeded scan.plan.currentBatch = false := by
    unfold Plan.batchSucceeded
    rw [Bool.and_eq_false_iff, List.all_eq_false]
    refine Or.inr ⟨t, ht, ?_⟩
    cases hs : t.status <;> simp_all [TargetStatus.terminal]
  unfold Scan.leave
  simp [hterminal, hsucceeded]

theorem Scan.leave_changed (h : scan.changed = true) : scan.leave.changed = true := by
  rcases scan.leave_cases with heq | ⟨_, _, _, heq⟩ <;> rw [heq]
  exact h

theorem Scan.leave_unchanged (h : scan.leave.changed = false) : scan.leave = scan := by
  rcases scan.leave_cases with heq | ⟨_, _, _, heq⟩
  · exact heq
  · rw [heq] at h
    cases h

variable (h : Decided p issued call o)

include h

theorem Decided.steps (hp' : p' ∈ o.save) : p.Steps call.now issued p' := by
  have hsteps : ∀ {t t' : Target}, t.Same t' → t'.startedAt = t.startedAt → t'.status ≠ .waiting →
      (t'.commandID = t.commandID ∧ t.status.depth ≤ t'.status.depth
        ∨ issued ≤ t'.commandID) → t.Stepped call.now issued t' :=
    fun same start status order =>
      ⟨same, order, Or.inl start, fun hw => absurd hw status⟩
  cases h with
  | scan active loop =>
    have hev := (Scan.visits_moves loop).plan.steps
    split at hp'
    · cases hp'
      rename_i scan _
      rcases scan.leave_cases with heq | ⟨_, _, _, heq⟩ <;> rw [heq]
      · exact hev
      · exact { hev with }
    · cases hp'
  | ignored h => cases hp'
  | noted => cases hp'
  | stuck active ht answers stage back =>
    cases hp'
    refine .put ht rfl rfl rfl rfl ?_
    exact hsteps ⟨rfl, rfl, rfl, rfl, rfl⟩ rfl (by simp) (Or.inl ⟨rfl, depth_le_manual _⟩)
  | @failed now serverID e fate i t active ht answers stage back =>
    cases hp'
    have hrolled := p.rolledBack t.batchNumber t.id e.errorCode now issued
    exact ⟨rfl, rfl, rfl, hrolled.moved.imp fun _ _ hm => hm.stepped⟩
  | advanced active ht answers stage moves forward =>
    cases hp'
    obtain ⟨hdepth, -, hwaiting, -⟩ := forward_depth stage moves forward
    refine .put ht rfl rfl rfl rfl ?_
    exact hsteps ⟨rfl, rfl, rfl, rfl, rfl⟩ rfl hwaiting (Or.inl ⟨rfl, hdepth⟩)
  | back active ht upgrade answers status version
  | right active ht upgrade answers status version =>
    cases hp'
    refine .put ht rfl rfl rfl rfl ?_
    exact hsteps ⟨rfl, rfl, rfl, rfl, rfl⟩ rfl (by simp)
      (Or.inl ⟨rfl, by simp [status, TargetStatus.depth]⟩)
  | wrong active ht upgrade answers status version =>
    cases hp'
    refine .put ht rfl rfl rfl rfl ?_
    exact hsteps ⟨rfl, rfl, rfl, rfl, rfl⟩ rfl (by simp) (Or.inr (Nat.le_refl _))
  | paused active | resumed status cancel =>
    cases hp'
    exact ⟨rfl, rfl, rfl, List.forall₂_same.mpr fun t _ => .refl t⟩
  | cancelled status pauseReason finishedAt active ends =>
    cases hp'
    exact ⟨rfl, rfl, rfl, List.forall₂_map_right_iff.mpr (List.forall₂_same.mpr fun t _ =>
        (cancelTarget_moved _ issued p.currentBatch p.drainTimeout t).stepped)⟩
  | retried cancel ht id status =>
    cases hp'
    refine .put ht rfl rfl rfl rfl ?_
    exact hsteps ⟨rfl, rfl, rfl, rfl, rfl⟩ rfl (by simp [Plan.retried]) (Or.inr (Nat.le_refl _))

theorem Decided.drawn : issued ≤ o.issued := by
  cases h with
  | scan active loop =>
    rw [Scan.leave_issued]
    exact (Scan.visits_moves loop).issued
  | failed =>
    exact (p.rolledBack _ _ _ _ issued).issued
  | wrong => exact Nat.le_succ _
  | retried => exact Nat.le_succ _
  | _ => exact Nat.le_refl _

/-- Commands get their ids from those that were drawn. -/
theorem Decided.below (hp' : p' ∈ o.save) (hbelow : ∀ t ∈ p.targets, t.commandID < issued) :
    ∀ t ∈ p'.targets, t.commandID < o.issued := by
  -- one target is rewritten
  have hset : ∀ {i drawn : Nat} {t' : Target}, issued ≤ drawn →
      t'.commandID < drawn → ∀ t ∈ p.targets.set i t', t.commandID < drawn := by
    intro i drawn t' hle hnew t ht
    rcases List.mem_or_eq_of_mem_set ht with ht | rfl
    · exact Nat.lt_of_lt_of_le (hbelow t ht) hle
    · exact hnew
  cases h with
  | scan active loop =>
    have hm := Scan.visits_moves loop
    split at hp'
    · cases hp'
      rw [Scan.leave_targets, Scan.leave_issued]
      exact hm.below hbelow
    · cases hp'
  | ignored h => cases hp'
  | noted => cases hp'
  | failed =>
    cases hp'
    exact (p.rolledBack _ _ _ _ issued).below hbelow
  | stuck active ht | advanced active ht | back active ht
  | right active ht =>
    cases hp'
    have hold := hbelow _ (List.mem_of_getElem? ht)
    exact hset (Nat.le_refl _) hold
  | wrong =>
    cases hp'
    exact hset (Nat.le_succ _) (Nat.lt_succ_self _)
  | paused | resumed =>
    cases hp'
    exact hbelow
  | cancelled =>
    cases hp'
    intro t ht
    obtain ⟨t₀, ht₀, rfl⟩ := List.mem_map.mp ht
    rw [cancelTarget_commandID]
    exact hbelow t₀ ht₀
  | retried =>
    cases hp'
    exact hset (Nat.le_succ _) (Nat.lt_succ_self _)

end Steps

-- ======== stores

theorem mem_ordered {p : Plan} {t : Target} :
    t ∈ (p.ordered rank).targets ↔ t ∈ p.targets := List.mem_insertionSort _

/-- The targets of a plan after a call, in whatever order. -/
structure Plan.Follows (now : Int) (issued : Nat) (p p' : Plan) : Prop where
  drain : p'.drainTimeoutSeconds = p.drainTimeoutSeconds
  reconnect : p'.reconnectTimeoutSeconds = p.reconnectTimeoutSeconds
  ids : (p'.targets.map (·.id)).Perm (p.targets.map (·.id))
  targets : ∀ t' ∈ p'.targets, ∃ t ∈ p.targets, t.Stepped now issued t'

theorem Plan.Follows.refl (now : Int) (issued : Nat) (p : Plan) : p.Follows now issued p :=
  ⟨rfl, rfl, .refl _, fun t ht => ⟨t, ht, .refl t⟩⟩

theorem Plan.Steps.follows {now : Int} {issued : Nat} {p p' : Plan}
    (h : (p.ordered rank).Steps now issued p') : p.Follows now issued p' := by
  refine ⟨h.drain, h.reconnect, ?_, fun t' ht' => ?_⟩
  · rw [Pointwise.map_eq (fun _ _ hs => Target.Same.id hs.same) h.targets]
    exact (List.perm_insertionSort _ p.targets).map _
  · obtain ⟨t, ht, hs⟩ := Pointwise.mem_right h.targets ht'
    exact ⟨t, mem_ordered.mp ht, hs⟩

section Stores

variable {s s' : Store} {p : Plan} {o : Outcome} {rank : Nat → Nat}

theorem savePlan_ok (h : s.savePlan p = .ok s') : s' = { s with
      plan := { p with revision := p.revision + 1 }
      events := s.events ++ changes s.plan p } := by
  unfold Store.savePlan at h
  split at h
  · cases h
  split at h
  · cases h
  · dsimp only at h
    split at h
    · cases h; rfl
    · cases h

/-- After the save an event is appended and commands are sent. -/
theorem finish_eq (s : Store) (o : Outcome) (fate : Store.Fate) :
    ∃ events sent, s.finish o fate = { s with events, sent }
      ∧ ∀ c ∈ sent, c ∈ s.sent ∨ c ∈ o.commands := by
  have hsent : ∀ c ∈ s.sent ++ o.commands.take fate.delivered, c ∈ s.sent ∨ c ∈ o.commands :=
    fun c hc => (List.mem_append.mp hc).imp_right List.mem_of_mem_take
  unfold Store.finish Store.appendEvent
  repeat' split
  · exact ⟨s.events, _, rfl, hsent⟩
  · exact ⟨_, _, rfl, hsent⟩
  · exact ⟨_, s.sent, rfl, fun c => Or.inl⟩
  · exact ⟨s.events, _, rfl, hsent⟩

theorem finish_plan (s : Store) (o : Outcome) (fate : Store.Fate) :
    (s.finish o fate).plan = s.plan ∧ (s.finish o fate).clock = s.clock := by
  obtain ⟨events, sent, heq, -⟩ := finish_eq s o fate
  rw [heq]
  exact ⟨rfl, rfl⟩

/-- What holds after the writes of a call, however far they get. -/
theorem commit_keeps {I : Store → Prop} {fate : Store.Fate}
    (hdrawn : I { s with issued := o.issued })
    (hkept : o.save = none → I (Store.finish { s with issued := o.issued } o fate))
    (hsaved : ∀ p ∈ o.save, I (Store.finish { s with
      plan := { p with revision := p.revision + 1 }
      events := s.events ++ changes s.plan p
      issued := o.issued } o fate)) : I (s.commit o fate) := by
  unfold Store.commit
  dsimp only
  split
  · exact hdrawn
  next saved hok =>
  split
  · exact hdrawn
  cases hsave : o.save with
  | none =>
    rw [hsave] at hok
    cases hok
    exact hkept hsave
  | some p =>
    rw [hsave] at hok
    rw [savePlan_ok hok]
    exact hsaved p hsave

theorem commit_plan (s : Store) (o : Outcome) (fate : Store.Fate) :
    (s.commit o fate).plan = s.plan ∨ ∃ p ∈ o.save,
      (s.commit o fate).plan = { p with revision := p.revision + 1 } :=
  commit_keeps (I := fun s' => s'.plan = s.plan ∨ ∃ p ∈ o.save,
      s'.plan = { p with revision := p.revision + 1 }) (Or.inl rfl)
    (fun _ => Or.inl (finish_plan ..).1) fun p hp => Or.inr ⟨p, hp, (finish_plan ..).1⟩

/-- The plan after a call: it is as it was, or what the call decided. -/
theorem step_plan (rank : Nat → Nat) (s : Store) (call : Call) :
    (s.step rank call).plan = s.plan ∨ ∃ o p,
      Decided (s.plan.ordered rank) s.issued call o ∧ p ∈ o.save ∧ (s.step rank call).plan
          = { p with revision := p.revision + 1 } := by
  unfold Store.step
  dsimp only
  split
  · exact Or.inl rfl
  · next o ho =>
    rcases commit_plan { s with clock := call.now } o call.fate with hsame | ⟨p, hp, hsaved⟩
    · exact Or.inl hsame
    · exact Or.inr ⟨o, p, call.decided ho, hp, hsaved⟩

theorem step_follows (rank : Nat → Nat) (s : Store) (call : Call) :
    s.plan.Follows call.now s.issued (s.step rank call).plan := by
  rcases step_plan rank s call with hsame | ⟨o, p, ho, hp, hsaved⟩
  · rw [hsame]
    exact .refl _ _ _
  · rw [hsaved]
    exact { (ho.steps hp).follows with }

end Stores

end Yunling.Upgrade
