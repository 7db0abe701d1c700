/-
A plan is no dead end while its drains are in time.

`Continues` is a continuation as an administrator may hope for: calls of
the service, scans, and truthful answers of agents, on servers that are
enabled, reachable and idle, with nothing lost on the way.

# The way out

A plan that can be cancelled is cancelled; what has not begun is done
with that. A scan lands the targets of the current batch (`landed_loop`).
An agent that is to install goes and does not come back in time, so a
later scan rolls the batch back (`closed_loop`), and once the rollbacks
have timed out too, a last scan finds every target done
(`terminal_loop`) and ends the plan.

# The dead end

A drain that ran out stays so: `Scan` pauses the plan before it looks at
the server, and nothing else moves a target that is being drained
(`trapped_step`).
-/
import Yunling.Upgrade.Proofs.Scans

namespace Yunling.Upgrade

open Fallible

-- ======== continuations

/-- A call of a continuation, while the agents run `versions`, and what
they run after it. `env` is what the store answers. -/
inductive Allowed (env : (String → String) → Int → Reads) (s : Store)
    (versions : String → String) : Call → (String → String) → Prop
  | pause (now : Int) (reason : String) (fate : Store.Fate) :
      Allowed env s versions (.pause now reason fate) versions
  | resume (now : Int) (fate : Store.Fate) :
      Allowed env s versions (.resume now (env versions now) fate) versions
  | cancel (now : Int) (fate : Store.Fate) : Allowed env s versions (.cancel now fate) versions
  | retry (now : Int) (targetID : Nat) (fate : Store.Fate) :
      Allowed env s versions (.retry now targetID (env versions now) fate) versions
  | scan (now : Int) (fate : Store.Fate) :
      Allowed env s versions (.scan now (env versions now) fate) versions
  /-- the agent is still at work -/
  | reports (now : Int) {c : SentCommand} (e : UpgradeEvent) (fate : Store.Fate) (sent : c ∈ s.sent)
      (target : e.targetID = c.command.targetID)
      (command : e.commandID = c.command.commandID)
      (stage : e.stage ≠ .reconnecting ∧ e.stage ≠ .rolledBack ∧ e.stage ≠ .succeeded) :
      Allowed env s versions (.event now c.serverID e fate) versions
  /-- the agent runs what it was told to -/
  | switched (now : Int) {c : SentCommand} (e : UpgradeEvent)
      (fate : Store.Fate) (sent : c ∈ s.sent)
      (target : e.targetID = c.command.targetID)
      (command : e.commandID = c.command.commandID)
      (stage : e.stage = .reconnecting ∨ e.stage = .rolledBack ∨ e.stage = .succeeded) :
      Allowed env s versions (.event now c.serverID e fate)
        (Function.update versions c.serverID c.command.targetVersion)
  | beats (now : Int) (h : UpgradeHeartbeat) (fate : Store.Fate)
      (version : h.agentVersion = versions h.serverID)
      (sent : ∀ u ∈ h.upgrade, s.wasSent h.serverID u.1 u.2 = true) :
      Allowed env s versions (.heartbeat now h fate) versions

/-- A finite continuation, from a store to a store. -/
inductive Continues (rank : Nat → Nat) (env : (String → String) → Int → Reads) :
    Store → (String → String) → Store → Prop
  | done (s : Store) (versions : String → String) : Continues rank env s versions s
  | step {s s' : Store} {versions versions' : String → String}
      {call : Call} (allowed : Allowed env s versions call versions')
      (later : s.clock ≤ call.now)
      (clean : ∀ o, call.decide (s.plan.ordered rank) s.issued = some o → call.fate.Clean o)
      (rest : Continues rank env (s.step rank call) versions' s') :
      Continues rank env s versions s'

/-- The plan can be brought to an end. -/
def Escapes (rank : Nat → Nat) (env : (String → String) → Int → Reads)
    (s : Store) (versions : String → String) : Prop :=
  ∃ s', Continues rank env s versions s'
    ∧ (s'.plan.status = .succeeded ∨ s'.plan.status = .cancelled)

/-- The servers of a plan answer, whenever they are asked. -/
def Answering (env : (String → String) → Int → Reads) (p : Plan) : Prop :=
  ∀ versions now, Healthy versions p (env versions now)

-- ======== clean calls

section Steps

variable {s : Store} {rank : Nat → Nat} {versions : String → String}
  {env : (String → String) → Int → Reads} {reads : Reads} {now : Int} {t : Target} {o : Outcome}

/-- What a call leaves behind when all goes through. -/
structure Stepped (s : Store) (call : Call) (o : Outcome) (s' : Store) : Prop where
  inv : s'.Inv
  clock : s'.clock = call.now
  sent : s'.sent = s.sent ++ o.commands
  plan : s'.plan = o.save.elim s.plan
    fun p' => { p' with revision := p'.revision + 1 }
  answering : ∀ env, Answering env s.plan → Answering env s'.plan

theorem clean_step (h : s.Inv) {call : Call} (hlawful : lawful s call = true)
    (htimely : timely s call = true) (ho : call.decide (s.plan.ordered rank) s.issued = some o)
    (hf : call.fate.Clean o) : Stepped s call o (s.step rank call) := by
  have hinv : (s.step rank call).Inv := step_inv h hlawful htimely
  have htick := h.tick hlawful htimely
  have hgood := decide_good (s := s.read rank call.now)
    (htick.ordered rank) rfl (lawful_read hlawful) (timely_read htimely) ho
  have hstep : s.step rank call = Store.commit { s with clock := call.now } o call.fate := by
    unfold Store.step
    dsimp only
    rw [ho]
  obtain ⟨hplan, hsent, hclock⟩ := commit_clean htick hgood hf
  rw [hstep] at hinv ⊢
  refine ⟨hinv, hclock, hsent, hplan, fun env henv versions now => ?_⟩
  refine (henv versions now).like ?_ fun t' ht' => ?_
  · rw [hplan]
    cases hsave : o.save with
    | none => rfl
    | some p' => exact (hgood.save p' hsave).release
  · rw [hplan] at ht'
    cases hsave : o.save with
    | none =>
      rw [hsave] at ht'
      exact ⟨t', ht', rfl⟩
    | some p' =>
      rw [hsave] at ht'
      obtain ⟨t, ht, hm⟩ := Pointwise.mem_right (hgood.save p' hsave).targets ht'
      exact ⟨t, mem_ordered.mp ht, hm.same.serverID⟩

/-- Everything is delivered. -/
def through (commands : List SentCommand) : Store.Fate :=
  ⟨true, true, commands.length⟩

theorem through_clean (o : Outcome) : (through o.commands).Clean o := ⟨rfl, rfl, Nat.le_refl _⟩

theorem through_nil (h : o.commands = []) : (through []).Clean o :=
  h ▸ through_clean o

-- ======== scans

/-- A plan that is being cancelled. -/
structure Leaving (s : Store) : Prop where
  inv : s.Inv
  active : s.plan.status.active = true
  cancel : s.plan.cancelRequested = true

/-- What a scan makes of it. -/
structure Scanned (s : Store) (now : Int) (scan : Scan) (s' : Store) : Prop where
  inv : s'.Inv
  clock : s'.clock = now
  sent : s'.sent = s.sent ++ scan.commands
  targets : ∀ t, t ∈ s'.plan.targets ↔ t ∈ scan.plan.targets
  batch : s'.plan.currentBatch = s.plan.currentBatch
  cancel : s'.plan.cancelRequested = true
  ends : s'.plan.status = .cancelled
    ∨ s'.plan.status.active = true ∧ scan.plan.allTargetsTerminal = false
  answering : ∀ env, Answering env s.plan → Answering env s'.plan

/-- The end of a scan of a plan that is being cancelled. -/
theorem leave_cancelling {scan : Scan} (hcancel : scan.plan.cancelRequested = true)
    (hmay : scan.mayStart = false) :
    scan.leave = if scan.plan.allTargetsTerminal = true then { scan with
        plan := { scan.plan with
          status := .cancelled, finishedAt := some scan.now }
        changed := true }
      else scan := by
  unfold Scan.leave
  simp [hcancel, hmay]

/-- No drain has run out. -/
def Store.InTime (s : Store) (now : Int) : Prop :=
  ∀ t ∈ s.plan.targets, t.status = .draining →
    ∀ startedAt ∈ t.startedAt, now - startedAt ≤ s.plan.drainTimeout

theorem inTime_of_none (h : ∀ t ∈ s.plan.targets, t.status ≠ .draining)
    (now : Int) : s.InTime now :=
  fun t ht hd => absurd hd (h t ht)

theorem Store.InTime.all (h : s.InTime now) : (s.plan.targets.all fun t => t.status != .draining
      || t.inTime s.plan.drainTimeout now) = true := by
  rw [List.all_eq_true]
  intro t ht
  by_cases hd : t.status = .draining
  · cases hs : t.startedAt with
    | none => simp [Target.inTime, hs]
    | some startedAt =>
      rw [Bool.or_eq_true, Target.inTime, hs]
      exact Or.inr (decide_eq_true (h t ht hd startedAt hs))
  · simp [hd]

section Leaving

variable (h : Leaving s) {scan : Scan}
  (hloop : (List.range (s.plan.ordered rank).targets.length).foldlM (Scan.visit reads)
    (Scan.enter (s.plan.ordered rank) now s.issued) = .ok scan)

include h hloop

/-- Such a scan saves the plan if it changed, and sends its commands. -/
theorem scan_decides :
    ∃ o, (Call.scan now reads (through scan.commands)).decide (s.plan.ordered rank) s.issued
        = some o
      ∧ o.save = (if scan.leave.changed then some scan.leave.plan else none)
      ∧ o.commands = scan.commands := by
  refine ⟨⟨_, none, scan.leave.commands, scan.leave.issued⟩, ?_, rfl, scan.leave_commands⟩
  have hactive : (s.plan.ordered rank).status.active = true := h.active
  simp only [Call.decide, Plan.scan]
  rw [if_pos hactive, hloop]
  rfl

theorem scan_step (hnow : s.clock ≤ now) (hdrains : s.InTime now) :
    Scanned s now scan (s.step rank (.scan now reads (through scan.commands))) := by
  have hm := Scan.visits_moves hloop
  have hcancel : scan.plan.cancelRequested = true := hm.plan.cancel.trans h.cancel
  have hmay : scan.mayStart = false := by
    refine hm.mayStart ?_
    have hc : (s.plan.ordered rank).cancelRequested = true := h.cancel
    simp [Scan.enter, hc]
  have hleave := leave_cancelling hcancel hmay
  obtain ⟨o, ho, hsave, hcommands⟩ := scan_decides h hloop
  have hlawful : lawful s (.scan now reads (through scan.commands)) = true := by
    simp [lawful, Call.now, hnow]
  have htimely : timely s (.scan now reads (through scan.commands)) = true := by
    simpa [timely, Call.now] using hdrains.all
  have hstep := clean_step h.inv hlawful htimely ho (hcommands ▸ through_clean o)
  have hplan := hstep.plan
  rw [hsave] at hplan
  obtain ⟨htargets, hbatch, hcancel', hends⟩ : let p' := (s.step rank _).plan
      (∀ t, t ∈ p'.targets ↔ t ∈ scan.plan.targets) ∧ p'.currentBatch = s.plan.currentBatch
        ∧ p'.cancelRequested = true ∧ (p'.status = .cancelled
          ∨ p'.status.active = true ∧ scan.plan.allTargetsTerminal = false) := by
    rw [hplan]
    cases hdone : scan.plan.allTargetsTerminal with
    | true =>
      rw [hleave, hdone]
      exact ⟨fun t => Iff.rfl, hm.plan.batch, hcancel, Or.inl rfl⟩
    | false =>
      rw [hleave, hdone, if_neg Bool.false_ne_true]
      -- an unchanged plan is not saved, and keeps its own order
      cases hchanged : scan.changed with
      | true => exact ⟨fun t => Iff.rfl, hm.plan.batch, hcancel, Or.inr ⟨hm.active h.active, rfl⟩⟩
      | false =>
        obtain ⟨-, hsame⟩ := hm.unchanged hchanged
        refine ⟨fun t => ?_, rfl, h.cancel, Or.inr ⟨h.active, rfl⟩⟩
        rw [hsame]
        exact mem_ordered.symm
  exact ⟨hstep.inv, hstep.clock, hcommands ▸ hstep.sent, htargets, hbatch, hcancel', hends,
    hstep.answering⟩

end Leaving

theorem Escapes.call {versions' : String → String} {call : Call}
    (hallowed : Allowed env s versions call versions') (hlater : s.clock ≤ call.now)
    (ho : call.decide (s.plan.ordered rank) s.issued = some o) (hclean : call.fate.Clean o)
    (h : Escapes rank env (s.step rank call) versions') : Escapes rank env s versions := by
  obtain ⟨s', hcontinues, hend⟩ := h
  refine ⟨s', .step hallowed hlater (fun o' ho' => ?_) hcontinues, hend⟩
  cases ho.symm.trans ho'
  exact hclean

theorem Escapes.scan (hs : Leaving s) (hnow : s.clock ≤ now) {scan : Scan}
    (hloop : (List.range (s.plan.ordered rank).targets.length).foldlM
      (Scan.visit (env versions now)) (Scan.enter (s.plan.ordered rank) now s.issued) = .ok scan)
    (h : Escapes rank env (s.step rank (.scan now (env versions now) (through scan.commands)))
      versions) : Escapes rank env s versions := by
  obtain ⟨o, ho, -, hcommands⟩ := scan_decides hs hloop
  exact .call (.scan now _) hnow ho (hcommands ▸ through_clean o) h

theorem other_batches (h : Leaving s) {scan : Scan}
    (hm : (Scan.enter (s.plan.ordered rank) now s.issued).Moves scan) (ht : t ∈ scan.plan.targets)
    (hb : t.batchNumber ≠ s.plan.currentBatch) : t.status.terminal = true := by
  obtain ⟨t₀, ht₀, hmoved⟩ := hm.plan.mem_right ht
  have ht₀ := mem_ordered.mp ht₀
  have hw := h.inv.cancelled h.cancel t₀ ht₀
  cases hmoved with
  | kept =>
    rcases Nat.lt_or_gt_of_ne hb with hlt | hgt
    · rw [h.inv.earlier t ht₀ hlt]
      rfl
    · have hnot := h.inv.later t ht₀ hgt
      simp only [Target.begun, not_and, not_not] at hnot
      rw [hnot hw]
      rfl
  | moved _ same place =>
    rcases place with heq | ⟨hwaiting, -⟩
    · exact absurd (same.batchNumber.trans heq) hb
    · exact absurd hwaiting hw

/-- What a scan of such a plan starts from. -/
theorem Leaving.cancelling (h : Leaving s) (rank : Nat → Nat) (henv : Answering env s.plan)
    (versions : String → String) (hdrains : s.InTime now) :
    Scan.Cancelling versions (env versions now) now (s.plan.ordered rank) :=
  ⟨(henv versions now).like rfl fun t ht => ⟨t, mem_ordered.mp ht, rfl⟩,
    h.cancel, fun t ht => h.inv.cancelled h.cancel t (mem_ordered.mp ht),
    fun t ht => hdrains t (mem_ordered.mp ht)⟩

/-- Drains are of the current batch. -/
theorem Store.Inv.drains_current (h : s.Inv)
    (ht : t ∈ s.plan.targets) (hd : t.status = .draining) : t.batchNumber = s.plan.currentBatch :=
  h.current ht (by simp [Target.begun, hd]) (by simp [hd])

/-- What is done or rolling back ends with one more scan. -/
theorem escapes_closed (h : Leaving s) (henv : Answering env s.plan)
    (hclosed : Scan.Closed s.plan) : Escapes rank env s versions := by
  have hpos : 0 ≤ s.plan.reconnectTimeout := by
    unfold Plan.reconnectTimeout second
    omega
  have hnow : s.clock ≤ s.clock + s.plan.reconnectTimeout := by omega
  have hdrains : ∀ t ∈ s.plan.targets, t.status ≠ .draining := by
    intro t ht hd
    have hc := hclosed t ht (h.inv.drains_current ht hd)
    rw [hd] at hc
    cases hc
  have hin := inTime_of_none hdrains (s.clock + s.plan.reconnectTimeout)
  obtain ⟨scan, hloop, hm, hterminal⟩ := Scan.terminal_loop s.issued
    (h.cancelling rank henv versions hin) (fun t ht => hclosed t (mem_ordered.mp ht))
    (fun t ht => by
      have := h.inv.updated t (mem_ordered.mp ht)
      show s.plan.reconnectTimeout ≤ _
      omega)
  refine .scan h hnow hloop ⟨_, .done _ _, Or.inr ?_⟩
  have hscanned := scan_step h hloop hnow hin
  rcases hscanned.ends with hend | ⟨-, hnot⟩
  · exact hend
  have hall : scan.plan.allTargetsTerminal = true := by
    unfold Plan.allTargetsTerminal
    rw [List.all_eq_true]
    intro t ht
    by_cases hb : t.batchNumber = scan.plan.currentBatch
    · exact hterminal t ht hb
    · exact other_batches h hm ht (fun heq => hb (heq.trans hm.plan.batch.symm))
  rw [hall] at hnot
  cases hnot

/-- Where nothing is being drained and no install waits for its agent,
two late scans end the plan. -/
theorem escapes_late (h : Leaving s) (henv : Answering env s.plan)
    (hdrains : ∀ t ∈ s.plan.targets, t.status ≠ .draining)
    (hstuck : (∃ t ∈ s.plan.targets, t.status.underway = true) →
      ∃ t ∈ s.plan.targets, t.batchNumber = s.plan.currentBatch ∧ t.status = .reconnecting) :
    Escapes rank env s versions := by
  have hpos : 0 ≤ s.plan.reconnectTimeout ∧ 0 ≤ s.plan.verification := by
    unfold Plan.reconnectTimeout Plan.verification second
    omega
  have hnow : s.clock ≤ s.clock + s.plan.reconnectTimeout + s.plan.verification := by omega
  have hin := inTime_of_none hdrains (s.clock + s.plan.reconnectTimeout + s.plan.verification)
  have hlate : Scan.Late (s.clock + s.plan.reconnectTimeout + s.plan.verification)
      (s.plan.ordered rank) := by
    refine ⟨fun t ht => hdrains t (mem_ordered.mp ht), fun t ht => ?_, fun t ht => ?_, ?_⟩
    · have := h.inv.updated t (mem_ordered.mp ht)
      show s.plan.reconnectTimeout ≤ _
      omega
    · have := h.inv.updated t (mem_ordered.mp ht)
      show s.plan.verification ≤ _
      omega
    · rintro ⟨t, ht, hu⟩
      obtain ⟨t', ht', hr⟩ := hstuck ⟨t, mem_ordered.mp ht, hu⟩
      exact ⟨t', mem_ordered.mpr ht', hr⟩
  obtain ⟨scan, hloop, hm, hclosed⟩ := Scan.closed_loop s.issued
    (h.cancelling rank henv versions hin) hlate
  refine .scan h hnow hloop ?_
  have hscanned := scan_step h hloop hnow hin
  rcases hscanned.ends with hend | ⟨hactive, -⟩
  · exact ⟨_, .done _ _, Or.inr hend⟩
  refine escapes_closed ⟨hscanned.inv, hactive, hscanned.cancel⟩
    (hscanned.answering env henv) fun t ht hb => ?_
  refine hclosed t ((hscanned.targets t).mp ht) ?_
  rw [hb, hscanned.batch]
  exact hm.plan.batch.symm

-- ======== answers

/-- The agent says that it restarts into what it was told to install. -/
def reconnecting (t : Target) (now : Int) : UpgradeEvent where
  commandID := t.commandID
  targetID := t.id
  stage := .reconnecting
  occurredAt := now
  errorCode := ""
  message := ""

/-- What comes of that. -/
def reconnected (p : Plan) (i : Nat) (t : Target) (now : Int) (issued : Nat) : Outcome where
  save := some (p.put i (t.advance .reconnecting (reconnecting t now) now))
  event := some (t.id, t.commandID, UpgradeStage.reconnecting.name)
  commands := []
  issued

theorem applyUpgradeEvent_reconnecting {p : Plan} {i : Nat}
    (now : Int) (issued : Nat) (hu : t.status.underway = true)
    (hfound : p.matchTarget t.serverID t.id t.commandID = some i) (ht : p.targets[i]? = some t) :
    p.applyUpgradeEvent t.serverID (reconnecting t now) now issued
      = .ok (reconnected p i t now issued) := by
  have hforward : t.status ≠ .rollingBack ∧ t.status ≠ .reconnecting
      ∧ forwardTransition t.status .reconnecting = true := by
    cases hst : t.status <;> simp_all [TargetStatus.underway, forwardTransition, TargetStatus.rank]
  unfold Plan.applyUpgradeEvent
  simp [reconnected, reconnecting, hfound, ht, targetStatusForStage, hforward]

theorem begun_of_underway (hu : t.status.underway = true) : t.begun ∧ t.status ≠ .succeeded := by
  unfold Target.begun
  cases hst : t.status <;> simp_all [TargetStatus.underway]

/-- A landed plan: an agent that is to install goes, and does not come
back. -/
theorem escapes_landed (h : Leaving s) (henv : Answering env s.plan)
    (hdrains : ∀ t ∈ s.plan.targets, t.status ≠ .draining)
    (hsent : ∀ t ∈ s.plan.targets, t.status.underway = true →
      ∃ c ∈ s.sent, c.serverID = t.serverID ∧ c.command.targetID = t.id
        ∧ c.command.commandID = t.commandID) : Escapes rank env s versions := by
  by_cases hunderway : ∃ t ∈ s.plan.targets, t.status.underway = true
  · obtain ⟨t, ht, hu⟩ := hunderway
    obtain ⟨c, hc, hserver, htarget, hcommand⟩ := hsent t ht hu
    obtain ⟨i, hfound, hget⟩ := matchTarget_mem (p := s.plan.ordered rank)
      (h.inv.ordered rank).ids (mem_ordered.mpr ht) ⟨rfl, rfl, rfl⟩
    have hevent := applyUpgradeEvent_reconnecting s.clock s.issued hu hfound hget
    rw [← hserver] at hevent
    have hin := inTime_of_none hdrains s.clock
    have hlawful : lawful s (.event s.clock c.serverID
        (reconnecting t s.clock) (through [])) = true := by
      simp only [lawful, Call.now, Int.le_refl, decide_true, Bool.true_and,
        Store.wasSent, List.any_eq_true]
      exact ⟨c, hc, by simp [reconnecting, htarget, hcommand]⟩
    have htimely : timely s (.event s.clock c.serverID
        (reconnecting t s.clock) (through [])) = true := by
      simpa [timely, Call.now, reconnecting] using hin.all
    have ho : (Call.event s.clock c.serverID (reconnecting t s.clock)
        (through [])).decide (s.plan.ordered rank) s.issued
        = some (reconnected (s.plan.ordered rank) i t s.clock s.issued) := by
      have hactive : (s.plan.ordered rank).status.active = true := h.active
      simp only [Call.decide]
      rw [if_pos hactive, hevent]
      rfl
    have hstep := clean_step h.inv hlawful htimely ho (through_nil rfl)
    obtain ⟨hbegun, hne⟩ := begun_of_underway hu
    have hbatch := h.inv.current ht hbegun hne
    have hi : i < (s.plan.ordered rank).targets.length := (List.getElem?_eq_some_iff.mp hget).1
    refine .call (.switched s.clock _ _ hc htarget.symm hcommand.symm (Or.inl rfl))
      (Int.le_refl _) ho (through_nil rfl) ?_
    refine escapes_late ⟨hstep.inv, ?_, ?_⟩ (hstep.answering env henv)
      (fun t' ht' => ?_) fun _ => ?_
    · rw [hstep.plan]
      exact h.active
    · rw [hstep.plan]
      exact h.cancel
    · rw [hstep.plan] at ht'
      rcases List.mem_or_eq_of_mem_set ht' with ht' | rfl
      · exact hdrains t' (mem_ordered.mp ht')
      · simp [Target.advance]
    · rw [hstep.plan]
      exact ⟨_, List.mem_set hi _, hbatch, rfl⟩
  · exact escapes_late h henv hdrains fun hu => absurd hu hunderway

/-- A plan that is being cancelled can be brought to its end. -/
theorem escapes_leaving (h : Leaving s) (henv : Answering env s.plan) :
    Escapes rank env s versions := by
  have hin : s.InTime s.clock := h.inv.drains
  obtain ⟨scan, hloop, hm, hlanded⟩ := Scan.landed_loop s.issued
    (h.cancelling rank henv versions hin)
  refine .scan h (Int.le_refl _) hloop ?_
  have hscanned := scan_step h hloop (Int.le_refl _) hin
  rcases hscanned.ends with hend | ⟨hactive, -⟩
  · exact ⟨_, .done _ _, Or.inr hend⟩
  -- a target that is not yet done is of the current batch
  have hbatch : ∀ t ∈ scan.plan.targets, t.status.terminal = false →
      t.batchNumber = scan.plan.currentBatch := by
    intro t ht hnot
    by_contra hb
    rw [other_batches h hm ht (fun heq => hb (heq.trans hm.plan.batch.symm))] at hnot
    cases hnot
  refine escapes_landed ⟨hscanned.inv, hactive, hscanned.cancel⟩
    (hscanned.answering env henv) (fun t ht hd => ?_) (fun t ht hu => ?_)
  · have ht := (hscanned.targets t).mp ht
    exact (hlanded t ht (hbatch t ht (by rw [hd]; rfl))).1 hd
  · have ht := (hscanned.targets t).mp ht
    have hnot : t.status.terminal = false := by
      cases hst : t.status <;>
        simp_all [TargetStatus.underway, TargetStatus.terminal]
    obtain ⟨c, hc, heq⟩ := (hlanded t ht (hbatch t ht hnot)).2 hu
    rw [hscanned.sent]
    exact ⟨c, List.mem_append_right _ hc, heq⟩

theorem cancel_ok {p : Plan} (hactive : p.status.active = true)
    (hcancel : p.cancelRequested ≠ true) (now : Int) :
    ∃ p', p.cancel now = .ok (some p') ∧ p'.cancelRequested = true
      ∧ (p'.status.active = true ∨ p'.status = .cancelled) := by
  have hstatus : p.status ≠ .cancelled := by
    intro h
    rw [h] at hactive
    cases hactive
  unfold Plan.cancel
  rw [if_neg (by simp [hstatus, hcancel]), if_neg (by simp [hactive])]
  dsimp only
  split
  · exact ⟨_, rfl, rfl, Or.inl rfl⟩
  · exact ⟨_, rfl, rfl, Or.inr rfl⟩

/-- Every plan in order can be brought to its end. -/
theorem escapes (h : s.Inv) (hactive : s.plan.status.active = true)
    (henv : Answering env s.plan) : Escapes rank env s versions := by
  by_cases hcancel : s.plan.cancelRequested = true
  · exact escapes_leaving ⟨h, hactive, hcancel⟩ henv
  have hin : s.InTime s.clock := h.drains
  have hlawful : lawful s (.cancel s.clock (through [])) = true := by
    simp [lawful, Call.now]
  have htimely : timely s (.cancel s.clock (through [])) = true := by
    simpa [timely, Call.now] using hin.all
  obtain ⟨p', hok, hrequested, hstatus⟩ :=
    cancel_ok (p := s.plan.ordered rank) hactive hcancel s.clock
  have ho : (Call.cancel s.clock (through [])).decide (s.plan.ordered rank) s.issued
      = some ⟨some p', none, [], s.issued⟩ := by
    simp only [Call.decide]
    rw [hok]
    rfl
  have hstep := clean_step h hlawful htimely ho (through_nil rfl)
  refine .call (.cancel s.clock _) (Int.le_refl _) ho (through_nil rfl) ?_
  rcases hstatus with hactive' | hend
  · refine escapes_leaving ⟨hstep.inv, ?_, ?_⟩ (hstep.answering env henv)
    · rw [hstep.plan]
      exact hactive'
    · rw [hstep.plan]
      exact hrequested
  · refine ⟨_, .done _ _, Or.inr ?_⟩
    rw [hstep.plan]
    exact hend

end Steps

-- ======== dead ends

/-- Every target is being drained, and has been for too long. -/
structure Plan.Trapped (p : Plan) (now : Int) : Prop where
  active : p.status.active = true
  nonempty : p.targets ≠ []
  draining : ∀ t ∈ p.targets, t.batchNumber = p.currentBatch ∧ t.status = .draining
    ∧ t.startedAt.any (p.drainTimeout < now - ·) = true

/-- So it is in the store, and no agent was sent anything. -/
structure Trapped (s : Store) : Prop where
  plan : s.plan.Trapped s.clock
  sent : s.sent = []

section Traps

variable {s : Store} {p : Plan} {rank : Nat → Nat} {reads : Reads}
  {now : Int} {issued : Nat} {env : (String → String) → Int → Reads} {call : Call} {o : Outcome}

theorem Plan.Trapped.later (h : p.Trapped now) {now' : Int}
    (hle : now ≤ now') : p.Trapped now' := by
  refine { h with draining := fun t ht => ?_ }
  obtain ⟨hb, hst, hexpired⟩ := h.draining t ht
  refine ⟨hb, hst, ?_⟩
  simp only [Option.any_eq_true, decide_eq_true_eq] at hexpired ⊢
  obtain ⟨startedAt, hs, hlt⟩ := hexpired
  exact ⟨startedAt, hs, by omega⟩

theorem Plan.Trapped.ordered (h : p.Trapped now) (rank : Nat → Nat) :
    (p.ordered rank).Trapped now := by
  refine ⟨h.active, fun hnil => ?_, fun t ht =>
    h.draining t (mem_ordered.mp ht)⟩
  obtain ⟨t, ht⟩ := List.exists_mem_of_ne_nil _ h.nonempty
  have hmem : t ∈ (p.ordered rank).targets := mem_ordered.mpr ht
  rw [hnil] at hmem
  cases hmem

theorem Plan.Trapped.not_done (h : p.Trapped now) :
    (p.targets.any fun t => t.status != .waiting && !t.status.terminal) = true := by
  obtain ⟨t, ht⟩ := List.exists_mem_of_ne_nil _ h.nonempty
  obtain ⟨-, hst, -⟩ := h.draining t ht
  rw [List.any_eq_true]
  exact ⟨t, ht, by simp [hst, TargetStatus.terminal]⟩

/-- How the loop of a scan leaves it. -/
structure Scan.Stays (now : Int) (s : Scan) : Prop where
  time : s.now = now
  plan : s.plan.Trapped now
  commands : s.commands = []

theorem Scan.Stays.visit {s : Scan} (h : Scan.Stays now s) (i : Nat) :
    ∃ s', Scan.visit reads s i = .ok s' ∧ Scan.Stays now s' := by
  unfold Scan.visit
  split
  · exact ⟨s, rfl, h⟩
  next t ht =>
  obtain ⟨hb, hst, hexpired⟩ := h.plan.draining t (List.mem_of_getElem? ht)
  have hexpired : s.drainExpired t = true := by
    unfold Scan.drainExpired
    rw [h.time]
    exact hexpired
  rw [if_neg (not_not.mpr hb), hst]
  dsimp only
  unfold Scan.visitDraining
  cases s.drains with
  | false => exact ⟨s, rfl, h⟩
  | true =>
    rw [if_pos hexpired]
    exact ⟨_, rfl, h.time, { h.plan with active := rfl }, h.commands⟩

theorem scan_trapped (h : p.Trapped now) {scan : Scan}
    (hloop : (List.range p.targets.length).foldlM (Scan.visit reads)
      (Scan.enter p now issued) = .ok scan) :
    scan.leave.commands = [] ∧ scan.leave.plan.Trapped now := by
  obtain ⟨scan', hloop', hstays⟩ := foldlM_range
    (I := fun _ s => Scan.Stays now s) (f := Scan.visit reads)
    (n := p.targets.length) (fun k s _ hs => hs.visit k)
    (s := Scan.enter p now issued) ⟨rfl, h, rfl⟩
  obtain rfl : scan = scan' := Except.ok.inj (hloop.symm.trans hloop')
  obtain ⟨t, ht⟩ := List.exists_mem_of_ne_nil _ hstays.plan.nonempty
  obtain ⟨hb, hst, -⟩ := hstays.plan.draining t ht
  rw [Scan.leave_undone ht hb (by rw [hst]; rfl)]
  exact ⟨hstays.commands, hstays.plan⟩

theorem cancel_trapped (h : p.Trapped now) (now' : Int) :
    p.targets.map (Plan.cancelTarget now') = p.targets := by
  have hsame : ∀ t ∈ p.targets, Plan.cancelTarget now' t = id t := by
    intro t ht
    obtain ⟨-, hst, -⟩ := h.draining t ht
    unfold Plan.cancelTarget
    rw [if_neg (by simp [hst])]
    rfl
  rw [List.map_congr_left hsame, List.map_id]

theorem decide_trapped (h : p.Trapped now) (hsent : s.sent = [])
    (hnow : call.now = now) (hlawful : lawful s call = true)
    (ho : Decided p issued call o) : o.commands = [] ∧ ∀ p' ∈ o.save, p'.Trapped now := by
  subst hnow
  have hnot : ∀ serverID targetID commandID, s.wasSent serverID targetID commandID = false := by
    simp [Store.wasSent, hsent]
  cases ho with
  | scan active loop =>
    obtain ⟨hcommands, hplan⟩ := scan_trapped h loop
    refine ⟨hcommands, fun p' hp' => ?_⟩
    split at hp'
    · rw [← Option.some.inj hp']
      exact hplan
    · cases hp'
  | ignored => exact ⟨rfl, fun _ hp' => by cases hp'⟩
  | stuck | failed | noted | advanced => simp [lawful, hnot] at hlawful
  | back active ht upgrade | wrong active ht upgrade
  | right active ht upgrade => simp [lawful, upgrade, hnot] at hlawful
  | paused | resumed =>
    refine ⟨rfl, fun p' hp' => ?_⟩
    rw [← Option.some.inj hp']
    exact { h with active := rfl }
  | cancelled status pauseReason finishedAt active ends =>
    refine ⟨rfl, fun p' hp' => ?_⟩
    rw [← Option.some.inj hp', cancel_trapped h]
    rw [h.not_done] at ends
    exact { h with active := by rw [ends]; rfl }
  | retried cancel ht id status =>
    obtain ⟨-, hst, -⟩ := h.draining _ (List.mem_of_getElem? ht)
    simp [hst] at status

theorem finish_trapped (h : Trapped s) (ho : o.commands = []) (fate : Store.Fate) :
    Trapped (s.finish o fate) := by
  obtain ⟨events, sent, heq, hsent⟩ := finish_eq s o fate
  rw [heq]
  refine ⟨h.plan, List.eq_nil_iff_forall_not_mem.mpr fun c hc => ?_⟩
  simpa [h.sent, ho] using hsent c hc

theorem commit_trapped (h : Trapped s)
    (ho : o.commands = []) (hsave : ∀ p' ∈ o.save, p'.Trapped s.clock)
    (fate : Store.Fate) : Trapped (s.commit o fate) := by
  have hdrawn : Trapped { s with issued := o.issued } := ⟨h.plan, h.sent⟩
  refine commit_keeps hdrawn (fun _ => finish_trapped hdrawn ho fate) fun p' hp' => ?_
  refine finish_trapped ?_ ho fate
  exact ⟨{ hsave p' hp' with }, h.sent⟩

theorem trapped_step (h : Trapped s)
    (hlawful : lawful s call = true) : Trapped (s.step rank call) := by
  have hnow : s.clock ≤ call.now := by
    simp only [lawful, Bool.and_eq_true, decide_eq_true_eq] at hlawful
    exact hlawful.1
  have hlater := h.plan.later hnow
  have htick : Trapped { s with clock := call.now } := ⟨hlater, h.sent⟩
  unfold Store.step
  dsimp only
  split
  · exact htick
  · next o ho =>
    obtain ⟨hcommands, hsave⟩ := decide_trapped (hlater.ordered rank)
      h.sent rfl hlawful (call.decided ho)
    exact commit_trapped htick hcommands hsave call.fate

theorem allowed_lawful {versions versions' : String → String}
    (h : Allowed env s versions call versions') (hlater : s.clock ≤ call.now) :
    lawful s call = true := by
  have hsent : ∀ {c : SentCommand} {e : UpgradeEvent}, c ∈ s.sent →
      e.targetID = c.command.targetID → e.commandID = c.command.commandID →
      s.wasSent c.serverID e.targetID e.commandID = true := by
    intro c e hc htarget hcommand
    rw [Store.wasSent, List.any_eq_true]
    exact ⟨c, hc, by simp [htarget, hcommand]⟩
  cases h with
  | reports now e fate sent target command | switched now e fate sent target command =>
    simp [lawful, hlater, hsent sent target command]
  | beats now h fate version sent =>
    cases hu : h.upgrade with
    | none => simp [lawful, hlater, hu]
    | some u => simp [lawful, hlater, hu, sent u hu]
  | pause | resume | cancel | retry | scan => simp [lawful, hlater]

theorem trapped_continues {versions : String → String} {s' : Store} (h : Trapped s)
    (hc : Continues rank env s versions s') : Trapped s' := by
  induction hc with
  | done => exact h
  | step allowed later clean rest ih =>
    exact ih (trapped_step h (allowed_lawful allowed later))

end Traps

-- ======== the result

/-- From every state that a new plan reaches by calls in time, as long as
it is active, a continuation on answering servers brings it to its
end. -/
theorem active_plan_can_end (rank : Nat → Nat) {input : CreatePlanInput}
    {rollbackSource : Option Target} {active : Bool} {reads : Reads}
    {now : Int} {issued drawn : Nat} {plan : Plan}
    (hcreate : createPlan input rollbackSource active reads now issued
      = .ok (plan, drawn)) (calls : List Call)
    (hcalls : Transition.Guarded (Store.step rank)
      (fun s call => lawful s call = true ∧ timely s call = true)
      (Store.created plan drawn now) calls) :
    let s := Transition.run (Store.step rank)
      (Store.created plan drawn now) calls
    s.plan.status.active = true →
      ∀ env versions, Answering env s.plan →
        Escapes rank env s versions := by
  intro s hactive env versions henv
  exact escapes (inv_run hcreate hcalls) hactive henv

theorem fleet_answering (p : Plan) : Answering fleet p :=
  fun _ _ => ⟨⟨_, rfl, fun _ _ => ⟨_, rfl, rfl, rfl, rfl⟩⟩, fun _ _ _ => rfl⟩

/-- The server is drained at once, and its agent told to install. -/
def beginsInstall : List Call :=
  [.scan 0 (fleet old 0) ⟨true, true, 0⟩, .scan second (fleet old second) ⟨true, true, 1⟩]

/-- A plan whose agent was told to install can end. -/
theorem active_plan_can_end_installing : Escapes id fleet (Transition.run (Store.step id)
      (Store.created onePlan.1 onePlan.2 0) beginsInstall) old :=
  @active_plan_can_end id oneServer none false (fleet old 0) 0 0 onePlan.2
    onePlan.1 rfl beginsInstall (by decide) (by decide) fleet old (fleet_answering _)

/-- The server is to be drained, and is looked at again after the drain
timeout. -/
def drainRunsOut : List Call :=
  [.scan 0 (fleet old 0) ⟨true, true, 0⟩,
    .scan (3601 * second) (fleet old (3601 * second)) ⟨true, true, 0⟩]

/-- A drain that ran out is the end of a plan that does not end: it stays
active under every continuation, with whatever answers, although its
server is idle and online. -/
theorem expired_drain_dead_end :
    createPlan oneServer none false (fleet old 0) 0 0 = .ok onePlan
      ∧ Transition.Guarded (Store.step id)
        (fun s call => lawful s call = true)
        (Store.created onePlan.1 onePlan.2 0) drainRunsOut
      ∧ let s := Transition.run (Store.step id)
          (Store.created onePlan.1 onePlan.2 0) drainRunsOut
        s.plan.status.active = true ∧ Answering fleet s.plan
          ∧ ∀ env versions, ¬ Escapes id env s versions := by
  refine ⟨rfl, by decide, by decide, fleet_answering _, ?_⟩
  rintro env versions ⟨s', hcontinues, hend⟩
  have htrapped : Trapped (Transition.run (Store.step id)
      (Store.created onePlan.1 onePlan.2 0) drainRunsOut) :=
    ⟨⟨by decide, by decide, by decide⟩, by decide⟩
  have hactive := (trapped_continues htrapped hcontinues).plan.active
  rcases hend with hend | hend <;> rw [hend] at hactive <;> cases hactive

end Yunling.Upgrade
