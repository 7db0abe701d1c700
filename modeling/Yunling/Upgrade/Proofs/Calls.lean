/-
Every call on an upgrade plan is good, so every plan is in order.

One lemma for each call of the service and of the coordinator says what
it saves, from the moves of the targets; `step_inv` and `inv_run` are
their sum over a run, and `created_inv` its start.
-/
import Yunling.Upgrade.Proofs.Plans

namespace Yunling.Upgrade

open Fallible

-- ======== calls

theorem Plan.Evolves.leads {p p' : Plan} {now : Int} {issued drawn : Nat}
    (h : p.Evolves now issued p') (hbelow : ∀ t ∈ p'.targets, t.commandID < drawn) :
    p.Leads now issued drawn p' :=
  ⟨h.release, h.revision, h.drain, Or.inl h.batch, Or.inl h.cancel, hbelow, h.targets⟩

section Calls

variable {s : Store} {o : Outcome} {now : Int} {t : Target} {call : Call} {p : Plan} {issued : Nat}
  {serverID : String} {targetID commandID : Nat} {fate : Store.Fate} {c : SentCommand} {scan : Scan}

theorem Scan.leave_leads (h : p.Evolves now issued scan.plan)
    (hbelow : ∀ t ∈ scan.plan.targets, t.commandID < scan.issued) :
    p.Leads now issued scan.issued scan.leave.plan := by
  unfold Scan.leave
  split
  · exact { h.leads hbelow with }
  split
  · next hdone =>
    split
    · refine { h.leads hbelow with batch := Or.inr ⟨?_, ?_⟩ }
      · rw [h.batch]
      · rw [Bool.and_eq_true] at hdone
        rw [← h.batch]
        exact hdone.2
    · exact { h.leads hbelow with }
  · exact h.leads hbelow

/-- The commands of a scan are for targets that have begun. -/
theorem Scan.Moves.commands_begun (hm : (Scan.enter p now issued).Moves scan)
    (hc : c ∈ scan.leave.commands) :
    ∃ t ∈ ((if scan.leave.changed then some scan.leave.plan
        else none).getD p).targets, t.id = c.command.targetID ∧ t.begun := by
  rw [Scan.leave_commands] at hc
  rcases hm.commands c hc with hc | hnew
  · cases hc
  split
  · rw [Option.getD_some, Scan.leave_targets]
    exact hnew
  next hunchanged =>
  rw [Bool.not_eq_true] at hunchanged
  rw [Scan.leave_unchanged hunchanged] at hunchanged
  have heq := (hm.unchanged hunchanged).2
  rw [heq] at hnew
  exact hnew

theorem cancelTarget_started (now : Int) (t : Target) :
    (Plan.cancelTarget now t).status ≠ .waiting := by
  unfold Plan.cancelTarget
  split
  · simp
  · assumption

section Inv

variable (h : s.Inv) (ht : t ∈ s.plan.targets)

include h ht

/-- A target that has begun and has not succeeded is of the current
batch. -/
theorem Store.Inv.current (hbegun : t.begun) (hne : t.status ≠ .succeeded) :
    t.batchNumber = s.plan.currentBatch := by
  rcases Nat.lt_trichotomy t.batchNumber s.plan.currentBatch with hlt | heq | hgt
  · exact absurd (h.earlier t ht hlt) hne
  · exact heq
  · exact absurd hbegun (h.later t ht hgt)

theorem Store.wasSent_begun (hsent : s.wasSent serverID targetID commandID = true)
    (hid : t.id = targetID) : t.begun := by
  obtain ⟨c, hc, heq⟩ := List.any_eq_true.mp hsent
  simp only [Bool.and_eq_true, beq_iff_eq] at heq
  exact h.sent c hc t ht (hid.trans heq.1.2.symm)

theorem Store.Inv.event_begun {e : UpgradeEvent}
    (hlawful : lawful s (.event now serverID e fate) = true)
    (ha : t.Answers serverID e.targetID e.commandID) : t.begun := by
  simp only [lawful, Bool.and_eq_true] at hlawful
  exact Store.wasSent_begun h ht hlawful.2 ha.id

theorem Store.Inv.heartbeat_begun {hb : UpgradeHeartbeat}
    (hlawful : lawful s (.heartbeat now hb fate) = true)
    (hu : hb.upgrade = some (targetID, commandID)) (ha : t.Answers hb.serverID targetID commandID) :
    t.begun := by
  simp only [lawful, hu, Option.all_some, Bool.and_eq_true] at hlawful
  exact Store.wasSent_begun h ht hlawful.2 ha.id

end Inv

/-- No success is reported in time, so none too early. -/
theorem timely_mature (h : timely s call = true) : premature s call = false := by
  cases call with
  | event now serverID e fate =>
    simp only [timely, Bool.and_eq_true, bne_iff_ne] at h
    simp [premature, h.2.1]
  | _ => rfl

/-- A failure that is reported in time is one of the current batch. -/
theorem Store.Inv.failure_current (h : s.Inv) {e : UpgradeEvent}
    (htimely : timely s (.event now serverID e fate) = true)
    (hstage : e.stage = .failed) (ht : t ∈ s.plan.targets) (hid : t.id = e.targetID)
    (hbegun : t.begun) : t.batchNumber = s.plan.currentBatch := by
  simp only [timely, Bool.and_eq_true, bne_iff_ne, ne_eq, Bool.or_eq_true,
    List.all_eq_true, decide_eq_true_eq] at htimely
  rcases Nat.lt_or_ge s.plan.currentBatch t.batchNumber with hgt | hle
  · exact absurd hbegun (h.later t ht hgt)
  · rcases htimely.2.2 with hne | hall
    · exact absurd hstage hne
    · exact Nat.le_antisymm hle ((hall t ht).resolve_left (not_not.mpr hid))

/-- What a call in time saves keeps the batches in order. -/
theorem Decided.leads (hd : Decided s.plan s.issued call o) (h : s.Inv)
    (hclock : s.clock = call.now) (hlawful : lawful s call = true) (htimely : timely s call = true)
    {p' : Plan} (hp' : p' ∈ o.save) : s.plan.Leads s.clock s.issued o.issued p' := by
  have hbelow := hd.below hp' h.commands
  cases hd with
  | scan active loop =>
    obtain rfl : s.clock = _ := hclock
    have hm := Scan.visits_moves loop
    split at hp'
    · cases hp'
      rw [Scan.leave_targets, Scan.leave_issued] at hbelow
      rw [Scan.leave_issued]
      exact Scan.leave_leads hm.plan hbelow
    · cases hp'
  | ignored h => cases hp'
  | noted => cases hp'
  | stuck active ht answers stage back =>
    obtain rfl : s.clock = _ := hclock
    cases hp'
    have hmem := List.mem_of_getElem? ht
    have hbegun := h.event_begun hmem hlawful answers
    have hbatch := h.failure_current htimely stage hmem answers.id hbegun
    refine Plan.Evolves.leads ?_ hbelow
    refine .put ht ?_ _ _ s.plan.finishedAt
    exact .moved _ ⟨rfl, rfl, rfl, rfl, rfl⟩ (Or.inl hbatch) rfl (by simp)
      (by simp) (Or.inl ⟨rfl, depth_le_manual _⟩) (by simp) (Or.inl rfl)
  | failed active ht answers stage back =>
    obtain rfl : s.clock = _ := hclock
    cases hp'
    have hmem := List.mem_of_getElem? ht
    have hbegun := h.event_begun hmem hlawful answers
    have hbatch := h.failure_current htimely stage hmem answers.id hbegun
    rw [hbatch] at hbelow ⊢
    exact (rollbackBatch_evolves s.plan _ _ s.clock s.issued).leads hbelow
  | advanced active ht answers stage moves forward =>
    obtain rfl : s.clock = _ := hclock
    cases hp'
    have hmem := List.mem_of_getElem? ht
    have hbegun := h.event_begun hmem hlawful answers
    obtain ⟨hdepth, hdone, hw, hc, hd⟩ := forward_depth stage moves forward
    refine Plan.Evolves.leads ?_ hbelow
    refine .put ht ?_ s.plan.status s.plan.pauseReason s.plan.finishedAt
    exact .moved _ ⟨rfl, rfl, rfl, rfl, rfl⟩ (Or.inl (h.current hmem hbegun hdone)) rfl hw
      (fun h => absurd h hc) (Or.inl ⟨rfl, hdepth⟩) (fun h => absurd h hd) (Or.inl rfl)
  | back active ht upgrade answers status version
  | right active ht upgrade answers status version =>
    obtain rfl : s.clock = _ := hclock
    cases hp'
    have hmem := List.mem_of_getElem? ht
    have hbegun := h.heartbeat_begun hmem hlawful upgrade answers
    have hbatch := h.current hmem hbegun (by simp [status])
    refine Plan.Evolves.leads ?_ hbelow
    refine .put ht ?_ s.plan.status s.plan.pauseReason s.plan.finishedAt
    exact .moved _ ⟨rfl, rfl, rfl, rfl, rfl⟩ (Or.inl hbatch) rfl (by simp)
      (by simp) (Or.inl ⟨rfl, by simp [status, TargetStatus.depth]⟩) (by simp) (Or.inl rfl)
  | wrong active ht upgrade answers status version =>
    obtain rfl : s.clock = _ := hclock
    cases hp'
    have hmem := List.mem_of_getElem? ht
    have hbegun := h.heartbeat_begun hmem hlawful upgrade answers
    have hbatch := h.current hmem hbegun (by simp [status])
    refine Plan.Evolves.leads ?_ hbelow
    refine .put ht ?_ _ _ s.plan.finishedAt
    exact .moved _ ⟨rfl, rfl, rfl, rfl, rfl⟩ (Or.inl hbatch) rfl (by simp)
      (by simp) (Or.inr (Nat.le_refl _)) (by simp) (Or.inl rfl)
  | paused active | resumed status cancel =>
    cases hp'
    exact { (Plan.Evolves.refl s.plan).leads hbelow with }
  | cancelled status pauseReason finishedAt active ends =>
    obtain rfl : s.clock = _ := hclock
    cases hp'
    refine ⟨rfl, rfl, rfl, Or.inl rfl, Or.inr fun t ht => ?_, hbelow, List.forall₂_map_right_iff.mpr
        (List.forall₂_same.mpr fun t _ => cancelTarget_moved _ _ _ _ t)⟩
    obtain ⟨t, -, rfl⟩ := List.mem_map.mp ht
    exact cancelTarget_started _ t
  | @retried now targetID reads fate i t cancel ht id status =>
    obtain rfl : s.clock = now := hclock
    cases hp'
    have hmem := List.mem_of_getElem? ht
    have hbatch : t.batchNumber = s.plan.currentBatch := by
      refine h.current hmem ?_ ?_ <;>
        rcases status with hst | hst <;> simp [Target.begun, hst]
    simp only [timely, Bool.and_eq_true, bne_iff_ne, ne_eq,
      Bool.or_eq_true, List.all_eq_true] at htimely
    have hin := (htimely.2 t hmem).resolve_left (not_not.mpr id)
    refine Plan.Evolves.leads ?_ hbelow
    refine .put ht ?_ _ _ s.plan.finishedAt
    refine .moved _ ⟨rfl, rfl, rfl, rfl, rfl⟩ (Or.inl hbatch) rfl
      (by simp [Plan.retried]) (by simp [Plan.retried])
      (Or.inr (Nat.le_refl _)) (fun _ startedAt hs => ?_) (Or.inl rfl)
    have hs : t.startedAt = some startedAt := hs
    simpa [Target.inTime, hs] using hin

/-- A call sends commands to targets that have begun. -/
theorem Decided.commands_begun (hd : Decided p issued call o) (hc : c ∈ o.commands) :
    ∃ t ∈ (o.save.getD p).targets, t.id = c.command.targetID ∧ t.begun := by
  cases hd with
  | scan active loop => exact (Scan.visits_moves loop).commands_begun hc
  | failed =>
    obtain ⟨t', ht', hst, -, hcommand⟩ := (p.rolledBack _ _ _ _ issued).commands c hc
    exact ⟨t', ht', by rw [hcommand]; rfl, by simp [Target.begun, hst]⟩
  | wrong active ht =>
    have hi := (List.getElem?_eq_some_iff.mp ht).1
    rw [List.mem_singleton.mp hc]
    exact ⟨_, List.mem_set hi _, rfl, by simp [Target.begun]⟩
  | _ => cases hc

theorem decide_good (h : s.Inv)
    (hclock : s.clock = call.now) (hlawful : lawful s call = true) (htimely : timely s call = true)
    (ho : call.decide s.plan s.issued = some o) : o.Good s.plan s.clock s.issued :=
  have hd := call.decided ho
  have hrecorded := hd.recorded h.records (timely_mature htimely)
  ⟨hrecorded.drawn, fun _ => hd.leads h hclock hlawful htimely,
    hrecorded.event, fun _ => hd.commands_begun⟩

end Calls

-- ======== runs

section Runs

variable {s : Store} {rank : Nat → Nat} {call : Call}

/-- What a call reads, at its time and in its order. -/
def Store.read (rank : Nat → Nat) (s : Store) (now : Int) : Store :=
  { s with clock := now, plan := s.plan.ordered rank }

theorem lawful_read (h : lawful s call = true) : lawful (s.read rank call.now) call = true := by
  simp only [lawful, Bool.and_eq_true] at h ⊢
  refine ⟨by simp [Store.read], ?_⟩
  exact h.2

theorem timely_read (h : timely s call = true) : timely (s.read rank call.now) call = true := by
  have hall : ∀ f : Target → Bool, (s.plan.ordered rank).targets.all f = s.plan.targets.all f :=
    fun f => (List.perm_insertionSort _ s.plan.targets).all_eq
  have hplan : (s.read rank call.now).plan = s.plan.ordered rank := rfl
  have hbound : (s.plan.ordered rank).drainTimeout = s.plan.drainTimeout := rfl
  have hbatch : (s.plan.ordered rank).currentBatch = s.plan.currentBatch := rfl
  unfold timely at h ⊢
  rw [hplan, hbound]
  cases call <;> simpa only [hall, hbatch] using h

/-- A call keeps the invariant, if it is in time. -/
theorem step_inv (h : s.Inv)
    (hlawful : lawful s call = true) (htimely : timely s call = true) : (s.step rank call).Inv := by
  have htick := h.tick hlawful htimely
  unfold Store.step
  dsimp only
  split
  · exact htick
  · next o ho =>
    exact commit_inv htick (decide_good (s := s.read rank call.now)
      (htick.ordered rank) rfl (lawful_read hlawful) (timely_read htimely) ho) call.fate

theorem withTargets_inv (input : CreatePlanInput) (release : ReleaseInfo)
    (now : Int) (issued : Nat) (servers : List ServerInfo) :
    let p := (newPlan input release now issued).withTargets release now servers
    (Store.created p.1 p.2 now).Inv := by
  refine { withTargets_records input release now issued servers with
    earlier := ?_, later := ?_, cancelled := ?_, drains := ?_
    updated := ?_, sent := ?_ }
  · intro t ht hb
    obtain ⟨server, index, hlt, rfl⟩ := mem_withTargets ht
    exact absurd hb (Nat.not_lt.mpr (batchOf_pos input.batchSize index))
  · intro t ht _ hbegun
    obtain ⟨server, index, hlt, rfl⟩ := mem_withTargets ht
    exact hbegun.1 rfl
  · intro hc
    cases hc
  · intro t ht hd
    obtain ⟨server, index, hlt, rfl⟩ := mem_withTargets ht
    cases hd
  · intro t ht
    obtain ⟨server, index, hlt, rfl⟩ := mem_withTargets ht
    exact Int.le_refl _
  · intro c hc
    cases hc

section Creation

variable {input : CreatePlanInput} {rollbackSource : Option Target}
  {active : Bool} {reads : Reads} {now : Int} {issued drawn : Nat}
  {plan : Plan} (h : createPlan input rollbackSource active reads now issued = .ok (plan, drawn))

include h

theorem created_inv : (Store.created plan drawn now).Inv := by
  obtain ⟨release, servers, heq⟩ := createPlan_ok h
  cases heq
  exact withTargets_inv _ release now issued servers

theorem created_waiting {t : Target} (ht : t ∈ plan.targets) : t.status = .waiting := by
  obtain ⟨release, servers, heq⟩ := createPlan_ok h
  cases heq
  obtain ⟨server, index, -, rfl⟩ := mem_withTargets ht
  rfl

end Creation

/-- After any calls in time, a plan is in order. -/
theorem inv_run {input : CreatePlanInput} {rollbackSource : Option Target} {active : Bool}
    {reads : Reads} {now : Int} {issued drawn : Nat} {plan : Plan}
    (h : createPlan input rollbackSource active reads now issued = .ok (plan, drawn))
    {calls : List Call} (hcalls : Transition.Guarded (Store.step rank)
      (fun s call => lawful s call = true ∧ timely s call = true)
      (Store.created plan drawn now) calls) :
    (Transition.run (Store.step rank) (Store.created plan drawn now) calls).Inv :=
  hcalls.invariant (I := Store.Inv) (fun _ _ hinv hg => step_inv hinv hg.1 hg.2) (created_inv h)

end Runs

end Yunling.Upgrade
