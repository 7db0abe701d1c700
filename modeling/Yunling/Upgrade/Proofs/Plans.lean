/-
What holds of an upgrade plan after any calls.

`lawful` is what the world around a plan keeps to: time does not go
back, and agents answer only commands they were sent. `timely` is what
it need not keep to: no drain runs out, and no agent takes back an
upgrade its batch was done with.

# The invariant

`Store.Inv` puts the batches in order (those before the current one have
succeeded, those after it have not begun), and ties the recorded stages
to the targets: a stage recorded under a target's command is not deeper
than the target is now. That is why `SavePlan` never meets a stage it
recorded before. The invariant only speaks of which targets there are,
so the order they are read in does not matter (`Inv.ordered`).

A call that is `Good` keeps the invariant however far its writes get
(`commit_inv`).
-/
import Yunling.Upgrade.Proofs.Records

namespace Yunling.Upgrade

-- ======== runs

/-- A command was sent to a server. -/
def Store.wasSent (s : Store) (serverID : String) (targetID commandID : Nat) : Bool :=
  s.sent.any fun c => c.serverID == serverID
    && c.command.targetID == targetID && c.command.commandID == commandID

/-- Time does not go back, and agents answer only commands that were
sent to them. -/
def lawful (s : Store) (call : Call) : Bool :=
  s.clock ≤ call.now && match call with
    | .event _ serverID e _ => s.wasSent serverID e.targetID e.commandID
    | .heartbeat _ h _ => h.upgrade.all fun (targetID, commandID) =>
      s.wasSent h.serverID targetID commandID
    | _ => true

/-- The drain of a target has not run out. -/
def Target.inTime (t : Target) (bound now : Int) : Bool :=
  t.startedAt.all fun startedAt => now - startedAt ≤ bound

/-- No drain has run out, also not of a target that is tried again; no
agent reports a success, or the failure of a target of a batch that is
done. -/
def timely (s : Store) (call : Call) : Bool :=
  (s.plan.targets.all fun t => t.status != .draining
      || t.inTime s.plan.drainTimeout call.now)
    && match call with
      | .event _ _ e _ => e.stage != .succeeded
          && (e.stage != .failed || s.plan.targets.all fun t =>
            t.id != e.targetID || s.plan.currentBatch ≤ t.batchNumber)
      | .retry now targetID _ _ => s.plan.targets.all fun t =>
        t.id != targetID || t.inTime s.plan.drainTimeout now
      | _ => true

-- ======== invariant

/-- What holds of a plan and its records after any calls. -/
structure Store.Inv (s : Store) : Prop where
  ids : (s.plan.targets.map (·.id)).Nodup
  commands : ∀ t ∈ s.plan.targets, t.commandID < s.issued
  recorded : ∀ key ∈ s.events, key.2.1 < s.issued
  /-- a stage recorded under a target's command is not deeper than the
  target is -/
  fresh : ∀ t ∈ s.plan.targets, ∀ b : TargetStatus,
    (t.id, t.commandID, b.name) ∈ s.events → b.depth ≤ t.status.depth
  earlier : ∀ t ∈ s.plan.targets, t.batchNumber < s.plan.currentBatch → t.status = .succeeded
  later : ∀ t ∈ s.plan.targets, s.plan.currentBatch < t.batchNumber → ¬ t.begun
  cancelled : s.plan.cancelRequested = true → ∀ t ∈ s.plan.targets, t.status ≠ .waiting
  drains : ∀ t ∈ s.plan.targets, t.status = .draining →
    ∀ startedAt ∈ t.startedAt, s.clock - startedAt ≤ s.plan.drainTimeout
  updated : ∀ t ∈ s.plan.targets, t.updatedAt ≤ s.clock
  sent : ∀ c ∈ s.sent, ∀ t ∈ s.plan.targets, t.id = c.command.targetID → t.begun

/-- What a call saves. -/
structure Plan.Leads (now : Int) (issued drawn : Nat) (p p' : Plan) : Prop where
  release : p'.targetReleaseID = p.targetReleaseID
  revision : p'.revision = p.revision
  drain : p'.drainTimeoutSeconds = p.drainTimeoutSeconds
  batch : p'.currentBatch = p.currentBatch ∨ p'.currentBatch = p.currentBatch + 1
      ∧ p'.batchSucceeded p.currentBatch = true
  cancel : p'.cancelRequested = p.cancelRequested ∨ ∀ t ∈ p'.targets, t.status ≠ .waiting
  below : ∀ t ∈ p'.targets, t.commandID < drawn
  targets : List.Forall₂ (Target.Moved now issued p.currentBatch p.drainTimeout)
    p.targets p'.targets

/-- A call does nothing to a plan that breaks its order. -/
structure Outcome.Good (o : Outcome) (p : Plan) (now : Int) (issued : Nat) : Prop where
  drawn : issued ≤ o.issued
  save : ∀ p' ∈ o.save, p.Leads now issued o.issued p'
  event : ∀ key ∈ o.event, key.2.1 < issued ∧ ∀ t ∈ (o.save.getD p).targets, t.id = key.1 →
      t.commandID = key.2.1 → ∀ b : TargetStatus, b.name = key.2.2 → b.depth ≤ t.status.depth
  commands : ∀ c ∈ o.commands, ∃ t ∈ (o.save.getD p).targets, t.id = c.command.targetID ∧ t.begun

section Invariant

variable {s : Store} {rank : Nat → Nat} {o : Outcome} {fate : Store.Fate}

theorem Store.Inv.records (h : s.Inv) : s.Records := ⟨h.ids, h.commands, h.recorded, h.fresh⟩

theorem Plan.Leads.stepped {now : Int} {issued drawn : Nat} {p p' : Plan}
    (h : p.Leads now issued drawn p') :
    List.Forall₂ (Target.Stepped now issued) p.targets p'.targets :=
  h.targets.imp fun _ _ hm => hm.stepped

section Inv

variable (h : s.Inv)

include h

/-- The order of the targets does not matter. -/
theorem Store.Inv.ordered (rank : Nat → Nat) :
    Store.Inv { s with plan := s.plan.ordered rank } :=
  { h.records.ordered rank with
    earlier := fun t ht => h.earlier t (mem_ordered.mp ht)
    later := fun t ht => h.later t (mem_ordered.mp ht)
    cancelled := fun hc t ht => h.cancelled hc t (mem_ordered.mp ht)
    drains := fun t ht => h.drains t (mem_ordered.mp ht)
    updated := fun t ht => h.updated t (mem_ordered.mp ht)
    sent := fun c hc t ht => h.sent c hc t (mem_ordered.mp ht) }

theorem Store.Inv.draw {issued : Nat} (hle : s.issued ≤ issued) :
    Store.Inv { s with issued } :=
  { h.records.draw hle, h with }

/-- Time passes, in time for what is being drained. -/
theorem Store.Inv.tick {call : Call} (hlawful : lawful s call = true)
    (htimely : timely s call = true) :
    Store.Inv { s with clock := call.now } := by
  simp only [lawful, Bool.and_eq_true, decide_eq_true_eq] at hlawful
  simp only [timely, Bool.and_eq_true, List.all_eq_true] at htimely
  refine { h with drains := ?_, updated := ?_ }
  · intro t ht hd startedAt hmem
    have hin := htimely.1 t ht
    rw [hd] at hin
    simp only [bne_self_eq_false, Bool.false_or, Target.inTime] at hin
    rw [Option.mem_def.mp hmem] at hin
    simpa using hin
  · intro t ht
    exact Int.le_trans (h.updated t ht) hlawful.1

/-- What a call saves keeps the invariant, and with it the events of the
save. -/
theorem Store.Inv.save {drawn : Nat} (hle : s.issued ≤ drawn) {p' : Plan}
    (hp : s.plan.Leads s.clock s.issued drawn p') {keys : List (Nat × Nat × String)}
    (hkeys : ∀ key ∈ keys, ∃ t ∈ p'.targets, key = (t.id, t.commandID, t.status.name))
    (revision : Nat) : Store.Inv { s with
      plan := { p' with revision }
      events := s.events ++ keys
      issued := drawn } := by
  have hrecords := h.records.save hle hp.stepped hp.below hkeys revision
  have hbound : p'.drainTimeout = s.plan.drainTimeout := by
    unfold Plan.drainTimeout
    rw [hp.drain]
  refine { hrecords with
    earlier := ?_, later := ?_, cancelled := ?_, drains := ?_
    updated := ?_, sent := ?_ }
  · -- earlier
    intro t' ht' hb
    obtain ⟨t, ht, hm⟩ := Pointwise.mem_right hp.targets ht'
    have hold : t.batchNumber < s.plan.currentBatch → t'.status = .succeeded := by
      intro hlt
      have hdone := h.earlier t ht hlt
      cases hm with
      | kept => exact hdone
      | moved _ same place =>
        rcases place with heq | ⟨hw, -⟩
        · omega
        · rw [hdone] at hw
          cases hw
    rcases hp.batch with hsame | ⟨hnext, hdone⟩
    · exact hold (by rw [← hm.same.batchNumber, ← hsame]; exact hb)
    by_cases hlt : t.batchNumber < s.plan.currentBatch
    · exact hold hlt
    simp only [Plan.batchSucceeded, Bool.and_eq_true, List.all_eq_true] at hdone
    have hthis := hdone.2 t' ht'
    have heq : t'.batchNumber = s.plan.currentBatch := by
      have hb : t'.batchNumber < p'.currentBatch := hb
      have := hm.same.batchNumber
      omega
    simpa [heq] using hthis
  · -- later
    intro t' ht' hb hbegun
    obtain ⟨t, ht, hm⟩ := Pointwise.mem_right hp.targets ht'
    have hb : p'.currentBatch < t'.batchNumber := hb
    have hlt : s.plan.currentBatch < t.batchNumber := by
      have := hm.same.batchNumber
      rcases hp.batch with hsame | ⟨hnext, -⟩ <;> omega
    cases hm with
    | kept => exact h.later t' ht hlt hbegun
    | moved _ same place =>
      rcases place with heq | ⟨-, hc⟩
      · omega
      · exact hbegun.2 hc
  · -- cancelled
    intro hc t' ht' hw
    obtain ⟨t, ht, hm⟩ := Pointwise.mem_right hp.targets ht'
    rcases hp.cancel with hsame | hnone
    · have hc : p'.cancelRequested = true := hc
      rw [hsame] at hc
      rw [hm.waiting hw] at hw
      exact h.cancelled hc t ht hw
    · exact hnone t' ht' hw
  · -- drains
    intro t' ht' hd startedAt hmem
    obtain ⟨t, ht, hm⟩ := Pointwise.mem_right hp.targets ht'
    show s.clock - startedAt ≤ p'.drainTimeout
    rw [hbound]
    cases hm with
    | kept => exact h.drains t' ht hd startedAt hmem
    | moved _ same place time started cancelled order drains =>
      exact drains hd startedAt hmem
  · -- updated
    intro t' ht'
    obtain ⟨t, ht, hm⟩ := Pointwise.mem_right hp.targets ht'
    cases hm with
    | kept => exact h.updated t' ht
    | moved _ same place time => exact Int.le_of_eq time
  · -- sent
    intro c hc t' ht' hid
    obtain ⟨t, ht, hm⟩ := Pointwise.mem_right hp.targets ht'
    exact hm.begun (h.sent c hc t ht (hm.same.id.symm.trans hid))

theorem Store.Inv.finish (hevent : ∀ key ∈ o.event, key.2.1 < s.issued ∧ s.plan.Reaches key)
    (hcommands : ∀ c ∈ o.commands, ∃ t ∈ s.plan.targets, t.id = c.command.targetID ∧ t.begun)
    (fate : Store.Fate) : (s.finish o fate).Inv := by
  have hrecords := h.records.finish hevent fate
  obtain ⟨events, sent, heq, hsent⟩ := finish_eq s o fate
  rw [heq] at hrecords ⊢
  refine { hrecords, h with sent := fun c hc t ht hid => ?_ }
  rcases hsent c hc with hc | hc
  · exact h.sent c hc t ht hid
  · obtain ⟨t', ht', hid', hbegun⟩ := hcommands c hc
    rwa [eq_of_id h.ids ht ht' (hid.trans hid'.symm)]

/-- A good outcome keeps the invariant, however far its writes get. -/
theorem commit_inv (ho : o.Good (s.plan.ordered rank) s.clock s.issued) (fate : Store.Fate) :
    (s.commit o fate).Inv := by
  have hdrawn : Store.Inv { s with issued := o.issued } := h.draw ho.drawn
  have hevent := ho.event
  have hcommands := ho.commands
  refine commit_keeps hdrawn (fun hsave => ?_) fun p' hsave => ?_
  · rw [hsave] at hevent hcommands
    refine hdrawn.finish (o := o) (fun key hk => ?_) (fun c hc => ?_) fate
    · obtain ⟨hlt, hfresh⟩ := hevent key hk
      exact ⟨Nat.lt_of_lt_of_le hlt ho.drawn, fun t ht => hfresh t (mem_ordered.mpr ht)⟩
    · obtain ⟨t, ht, hid⟩ := hcommands c hc
      exact ⟨t, mem_ordered.mp ht, hid⟩
  · rw [Option.mem_def.mp hsave] at hevent hcommands
    have hkeys : ∀ key ∈ changes s.plan p', ∃ t ∈ p'.targets,
        key = (t.id, t.commandID, t.status.name) :=
      fun _ => changes_mem
    have hinv := (h.ordered rank).save ho.drawn (ho.save p' hsave) hkeys (p'.revision + 1)
    refine hinv.finish (o := o) (fun key hk => ?_) hcommands fate
    obtain ⟨hlt, hfresh⟩ := hevent key hk
    exact ⟨Nat.lt_of_lt_of_le hlt ho.drawn, hfresh⟩

end Inv

-- ======== clean saves

/-- All writes and sends of a call go through. -/
structure Store.Fate.Clean (fate : Store.Fate) (o : Outcome) : Prop where
  saved : fate.saved = true
  appended : fate.appended = true
  delivered : o.commands.length ≤ fate.delivered

theorem Store.finish_clean (s : Store) (hf : fate.Clean o) : (s.finish o fate).plan = s.plan
      ∧ (s.finish o fate).sent = s.sent ++ o.commands ∧ (s.finish o fate).clock = s.clock := by
  unfold Store.finish
  split
  · rw [if_pos hf.appended, List.take_of_length_le hf.delivered]
    unfold Store.appendEvent
    split <;> exact ⟨rfl, rfl, rfl⟩
  · rw [List.take_of_length_le hf.delivered]
    exact ⟨rfl, rfl, rfl⟩

/-- What a good call leaves behind when all goes through. -/
theorem commit_clean (h : s.Inv) (ho : o.Good (s.plan.ordered rank) s.clock s.issued)
    (hf : fate.Clean o) : (s.commit o fate).plan = o.save.elim s.plan
        (fun p' => { p' with revision := p'.revision + 1 })
      ∧ (s.commit o fate).sent = s.sent ++ o.commands ∧ (s.commit o fate).clock = s.clock := by
  unfold Store.commit
  dsimp only
  cases hsave : o.save with
  | none =>
    exact Store.finish_clean { s with issued := o.issued } hf
  | some p' =>
    rw [Option.elim_some, h.records.save_ok (ho.save p' hsave).revision (ho.save p' hsave).stepped]
    simp only [hf.saved, Option.isSome_some, Bool.not_true, Bool.and_false,
      Bool.false_eq_true, ↓reduceIte]
    exact Store.finish_clean { s with
      plan := { p' with revision := p'.revision + 1 }
      events := s.events ++ changes s.plan p'
      issued := o.issued } hf

end Invariant

end Yunling.Upgrade
