/-
What is recorded about the targets of a plan.

A stage is recorded once for a target and a command
(`agent_upgrade_events_command_stage_idx`). `SavePlan` records the status
a target comes to and fails where that is recorded already; `AppendEvent`
records what an agent reports and passes over what is there. The two
share a vocabulary, so a report that is ahead of its target stands in the
way of a later save.

# The invariant

`Store.Records`: a stage recorded under a target's command is not deeper
than the target is now. A target goes deeper under its command, or gets a
new one (`Target.Stepped`), so no save meets a stage that is there
(`Records.save_ok`). All reports keep the invariant but one: the stage
`succeeded` brings a target to `reconnecting` and is recorded as it is
called (`premature`).
-/
import Yunling.Upgrade.Proofs.Decisions

namespace Yunling.Upgrade

open Fallible

variable {a b : TargetStatus} {previous p : Plan} {t : Target}

-- ======== records

/-- The records of a plan are not ahead of it. -/
structure Store.Records (s : Store) : Prop where
  ids : (s.plan.targets.map (·.id)).Nodup
  commands : ∀ t ∈ s.plan.targets, t.commandID < s.issued
  recorded : ∀ key ∈ s.events, key.2.1 < s.issued
  fresh : ∀ t ∈ s.plan.targets, ∀ b : TargetStatus,
    (t.id, t.commandID, b.name) ∈ s.events → b.depth ≤ t.status.depth

/-- An event is not ahead of the targets. -/
def Plan.Reaches (p : Plan) (key : Nat × Nat × String) : Prop :=
  ∀ t ∈ p.targets, t.id = key.1 → t.commandID = key.2.1 →
    ∀ b : TargetStatus, b.name = key.2.2 → b.depth ≤ t.status.depth

/-- What a call writes. -/
structure Outcome.Recorded (o : Outcome) (p : Plan) (now : Int) (issued : Nat) : Prop where
  drawn : issued ≤ o.issued
  steps : ∀ p' ∈ o.save, p.Steps now issued p'
  below : ∀ p' ∈ o.save, ∀ t ∈ p'.targets, t.commandID < o.issued
  event : ∀ key ∈ o.event, key.2.1 < issued ∧ (o.save.getD p).Reaches key

theorem TargetStatus.name_injective (h : a.name = b.name) : a = b := by
  cases a <;> cases b <;> first | rfl | simp [TargetStatus.name] at h

theorem TargetStatus.depth_injective (h : a.depth = b.depth) : a = b := by
  cases a <;> cases b <;> first | rfl | simp [TargetStatus.depth] at h

/-- Targets are told apart by their ids. -/
theorem eq_of_id {targets : List Target} (hids : (targets.map (·.id)).Nodup) {t' : Target}
    (ht : t ∈ targets) (ht' : t' ∈ targets) (h : t.id = t'.id) : t = t' :=
  List.inj_on_of_nodup_map hids ht ht' h

theorem matchTarget_mem {p : Plan} (hids : (p.targets.map (·.id)).Nodup) (ht : t ∈ p.targets)
    {serverID : String} {targetID commandID : Nat} (ha : t.Answers serverID targetID commandID) :
    ∃ i, p.matchTarget serverID targetID commandID = some i ∧ p.targets[i]? = some t := by
  cases hfound : p.matchTarget serverID targetID commandID with
  | none =>
    have hnone := List.findIdx?_eq_none_iff.mp hfound t ht
    simp [ha.id, ha.serverID, ha.commandID] at hnone
  | some i =>
    obtain ⟨hi, -, -⟩ := List.findIdx?_eq_some_iff_getElem.mp hfound
    have hat := List.getElem?_eq_getElem hi
    have hother := matchTarget_spec hfound hat
    have heq := eq_of_id hids (List.mem_of_getElem? hat) ht (hother.id.trans ha.id.symm)
    exact ⟨i, rfl, heq ▸ hat⟩

theorem stepped_ids {targets targets' : List Target} {now : Int}
    {issued : Nat} (h : List.Forall₂ (Target.Stepped now issued) targets targets') :
    targets'.map (·.id) = targets.map (·.id) :=
  Pointwise.map_eq (fun _ _ hs => Target.Same.id hs.same) h

theorem changes_mem {key : Nat × Nat × String} (h : key ∈ changes previous p) :
    ∃ t ∈ p.targets, key = (t.id, t.commandID, t.status.name) := by
  obtain ⟨t, ht, rfl⟩ := List.mem_map.mp h
  exact ⟨t, (List.mem_filter.mp ht).1, rfl⟩

theorem changes_nodup (hids : (p.targets.map (·.id)).Nodup) : (changes previous p).Nodup := by
  have hkept : ((changes previous p).map (·.1)).Nodup := by
    unfold changes
    rw [List.map_map]
    exact hids.sublist (List.filter_sublist.map _)
  exact hkept.of_map _

theorem statusOf_mem {p : Plan} (hids : (p.targets.map (·.id)).Nodup) (ht : t ∈ p.targets) :
    p.statusOf t.id = some t.status := by
  unfold Plan.statusOf
  cases hfind : p.targets.find? (·.id == t.id) with
  | none =>
    have hnone := List.find?_eq_none.mp hfind t ht
    exact absurd (beq_self_eq_true t.id) hnone
  | some t' =>
    have hid : t'.id = t.id := by simpa using List.find?_some hfind
    rw [eq_of_id hids (List.mem_of_find?_eq_some hfind) ht hid]
    rfl

section Records

variable {s : Store} {rank : Nat → Nat} {p' : Plan} {now : Int} {key : Nat × Nat × String}
  (h : s.Records) {drawn : Nat} {o : Outcome}

include h

theorem Store.Records.ordered (rank : Nat → Nat) :
    Store.Records { s with plan := s.plan.ordered rank } where
  ids := ((List.perm_insertionSort _ s.plan.targets).map _).nodup_iff.mpr h.ids
  commands t ht := h.commands t (mem_ordered.mp ht)
  recorded := h.recorded
  fresh t ht := h.fresh t (mem_ordered.mp ht)

theorem Store.Records.draw {issued : Nat} (hle : s.issued ≤ issued) :
    Store.Records { s with issued } :=
  { h with
    commands := fun t ht => Nat.lt_of_lt_of_le (h.commands t ht) hle
    recorded := fun key hk => Nat.lt_of_lt_of_le (h.recorded key hk) hle }

/-- An old record of a target bounds what it came to. -/
theorem Store.Records.stepped {t t' : Target} (ht : t ∈ s.plan.targets)
    (hs : t.Stepped now s.issued t') {b : TargetStatus}
    (hk : (t'.id, t'.commandID, b.name) ∈ s.events) :
    t'.commandID = t.commandID ∧ b.depth ≤ t.status.depth ∧ t.status.depth ≤ t'.status.depth := by
  rw [hs.same.id] at hk
  rcases hs.order with ⟨hcommand, hdepth⟩ | hnew
  · rw [hcommand] at hk
    exact ⟨hcommand, h.fresh t ht b hk, hdepth⟩
  · exact absurd (h.recorded _ hk) (Nat.not_lt.mpr hnew)

/-- What a call saves keeps the records, and with it the events of the
save. -/
theorem Store.Records.save (hle : s.issued ≤ drawn)
    (hp : List.Forall₂ (Target.Stepped now s.issued) s.plan.targets p'.targets)
    (hbelow : ∀ t ∈ p'.targets, t.commandID < drawn) {keys : List (Nat × Nat × String)}
    (hkeys : ∀ key ∈ keys, ∃ t ∈ p'.targets, key = (t.id, t.commandID, t.status.name))
    (revision : Nat) : Store.Records { s with
      plan := { p' with revision }
      events := s.events ++ keys
      issued := drawn } := by
  have hnodup : (p'.targets.map (·.id)).Nodup := stepped_ids hp ▸ h.ids
  refine ⟨hnodup, hbelow, fun key hk => ?_, fun t' ht' b hk => ?_⟩
  · rcases List.mem_append.mp hk with hk | hk
    · exact Nat.lt_of_lt_of_le (h.recorded key hk) hle
    · obtain ⟨t, ht, rfl⟩ := hkeys key hk
      exact hbelow t ht
  · rcases List.mem_append.mp hk with hk | hk
    · obtain ⟨t, ht, hs⟩ := Pointwise.mem_right hp ht'
      obtain ⟨-, hold, hdepth⟩ := h.stepped ht hs hk
      exact Nat.le_trans hold hdepth
    · obtain ⟨t, ht, heq⟩ := hkeys _ hk
      simp only [Prod.mk.injEq] at heq
      obtain rfl := eq_of_id hnodup ht' ht heq.1
      rw [TargetStatus.name_injective heq.2.2]

/-- A report that is not ahead of its target. -/
theorem Store.Records.append (hdrawn : key.2.1 < s.issued) (hreaches : s.plan.Reaches key) :
    (s.appendEvent key).Records := by
  unfold Store.appendEvent
  split
  · exact h
  refine { h with recorded := ?_, fresh := ?_ }
  · intro key' hk
    rcases List.mem_append.mp hk with hk | hk
    · exact h.recorded key' hk
    · rwa [List.mem_singleton.mp hk]
  · intro t ht b hk
    rcases List.mem_append.mp hk with hk | hk
    · exact h.fresh t ht b hk
    · obtain rfl := List.mem_singleton.mp hk
      exact hreaches t ht rfl rfl b rfl

/-- A save records no stage it recorded before. -/
theorem Store.Records.changes_fresh
    (hp : List.Forall₂ (Target.Stepped now s.issued) (s.plan.ordered rank).targets p'.targets)
    (hkey : key ∈ changes s.plan p') : key ∉ s.events := by
  intro hold
  obtain ⟨t', ht', rfl⟩ := List.mem_map.mp hkey
  obtain ⟨ht', hchanged⟩ := List.mem_filter.mp ht'
  obtain ⟨t, ht, hs⟩ := Pointwise.mem_right hp ht'
  have ht := mem_ordered.mp ht
  obtain ⟨-, hle, hdepth⟩ := h.stepped ht hs hold
  have hsame : t.status = t'.status := TargetStatus.depth_injective (Nat.le_antisymm hdepth hle)
  rw [bne_iff_ne, hs.same.id, statusOf_mem h.ids ht, hsame] at hchanged
  exact hchanged rfl

theorem Store.Records.save_ok (hrevision : p'.revision = s.plan.revision)
    (hp : List.Forall₂ (Target.Stepped now s.issued) (s.plan.ordered rank).targets p'.targets) :
    Store.savePlan { s with issued := drawn } p' = .ok { s with
      plan := { p' with revision := p'.revision + 1 }
      events := s.events ++ changes s.plan p'
      issued := drawn } := by
  have hids : (p'.targets.map (·.id)).Nodup := by
    rw [stepped_ids hp]
    exact (h.ordered rank).ids
  have hknown : ¬ (p'.targets.any fun t =>
      (s.plan.statusOf t.id).isNone) = true := by
    rw [List.any_eq_true]
    rintro ⟨t', ht', hnone⟩
    obtain ⟨t, ht, hs⟩ := Pointwise.mem_right hp ht'
    rw [hs.same.id, statusOf_mem h.ids (mem_ordered.mp ht)] at hnone
    cases hnone
  have hfresh : ((changes s.plan p').all fun key => !s.events.contains key) = true := by
    rw [List.all_eq_true]
    intro key hkey
    simpa using h.changes_fresh hp hkey
  unfold Store.savePlan
  rw [if_neg (not_not.mpr hrevision), if_neg hknown]
  dsimp only
  rw [hfresh, decide_eq_true (changes_nodup hids)]
  rfl

theorem Store.Records.finish (hevent : ∀ key ∈ o.event, key.2.1 < s.issued ∧ s.plan.Reaches key)
    (fate : Store.Fate) : (s.finish o fate).Records := by
  unfold Store.finish
  split
  · next key hkey =>
    obtain ⟨hdrawn, hreaches⟩ := hevent key hkey
    split
    · exact { h.append hdrawn hreaches with }
    · exact h
  · exact { h with }

/-- A call keeps the records, however far its writes get. -/
theorem commit_records (ho : o.Recorded (s.plan.ordered rank) now s.issued) (fate : Store.Fate) :
    (s.commit o fate).Records := by
  have hdrawn : Store.Records { s with issued := o.issued } := h.draw ho.drawn
  have hevent := ho.event
  refine commit_keeps hdrawn (fun hsave => ?_) fun p' hsave => ?_
  · rw [hsave] at hevent
    refine hdrawn.finish (o := o) (fun key hk => ?_) fate
    obtain ⟨hlt, hreaches⟩ := hevent key hk
    exact ⟨Nat.lt_of_lt_of_le hlt ho.drawn, fun t ht => hreaches t (mem_ordered.mpr ht)⟩
  · rw [Option.mem_def.mp hsave] at hevent
    have hsaved := (h.ordered rank).save ho.drawn (ho.steps p' hsave).targets (ho.below p' hsave)
      (fun _ (hkey : _ ∈ changes s.plan p') => changes_mem hkey) (p'.revision + 1)
    refine hsaved.finish (o := o) (fun key hk => ?_) fate
    obtain ⟨hlt, hreaches⟩ := hevent key hk
    exact ⟨Nat.lt_of_lt_of_le hlt ho.drawn, hreaches⟩

end Records

-- ======== reports

/-- An agent reports a success, and its target is still on the way
there. -/
def premature (s : Store) : Call → Bool
  | .event _ _ e _ => e.stage == .succeeded && s.plan.targets.any fun t =>
    t.id == e.targetID && t.commandID == e.commandID
      && t.status != .succeeded && forwardTransition t.status .succeeded
  | _ => false

section Reports

variable {s : Store} {rank : Nat → Nat} {call : Call} {o : Outcome}

theorem premature_ordered (rank : Nat → Nat) (s : Store) (call : Call) :
    premature { s with plan := s.plan.ordered rank } call = premature s call := by
  cases call with
  | event now serverID e fate =>
    have hany : ∀ f : Target → Bool, (s.plan.ordered rank).targets.any f = s.plan.targets.any f :=
      fun f => (List.perm_insertionSort _ s.plan.targets).any_eq
    simp only [premature, hany]
  | _ => rfl

theorem no_failed_status (b : TargetStatus) : b.name ≠ UpgradeStage.failed.name := by
  cases b <;> simp [TargetStatus.name, UpgradeStage.name]

/-- A stage that is the name of a status is the stage of that status. -/
theorem stage_status {stage : UpgradeStage} {status b : TargetStatus} (hs : stage ≠ .succeeded)
    (h : targetStatusForStage stage = some status) (hb : b.name = stage.name) : b = status := by
  cases stage <;> simp only [targetStatusForStage, Option.some.injEq,
    reduceCtorEq, ne_eq, not_true_eq_false] at h hs <;>
    subst h <;> cases b <;>
    simp_all [TargetStatus.name, UpgradeStage.name]

/-- A success that is reported in time does not move its target. -/
theorem timely_success {t : Target} {e : UpgradeEvent} {now : Int}
    {serverID : String} {fate : Store.Fate} (ht : t ∈ s.plan.targets)
    (hanswers : t.Answers serverID e.targetID e.commandID)
    (hin : premature s (.event now serverID e fate) = false) (hs : e.stage = .succeeded) :
    TargetStatus.succeeded.depth ≤ t.status.depth := by
  have hpast : ¬ (t.status ≠ .succeeded ∧ forwardTransition t.status .succeeded = true) := by
    rintro ⟨hne, hforward⟩
    rw [← Bool.not_eq_true] at hin
    refine hin ?_
    simp only [premature, hs, beq_self_eq_true, Bool.true_and]
    rw [List.any_eq_true]
    refine ⟨t, ht, ?_⟩
    simp [hanswers.id, hanswers.commandID, hne, hforward]
  cases hst : t.status <;>
    simp_all [forwardTransition, TargetStatus.rank, TargetStatus.depth]

/-- What an agent reports in time is not ahead of its target. -/
theorem Decided.reaches (h : Decided s.plan s.issued call o) (hrec : s.Records)
    (hin : premature s call = false) {key : Nat × Nat × String} (hkey : key ∈ o.event) :
    key.2.1 < s.issued ∧ (o.save.getD s.plan).Reaches key := by
  cases h with
  | scan | ignored | back | wrong | right | paused | resumed | cancelled
  | retried => cases hkey
  | stuck active ht answers stage back
  | failed active ht answers stage back =>
    cases hkey
    refine ⟨hrec.commands _ (List.mem_of_getElem? ht), fun _ _ _ _ b hb => ?_⟩
    exact absurd (stage ▸ hb) (no_failed_status b)
  | @noted now serverID e fate i t active ht answers status =>
    cases hkey
    have hmem := List.mem_of_getElem? ht
    refine ⟨hrec.commands t hmem, fun t' ht' hid _ b hb => ?_⟩
    obtain rfl := eq_of_id hrec.ids ht' hmem hid
    by_cases hs : e.stage = .succeeded
    · have hle := timely_success hmem answers hin hs
      obtain rfl : b = .succeeded := TargetStatus.name_injective
        (hb.trans (congrArg UpgradeStage.name hs))
      exact hle
    · rcases status with ⟨hst, hstage⟩ | hstatus
      · have hreconnects : targetStatusForStage e.stage = some .reconnecting := by
          rcases hstage with hstage | hstage <;> rw [hstage] <;> rfl
        rw [stage_status hs hreconnects hb, hst]
        decide
      · rw [stage_status hs hstatus hb]
  | @advanced now serverID e fate i t status active ht answers stage moves forward =>
      cases hkey
      have hmem := List.mem_of_getElem? ht
      have hi : i < s.plan.targets.length := (List.getElem?_eq_some_iff.mp ht).1
      have hids : ((s.plan.targets.set i (t.advance status e now)).map (·.id)).Nodup := by
        have hsame := Pointwise.set (R := fun t t' : Target => t'.id = t.id) (fun _ => rfl) ht
          (show (t.advance status e now).id = t.id from rfl)
        rw [Pointwise.map_eq (fun _ _ hid => hid) hsame]
        exact hrec.ids
      refine ⟨hrec.commands t hmem, fun t' ht' hid _ b hb => ?_⟩
      obtain rfl := eq_of_id hids ht' (List.mem_set hi _) hid
      have hs : e.stage ≠ .succeeded := by
        intro hs
        have hle := timely_success hmem answers hin hs
        rw [hs] at stage
        cases stage
        have hlt := (forward_depth (show targetStatusForStage .succeeded
          = some .reconnecting from rfl) moves forward).1
        simp only [TargetStatus.depth] at hle hlt
        omega
      rw [stage_status hs stage hb]
      exact Nat.le_refl _

theorem Decided.recorded (h : Decided s.plan s.issued call o)
    (hrec : s.Records) (hin : premature s call = false) : o.Recorded s.plan call.now s.issued :=
  ⟨h.drawn, fun _ hp' => h.steps hp', fun _ hp' => h.below hp' hrec.commands,
    fun _ hkey => h.reaches hrec hin hkey⟩

/-- A call that is no premature success keeps the records. -/
theorem step_records (h : s.Records) (hin : premature s call = false) :
    (s.step rank call).Records := by
  unfold Store.step
  dsimp only
  split
  · exact { h with }
  next o ho =>
  have hclocked : Store.Records { s with clock := call.now } :=
    { h with }
  rw [← premature_ordered rank] at hin
  have hrecorded := (call.decided ho).recorded (s := { s with
    plan := s.plan.ordered rank }) (h.ordered rank) hin
  exact commit_records hclocked hrecorded call.fate

end Reports

-- ======== creation

section Creation

variable {input : CreatePlanInput} {rollbackSource : Option Target}
  {active : Bool} {reads : Reads} {now : Int} {issued drawn : Nat}
  {plan : Plan} {rank : Nat → Nat}

theorem createPlan_ok (h : createPlan input rollbackSource active reads now issued
      = .ok (plan, drawn)) : ∃ release servers,
      (newPlan input.applyPlanDefaults release now issued).withTargets
        release now servers = (plan, drawn) := by
  unfold createPlan at h
  dsimp only at h
  split at h
  · cases h
  split at h
  · cases h
  split at h
  · cases h
  obtain ⟨release, -, h⟩ := ok_of_bind h
  split at h
  · cases h
  split at h
  · cases h
  · obtain ⟨servers, -, h⟩ := ok_of_bind h
    obtain ⟨-, -, h⟩ := ok_of_bind h
    exact ⟨release, servers, Except.ok.inj h⟩

/-- The ids of a target and of its command are drawn one after the
other. -/
theorem newTargets_ids (plan : Plan) (release : ReleaseInfo) (now : Int)
    (servers : List ServerInfo) (k : Nat) :
    (((servers.zipIdx k).map fun (server, index) => newTarget plan release
      now (plan.id + 1 + 2 * index) index server).map (·.id)).Nodup := by
  induction servers generalizing k with
  | nil => exact List.nodup_nil
  | cons server servers ih =>
    rw [List.zipIdx_cons, List.map_cons, List.map_cons, List.nodup_cons]
    refine ⟨fun hmem => ?_, ih (k + 1)⟩
    obtain ⟨t, ht, heq⟩ := List.mem_map.mp hmem
    obtain ⟨⟨server', index⟩, hindex, rfl⟩ := List.mem_map.mp ht
    have hle := (List.mem_zipIdx hindex).1
    simp only [newTarget] at heq
    omega

theorem mem_withTargets {plan : Plan} {release : ReleaseInfo} {now : Int}
    {servers : List ServerInfo} {t : Target}
    (ht : t ∈ (plan.withTargets release now servers).1.targets) :
    ∃ server index, index < servers.length
      ∧ t = newTarget plan release now (plan.id + 1 + 2 * index) index server := by
  obtain ⟨⟨server, index⟩, hindex, rfl⟩ := List.mem_map.mp ht
  have hlt := (List.mem_zipIdx hindex).2.1
  exact ⟨server, index, by simpa using hlt, rfl⟩

theorem batchOf_pos (batchSize index : Nat) : 1 ≤ batchOf batchSize index := by
  unfold batchOf
  split
  · exact Nat.le_refl 1
  · exact Nat.le_add_right_of_le (by omega)

theorem withTargets_records (input : CreatePlanInput)
    (release : ReleaseInfo) (now : Int) (issued : Nat) (servers : List ServerInfo) :
    let p := (newPlan input release now issued).withTargets release now servers
    (Store.created p.1 p.2 now).Records := by
  refine ⟨newTargets_ids _ release now servers 0, fun t ht => ?_,
    (fun key hk => by cases hk), fun t ht b hk => by cases hk⟩
  obtain ⟨server, index, hlt, rfl⟩ := mem_withTargets ht
  show issued + 1 + 2 * index < issued + 1 + 2 * servers.length
  omega

section Shared

variable (h : createPlan input rollbackSource active reads now issued = .ok (plan, drawn))

include h

theorem created_records : (Store.created plan drawn now).Records := by
  obtain ⟨release, servers, heq⟩ := createPlan_ok h
  cases heq
  exact withTargets_records _ release now issued servers

theorem created_reconnect : 0 < plan.reconnectTimeout := by
  have hvalid : input.applyPlanDefaults.valid = true := by
    unfold createPlan at h
    dsimp only at h
    split at h
    · cases h
    · next hv => rwa [Bool.not_eq_true, Bool.not_eq_false'] at hv
  obtain ⟨release, servers, heq⟩ := createPlan_ok h
  cases heq
  simp only [CreatePlanInput.valid, Bool.and_eq_true, decide_eq_true_eq] at hvalid
  show (0 : Int) < input.applyPlanDefaults.reconnectTimeoutSeconds * second
  unfold second
  omega

end Shared

/-- What holds of a plan after any calls whatsoever. -/
structure Store.Plain (s : Store) : Prop where
  ids : (s.plan.targets.map (·.id)).Nodup
  unset : ∀ t ∈ s.plan.targets, t.status = .waiting → t.startedAt = none
  reconnect : 0 < s.plan.reconnectTimeout

theorem Store.Plain.step {s : Store} {call : Call} (h : s.Plain) : (s.step rank call).Plain := by
  have hfollows := step_follows rank s call
  refine ⟨hfollows.ids.nodup_iff.mpr h.ids, fun t' ht' hw => ?_, ?_⟩
  · obtain ⟨t, ht, hstepped⟩ := hfollows.targets t' ht'
    obtain rfl := hstepped.waits hw
    exact h.unset t' ht hw
  · unfold Plan.reconnectTimeout
    rw [hfollows.reconnect]
    exact h.reconnect

variable (h : createPlan input rollbackSource active reads now issued = .ok (plan, drawn))

include h

theorem created_plain : (Store.created plan drawn now).Plain := by
  refine ⟨(created_records h).ids, fun t ht _ => ?_, created_reconnect h⟩
  obtain ⟨release, servers, heq⟩ := createPlan_ok h
  cases heq
  obtain ⟨server, index, -, rfl⟩ := mem_withTargets ht
  rfl

theorem plain_run (calls : List Call) :
    (Transition.run (Store.step rank) (Store.created plan drawn now) calls).Plain :=
  Transition.run_invariant (fun _ _ h => h.step) (created_plain h) calls

end Creation

-- ======== samples

/-- Servers that answer, whatever their agents run. -/
def fleet (versions : String → String) (now : Int) : Reads where
  release id := .ok ⟨id, "1.1.0", .available, [selfUpgradeCapability],
    [⟨"linux", "amd64", "agent", "sum", "url", 1⟩]⟩
  runtime serverID := .ok ⟨.online, true, true, 0, versions serverID,
    "linux", "amd64", some now, true⟩
  server serverID := .ok ⟨serverID, .online, versions serverID, "linux",
    "amd64", true, false, [selfUpgradeCapability]⟩
  setServerDraining _ _ := .ok ()

/-- The version all agents run before the upgrade. -/
def old : String → String := fun _ => "1.0.0"

/-- A plan for one server, with the default timeouts. -/
def oneServer : CreatePlanInput where
  targetReleaseID := "release"
  serverIDs := ["server"]
  batchSize := 0
  drainTimeoutSeconds := 0
  reconnectTimeoutSeconds := 0
  verificationSeconds := 0
  createdBy := "admin"

/-- What is created from it at time `0`. -/
def onePlan : Plan × Nat :=
  let release : ReleaseInfo := ⟨"release", "1.1.0", .available, [selfUpgradeCapability],
    [⟨"linux", "amd64", "agent", "sum", "url", 1⟩]⟩
  (newPlan oneServer.applyPlanDefaults release 0 0).withTargets release 0
    [⟨"server", .online, "1.0.0", "linux", "amd64", true, false, [selfUpgradeCapability]⟩]

-- ======== saves

/-- After any calls none of which is a premature success, whatever a call
decides to save is saved. -/
theorem decided_save_goes_through (rank : Nat → Nat)
    {input : CreatePlanInput} {rollbackSource : Option Target}
    {active : Bool} {reads : Reads} {now : Int} {issued drawn : Nat} {plan : Plan}
    (hcreate : createPlan input rollbackSource active reads now issued
      = .ok (plan, drawn)) (calls : List Call) (hcalls : Transition.Guarded (Store.step rank)
      (fun s call => premature s call = false) (Store.created plan drawn now) calls) (call : Call) :
    let s := Transition.run (Store.step rank) (Store.created plan drawn now) calls
    ∀ o, call.decide (s.plan.ordered rank) s.issued = some o → ∀ p ∈ o.save, ∃ s', Store.savePlan
        { s with clock := call.now, issued := o.issued } p = .ok s' := by
  intro s o ho p hp
  have hrecords : Store.Records { s with clock := call.now } :=
    { hcalls.invariant (I := Store.Records) (fun _ _ hrec hin => step_records hrec hin)
        (created_records hcreate) with }
  have hsteps := (call.decided ho).steps hp
  exact ⟨_, hrecords.save_ok hsteps.revision hsteps.targets⟩

/-- An agent is told to install and comes back with the release. -/
def comesBack : List Call :=
  [.scan 0 (fleet old 0) ⟨true, true, 0⟩, .scan second (fleet old second) ⟨true, true, 1⟩,
    .event (2 * second) "server" ⟨1, 2, .reconnecting, 2 * second, "", ""⟩ ⟨true, true, 0⟩,
    .heartbeat (3 * second) ⟨"server", "1.1.0", some (2, 1)⟩ ⟨true, true, 0⟩]

/-- The scan that finds it healthy. -/
def healthScan : Call :=
  .scan (60 * second) (fleet (fun _ => "1.1.0") (60 * second)) ⟨true, true, 0⟩

/-- Its success is saved. -/
theorem decided_save_goes_through_health :
    let s := Transition.run (Store.step id) (Store.created onePlan.1 onePlan.2 0) comesBack
    ∃ o p, healthScan.decide (s.plan.ordered id) s.issued = some o
      ∧ o.save = some p ∧ p.targets.map (·.status) = [.succeeded] ∧ ∃ s', Store.savePlan
        { s with clock := healthScan.now, issued := o.issued } p = .ok s' := by
  intro s
  have ho : healthScan.decide (s.plan.ordered id) s.issued
      = some ((healthScan.decide (s.plan.ordered id) s.issued).get
        (by decide)) := (Option.some_get _).symm
  refine ⟨_, _, ho, (Option.some_get (by decide)).symm, by decide, ?_⟩
  exact @decided_save_goes_through id oneServer none false (fleet old 0) 0 0
    onePlan.2 onePlan.1 rfl comesBack (by decide) healthScan _ ho _ (Option.some_get _).symm

/-- The same with an agent that reports the success itself. -/
def reportsSuccess : List Call :=
  [.scan 0 (fleet old 0) ⟨true, true, 0⟩, .scan second (fleet old second) ⟨true, true, 1⟩,
    .event (2 * second) "server" ⟨1, 2, .succeeded, 2 * second, "", ""⟩ ⟨true, true, 0⟩,
    .heartbeat (3 * second) ⟨"server", "1.1.0", some (2, 1)⟩ ⟨true, true, 0⟩]

/-- The stage is recorded before the target gets there, and the scan that
finds it healthy cannot save: the plan stays as it is. -/
theorem reported_success_blocks_save :
    createPlan oneServer none false (fleet old 0) 0 0 = .ok onePlan
      ∧ let s := Transition.run (Store.step id) (Store.created onePlan.1 onePlan.2 0) reportsSuccess
        ∃ o p, healthScan.decide (s.plan.ordered id) s.issued = some o
          ∧ o.save = some p ∧ p.targets.map (·.status) = [.succeeded] ∧ Store.savePlan
            { s with clock := healthScan.now, issued := o.issued } p = .error .database
          ∧ (s.step id healthScan).plan = s.plan := by
  refine ⟨rfl, _, _, (Option.some_get (by decide)).symm,
    (Option.some_get (by decide)).symm, by decide, by rfl, by decide⟩

end Yunling.Upgrade
