/-
Installs after a rollback.

A scan that has changed the plan saves it over the revision it read, so
what it then sends was decided on the latest plan. One that has changed
nothing saves nothing, and sends what it decided on the plan it read,
whatever has become of that plan. A failure that is reported in between
has rolled the target back, and the install that the scan repeats comes
after the rollback (`stale_install_follows_rollback`).

# The log

`Logged` is the control plane with a log of what matters here: the
commands handed to the sender, by scans and by calls, and the retries
that were saved. `Obeys` says of a log that an install comes after a
rollback of its target only with a retry of the target in between; it
holds along the runs in which nothing is sent from an old plan
(`no_install_after_rollback`).

# The invariant

A target that was told to roll back, and not tried again since, is
settled in the plan (`Plan.Back`). What a running scan holds is for the
plan at its revision (`Running.Fits`): its rollbacks are for settled
targets, and its installs for targets that are not (`Scan.Orders`).
-/
import Mathlib.Data.List.Induction
import Yunling.Upgrade.Proofs.Failures
import Yunling.Upgrade.Proofs.Drain

namespace Yunling.Upgrade

-- ======== log

/-- What the log records. -/
inductive Entry where
  | handed (c : SentCommand)
  | retried (targetID : Nat)
  deriving DecidableEq

/-- The command rolls the target back. -/
def SentCommand.rollsBack (c : SentCommand) (targetID : Nat) : Prop :=
  c.command.action = .rollback ∧ c.command.targetID = targetID

/-- The command installs on the target. -/
def SentCommand.installs (c : SentCommand) (targetID : Nat) : Prop :=
  c.command.action = .install ∧ c.command.targetID = targetID

/-- Between a rollback of a target and an install on it, the target was
tried again. -/
def Obeys (log : List Entry) : Prop :=
  ∀ targetID before c between c' after,
    log = before ++ .handed c :: (between ++ .handed c' :: after) →
    c.rollsBack targetID → c'.installs targetID →
    .retried targetID ∈ between

/-- The target was told to roll back, and not tried again since. -/
def Recalled (log : List Entry) (targetID : Nat) : Prop :=
  ∃ before c after, log = before ++ .handed c :: after
    ∧ c.rollsBack targetID ∧ .retried targetID ∉ after

section Logs

variable {log : List Entry} {e : Entry} {targetID : Nat}

theorem Recalled.of_concat (h : Recalled (log ++ [e]) targetID) :
    Recalled log targetID ∧ e ≠ .retried targetID ∨ ∃ c, e = .handed c ∧ c.rollsBack targetID := by
  obtain ⟨before, c, after, heq, hback, hnot⟩ := h
  rcases List.eq_nil_or_concat after with rfl | ⟨after, last, rfl⟩
  · obtain ⟨-, hlast⟩ := List.append_inj' heq rfl
    exact Or.inr ⟨c, List.singleton_inj.mp hlast, hback⟩
  have hsplit : log ++ [e] = (before ++ .handed c :: after) ++ [last] := by
    rw [heq]
    simp
  obtain ⟨hlog, hlast⟩ := List.append_inj' hsplit rfl
  obtain rfl := List.singleton_inj.mp hlast
  simp only [List.concat_eq_append, List.mem_append, List.mem_singleton, not_or] at hnot
  exact Or.inl ⟨⟨before, c, after, hlog, hback, hnot.1⟩, fun h => hnot.2 h.symm⟩

theorem Obeys.concat (h : Obeys log) (he : ∀ c, e = .handed c → c.command.action = .install →
      ¬ Recalled log c.command.targetID) : Obeys (log ++ [e]) := by
  intro targetID before c between c' after heq hback hinstall
  rcases List.eq_nil_or_concat after with rfl | ⟨after, last, rfl⟩
  · -- the install is the new entry
    have hsplit : log ++ [e] = (before ++ .handed c :: between) ++ [.handed c'] := by
      rw [heq]
      simp
    obtain ⟨hlog, hlast⟩ := List.append_inj' hsplit rfl
    by_contra hnot
    refine he c' (List.singleton_inj.mp hlast) hinstall.1 ?_
    exact ⟨before, c, between, hlog, hinstall.2.symm ▸ hback, hinstall.2.symm ▸ hnot⟩
  · have hsplit : log ++ [e] = (before ++ .handed c :: (between ++ .handed c' :: after))
          ++ [last] := by
      rw [heq]
      simp
    exact h targetID before c between c' after (List.append_inj' hsplit rfl).1 hback hinstall

/-- More entries, none of them an install. -/
theorem Obeys.append (h : Obeys log) (entries : List Entry)
    (hno : ∀ c, .handed c ∈ entries → c.command.action ≠ .install) : Obeys (log ++ entries) := by
  induction entries using List.reverseRecOn with
  | nil => rwa [List.append_nil]
  | append_singleton entries e ih =>
    rw [← List.append_assoc]
    refine (ih fun c hc => hno c (List.mem_append_left _ hc)).concat
      fun c hc hi => absurd hi (hno c ?_)
    rw [hc]
    exact List.mem_append_right _ (List.mem_singleton_self _)

theorem Recalled.of_append {entries : List Entry} (h : Recalled (log ++ entries) targetID) :
    Recalled log targetID ∧ .retried targetID ∉ entries
      ∨ ∃ c, .handed c ∈ entries ∧ c.rollsBack targetID := by
  induction entries using List.reverseRecOn with
  | nil =>
    rw [List.append_nil] at h
    exact Or.inl ⟨h, List.not_mem_nil⟩
  | append_singleton entries e ih =>
    rw [← List.append_assoc] at h
    rcases h.of_concat with ⟨hbefore, hne⟩ | ⟨c, rfl, hback⟩
    · rcases ih hbefore with ⟨hlog, hnot⟩ | ⟨c, hc, hback⟩
      · refine Or.inl ⟨hlog, fun hmem => ?_⟩
        rcases List.mem_append.mp hmem with hmem | hmem
        · exact hnot hmem
        · exact hne (List.mem_singleton.mp hmem).symm
      · exact Or.inr ⟨c, List.mem_append_left _ hc, hback⟩
    · exact Or.inr ⟨c, List.mem_append_right _ (List.mem_singleton_self _), hback⟩

end Logs

-- ======== entries

/-- What the writes of a call add to the log: a retry that was saved. -/
def Store.entries (rank : Nat → Nat) (s : Store) (call : Call) : List Entry :=
  match call with
  | .retry _ targetID _ _ =>
    if (s.step rank call).plan.revision = s.plan.revision then [] else [.retried targetID]
  | _ => []

/-- What a step adds to the log. -/
def System.entries (rank : Nat → Nat) (s : System) : SystemStep → List Entry
  | .call call _ => s.store.entries rank call
  | .send i _ =>
    match s.outgoing[i]? with
    | some (_, c :: _) => [.handed c]
    | _ => []
  | .hand _ =>
    match s.running with
    | none => []
    | some r =>
      if r.phase = .sending then (r.scan.commands.take 1).map .handed
      else []
  | _ => []

/-- The control plane with its log. -/
structure Logged where
  system : System
  log : List Entry

/-- One step. -/
def Logged.step (rank : Nat → Nat) (fold : Char → Char) (s : Logged) (step : SystemStep) : Logged :=
  ⟨s.system.step rank fold step, s.log ++ s.system.entries rank step⟩

/-- The revision of the plan that a scan has read, or saved. -/
def Running.revision (r : Running) : Nat :=
  r.scan.plan.revision + if r.phase = .sending ∧ r.scan.changed = true then 1 else 0

/-- Nothing is sent from an old plan: when a scan hands a command over,
nobody else has saved the plan since it read or saved it, and when another
call does, nobody has since it saved it. -/
def Fresh (s : Logged) : SystemStep → Prop
  | .hand _ => ∀ r ∈ s.system.running, r.phase = .sending →
    s.system.store.plan.revision = r.revision
  | .send i _ => ∀ x ∈ s.system.outgoing[i]?, x.2 ≠ [] → s.system.store.plan.revision = x.1
  | _ => True

-- ======== settled

/-- The target is settled. -/
def Plan.Back (p : Plan) (targetID : Nat) : Prop :=
  ∀ t ∈ p.targets, t.id = targetID → t.status.settled = true

/-- A target keeps its id, and stays settled. -/
structure Target.Stays (t t' : Target) : Prop where
  id : t'.id = t.id
  settled : t.status.settled = true → t'.status.settled = true

section Settled

variable {p p' : Plan} {t t' : Target} {issued : Nat} {call : Call} {o : Outcome} {targetID : Nat}
  {c : SentCommand}

theorem Target.Stays.refl (t : Target) : t.Stays t := ⟨rfl, fun h => h⟩

theorem Plan.Back.stays (h : p.Back targetID)
    (hstays : List.Forall₂ Target.Stays p.targets p'.targets) : p'.Back targetID := by
  intro t' ht' hid
  obtain ⟨t, ht, hst⟩ := Pointwise.mem_right hstays ht'
  exact hst.settled (h t ht (hst.id.symm.trans hid))

theorem Target.RollsTo.stays {batch failed : Nat} {errorCode : String} {now : Int} {drawn : Nat}
    (h : t.RollsTo batch failed errorCode now issued drawn t') : t.Stays t' := by
  cases h with
  | left => exact .refl t
  | done | told => exact ⟨rfl, fun _ => rfl⟩

theorem cancelTarget_stays (now : Int) (t : Target) : t.Stays (Plan.cancelTarget now t) := by
  unfold Plan.cancelTarget
  split
  · exact ⟨rfl, fun _ => rfl⟩
  · exact .refl t

theorem stays_set {targets : List Target} {i : Nat} (ht : targets[i]? = some t) (h : t.Stays t') :
    List.Forall₂ Target.Stays targets (targets.set i t') := Pointwise.set (fun t => .refl t) ht h

/-- Only a retry takes a settled target back. -/
theorem Decided.keeps_back (hd : Decided p issued call o) (hscan : call.isScan = false)
    (hp' : p' ∈ o.save) (hretry : ∀ now reads fate, call ≠ .retry now targetID reads fate)
    (h : p.Back targetID) : p'.Back targetID := by
  cases hd with
  | scan => cases hscan
  | ignored | noted => cases hp'
  | stuck active ht | back active ht | wrong active ht =>
    cases hp'
    exact h.stays (stays_set ht ⟨rfl, fun _ => rfl⟩)
  | @failed now _ e _ _ t =>
    cases hp'
    exact h.stays ((rollbackTargets_rolls p t.batchNumber t.id e.errorCode
      now p.targets issued).2.imp fun _ _ hto => hto.stays)
  | advanced active ht answers stage moves forward =>
    cases hp'
    exact h.stays (stays_set ht ⟨rfl, fun hs => forward_settled hs moves forward⟩)
  | right active ht upgrade answers status =>
    cases hp'
    refine h.stays (stays_set ht ⟨rfl, fun hs => ?_⟩)
    rw [status] at hs
    cases hs
  | paused | resumed =>
    cases hp'
    exact h
  | cancelled =>
    cases hp'
    exact h.stays (List.forall₂_map_right_iff.mpr
      (List.forall₂_same.mpr fun t _ => cancelTarget_stays _ t))
  | @retried now retriedID reads fate i t cancel ht id =>
    cases hp'
    intro u hu hid
    rcases List.mem_or_eq_of_mem_set hu with hold | rfl
    · exact h u hold hid
    · have heq : retriedID = targetID := id.symm.trans hid
      exact absurd (heq ▸ rfl) (hretry now reads fate)

/-- The commands of a rollback are for targets that are settled then. -/
theorem rollbackBatch_back (batch failed : Nat) (errorCode : String) (now : Int)
    (hids : (p.targets.map (·.id)).Nodup)
    (hc : c ∈ (rollbackBatch p batch failed errorCode now issued).2.1) :
    (rollbackBatch p batch failed errorCode now issued).1.Back c.command.targetID := by
  intro u hu hid
  obtain ⟨t', ht', hst, -, hcommand⟩ := (rollbackTargets_commands p batch
    failed errorCode now p.targets issued).1 c hc
  rw [hcommand] at hid
  have hids' := Pointwise.map_eq (f := fun t : Target => t.id)
    (fun _ _ h => h.stays.id) (rollbackTargets_rolls p batch failed
      errorCode now p.targets issued).2
  obtain rfl := eq_of_id (hids'.symm ▸ hids) hu ht' hid
  rw [hst]
  rfl

variable (hd : Decided p issued call o) (hscan : call.isScan = false)

include hd hscan

/-- Outside the scan only rollbacks are sent, for targets that are
settled then. -/
theorem Decided.rollbacks (hids : (p.targets.map (·.id)).Nodup) (hc : c ∈ o.commands) :
    c.command.action = .rollback ∧ ∃ p' ∈ o.save, p'.Back c.command.targetID := by
  cases hd with
  | scan => cases hscan
  | @failed now _ e _ _ t =>
    have hrolled := p.rolledBack t.batchNumber t.id e.errorCode now issued
    exact ⟨hrolled.action hc, _, rfl, rollbackBatch_back _ _ _ _ hids hc⟩
  | @wrong now h _ i t _ _ active ht =>
    obtain rfl := List.mem_singleton.mp hc
    refine ⟨rfl, _, rfl, fun u hu hid => ?_⟩
    rcases (mem_set_ids hids ht (show Target.id { t with
      status := .rollingBack, commandID := issued, updatedAt := now }
        = t.id from rfl)).mp hu with rfl | ⟨-, hne⟩
    · rfl
    · exact absurd hid hne
  | _ => cases hc

/-- A call outside the scan that saves nothing sends nothing. -/
theorem Decided.silent (hsave : o.save = none) : o.commands = [] := by
  cases hd with
  | scan => cases hscan
  | failed | wrong => cases hsave
  | _ => rfl

end Settled

-- ======== entries

section Entries

variable {s : Store} {rank : Nat → Nat} {call : Call}

theorem savePlan_frame (s : Store) (p : Plan) (issued : Nat) (clock : Int) :
    Store.savePlan { s with issued, clock } p
      = (s.savePlan p).map fun s => { s with issued, clock } := by
  unfold Store.savePlan
  dsimp only
  split
  · rfl
  · split
    · rfl
    · split <;> rfl

/-- A call outside the scan leaves the plan and has nothing to send, or it
saves what it decided. -/
theorem step_held (rank : Nat → Nat) (s : Store) (hscan : call.isScan = false) :
    (s.step rank call).plan = s.plan ∧ s.held rank call = []
      ∨ ∃ o p, Decided (s.plan.ordered rank) s.issued call o ∧ p ∈ o.save
        ∧ (s.step rank call).plan = { p with revision := p.revision + 1 }
        ∧ ∀ c ∈ s.held rank call, c ∈ o.commands := by
  unfold Store.step Store.held
  dsimp only
  cases ho : call.decide (s.plan.ordered rank) s.issued with
  | none => exact Or.inl ⟨rfl, rfl⟩
  | some o =>
    have hd := call.decided ho
    dsimp only
    unfold Store.commit
    cases hsave : o.save with
    | none =>
      refine Or.inl ⟨?_, ?_⟩
      · simp [finish_plan]
      · simp [hd.silent hscan hsave]
    | some p =>
      simp only [Option.elim_some, Option.isSome_some, Bool.true_and,
        savePlan_frame s p o.issued call.now]
      cases hsaved : s.savePlan p with
      | error e => exact Or.inl ⟨rfl, rfl⟩
      | ok s' =>
        dsimp only [Except.map]
        cases hfate : call.fate.saved with
        | false => exact Or.inl ⟨rfl, by simp⟩
        | true =>
          refine Or.inr ⟨o, p, hd, hsave, ?_, fun c hc => ?_⟩
          · simp [finish_plan, savePlan_ok hsaved]
          · split at hc
            · cases hc
            · exact hc

/-- The log has no command from the writes of a call. -/
theorem not_handed_entries (c : SentCommand) : .handed c ∉ s.entries rank call := by
  unfold Store.entries
  split
  · split <;> simp
  · exact List.not_mem_nil

theorem entries_nil (h : (s.step rank call).plan = s.plan) : s.entries rank call = [] := by
  unfold Store.entries
  split
  · rw [if_pos (by rw [h])]
  · rfl

end Entries

-- ======== scans

/-- The commands a scan has collected when it has visited that many
targets: installs for some of these, none of them settled, and rollbacks
for settled ones. -/
structure Scan.Orders (visited : Nat) (s : Scan) : Prop where
  installs : ∀ c ∈ s.commands, c.command.action = .install →
    ∃ j t, j < visited ∧ s.plan.targets[j]? = some t
      ∧ t.id = c.command.targetID ∧ t.status.settled = false
  rollbacks : ∀ c ∈ s.commands, c.command.action = .rollback → s.plan.Back c.command.targetID

namespace Scan

variable {s s' : Scan} {i n : Nat} {t : Target} {reads : Reads}

theorem Turned.stays_settled (h : Turned reads s i s') :
    List.Forall₂ Target.Stays s.plan.targets s'.plan.targets := by
  have hsame : List.Forall₂ Target.Stays s.plan.targets s.plan.targets :=
    List.forall₂_same.mpr fun t _ => .refl t
  cases h with
  | left | expired | repeated | resent => exact hsame
  | drained here status | downloads here status | succeeded here status =>
    refine stays_set here.at_index ⟨rfl, fun hs => ?_⟩
    rw [status] at hs
    cases hs
  | switched here | lost here => exact stays_set here.at_index ⟨rfl, fun _ => rfl⟩
  | @failed t errorCode here =>
    exact (rollbackTargets_rolls s.plan t.batchNumber t.id errorCode s.now
      s.plan.targets s.issued).2.imp fun _ _ hto => hto.stays

/-- What a turn has collected, if it leaves the visited targets. -/
theorem Orders.keep (h : s.Orders i) (hcommands : s'.commands = s.commands)
    (hstays : List.Forall₂ Target.Stays s.plan.targets s'.plan.targets)
    (hvisited : ∀ j < i, s'.plan.targets[j]? = s.plan.targets[j]?) : s'.Orders (i + 1) := by
  refine ⟨fun c hc hi => ?_, fun c hc hr => ?_⟩
  · obtain ⟨j, t, hj, hat, hid, hst⟩ := h.installs c (hcommands ▸ hc) hi
    exact ⟨j, t, Nat.lt_succ_of_lt hj, (hvisited j hj).trans hat, hid, hst⟩
  · exact (h.rollbacks c (hcommands ▸ hc) hr).stays hstays

theorem Orders.put (h : s.Orders i) {t' : Target} (hcommands : s'.commands = s.commands)
    (htargets : s'.plan.targets = s.plan.targets.set i t')
    (hstays : List.Forall₂ Target.Stays s.plan.targets s'.plan.targets) : s'.Orders (i + 1) := by
  refine h.keep hcommands hstays fun j hj => ?_
  rw [htargets, List.getElem?_set_ne (Nat.ne_of_gt hj)]

theorem Orders.send (h : s.Orders n) {c : SentCommand} (hinstall : c.command.action = .install →
      ∃ j t, j < n ∧ s.plan.targets[j]? = some t
        ∧ t.id = c.command.targetID ∧ t.status.settled = false)
    (hrollback : c.command.action = .rollback → s.plan.Back c.command.targetID) :
    Orders n { s with commands := s.commands ++ [c] } := by
  refine ⟨fun c' hc' hi => ?_, fun c' hc' hr => ?_⟩
  · rcases List.mem_append.mp hc' with hold | hnew
    · exact h.installs c' hold hi
    · obtain rfl := List.mem_singleton.mp hnew
      exact hinstall hi
  · rcases List.mem_append.mp hc' with hold | hnew
    · exact h.rollbacks c' hold hr
    · obtain rfl := List.mem_singleton.mp hnew
      exact hrollback hr

/-- A rollback of the batch drops what was collected for it. -/
theorem Orders.rollback (h : s.Orders i) (hids : (s.plan.targets.map (·.id)).Nodup)
    (errorCode : String) : (s.rollback t errorCode).Orders (i + 1) := by
  obtain ⟨-, hrolls⟩ := rollbackTargets_rolls s.plan t.batchNumber t.id
    errorCode s.now s.plan.targets s.issued
  have hrolled := s.plan.rolledBack t.batchNumber t.id errorCode s.now s.issued
  refine ⟨fun c hc hi => ?_, fun c hc hr => ?_⟩
  · rcases List.mem_append.mp hc with hkept | hnew
    · obtain ⟨hc, hother⟩ := List.mem_filter.mp hkept
      obtain ⟨j, u, hj, hat, hid, hst⟩ := h.installs c hc hi
      obtain ⟨u', hat', hto⟩ := Pointwise.at_index hrolls hat
      have hb : u.batchNumber ≠ t.batchNumber := by
        intro hb
        rw [Bool.not_eq_true', List.any_eq_false] at hother
        exact hother u (List.mem_of_getElem? hat) (by simp [hb, hid])
      cases hto with
      | left => exact ⟨j, u, Nat.lt_succ_of_lt hj, hat', hid, hst⟩
      | done hb' | told _ hb' => exact absurd hb' hb
    · rw [hrolled.action hnew] at hi
      cases hi
  · rcases List.mem_append.mp hc with hkept | hnew
    · exact (h.rollbacks c (List.mem_filter.mp hkept).1 hr).stays
        (hrolls.imp fun _ _ hto => hto.stays)
    · exact rollbackBatch_back _ _ _ _ hids hnew

theorem Turned.orders (hturn : Turned reads s i s')
    (hids : (s.plan.targets.map (·.id)).Nodup) (h : s.Orders i) : s'.Orders (i + 1) := by
  have hstays := hturn.stays_settled
  have hkept : s.Orders (i + 1) :=
    h.keep rfl (List.forall₂_same.mpr fun t _ => .refl t) fun _ _ => rfl
  cases hturn with
  | left => exact hkept
  | expired => exact ⟨hkept.installs, hkept.rollbacks⟩
  | drained | switched | succeeded | lost => exact h.put rfl rfl hstays
  | @downloads t runtime a here =>
    have hput : (s.put i (t.download s.now)).Orders (i + 1) := h.put rfl rfl hstays
    refine hput.send (fun _ => ?_) (fun hr => by cases hr)
    exact ⟨i, t.download s.now, Nat.lt_succ_self i, List.getElem?_set_self here.lt, rfl, rfl⟩
  | @repeated t a here status =>
    exact hkept.send (fun _ => ⟨i, t, Nat.lt_succ_self i, here.at_index,
      rfl, TargetStatus.unsettled_of_underway status⟩) (fun hr => by cases hr)
  | failed here => exact h.rollback hids _
  | @resent t here status =>
    refine hkept.send (fun hi => by cases hi) fun _ u hu hid => ?_
    obtain rfl := eq_of_id hids hu here.mem hid
    rw [status]
    rfl

end Scan

-- ======== running

/-- How many targets a scan has visited. -/
def Running.visited (r : Running) : Nat :=
  match r.phase with
  | .restoring _ => r.index + 1
  | _ => r.index

/-- What a scan holds, next to the plan in its table. As long as that is
at the scan's revision, the scan has come from it; and a scan that sends
has it, as does one that changed nothing. -/
structure Running.Fits (r : Running) (p : Plan) : Prop where
  ids : (r.scan.plan.targets.map (·.id)).Nodup
  orders : r.scan.Orders r.visited
  revision : r.revision ≤ p.revision
  back : r.revision = p.revision → ∀ targetID, p.Back targetID → r.scan.plan.Back targetID
  same : r.revision = p.revision → r.phase = .sending ∨ r.scan.changed = false →
    ∀ t, t ∈ p.targets ↔ t ∈ r.scan.plan.targets

section Runs

variable {p p' : Plan} {r r' : Running} {reads : Reads} {next : Scan}

theorem Running.Fits.outdated (h : r.Fits p) (hp' : p.revision < p'.revision) : r.Fits p' := by
  have hne : r.revision ≠ p'.revision := Nat.ne_of_lt (Nat.lt_of_le_of_lt h.revision hp')
  exact ⟨h.ids, h.orders, Nat.le_of_lt (Nat.lt_of_le_of_lt h.revision hp'),
    fun heq => absurd heq hne, fun heq => absurd heq hne⟩

/-- The scan goes from one access to the next. -/
theorem Running.Fits.access (h : r.Fits p) (hscan : r'.scan = r.scan)
    (hvisited : r'.visited = r.visited)
    (hphase : r'.phase ≠ .sending) (hphase' : r.phase ≠ .sending) : r'.Fits p := by
  have hrevision : r'.revision = r.revision := by
    simp [Running.revision, hscan, hphase, hphase']
  refine ⟨by rw [hscan]; exact h.ids, by rw [hscan, hvisited]; exact h.orders,
    hrevision ▸ h.revision, fun heq => ?_, fun heq hkept => ?_⟩
  · rw [hscan]
    exact h.back (hrevision ▸ heq)
  · rw [hscan] at hkept ⊢
    exact h.same (hrevision ▸ heq) (Or.inr (hkept.resolve_left hphase))

theorem Running.Fits.turn (h : r.Fits p) (hready : r.ready = true)
    {issued : Nat} (hvisit : Scan.visit reads { r.scan with issued } r.index
      = .ok next) (hscan : r'.scan = next)
    (hvisited : r'.visited = r.index + 1) (hphase : r'.phase ≠ .sending) : r'.Fits p := by
  have hmoves := Scan.visit_moves hvisit
  have hturn := Scan.visit_turned hvisit
  have hphase' : r.phase = .drained ∨ r.phase = .visiting := by
    simp only [Running.ready, Bool.and_eq_true, Bool.or_eq_true, beq_iff_eq] at hready
    exact hready.2.imp_right And.left
  have hindex : r.visited = r.index := by
    rcases hphase' with heq | heq <;> simp [Running.visited, heq]
  have hrevision : r'.revision = r.revision := by
    have hread : r'.scan.plan.revision = r.scan.plan.revision := hscan ▸ hmoves.plan.revision
    rcases hphase' with heq | heq <;>
      simp [Running.revision, hphase, heq, hread]
  have hids : next.plan.targets.map (·.id) = r.scan.plan.targets.map (·.id) :=
    Pointwise.map_eq (fun _ _ hst => hst.id) hturn.stays_settled
  refine ⟨?_, ?_, hrevision ▸ h.revision, fun heq targetID hback => ?_, fun heq hkept => ?_⟩
  · rw [hscan, hids]
    exact h.ids
  · rw [hscan, hvisited]
    exact hturn.orders h.ids ⟨(hindex ▸ h.orders).installs, (hindex ▸ h.orders).rollbacks⟩
  · rw [hscan]
    exact (h.back (hrevision ▸ heq) targetID hback).stays hturn.stays_settled
  · rw [hscan] at hkept ⊢
    obtain ⟨hchanged, hplan⟩ := hmoves.unchanged (hkept.resolve_left hphase)
    rw [hplan]
    exact h.same (hrevision ▸ heq) (Or.inr hchanged)

end Runs

/-- What a call has left to hand over, next to the plan in its table: only
rollbacks, and as long as the plan is the one the call saved, for settled
targets. -/
structure Rollbacks (x : Nat × List SentCommand) (p : Plan) : Prop where
  action : ∀ c ∈ x.2, c.command.action = .rollback
  revision : x.1 ≤ p.revision
  back : x.1 = p.revision → ∀ c ∈ x.2, p.Back c.command.targetID

theorem Rollbacks.outdated {x : Nat × List SentCommand} {p p' : Plan} (h : Rollbacks x p)
    (hp' : p.revision < p'.revision) : Rollbacks x p' :=
  have hlt := Nat.lt_of_le_of_lt h.revision hp'
  ⟨h.action, Nat.le_of_lt hlt, fun heq => absurd heq (Nat.ne_of_lt hlt)⟩

-- ======== system

/-- The invariant. -/
structure Logged.Inv (s : Logged) : Prop where
  ids : (s.system.store.plan.targets.map (·.id)).Nodup
  back : ∀ targetID, Recalled s.log targetID → s.system.store.plan.Back targetID
  fits : ∀ r ∈ s.system.running, r.Fits s.system.store.plan
  outgoing : ∀ x ∈ s.system.outgoing, Rollbacks x s.system.store.plan
  obeys : Obeys s.log

namespace Logged

variable {s : Logged} {r : Running} {rank : Nat → Nat} {fold : Char → Char}

/-- A step that neither sends anything nor writes the plan. -/
theorem Inv.aside (h : s.Inv) {system : System} (hplan : system.store.plan = s.system.store.plan)
    (hout : system.outgoing = s.system.outgoing)
    (hfits : ∀ r ∈ system.running, r.Fits s.system.store.plan) : Inv ⟨system, s.log ++ []⟩ := by
  rw [List.append_nil]
  exact ⟨hplan ▸ h.ids, fun id hid => hplan ▸ h.back id hid, fun r hr => hplan ▸ hfits r hr,
    fun x hx => hplan ▸ h.outgoing x (hout ▸ hx), h.obeys⟩

theorem Inv.call (h : s.Inv) {call : Call} (hscan : call.isScan = false) :
    Inv ⟨s.system.call rank call, s.log ++ s.system.store.entries rank call⟩ := by
  have hall : ∀ x, Rollbacks x (s.system.store.step rank call).plan →
      (∀ y ∈ s.system.outgoing, Rollbacks y (s.system.store.step rank call).plan) →
      ∀ y ∈ s.system.outgoing ++ [x], Rollbacks y (s.system.store.step rank call).plan :=
    fun x hx hold y hy => (List.mem_append.mp hy).elim (hold y)
      fun hy => List.mem_singleton.mp hy ▸ hx
  rcases step_held rank s.system.store hscan with ⟨hplan, hnone⟩ | ⟨o, p, hd, hp, hplan, hheld⟩
  · have haside : Inv ⟨{ s.system with store := s.system.store.step rank call }, s.log ++ []⟩ :=
      h.aside hplan rfl h.fits
    rw [entries_nil hplan]
    refine ⟨haside.ids, haside.back, haside.fits, hall _ ⟨?_, le_refl _, fun _ => ?_⟩
      haside.outgoing, haside.obeys⟩
    · rw [hnone]
      exact fun c hc => absurd hc List.not_mem_nil
    · rw [hnone]
      exact fun c hc => absurd hc List.not_mem_nil
  have hordered : ((s.system.store.plan.ordered rank).targets.map (·.id)).Nodup :=
    ((List.perm_insertionSort _ _).map _).nodup_iff.mpr h.ids
  have hlater : s.system.store.plan.revision < (s.system.store.step rank call).plan.revision := by
    rw [hplan]
    exact Nat.lt_succ_of_le (Nat.le_of_eq (hd.steps hp).revision.symm)
  refine ⟨?_, fun targetID hrecalled => ?_, fun r hr => (h.fits r hr).outdated hlater,
    hall _ ⟨fun c hc => ?_, le_refl _, fun _ c hc => ?_⟩ fun y hy =>
      (h.outgoing y hy).outdated hlater,
    h.obeys.append _ fun c hc => absurd hc (not_handed_entries c)⟩
  · exact (step_follows rank s.system.store call).ids.nodup_iff.mpr h.ids
  · show (s.system.store.step rank call).plan.Back targetID
    rw [hplan]
    show p.Back targetID
    rcases hrecalled.of_append with ⟨hlog, hnot⟩ | ⟨c, hc, -⟩
    · have hbefore : (s.system.store.plan.ordered rank).Back targetID :=
        fun t ht => h.back targetID hlog t (mem_ordered.mp ht)
      refine hd.keeps_back hscan hp (fun now reads fate heq => hnot ?_) hbefore
      subst heq
      rw [Store.entries, if_neg (Nat.ne_of_gt hlater)]
      exact List.mem_singleton_self _
    · exact absurd hc (not_handed_entries c)
  · exact (hd.rollbacks hscan hordered (hheld c hc)).1
  · obtain ⟨-, p', hp', hback⟩ := hd.rollbacks hscan hordered (hheld c hc)
    cases hp.symm.trans hp'
    rw [hplan]
    exact hback

theorem Inv.send (h : s.Inv) (i : Nat) (delivered : Bool) (hfresh : Fresh s (.send i delivered)) :
    Inv ⟨s.system.send i delivered, s.log ++ s.system.entries rank (.send i delivered)⟩ := by
  simp only [System.send, System.entries]
  rcases hi : s.system.outgoing[i]? with _ | ⟨revision, _ | ⟨c, rest⟩⟩
  · exact h.aside rfl rfl h.fits
  · exact h.aside rfl rfl h.fits
  · have hx := h.outgoing _ (List.mem_of_getElem? hi)
    have hback := hx.back (hfresh _ hi (List.cons_ne_nil c rest)).symm
    refine ⟨h.ids, fun targetID hrecalled => ?_, h.fits, fun y hy => ?_,
      h.obeys.concat fun c' heq hinstall => ?_⟩
    · rcases hrecalled.of_concat with ⟨hlog, -⟩ | ⟨c', heq, -, rfl⟩
      · exact h.back targetID hlog
      · obtain rfl := Entry.handed.inj heq
        exact hback c List.mem_cons_self
    · rcases List.mem_or_eq_of_mem_set hy with hy | rfl
      · exact h.outgoing y hy
      · have hrest : ∀ c' ∈ (if delivered then rest else []), c' ∈ c :: rest := by
          intro c' hc'
          split at hc'
          · exact List.mem_cons_of_mem c hc'
          · cases hc'
        exact ⟨fun c' hc' => hx.action c' (hrest c' hc'), hx.revision,
          fun heq c' hc' => hx.back heq c' (hrest c' hc')⟩
    · obtain rfl := Entry.handed.inj heq
      rw [hx.action c List.mem_cons_self] at hinstall
      cases hinstall

theorem Inv.begin (h : s.Inv) (now : Int) : Inv ⟨s.system.begin rank now, s.log ++ []⟩ := by
  unfold System.begin
  split
  · exact h.aside rfl rfl h.fits
  split
  · refine h.aside rfl rfl fun r hr => ?_
    cases hr
    exact ⟨((List.perm_insertionSort _ _).map _).nodup_iff.mpr h.ids,
      ⟨fun c hc => (by cases hc), fun c hc => (by cases hc)⟩,
      Nat.le_refl _, fun _ _ hback t ht => hback t (mem_ordered.mp ht),
      fun _ _ _ => mem_ordered.symm⟩
  · exact h.aside rfl rfl h.fits

section Inv

variable (h : s.Inv) (hr : s.system.running = some r)

include h hr

theorem Inv.drain : Inv ⟨s.system.drain r, s.log ++ []⟩ := by
  unfold System.drain
  split
  · next hphase _ =>
    split
    · refine h.aside rfl rfl fun r' hr' => ?_
      cases hr'
      exact (h.fits r hr).access rfl (by simp [Running.visited, hphase])
        (by simp) (by simp [hphase])
    · exact h.aside rfl rfl fun _ hr' => by cases hr'
  · exact h.aside rfl rfl h.fits

theorem Inv.visit (agents : String → AgentInfo) (release : Except UpgradeError ReleaseInfo) :
    Inv ⟨s.system.visit r agents release, s.log ++ []⟩ := by
  unfold System.visit
  split
  · next hready =>
    dsimp only
    split
    · exact h.aside rfl rfl fun _ hr' => by cases hr'
    next next hvisit =>
    refine h.aside rfl rfl fun r' hr' => ?_
    cases hr'
    split
    · exact (h.fits r hr).turn hready hvisit rfl rfl (by simp)
    · exact (h.fits r hr).turn hready hvisit rfl rfl (by simp)
  · exact h.aside rfl rfl h.fits

theorem Inv.restore : Inv ⟨s.system.restore r, s.log ++ []⟩ := by
  unfold System.restore
  split
  · next serverID hphase =>
    split
    · refine h.aside rfl rfl fun r' hr' => ?_
      cases hr'
      exact (h.fits r hr).access rfl (by simp [Running.visited, hphase])
        (by simp) (by simp [hphase])
    · exact h.aside rfl rfl fun _ hr' => by cases hr'
  · exact h.aside rfl rfl h.fits

end Inv

theorem savePlan_revision {store store' : Store} {p : Plan} (h : store.savePlan p = .ok store') :
    p.revision = store.plan.revision := by
  unfold Store.savePlan at h
  split at h
  · cases h
  · next heq => exact not_not.mp heq

theorem leave_revision (scan : Scan) : scan.leave.plan.revision = scan.plan.revision := by
  rcases scan.leave_cases with h | ⟨_, _, _, h⟩ <;> rw [h]

theorem Inv.save (h : s.Inv) (hr : s.system.running = some r)
    (saved : Bool) : Inv ⟨s.system.save r saved, s.log ++ []⟩ := by
  have hfits := h.fits r hr
  have hstop : Inv ⟨{ s.system with running := none }, s.log ++ []⟩ :=
    h.aside rfl rfl fun _ hr' => by cases hr'
  unfold System.save
  split
  · next hend =>
    have hrevision : r.revision = r.scan.plan.revision := by
      simp [Running.revision, hend.1]
    have hids : (r.scan.leave.plan.targets.map (·.id)).Nodup := by
      rw [Scan.leave_targets]
      exact hfits.ids
    have horders : r.scan.leave.Orders r.index := by
      have hvisited : r.visited = r.index := by
        simp [Running.visited, hend.1]
      have horders := hvisited ▸ hfits.orders
      refine ⟨?_, ?_⟩
      · rw [Scan.leave_commands, Scan.leave_targets]
        exact horders.installs
      · unfold Plan.Back
        rw [Scan.leave_commands, Scan.leave_targets]
        exact horders.rollbacks
    dsimp only
    split
    · next hchanged =>
      split
      · next store hsave =>
        split
        · -- the plan is now the one the scan holds
          have heq : r.revision = s.system.store.plan.revision := by
            rw [hrevision, ← leave_revision]
            exact savePlan_revision hsave
          rw [savePlan_ok hsave, List.append_nil]
          have hlater : s.system.store.plan.revision < r.scan.leave.plan.revision + 1 := by
            rw [savePlan_revision hsave]
            exact Nat.lt_succ_self _
          refine ⟨hids, fun targetID hrecalled => ?_, fun r' hr' => ?_,
            fun x hx => (h.outgoing x hx).outdated hlater, h.obeys⟩
          · have hback := hfits.back heq targetID (h.back targetID hrecalled)
            intro t ht
            rw [Scan.leave_targets] at ht
            exact hback t ht
          · cases hr'
            exact ⟨hids, horders, by simp [Running.revision, hchanged],
              fun _ _ hback => hback, fun _ _ _ => Iff.rfl⟩
        · exact hstop
      · exact hstop
    · next hchanged =>
      rw [Bool.not_eq_true] at hchanged
      refine h.aside rfl rfl fun r' hr' => ?_
      cases hr'
      have heq : r.scan.leave = r.scan := Scan.leave_unchanged hchanged
      rw [heq] at hids horders hchanged ⊢
      refine ⟨hids, horders, ?_, fun hrev => ?_, fun hrev _ => ?_⟩
      · simpa [Running.revision, hchanged, hend.1] using hfits.revision
      · exact hfits.back (by
          simpa [Running.revision, hchanged] using hrev)
      · exact hfits.same (by
          simpa [Running.revision, hchanged] using hrev)
          (Or.inr hchanged)
  · exact h.aside rfl rfl h.fits

theorem Inv.hand (h : s.Inv) (hr : s.system.running = some r) (delivered : Bool)
    (hfresh : Fresh s (.hand delivered)) :
    Inv ⟨s.system.hand r delivered, s.log ++ s.system.entries rank (.hand delivered)⟩ := by
  have hfits := h.fits r hr
  simp only [System.entries, hr]
  unfold System.hand
  split
  · next hsending =>
    have hrevision : r.revision = s.system.store.plan.revision := (hfresh r hr hsending).symm
    have hsame := hfits.same hrevision (Or.inl hsending)
    cases hcommands : r.scan.commands with
    | nil => exact h.aside rfl rfl fun _ hr' => by cases hr'
    | cons c rest =>
      have hc : c ∈ r.scan.commands := hcommands ▸ List.mem_cons_self
      refine ⟨h.ids, fun targetID hrecalled => ?_, fun r' hr' => ?_, h.outgoing,
        h.obeys.concat fun c' heq hi hrecalled => ?_⟩
      · rcases hrecalled.of_concat with ⟨hlog, -⟩ | ⟨c', heq, hact, rfl⟩
        · exact h.back targetID hlog
        · obtain rfl := Entry.handed.inj heq
          intro t ht
          exact hfits.orders.rollbacks c hc hact t ((hsame t).mp ht)
      · cases delivered with
        | false => cases hr'
        | true =>
          cases hr'
          have hrest : ∀ c' ∈ rest, c' ∈ r.scan.commands :=
            fun c' hc' => hcommands ▸ List.mem_cons_of_mem _ hc'
          exact ⟨hfits.ids, ⟨fun c' hc' => hfits.orders.installs c' (hrest c' hc'),
              fun c' hc' => hfits.orders.rollbacks c' (hrest c' hc')⟩,
            hfits.revision, hfits.back, hfits.same⟩
      · -- the target of an install is not settled
        obtain rfl := Entry.handed.inj heq
        obtain ⟨j, t, -, hat, hid, hst⟩ := hfits.orders.installs c hc hi
        have hback := h.back _ hrecalled t ((hsame t).mpr (List.mem_of_getElem? hat)) hid
        rw [hst] at hback
        cases hback
  · exact h.aside rfl rfl h.fits

theorem Inv.step (h : s.Inv) {step : SystemStep} (hfresh : Fresh s step) :
    (s.step rank fold step).Inv := by
  -- what a scan does, it does while it is running
  have hrunning : ∀ {f : Running → System} {entries : List Entry},
      (s.system.running = none → entries = []) →
      (∀ r, s.system.running = some r → Inv ⟨f r, s.log ++ entries⟩) →
      Inv ⟨s.system.running.elim s.system f, s.log ++ entries⟩ := by
    intro f entries hnone hsome
    cases hr : s.system.running with
    | none =>
      rw [hnone hr]
      exact h.aside rfl rfl h.fits
    | some r => exact hsome r hr
  cases step with
  | platform | forget => exact h.aside rfl rfl h.fits
  | call call hcall => exact h.call hcall.1
  | send i delivered => exact h.send i delivered hfresh
  | begin now => exact h.begin now
  | drain => exact hrunning (fun _ => rfl) fun r hr => h.drain hr
  | visit agents release =>
    exact hrunning (fun _ => rfl) fun r hr => h.visit hr agents release
  | restore => exact hrunning (fun _ => rfl) fun r hr => h.restore hr
  | save saved => exact hrunning (fun _ => rfl) fun r hr => h.save hr saved
  | hand delivered =>
    refine hrunning (fun hr => ?_) fun r hr => h.hand hr delivered hfresh
    simp [System.entries, hr]
  | drop => exact h.aside rfl rfl fun _ hr => by cases hr

end Logged

-- ======== the runs

/-- Along every run of the control plane around a new plan in which
nothing is sent from an old plan, an install comes after a rollback of
its target only when the target was tried again in between. -/
theorem no_install_after_rollback (rank : Nat → Nat) (fold : Char → Char)
    (slots : SlotState) {input : CreatePlanInput}
    {rollbackSource : Option Target} {active : Bool} {reads : Reads}
    {now : Int} {issued drawn : Nat} {plan : Plan}
    (hcreate : createPlan input rollbackSource active reads now issued
      = .ok (plan, drawn)) (steps : List SystemStep)
    (hfresh : Transition.Guarded (Logged.step rank fold) Fresh
      ⟨System.start slots plan drawn now, []⟩ steps) : Obeys (Transition.run (Logged.step rank fold)
      ⟨System.start slots plan drawn now, []⟩ steps).log := by
  have hstart : Logged.Inv ⟨System.start slots plan drawn now, []⟩ := by
    refine ⟨(created_plain hcreate).ids, ?_, (fun _ hr => by cases hr),
      (fun _ hx => absurd hx List.not_mem_nil), ?_⟩
    · rintro targetID ⟨before, c, after, heq, -⟩
      exact absurd heq (by simp)
    · intro targetID before c between c' after heq
      exact absurd heq (by simp)
  exact (hfresh.invariant (I := Logged.Inv) (fun _ _ h hg => h.step hg) hstart).obeys

instance (s : Logged) : (step : SystemStep) → Decidable (Fresh s step)
  | .hand _ => inferInstanceAs (Decidable (∀ r ∈ s.system.running, _))
  | .send i _ => inferInstanceAs (Decidable (∀ x ∈ s.system.outgoing[i]?, _))
  | .platform _ | .call .. | .begin _ | .drain | .visit .. | .restore
  | .save _ | .forget _ | .drop => isTrue trivial

/-- The agent of the target installs. -/
def installing : List SystemStep :=
  scans 5 ++ scans 6 ++ [.call (.event 7 "server" ⟨1, 2, .installing, 7, "", ""⟩
      ⟨true, true, 0⟩) ⟨rfl, rfl⟩]

/-- Its installation fails, and it is told to go back. -/
def applyFails : List SystemStep :=
  [.call (.event 9 "server" ⟨1, 2, .failed, 9, "apply_failed", ""⟩ ⟨true, true, 0⟩) ⟨rfl, rfl⟩,
    .send 1 true]

/-- The actions of the commands in a log. -/
def actions (log : List Entry) : List UpgradeAction :=
  log.filterMap fun
    | .handed c => some c.command.action
    | .retried _ => none

/-- One after the other: the install is repeated before it fails, and the
rollback after that. -/
theorem no_install_after_rollback_repeated :
    let s := Transition.run (Logged.step id id) ⟨twoWaiting, []⟩
      (installing ++ scans 8 ++ applyFails ++ scans 10)
    Obeys s.log
      ∧ actions s.log = [.install, .install, .rollback, .rollback] :=
  ⟨@no_install_after_rollback id id ⟨(Sample.twoWaiting 100).db, []⟩
    oneServer none false (fleet old 0) 0 0 onePlan.2 onePlan.1 rfl
    (installing ++ scans 8 ++ applyFails ++ scans 10) (by decide),
    by decide⟩

theorem not_obeys {log : List Entry} (h : (match log with
      | [_, .handed c, .handed c'] => c.command.action == .rollback && c'.command.action == .install
        && c'.command.targetID == c.command.targetID
      | _ => false) = true) : ¬ Obeys log := by
  intro hall
  split at h
  · next first c c' =>
    simp only [Bool.and_eq_true, beq_iff_eq] at h
    exact List.not_mem_nil (hall _ [first] c [] c' [] rfl ⟨h.1.1, rfl⟩ ⟨h.1.2, h.2⟩)
  · cases h

/-- A scan that is about to repeat the install has read the plan when the
installation fails: it has nothing to save, and its install goes out
after the rollback. -/
theorem stale_install_follows_rollback :
    createPlan oneServer none false (fleet old 0) 0 0 = .ok onePlan
      ∧ let s := Transition.run (Logged.step id id) ⟨twoWaiting, []⟩
          (installing ++ [.begin 8, turn] ++ applyFails ++ [.save true, .hand true])
        actions s.log = [.install, .rollback, .install]
          ∧ ¬ Obeys s.log := by
  exact ⟨rfl, by decide, not_obeys (by decide)⟩

end Yunling.Upgrade
