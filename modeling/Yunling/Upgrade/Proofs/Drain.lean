/-
Upgrades and the work on their servers.

A scan asks a server to drain and takes its last snapshot in the same
turn; the install it then decides on is saved first and handed over
later. `Assign` does not look at the drain, so a run may be on the server
that the snapshot does not know, or come to it from a decision made
before the drain. No work is interrupted along the runs in which neither
happens (`installs_interrupt_no_run`); otherwise an install goes to a
server with an active run (`install_interrupts_run`).

# The invariant

An install is pending from the turn that decides on it until it is handed
over: on the scan's copy of the target, among its commands, and in the
table once the plan is saved (`System.pending`). The server of a pending
install is quiet (`Upgrade.Proofs.Quiet`).
-/
import Yunling.Upgrade.Proofs.Installs
import Yunling.Upgrade.Proofs.Quiet

namespace Yunling.Upgrade

open Relational Scheduler

-- ======== handed

/-- The first install of every attempt was handed over when no run was
active on its server. -/
def Uninterrupted (handed : List (SentCommand × Nat)) : Prop :=
  ∀ before e after, handed = before ++ e :: after → e.1.command.action = .install →
    (∀ e' ∈ before, e'.1.command.action = .install → e'.1.key ≠ e.1.key) → e.2 = 0

/-- An install of an attempt was handed over. -/
def asked (handed : List (SentCommand × Nat)) (key : Nat × Nat) : Bool :=
  handed.any fun e => e.1.command.action == .install && e.1.key == key

section Handed

variable {handed : List (SentCommand × Nat)} {e : SentCommand × Nat}

theorem asked_append {key : Nat × Nat}
    (h : asked (handed ++ [e]) key = false) : asked handed key = false := by
  unfold asked at h ⊢
  rw [List.any_append, Bool.or_eq_false_iff] at h
  exact h.1

theorem Uninterrupted.append (h : Uninterrupted handed)
    (he : e.1.command.action = .install → asked handed e.1.key = false → e.2 = 0) :
    Uninterrupted (handed ++ [e]) := by
  intro before e' after heq hi hfirst
  rcases List.eq_nil_or_concat after with rfl | ⟨after, last, rfl⟩
  · -- it is the last one
    obtain ⟨rfl, hlast⟩ := List.append_inj' heq rfl
    obtain rfl := List.singleton_inj.mp hlast
    refine he hi (List.any_eq_false.mpr fun e' he' hasked => ?_)
    rw [Bool.and_eq_true, beq_iff_eq, beq_iff_eq] at hasked
    exact hfirst e' he' hasked.1 hasked.2
  · have heq : handed ++ [e] = (before ++ e' :: after) ++ [last] := by
      rw [heq]
      simp
    exact h before e' after (List.append_inj' heq rfl).1 hi hfirst

end Handed

-- ======== pending

namespace System

/-- The target has an install to do that was not handed over yet. -/
def awaits (s : System) (t : Target) : Bool :=
  t.status.underway && !asked s.handed t.key

/-- The command is an install whose attempt was not handed over yet. -/
def unasked (s : System) (c : SentCommand) : Bool :=
  c.command.action == .install && !asked s.handed c.key

/-- The servers with an install that was decided on and not handed over
yet. -/
def pending (s : System) : List String :=
  (s.store.plan.targets.filter s.awaits).map (·.serverID) ++ s.running.elim [] fun r =>
      (r.scan.plan.targets.filter s.awaits).map (·.serverID)
        ++ (r.scan.commands.filter s.unasked).map (·.serverID)

section Pending

variable {s : System} {r : Running} {t : Target} {c : SentCommand}

theorem pending_saved (ht : t ∈ s.store.plan.targets)
    (hw : s.awaits t = true) : t.serverID ∈ s.pending :=
  List.mem_append_left _ (List.mem_map_of_mem (List.mem_filter.mpr ⟨ht, hw⟩))

theorem pending_held (hr : s.running = some r)
    (ht : t ∈ r.scan.plan.targets) (hw : s.awaits t = true) : t.serverID ∈ s.pending := by
  refine List.mem_append_right _ ?_
  rw [hr]
  exact List.mem_append_left _ (List.mem_map_of_mem (List.mem_filter.mpr ⟨ht, hw⟩))

theorem pending_collected (hr : s.running = some r)
    (hc : c ∈ r.scan.commands) (hw : s.unasked c = true) : c.serverID ∈ s.pending := by
  refine List.mem_append_right _ ?_
  rw [hr]
  exact List.mem_append_right _ (List.mem_map_of_mem (List.mem_filter.mpr ⟨hc, hw⟩))

end Pending

end System

-- ======== guard

/-- What keeps upgrades from interrupting work.

- A server that is to be upgraded and reports no task is quiet.
- As long as its install is pending, its drain is not taken back, and no
  run that was given up comes back to it.
- An agent reports on an attempt only after its install was handed
  over. -/
def Undisturbed (s : System) : SystemStep → Prop
  | .platform (.other op _) => ∀ id ∈ s.pending, undrains s.db id op = false
      ∧ ∀ r ∈ s.db.runs.rows, reenters s.db op r = true → r.assignedServerId ≠ some id
  | .call call _ => ∀ t ∈ s.store.plan.targets, call.reports t = true → asked s.handed t.key = true
  | .visit .. => ∀ r ∈ s.running, r.phase = .drained →
    ∀ t ∈ r.scan.toDrain r.index, reportedTasks s.db t.serverID = 0 → Quiet s.slots t.serverID
  | .restore => ∀ r ∈ s.running, ∀ id ∈ s.pending, r.phase ≠ .restoring id
  | _ => True

-- ======== invariant

/-- The servers of pending installs are quiet. -/
structure System.Inv (s : System) : Prop where
  saved : ∀ t ∈ s.store.plan.targets, s.awaits t = true → Quiet s.slots t.serverID
  held : ∀ r ∈ s.running, ∀ t ∈ r.scan.plan.targets, s.awaits t = true → Quiet s.slots t.serverID
  collected : ∀ r ∈ s.running, ∀ c ∈ r.scan.commands, s.unasked c = true → Quiet s.slots c.serverID
  counted : Uninterrupted s.handed

namespace System

variable {s : System} {r : Running} {rank : Nat → Nat}
  {fold : Char → Char} {serverID : String} {agents : String → AgentInfo}

section Inv

variable (h : s.Inv)

include h

/-- The servers of pending installs stay quiet. -/
theorem Inv.slots {slots : SlotState} (hq : ∀ id ∈ s.pending, Quiet s.slots id → Quiet slots id) :
    Inv { s with slots } :=
  ⟨fun t ht hw => hq _ (pending_saved ht hw) (h.saved t ht hw),
    fun r hr t ht hw => hq _ (pending_held hr ht hw) (h.held r hr t ht hw), fun r hr c hc hw =>
      hq _ (pending_collected hr hc hw) (h.collected r hr c hc hw),
    h.counted⟩

theorem Inv.stop : Inv { s with running := none } :=
  ⟨h.saved, (fun _ hr => by cases hr), (fun _ hr => by cases hr), h.counted⟩

theorem Inv.go (issued : Nat)
    (held : ∀ t ∈ r.scan.plan.targets, s.awaits t = true → Quiet s.slots t.serverID)
    (collected : ∀ c ∈ r.scan.commands, s.unasked c = true → Quiet s.slots c.serverID) :
    Inv { s with
      store := { s.store with issued }, running := some r } := by
  refine ⟨h.saved, fun r' hr' => ?_, fun r' hr' => ?_, h.counted⟩
  · cases hr'
    exact held
  · cases hr'
    exact collected

theorem Inv.platform {step : SlotStep} (hg : Undisturbed s (.platform step)) :
    Inv { s with slots := slotStep fold s.slots step } := by
  refine h.slots fun id hid hq => hq.slotStep fun op hother heq => ?_
  subst heq
  exact hg id hid

theorem Inv.forget (run : Run) : Inv { s with slots := { s.slots with
      offers := s.slots.offers.filter fun offer => offer.1 != run } } := by
  refine h.slots fun id _ hq => ⟨hq.idle, hq.drains, fun offer hoffer => ?_⟩
  exact hq.offers offer (List.mem_filter.mp hoffer).1

theorem Inv.call {call : Call} {hcall : call.isScan = false ∧ call.fate.delivered = 0}
    (hg : Undisturbed s (.call call hcall)) : (s.call rank call).Inv := by
  refine ⟨fun t' ht' hw => ?_, h.held, h.collected, h.counted⟩
  have hw : (t'.status.underway && !asked s.handed t'.key) = true := hw
  simp only [Bool.and_eq_true, Bool.not_eq_true'] at hw
  obtain ⟨t, ht, hserver, hkey, hwas⟩ := Store.step_underway hcall.1 hw.1 ht'
  rw [← hserver]
  refine h.saved t ht ?_
  rcases hwas with hu | hreports
  · simp [awaits, hu, hkey, hw.2]
  · -- what its agent reports on was handed over
    have hasked := hg t ht hreports
    rw [hkey, hw.2] at hasked
    cases hasked

theorem Inv.send (i : Nat) (delivered : Bool) : (s.send i delivered).Inv := by
  unfold System.send
  split
  · exact ⟨h.saved, h.held, h.collected, h.counted⟩
  · exact h

theorem Inv.begin (now : Int) : (s.begin rank now).Inv := by
  unfold System.begin
  split
  · exact h
  · split
    · exact h.go s.store.issued (fun t ht hw => h.saved t (mem_ordered.mp ht) hw)
        (fun c hc => by cases hc)
    · exact h

/-- The drain of a server is set, or taken back where no install is
pending. -/
theorem Inv.setDraining (hr : s.running = some r) {draining : Bool}
    (hset : draining = true ∨ serverID ∉ s.pending) (index : Nat) (phase : Phase) :
    Inv { s.apply (.setDraining serverID draining) with
      running := some ⟨r.scan, index, phase⟩ } := by
  have hslots : (s.apply (.setDraining serverID draining)).Inv := by
    refine h.slots fun id hid hq => hq.setDraining ?_
    exact hset.imp_right fun hnot heq => hnot (heq ▸ hid)
  exact hslots.go s.store.issued (hslots.held r hr) (hslots.collected r hr)

theorem Inv.drain (hr : s.running = some r) : (s.drain r).Inv := by
  unfold System.drain
  split
  · split
    · exact h.setDraining hr (Or.inl rfl) _ _
    · exact h.stop
  · exact h

end Inv

/-- A server the turn finds idle reports no task. -/
theorem reportedTasks_eq_zero {runtime : ServerRuntime}
    (h : serverRuntime s.db agents serverID = .ok runtime) (hidle : Scan.idle runtime = true) :
    reportedTasks s.db serverID = 0 := by
  unfold serverRuntime at h
  split at h
  · cases h
  · cases h
    simp only [Scan.idle, Bool.and_eq_true, beq_iff_eq] at hidle
    exact hidle.2

/-- A turn that comes to a target to drain was asked for first. -/
theorem drained_of_ready (h : r.ready = true) {t : Target}
    (ht : r.scan.toDrain r.index = some t) : r.phase = .drained := by
  simp only [Running.ready, ht, Bool.and_eq_true] at h
  simpa using h.2

section Inv

variable (h : s.Inv) (hr : s.running = some r)

include h hr

theorem Inv.visit {release : Except UpgradeError ReleaseInfo}
    (hg : Undisturbed s (.visit agents release)) : (s.visit r agents release).Inv := by
  unfold System.visit
  split
  · next hready =>
    dsimp only
    split
    · exact h.stop
    next next hvisit =>
    have hacts := Scan.visit_acts hvisit
    have hheld : ∀ t ∈ next.plan.targets, s.awaits t = true → Quiet s.slots t.serverID := by
      intro t' ht' hw
      have hu := (Bool.and_eq_true_iff.mp hw).1
      rcases hacts.underway t' ht' hu with hold | ⟨t, ht, rfl, hidle⟩
      · exact h.held r hr t' hold hw
      · obtain ⟨runtime, hruntime, hidle⟩ := hidle
        exact hg r hr (drained_of_ready hready ht) t ht (reportedTasks_eq_zero hruntime hidle)
    have hcollected : ∀ c ∈ next.commands, s.unasked c = true → Quiet s.slots c.serverID := by
      intro c hc hw
      have hw' := hw
      simp only [unasked, Bool.and_eq_true, beq_iff_eq] at hw'
      rcases hacts.installs c hc hw'.1 with hold | ⟨t, ht, hu, hserver, hkey⟩
      · exact h.collected r hr c hold hw
      · rw [← hserver]
        refine hheld t ht ?_
        rw [awaits, hu, hkey, hw'.2]
        rfl
    refine h.go next.issued ?_ ?_
    · split <;> exact hheld
    · split <;> exact hcollected
  · exact h

theorem Inv.restore (hg : Undisturbed s .restore) : (s.restore r).Inv := by
  unfold System.restore
  split
  · next serverID hphase =>
    split
    · exact h.setDraining hr (Or.inr fun hid => hg r hr serverID hid hphase) _ _
    · exact h.stop
  · exact h

theorem Inv.save (saved : Bool) : (s.save r saved).Inv := by
  have hheld := h.held r hr
  have hcollected := h.collected r hr
  rw [← Scan.leave_targets] at hheld
  rw [← Scan.leave_commands] at hcollected
  unfold System.save
  split
  · dsimp only
    split
    · split
      · next store hsave =>
        split
        · rw [savePlan_ok hsave]
          refine ⟨hheld, fun r' hr' => ?_, fun r' hr' => ?_, h.counted⟩
          · cases hr'
            exact hheld
          · cases hr'
            exact hcollected
        · exact h.stop
      · exact h.stop
    · exact h.go s.store.issued hheld hcollected
  · exact h

theorem Inv.hand (delivered : Bool) : (s.hand r delivered).Inv := by
  unfold System.hand
  split
  · split
    · exact h.stop
    next c rest hcommands =>
    have hquiet := h.collected r hr
    rw [hcommands] at hquiet
    -- fewer installs are pending than before
    have hawaits : ∀ {t : Target} {n : Nat}, (t.status.underway
        && !asked (s.handed ++ [(c, n)]) t.key) = true → s.awaits t = true := by
      intro t n hw
      simp only [Bool.and_eq_true, Bool.not_eq_true'] at hw
      simp [awaits, hw.1, asked_append hw.2]
    have hunasked : ∀ {c' : SentCommand} {n : Nat}, (c'.command.action == .install
          && !asked (s.handed ++ [(c, n)]) c'.key) = true → s.unasked c' = true := by
      intro c' n hw
      simp only [Bool.and_eq_true, Bool.not_eq_true'] at hw
      simp only [unasked, Bool.and_eq_true, Bool.not_eq_true']
      exact ⟨hw.1, asked_append hw.2⟩
    refine ⟨fun t ht hw => h.saved t ht (hawaits hw),
      fun r' hr' t ht hw => ?_, fun r' hr' c' hc' hw => ?_, h.counted.append fun hi hasked => ?_⟩
    · cases delivered with
      | false => cases hr'
      | true =>
        cases hr'
        exact h.held r hr t ht (hawaits hw)
    · cases delivered with
      | false => cases hr'
      | true =>
        cases hr'
        exact hquiet c' (List.mem_cons_of_mem _ hc') (hunasked hw)
    · refine (hquiet c List.mem_cons_self ?_).idle
      simp only [unasked, Bool.and_eq_true, beq_iff_eq, Bool.not_eq_true']
      exact ⟨hi, hasked⟩
  · exact h

end Inv

/-- Every undisturbed step keeps the servers of pending installs
quiet. -/
theorem Inv.step (h : s.Inv) {step : SystemStep}
    (hg : Undisturbed s step) : (s.step rank fold step).Inv := by
  -- what a scan does, it does while it is running
  have hrunning : ∀ {f : Running → System},
      (∀ r, s.running = some r → (f r).Inv) → (s.running.elim s f).Inv := by
    intro f hf
    cases hr : s.running with
    | none => exact h
    | some r => exact hf r hr
  cases step with
  | platform step => exact h.platform hg
  | forget run => exact h.forget run
  | call call hcall => exact h.call hg
  | send i delivered => exact h.send i delivered
  | begin now => exact h.begin now
  | drain => exact hrunning fun r hr => h.drain hr
  | visit agents release => exact hrunning fun r hr => h.visit hr hg
  | restore => exact hrunning fun r hr => h.restore hr hg
  | save saved => exact hrunning fun r hr => h.save hr saved
  | hand delivered => exact hrunning fun r hr => h.hand hr delivered
  | drop => exact h.stop

end System

-- ======== the runs

/-- Along every undisturbed run of the control plane around a new plan,
the first install of an attempt is handed over when no run is active on
its server. -/
theorem installs_interrupt_no_run (rank : Nat → Nat) (fold : Char → Char)
    (slots : SlotState) {input : CreatePlanInput}
    {rollbackSource : Option Target} {active : Bool} {reads : Reads}
    {now : Int} {issued drawn : Nat} {plan : Plan}
    (hcreate : createPlan input rollbackSource active reads now issued
      = .ok (plan, drawn)) (steps : List SystemStep)
    (undisturbed : Transition.Guarded (System.step rank fold) Undisturbed
      (System.start slots plan drawn now) steps) :
    Uninterrupted (Transition.run (System.step rank fold)
      (System.start slots plan drawn now) steps).handed := by
  have hstart : (System.start slots plan drawn now).Inv := by
    refine ⟨fun t ht hw => ?_, (fun _ hr => by cases hr),
      (fun _ hr => by cases hr), fun before e after heq => ?_⟩
    · rw [System.awaits, created_waiting hcreate ht] at hw
      cases hw
    · exact absurd heq (by simp [System.start])
  exact (undisturbed.invariant (I := System.Inv) (fun _ _ h hg => h.step hg) hstart).counted

-- ======== samples

instance (slots : SlotState) (serverID : String) : Decidable (Quiet slots serverID) :=
  decidable_of_iff (slots.db.slotsUsed serverID = 0
    ∧ (∃ server ∈ slots.db.servers.rows, server.id = serverID ∧ server.drainRequested = true)
    ∧ ∀ offer ∈ slots.offers, offer.2.serverID ≠ serverID)
    ⟨fun h => ⟨h.1, h.2.1, h.2.2⟩, fun h => ⟨h.idle, h.drains, h.offers⟩⟩

instance (s : System) : (step : SystemStep) → Decidable (Undisturbed s step)
  | .platform (.other ..) => inferInstanceAs (Decidable (∀ id ∈ _, _))
  | .call .. => inferInstanceAs (Decidable (∀ t ∈ _, _))
  | .visit .. => inferInstanceAs (Decidable (∀ r ∈ s.running, _))
  | .restore => inferInstanceAs (Decidable (∀ r ∈ s.running, _))
  | .platform (.decide ..) | .platform (.commit ..) | .forget _
  | .send .. | .begin _ | .drain | .save _ | .hand _ | .drop => isTrue trivial

/-- The platform with two waiting runs, and a new plan for its server. -/
def twoWaiting : System :=
  .start ⟨(Sample.twoWaiting 100).db, []⟩ onePlan.1 onePlan.2 0

/-- The first run is considered. -/
def considers : SystemStep := .platform (.decide "run-1" 5)

/-- It is assigned to the server. -/
def assigns : SystemStep :=
  .platform (.commit Sample.offer.1 Sample.offer.2 "lease-1" "token-1" 5)

/-- The server reports its tasks. -/
def beats (sequence : Nat) (runningTasks : Int) : SystemStep :=
  .platform (.other (.heartbeat
    (Sample.heartbeat "server" sequence runningTasks) (4 + sequence)) rfl)

/-- The run reports to the platform. -/
def reports (sequence : Nat) (type : String) : SystemStep :=
  .platform (.other (.runEvent 6 (Sample.event "run-1" "token-1" sequence type 6)) rfl)

/-- The turn of the plan's target. -/
def turn : SystemStep :=
  .visit (fun _ => ⟨"1.0.0", "linux", "amd64"⟩) ((fleet old 0).release "release")

/-- A scan of the plan, with nothing in between. -/
def scans (now : Int) : List SystemStep :=
  [.begin now, .drain, turn, .save true, .hand true, .hand true]

/-- The run is reported, ends, and its end is reported, each before a
scan. -/
def waitsForRun : List SystemStep :=
  [considers, assigns, .forget Sample.offer.1] ++ scans 5 ++ [beats 2 1] ++ scans 6
    ++ [reports 1 "started", reports 2 "succeeded", beats 3 0] ++ scans 7

/-- The install is handed over when the run has ended. -/
theorem installs_interrupt_no_run_ended :
    Uninterrupted (Transition.run (System.step id id) twoWaiting waitsForRun).handed
      ∧ (Transition.run (System.step id id) twoWaiting
        waitsForRun).handed.map (fun e => (e.1.command.action, e.2)) = [(.install, 0)] :=
  ⟨@installs_interrupt_no_run id id ⟨(Sample.twoWaiting 100).db, []⟩
    oneServer none false (fleet old 0) 0 0 onePlan.2 onePlan.1 rfl
    waitsForRun (by decide), by decide⟩

/-- The server's snapshot is older than its run. -/
def staleSnapshot : List SystemStep :=
  [considers, assigns, .forget Sample.offer.1] ++ scans 5 ++ scans 6

/-- The run was considered before the drain, and is assigned after the
turn that decides on the install. -/
def lateAssignment : List SystemStep :=
  [considers] ++ scans 5 ++ [beats 2 0, .begin 6, .drain, turn, assigns, .save true, .hand true]

theorem not_uninterrupted {handed : List (SentCommand × Nat)}
    (h : handed.head?.any (fun e => e.1.command.action == .install && e.2 != 0) = true) :
    ¬ Uninterrupted handed := by
  intro hall
  cases handed with
  | nil => cases h
  | cons e rest =>
    simp only [List.head?_cons, Option.any_some, Bool.and_eq_true, beq_iff_eq, bne_iff_ne] at h
    exact h.2 (hall [] e rest rfl h.1 fun _ he' => by cases he')

/-- An install goes to a server whose run its last snapshot does not know,
and to one that is given a run between the decision and the hand-over. -/
theorem install_interrupts_run : createPlan oneServer none false (fleet old 0) 0 0 = .ok onePlan
      ∧ ¬ Uninterrupted (Transition.run (System.step id id) twoWaiting staleSnapshot).handed
      ∧ ¬ Uninterrupted (Transition.run (System.step id id) twoWaiting lateAssignment).handed :=
  ⟨rfl, not_uninterrupted (by decide), not_uninterrupted (by decide)⟩

end Yunling.Upgrade
