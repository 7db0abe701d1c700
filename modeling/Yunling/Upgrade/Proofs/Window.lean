/-
The time a target is given to drain.

`Scan` pauses a plan when a target has been draining for longer than
`DrainTimeoutSeconds`, counted from the target's `StartedAt`. That column
is written once, when the target leaves `waiting`: neither `Resume` nor
`RetryTarget` writes it again. A plan that is continued therefore gives a
new drain window to the targets that had not begun, and what is left of
the old one to the others.

# Main results

- `continued_drain_window`: where nothing that a call continues began
  before it, no scan within the drain timeout pauses the plan for such a
  target, and an idle server gets its install.
- `resumed_drain_expired`: a plan that is resumed after a drain timeout
  is paused for it again by the next scan.
-/
import Yunling.Upgrade.Proofs.Records

namespace Yunling.Upgrade

open Fallible

-- ======== turns

/-- The turn of a target pauses the plan, because its drain has run
out. -/
def Scan.timesOut (s : Scan) (t : Target) : Bool :=
  t.status == .draining && s.drains && s.drainExpired t

/-- A scan of the plan at `now` has come to the turn of a target. -/
structure Store.Turn (rank : Nat → Nat) (s : Store) (now : Int)
    (reads : Reads) (i : Nat) (scan : Scan) (t : Target) : Prop where
  loop : (List.range i).foldlM (Scan.visit reads)
    (Scan.enter (s.plan.ordered rank) now s.issued) = .ok scan
  here : scan.Here i t

/-- The server of a target is idle and online, and runs what the target
is to be upgraded from. -/
structure Scan.Ready (s : Scan) (reads : Reads) (t : Target) (a : ArtifactInfo) : Prop where
  status : t.status = .draining
  drains : s.drains = true
  draining : reads.setServerDraining t.serverID true = .ok ()
  server : ∃ runtime, reads.runtime t.serverID = .ok runtime
    ∧ Scan.idle runtime = true ∧ runtime.agentVersion = t.sourceVersion
    ∧ s.artifact reads runtime = .ok a

namespace Scan

variable {s s' : Scan} {i : Nat} {t : Target} {reads : Reads}
  {a : ArtifactInfo} {c : SentCommand}

/-- A target that is ready is told to install. -/
theorem visit_ready (here : s.Here i t) (h : s.Ready reads t a)
    (hearly : s.drainExpired t = false) : visit reads s i = .ok
      ((s.put i (t.download s.now)).send (t.download s.now) a) := by
  obtain ⟨runtime, hread, hidle, hversion, ha⟩ := h.server
  unfold visit
  rw [here.at_index]
  dsimp only
  rw [if_neg (not_not.mpr here.batch), h.status]
  unfold visitDraining
  simp [h.drains, hearly, h.draining, hread, hidle, hversion, ha, bind,
    Except.bind, pure, Except.pure]

/-- A command of the current batch is to be sent, unless its target has
been rolled back since. -/
structure Told (c : SentCommand) (s : Scan) : Prop where
  changed : s.changed = true
  target : ∃ t ∈ s.plan.targets, t.id = c.command.targetID ∧ t.batchNumber = s.plan.currentBatch
    ∧ (c ∈ s.commands ∨ t.status.settled = true)

theorem Told.keeps (h : Told c s) (hchanged : s.changed = true → s'.changed = true)
    (hbatch : s'.plan.currentBatch = s.plan.currentBatch)
    (hcommands : ∀ c ∈ s.commands, c ∈ s'.commands)
    (htargets : List.Forall₂ (fun t t' : Target => t.Same t'
      ∧ (t.status.settled = true → t'.status.settled = true))
      s.plan.targets s'.plan.targets) : Told c s' := by
  obtain ⟨t, ht, hid, hb, hor⟩ := h.target
  obtain ⟨t', ht', hsame, hsettled⟩ := Pointwise.mem_left htargets ht
  exact ⟨hchanged h.changed, t', ht', hsame.id.trans hid,
    (hsame.batchNumber.trans hb).trans hbatch.symm, hor.imp (hcommands c) hsettled⟩

theorem Told.put (h : Told c s) (here : s.Here i t) {t' : Target}
    (htargets : s'.plan.targets = s.plan.targets.set i t') (hchanged : s'.changed = true)
    (hbatch : s'.plan.currentBatch = s.plan.currentBatch)
    (hcommands : ∀ c ∈ s.commands, c ∈ s'.commands) (hsame : t.Same t')
    (hsettled : t.status.settled = true → t'.status.settled = true) : Told c s' := by
  refine h.keeps (fun _ => hchanged) hbatch hcommands ?_
  rw [htargets]
  exact Pointwise.set (fun t => ⟨.refl t, fun h => h⟩) here.at_index ⟨hsame, hsettled⟩

theorem Told.turned (h : Told c s) (hturn : Turned reads s i s') : Told c s' := by
  have hkept : List.Forall₂ (fun t t' : Target => t.Same t'
      ∧ (t.status.settled = true → t'.status.settled = true)) s.plan.targets s.plan.targets :=
    List.forall₂_same.mpr fun t _ => ⟨.refl t, fun h => h⟩
  cases hturn with
  | left => exact h
  | expired => exact h.keeps (fun _ => rfl) rfl (fun _ hc => hc) hkept
  | repeated | resent =>
    exact h.keeps (fun h => h) rfl (fun _ hc => List.mem_append_left _ hc) hkept
  | drained here status | succeeded here status =>
    refine h.put here rfl rfl rfl (fun _ hc => hc) ⟨rfl, rfl, rfl, rfl, rfl⟩ fun hs => ?_
    rw [status] at hs
    cases hs
  | switched here | lost here =>
    exact h.put here rfl rfl rfl (fun _ hc => hc) ⟨rfl, rfl, rfl, rfl, rfl⟩ fun _ => rfl
  | downloads here status =>
    refine h.put here rfl rfl rfl (fun _ hc => List.mem_append_left _ hc)
      ⟨rfl, rfl, rfl, rfl, rfl⟩ fun hs => ?_
    rw [status] at hs
    cases hs
  | @failed t errorCode here =>
    -- the whole batch is rolled back, and the command's target with it
    obtain ⟨told, htold, hid, hb, -⟩ := h.target
    have hrolled := s.plan.rolledBack t.batchNumber t.id errorCode s.now s.issued
    obtain ⟨told', htold', hm⟩ := Pointwise.mem_left hrolled.moved htold
    have hb' := hm.same.batchNumber.trans hb
    exact ⟨rfl, told', htold', hm.same.id.trans hid, hb', Or.inr
      (hrolled.settled told' htold' (hb'.trans here.batch.symm))⟩

/-- What a turn tells an agent is among the commands of its scan, unless
the batch is rolled back later in the loop. -/
theorem told_loop {plan : Plan} {now : Int} {issued n : Nat} {final : Scan} (hi : i < n)
    (hbefore : (List.range i).foldlM (visit reads) (enter plan now issued) = .ok s)
    (hloop : (List.range n).foldlM (visit reads) (enter plan now issued) = .ok final)
    (hvisit : visit reads s i = .ok s') (htold : Told c s') : Told c final := by
  obtain ⟨next, hnext, hrest⟩ := foldlM_range_at hi hbefore hloop
  obtain rfl : s' = next := Except.ok.inj (hvisit.symm.trans hnext)
  exact foldlM_rel (R := fun s s' => Told c s → Told c s') (fun _ h => h)
    (fun h h' ht => h' (h ht)) (fun h ht => ht.turned (visit_turned h)) hrest htold

end Scan

-- ======== windows

/-- Some targets have not begun before `since`, and no time before it is
to come. -/
structure Window (since bound : Int) (among : Nat → Prop) (s : Store) : Prop where
  clock : since ≤ s.clock
  drain : s.plan.drainTimeout = bound
  began : ∀ t ∈ s.plan.targets, among t.id → ∀ startedAt ∈ t.startedAt, since ≤ startedAt

/-- A target that a call which continues the plan brings on: one that
waits or is being drained, or the one to be tried again. -/
def Call.resumes (call : Call) (t : Target) : Bool :=
  match call with
  | .resume .. => t.status == .waiting || t.status == .draining
  | .retry _ targetID _ _ =>
    t.status == .waiting || t.status == .draining || t.id == targetID
  | _ => false

section Windows

variable {s : Store} {rank : Nat → Nat} {call : Call} {since bound now : Int} {among : Nat → Prop}

theorem step_clock (rank : Nat → Nat) (s : Store) (call : Call) :
    (s.step rank call).clock = call.now := by
  unfold Store.step
  dsimp only
  split
  · rfl
  · exact commit_keeps (I := (·.clock = call.now)) rfl (fun _ => (finish_plan ..).2)
      fun _ _ => (finish_plan ..).2

theorem Plan.Follows.drainTimeout {issued : Nat} {p p' : Plan} (h : p.Follows now issued p') :
    p'.drainTimeout = p.drainTimeout := by
  unfold Plan.drainTimeout
  rw [h.drain]

theorem Window.step (h : Window since bound among s) (hclock : s.clock ≤ call.now) :
    Window since bound among (s.step rank call) := by
  have hnow := Int.le_trans h.clock hclock
  have hfollows := step_follows rank s call
  refine ⟨step_clock rank s call ▸ hnow,
    hfollows.drainTimeout.trans h.drain, fun t' ht' hin startedAt hs => ?_⟩
  obtain ⟨t, ht, hstepped⟩ := hfollows.targets t' ht'
  rcases hstepped.began with hsame | ⟨-, hstarts⟩
  · rw [hsame] at hs
    exact h.began t ht (hstepped.same.id ▸ hin) startedAt hs
  · rw [hstarts, Option.mem_some] at hs
    exact hs ▸ hnow

/-- Within a window no drain runs out, in no scan. -/
theorem Window.not_expired (h : Window since bound among s) {reads : Reads} {i : Nat} {scan : Scan}
    {t : Target} (hturn : s.Turn rank now reads i scan t) (hclock : s.clock ≤ now)
    (hnow : now < since + bound) (hin : among t.id) : scan.drainExpired t = false := by
  have hm := Scan.visits_moves hturn.loop
  obtain ⟨t₀, ht₀, hmoved⟩ := hm.plan.mem_right hturn.here.mem
  have hstepped := hmoved.stepped
  unfold Scan.drainExpired
  rw [hm.now, hm.plan.drainTimeout]
  have hbound : (s.plan.ordered rank).drainTimeout = bound := h.drain
  show (t.startedAt.any fun startedAt =>
    decide ((s.plan.ordered rank).drainTimeout < now - startedAt)) = false
  rw [Option.any_eq_false]
  intro startedAt hs
  have hle : since ≤ startedAt := by
    rcases hstepped.began with hsame | ⟨-, hstarts⟩
    · rw [hsame] at hs
      exact h.began t₀ (mem_ordered.mp ht₀) (hstepped.same.id ▸ hin) startedAt hs
    · rw [hstarts] at hs
      obtain rfl : now = startedAt := Option.some.inj hs
      exact Int.le_trans h.clock hclock
  exact decide_eq_false (by omega)

/-- A call opens a window for what it continues, where nothing of that
began before it. -/
theorem Store.Plain.opens (h : s.Plain) (hfresh : ∀ t ∈ s.plan.targets, call.resumes t = true →
      t.status ≠ .waiting → ∀ startedAt ∈ t.startedAt, call.now ≤ startedAt) :
    Window call.now s.plan.drainTimeout
      (fun id => ∃ t ∈ s.plan.targets, t.id = id ∧ call.resumes t = true) (s.step rank call) := by
  have hfollows := step_follows rank s call
  refine ⟨Int.le_of_eq (step_clock rank s call).symm, hfollows.drainTimeout, ?_⟩
  rintro t' ht' ⟨t₀, ht₀, hid, hresumes⟩ startedAt hs
  obtain ⟨t, ht, hstepped⟩ := hfollows.targets t' ht'
  obtain rfl := eq_of_id h.ids ht₀ ht (hid.trans hstepped.same.id)
  rcases hstepped.began with hsame | ⟨-, hstarts⟩
  · rw [hsame] at hs
    by_cases hw : t₀.status = .waiting
    · rw [h.unset t₀ ht hw] at hs
      cases hs
    · exact hfresh t₀ ht hresumes hw startedAt hs
  · rw [hstarts, Option.mem_some] at hs
    exact Int.le_of_eq hs

end Windows

-- ======== the result

/-- A call that continues a plan, after any calls, gives a new drain
window to what it continues, if nothing of that began before it. In all
the time of the window no scan pauses the plan for such a target, and a
target whose server is ready in it is told to install, unless its batch
is rolled back in the same scan. -/
theorem continued_drain_window (rank : Nat → Nat)
    {input : CreatePlanInput} {rollbackSource : Option Target}
    {active : Bool} {reads : Reads} {now : Int} {issued drawn : Nat}
    {plan : Plan}
    (hcreate : createPlan input rollbackSource active reads now issued
      = .ok (plan, drawn)) (calls : List Call) (call : Call) (s : Store)
    (hs : s = Transition.run (Store.step rank)
      (Store.created plan drawn now) calls)
    (hfresh : ∀ t ∈ s.plan.targets, call.resumes t = true →
      t.status ≠ .waiting → ∀ startedAt ∈ t.startedAt,
        call.now ≤ startedAt) (later : List Call)
    (hlater : Transition.Guarded (Store.step rank)
      (fun s call => s.clock ≤ call.now) (s.step rank call) later)
    (now' : Int) (reads' : Reads) (i : Nat) (scan : Scan) (t : Target)
    (hturn : (Transition.run (Store.step rank) (s.step rank call)
      later).Turn rank now' reads' i scan t)
    (hclock : (Transition.run (Store.step rank) (s.step rank call)
      later).clock ≤ now')
    (hnow : now' < call.now + s.plan.drainTimeout)
    (hcontinued : ∃ t₀ ∈ s.plan.targets, t₀.id = t.id
      ∧ call.resumes t₀ = true) :
    let s' := Transition.run (Store.step rank) (s.step rank call) later
    scan.timesOut t = false
      ∧ ∀ a, scan.Ready reads' t a → ∀ fate o,
        (Call.scan now' reads' fate).decide (s'.plan.ordered rank) s'.issued
            = some o →
          ⟨t.serverID, installCommand scan.plan (t.download now') a⟩
              ∈ o.commands
            ∨ ∃ p ∈ o.save, ∃ t' ∈ p.targets, t'.id = t.id
              ∧ t'.status.settled = true := by
  intro s'
  have hplain : s.Plain := by
    rw [hs]
    exact plain_run hcreate calls
  have hwindow := hlater.invariant
    (fun _ _ h hg => h.step hg) (hplain.opens hfresh)
  have hearly := hwindow.not_expired hturn hclock hnow hcontinued
  refine ⟨by simp [Scan.timesOut, hearly], fun a hready fate o ho => ?_⟩
  have hscan : scan.now = now' := (Scan.visits_moves hturn.loop).now
  have hvisit := Scan.visit_ready hturn.here hready hearly
  have htold : Scan.Told ⟨t.serverID,
      installCommand scan.plan (t.download now') a⟩
      ((scan.put i (t.download scan.now)).send (t.download scan.now) a) := by
    refine ⟨rfl, t.download scan.now, List.mem_set hturn.here.lt _, rfl,
      hturn.here.batch, Or.inl ?_⟩
    exact List.mem_append_right _ List.mem_cons_self
  have hlength : scan.plan.targets.length
      = (s'.plan.ordered rank).targets.length :=
    (Scan.visits_moves hturn.loop).plan.targets.length_eq.symm
  cases (Call.decided ho) with
  | ignored h => cases h
  | @scan _ _ _ final active loop =>
    have hfinal := Scan.told_loop (hlength ▸ hturn.here.lt) hturn.loop
      loop hvisit htold
    obtain ⟨t', ht', hid, -, hor⟩ := hfinal.target
    rw [Scan.leave_commands, if_pos (Scan.leave_changed hfinal.changed)]
    refine hor.imp_right fun hsettled => ⟨_, rfl, t', ?_, hid, hsettled⟩
    rw [Scan.leave_targets]
    exact ht'

/-- The plan is paused before anything begins, resumed, and scanned. -/
def resumesUnbegun : Call × Call × Call :=
  (.pause 0 "" ⟨true, true, 0⟩, .resume (5 * second) (fleet old (5 * second)) ⟨true, true, 0⟩,
    .scan (5 * second) (fleet old (5 * second)) ⟨true, true, 0⟩)

/-- The plan after that. -/
def resumedUnbegun : Store :=
  Transition.run (Store.step id) ((Transition.run (Store.step id)
    (Store.created onePlan.1 onePlan.2 0) [resumesUnbegun.1]).step id
      resumesUnbegun.2.1) [resumesUnbegun.2.2]

/-- A scan of it that has come to its only target. -/
def resumedScan : Scan :=
  Scan.enter (resumedUnbegun.plan.ordered id) (3604 * second) resumedUnbegun.issued

/-- Within the drain timeout its server is told to install. -/
theorem continued_drain_window_unbegun : ∃ t ∈ resumedScan.plan.targets, t.status = .draining
      ∧ resumedScan.timesOut t = false ∧ ∃ o, (Call.scan (3604 * second) (fleet old (3604 * second))
          ⟨true, true, 1⟩).decide (resumedUnbegun.plan.ordered id) resumedUnbegun.issued = some o
        ∧ (⟨t.serverID, installCommand resumedScan.plan (t.download (3604 * second))
              ⟨"linux", "amd64", "agent", "sum", "url", 1⟩⟩ ∈ o.commands
          ∨ ∃ p ∈ o.save, ∃ t' ∈ p.targets, t'.id = t.id ∧ t'.status.settled = true) := by
  have ht : resumedScan.plan.targets[0]?
      = some (resumedScan.plan.targets.head (by decide)) := by decide
  have ho : ((Call.scan (3604 * second) (fleet old (3604 * second))
      ⟨true, true, 1⟩).decide (resumedUnbegun.plan.ordered id)
        resumedUnbegun.issued).isSome = true := by decide
  obtain ⟨hearly, htold⟩ := @continued_drain_window id oneServer none false
    (fleet old 0) 0 0 onePlan.2 onePlan.1 rfl [resumesUnbegun.1]
    resumesUnbegun.2.1 _ rfl (by decide) [resumesUnbegun.2.2] (by decide)
    (3604 * second) (fleet old (3604 * second)) 0 resumedScan _
    ⟨rfl, ht, by decide⟩ (by decide) (by decide) (by decide)
  refine ⟨_, List.mem_of_getElem? ht, by decide, hearly, _,
    (Option.some_get ho).symm, htold _ ⟨by decide, by decide, rfl,
      _, rfl, by decide, by decide, rfl⟩ _ _ (Option.some_get ho).symm⟩

/-- The plan of an idle server, resumed a second after its drain ran
out. -/
def resumedLate : Store :=
  (Transition.run (Store.step id) (Store.created onePlan.1 onePlan.2 0)
    [.scan 0 (fleet old 0) ⟨true, true, 0⟩, .scan (3601 * second) (fleet old (3601 * second))
        ⟨true, true, 0⟩]).step id
    (.resume (3602 * second) (fleet old (3602 * second)) ⟨true, true, 0⟩)

/-- It runs, and the next scan, a second later, pauses it for the same
drain again and sends nothing. -/
theorem resumed_drain_expired : createPlan oneServer none false (fleet old 0) 0 0 = .ok onePlan
      ∧ resumedLate.plan.status = .running ∧ (3603 * second : Int)
        < 3602 * second + resumedLate.plan.drainTimeout
      ∧ let s := resumedLate.step id (.scan (3603 * second)
          (fleet old (3603 * second)) ⟨true, true, 1⟩)
        s.plan.status = .paused ∧ s.plan.pauseReason = "服务器排空超时" ∧ s.sent = [] := by
  refine ⟨rfl, by decide, by decide, by decide, by decide, by decide⟩

end Yunling.Upgrade
