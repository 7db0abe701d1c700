/-
What an agent holds and says about runs.

`P` stands for the runs that were given to this agent's server. The
agent only holds assignments of such runs and only speaks of such runs;
an event past the first one of its execution, wherever it still is,
speaks of a process that is gone for good; and while an authoritative
report is on its way, the agent has neither a process nor an assignment
to start one from. The last holds because the assignments it is sent
wait for the report, which is the one thing the agent does not see to
itself.

`Agent.act` keeps all of this, and makes no run startable or alive that
was not (`AgentInv.act`).
-/
import Yunling.Agent.Client
import Yunling.Executor.Proofs.Records

namespace Yunling

open Relational Executor

variable {a : Agent} {P : String → Prop} {x : String} {messages : List AgentMessage}
  {m : AgentMessage}

-- ======== vocabulary

/-- A message is on one of the connections. -/
def Carried (wire : List (List AgentMessage)) (m : AgentMessage) : Prop :=
  ∃ messages ∈ wire, m ∈ messages

theorem Agent.waiting_iff : a.waiting x = true ↔ ∃ y, .assign y ∈ a.inbox ∧ y.runID = x := by
  unfold Agent.waiting
  rw [List.any_eq_true]
  constructor
  · intro ⟨c, hc, hx⟩
    cases c with
    | assign y => exact ⟨y, hc, beq_iff_eq.mp hx⟩
    | cancel runID executionToken => cases hx
  · intro ⟨y, hy, hx⟩
    exact ⟨.assign y, hy, beq_iff_eq.mpr hx⟩

theorem Agent.mayRun_iff : a.mayRun x = true ↔ a.runner.host.alive x = true
      ∨ a.waiting x = true ∧ a.runner.host.claimed x = false := by
  simp [Agent.mayRun, Agent.startable]

theorem Agent.reporting_iff :
    a.reporting = true ↔ ∃ processes, Carried a.wire (.report true processes) := by
  unfold Agent.reporting Carried
  simp only [List.any_eq_true]
  constructor
  · intro ⟨messages, hmessages, m, hm, hrep⟩
    cases m with
    | event e => cases hrep
    | report authoritative processes =>
      have hauth : authoritative = true := hrep
      subst hauth
      exact ⟨processes, messages, hmessages, hm⟩
  · intro ⟨processes, messages, hmessages, hm⟩
    exact ⟨messages, hmessages, _, hm, rfl⟩

theorem Carried.send (h : Carried (a.send messages).wire m) : Carried a.wire m ∨ m ∈ messages := by
  obtain ⟨l, hl, hm⟩ := h
  unfold Agent.send at hl
  cases hwire : a.wire with
  | nil =>
    rw [hwire] at hl
    cases hl
  | cons newest older =>
    rw [hwire] at hl
    rcases List.mem_cons.mp hl with heq | hold
    · rw [heq] at hm
      rcases List.mem_append.mp hm with hm | hm
      · exact Or.inl ⟨newest, List.mem_cons_self, hm⟩
      · exact Or.inr hm
    · exact Or.inl ⟨l, List.mem_cons_of_mem _ hold, hm⟩

theorem Carried.keep {i : Nat} (h : Carried (a.keep i messages).wire m) :
    Carried a.wire m ∨ m ∈ messages := by
  obtain ⟨l, hl, hm⟩ := h
  rcases List.mem_or_eq_of_mem_set hl with hold | heq
  · exact Or.inl ⟨l, hold, hm⟩
  · rw [heq] at hm
    exact Or.inr hm

/-- What an agent holds and says. -/
structure AgentInv (P : String → Prop) (a : Agent) : Prop where
  runner : RunnerInv P a.runner
  waiting : ∀ x, a.waiting x = true → P x
  vouched : ∀ e, e ∈ a.emitted ∨ Carried a.wire (.event e) → Vouched P a.runner.host e
  /-- nothing starts behind an authoritative report -/
  reporting : a.reporting = true → ∀ x, a.waiting x = false ∧ a.runner.host.alive x = false
  /-- nor before the first report -/
  opening : a.phase ≠ .serving → ∀ x, a.waiting x = false

theorem agentInv_unborn (P : String → Prop) : AgentInv P .unborn := by
  refine ⟨⟨?_, ?_, ?_, ?_⟩, ?_, ?_, ?_, fun _ _ => rfl⟩
  · intro x hx; cases hx
  · intro x hx; cases hx
  · intro x run hx; cases hx
  · intro x result hx; cases hx
  · intro x hx; cases hx
  · intro e he
    rcases he with he | ⟨l, hl, -⟩
    · cases he
    · cases hl
  · intro h; cases h

/-- A step that keeps the invariant and lets no run come alive that
could not before. -/
structure Custody (P : String → Prop) (a a' : Agent) : Prop where
  inv : AgentInv P a'
  within : ∀ x, a'.mayRun x = true → a.mayRun x = true

theorem Custody.trans {a a' a'' : Agent}
    (h : Custody P a a') (h' : Custody P a' a'') : Custody P a a'' :=
  ⟨h'.inv, fun x hx => h.within x (h'.within x hx)⟩

/-- A run that may come alive on an agent was given to its server. -/
theorem AgentInv.known (inv : AgentInv P a) (h : a.mayRun x = true) : P x := by
  rcases Agent.mayRun_iff.mp h with halive | ⟨hwaiting, -⟩
  · exact inv.runner.known x (inv.runner.launched x halive)
  · exact inv.waiting x hwaiting

/-- More runs are given to the server. -/
theorem AgentInv.mono {P Q : String → Prop}
    (inv : AgentInv P a) (h : ∀ x, P x → Q x) : AgentInv Q a where
  runner := {
    known := fun x hx => h x (inv.runner.known x hx)
    launched := inv.runner.launched
    active := inv.runner.active
    recorded := inv.runner.recorded }
  waiting := fun x hx => h x (inv.waiting x hx)
  vouched := fun e he =>
    ⟨h _ (inv.vouched e he).1, (inv.vouched e he).2⟩
  reporting := inv.reporting
  opening := inv.opening

-- ======== parts of an agent

section Parts

variable {P : String → Prop} {a : Agent} (inv : AgentInv P a) {messages : List AgentMessage}
include inv

/-- The messages change; what is new is vouched for, and no report. -/
theorem AgentInv.tell {emitted : List AgentRunEvent} {wire : List (List AgentMessage)}
    (hevents : ∀ e, e ∈ emitted ∨ Carried wire (.event e) →
      (e ∈ a.emitted ∨ Carried a.wire (.event e)) ∨ Vouched P a.runner.host e)
    (hreports : ∀ processes, Carried wire (.report true processes) →
      Carried a.wire (.report true processes)) : Custody P a { a with emitted, wire } := by
  refine ⟨⟨inv.runner, inv.waiting, ?_, ?_, inv.opening⟩, fun _ h => h⟩
  · intro e he
    rcases hevents e he with hold | hnew
    · exact inv.vouched e hold
    · exact hnew
  · intro hrep
    obtain ⟨processes, hcarried⟩ := Agent.reporting_iff.mp hrep
    exact inv.reporting (Agent.reporting_iff.mpr ⟨processes, hreports processes hcarried⟩)

/-- Messages are written that are vouched for and no absence. -/
theorem AgentInv.send (hevents : ∀ e, .event e ∈ messages → Vouched P a.runner.host e)
    (hreports : ∀ processes, .report true processes ∉ messages) :
    Custody P a (a.send messages) := by
  refine inv.tell ?_ ?_
  · intro e he
    rcases he with he | he
    · exact Or.inl (Or.inl he)
    · rcases he.send with hold | hnew
      · exact Or.inl (Or.inr hold)
      · exact Or.inr (hevents e hnew)
  · intro processes h
    rcases h.send with hold | hnew
    · exact hold
    · exact absurd hnew (hreports processes)

/-- Events are emitted that are vouched for. -/
theorem AgentInv.emit {x : Executor.Assignment} {events : List Event}
    (h : ∀ e ∈ events, Vouched P a.runner.host (x.report e)) : Custody P a (a.emit x events) := by
  refine inv.tell ?_ fun _ h => h
  intro e he
  rcases he with he | he
  · rcases List.mem_append.mp he with hold | hnew
    · exact Or.inl (Or.inl hold)
    · obtain ⟨e', he', rfl⟩ := List.mem_map.mp hnew
      exact Or.inr (h e' he')
  · exact Or.inl (Or.inr he)

/-- What is left of a connection was on it before. -/
theorem AgentInv.keep {i : Nat}
    (h : ∀ m ∈ messages, Carried a.wire m) : Custody P a (a.keep i messages) := by
  refine inv.tell ?_ ?_
  · intro e he
    rcases he with he | he
    · exact Or.inl (Or.inl he)
    · rcases he.keep with hold | hnew
      · exact Or.inl (Or.inr hold)
      · exact Or.inl (Or.inr (h _ hnew))
  · intro processes hcarried
    rcases hcarried.keep with hold | hnew
    · exact hold
    · exact h _ hnew

/-- The runner takes a step that starts nothing. -/
theorem AgentInv.settle {r : Runner} (hr : RunnerInv P r)
    (hsettles : a.runner.host.Settles r.host) : Custody P a { a with runner := r } := by
  refine ⟨⟨hr, inv.waiting, ?_, ?_, inv.opening⟩, ?_⟩
  · intro e he
    exact (inv.vouched e he).extends hsettles.extends
  · intro hrep x
    obtain ⟨hwaiting, hdead⟩ := inv.reporting hrep x
    exact ⟨hwaiting, hsettles.dead hdead⟩
  · intro x hx
    rcases Agent.mayRun_iff.mp hx with hlive | ⟨hwaiting, hnew⟩
    · exact Agent.mayRun_iff.mpr (Or.inl (hsettles.alive x hlive))
    · exact Agent.mayRun_iff.mpr (Or.inr ⟨hwaiting, hsettles.extends.unclaimed hnew⟩)

end Parts

-- ======== the acts

section Acts

variable {P : String → Prop} {a : Agent} (inv : AgentInv P a)
include inv

/-- A new agent process, or none, with nothing at hand. -/
theorem AgentInv.reset (phase : Phase) {wire : List (List AgentMessage)}
    (hwire : ∀ m, Carried wire m → Carried a.wire m) : Custody P a
      { phase, inbox := [], runner := .fresh a.runner.host
        emitted := [], wire } := by
  have hnone : ∀ x, Agent.waiting
      { phase, inbox := [], runner := .fresh a.runner.host
        emitted := [], wire } x = false := fun _ => rfl
  refine ⟨⟨inv.runner.fresh, ?_, ?_, ?_, fun _ => hnone⟩, ?_⟩
  · intro x hx
    cases hx
  · intro e he
    rcases he with he | he
    · cases he
    · exact inv.vouched e (Or.inr (hwire _ he))
  · intro hrep x
    obtain ⟨processes, hcarried⟩ := Agent.reporting_iff.mp hrep
    exact ⟨rfl, (inv.reporting (Agent.reporting_iff.mpr ⟨processes, hwire _ hcarried⟩) x).2⟩
  · intro x hx
    rcases Agent.mayRun_iff.mp hx with hlive | ⟨hwaiting, -⟩
    · exact Agent.mayRun_iff.mpr (Or.inl hlive)
    · cases hwaiting

theorem AgentInv.stop : Custody P a a.stop := inv.reset .offline fun _ h => h

theorem AgentInv.connect : Custody P a a.connect := by
  unfold Agent.connect
  split
  · refine inv.reset .dialed ?_
    intro m ⟨l, hl, hm⟩
    rcases List.mem_cons.mp hl with heq | hold
    · rw [heq] at hm
      cases hm
    · exact ⟨l, hold, hm⟩
  · exact ⟨inv, fun _ h => h⟩

/-- The first report is authoritative only when there is no process, and
then there is no assignment either. -/
theorem AgentInv.firstReport (probed : Bool) : Custody P a (a.firstReport probed) := by
  unfold Agent.firstReport
  split
  · next hdialed =>
    have hnone := inv.opening (by rw [hdialed]; decide)
    refine ⟨⟨inv.runner, inv.waiting, ?_, ?_, fun _ => hnone⟩, fun _ h => h⟩
    · intro e he
      rcases he with he | he
      · exact inv.vouched e (Or.inl he)
      · rcases Carried.send (a := { a with phase := .serving }) he with
          hold | hnew
        · exact inv.vouched e (Or.inr hold)
        · cases List.mem_singleton.mp hnew
    · intro hrep x
      obtain ⟨processes, hcarried⟩ := Agent.reporting_iff.mp hrep
      rcases Carried.send (a := { a with phase := .serving }) hcarried with hold | hnew
      · exact inv.reporting (Agent.reporting_iff.mpr ⟨_, hold⟩) x
      refine ⟨hnone x, ?_⟩
      have hauth := (AgentMessage.report.injEq ..).mp (List.mem_singleton.mp hnew)
      have hempty := (Bool.and_eq_true_iff.mp hauth.1.symm).2
      show a.runner.host.processes.contains x = false
      rw [List.isEmpty_iff.mp hempty]
      rfl
  · exact ⟨inv, fun _ h => h⟩

/-- The commands change, and no assignment is new. -/
theorem AgentInv.commands {inbox : List ExecutionCommand}
    (h : ∀ x, .assign x ∈ inbox → .assign x ∈ a.inbox) : Custody P a { a with inbox } := by
  have hsub : ∀ x, Agent.waiting { a with inbox } x = true → a.waiting x = true := by
    intro x hx
    obtain ⟨y, hy, hid⟩ := Agent.waiting_iff.mp hx
    exact Agent.waiting_iff.mpr ⟨y, h y hy, hid⟩
  have hnone : ∀ x, a.waiting x = false → Agent.waiting { a with inbox } x = false := by
    intro x hx
    rw [Bool.eq_false_iff] at hx ⊢
    exact fun hw => hx (hsub x hw)
  refine ⟨⟨inv.runner, fun x hx => inv.waiting x (hsub x hx),
    inv.vouched, ?_, fun hphase x => hnone x (inv.opening hphase x)⟩, ?_⟩
  · intro hrep x
    obtain ⟨hwaiting, hdead⟩ := inv.reporting hrep x
    exact ⟨hnone x hwaiting, hdead⟩
  · intro x hx
    exact Agent.mayRun_iff.mpr ((Agent.mayRun_iff.mp hx).imp_right (And.imp_left (hsub x)))

theorem AgentInv.cancelCommand (runID executionToken : String) :
    Custody P a (a.receive (.cancel runID executionToken)) := by
  unfold Agent.receive
  split
  · exact ⟨inv, fun _ h => h⟩
  refine inv.commands ?_
  intro x hx
  rcases List.mem_append.mp hx with hold | hnew
  · exact hold
  · cases List.mem_singleton.mp hnew

theorem AgentInv.finish (runID : String) {stop : Stop} (hended : stop.ended = true) (now : Int)
    (usage : Option ResourceUsage) (save : Write) :
    Custody P a (a.finish runID stop now usage save) := by
  obtain ⟨hr, hsettles, hsaid⟩ := inv.runner.finish runID hended now usage save
  have hstep := inv.settle hr hsettles
  unfold Agent.finish
  split
  · next runner x event heq =>
    rw [heq] at hstep hsaid
    refine hstep.trans (hstep.inv.emit ?_)
    intro e he
    obtain rfl := List.mem_singleton.mp he
    exact hsaid (x, e) rfl
  · next runner heq =>
    rw [heq] at hstep
    exact hstep

theorem AgentInv.handleCancel (runID executionToken : String)
    (exitCode : Int) {ended : Bool} (hended : ended = true)
    (failed : Bool) (now : Int) (usage : Option ResourceUsage) (save : Write) :
    Custody P a (a.handleCancel runID executionToken exitCode ended failed now usage save) := by
  have hstop : (Stop.cancelled exitCode ended).ended = true := hended
  unfold Agent.handleCancel
  split
  · exact inv.stop
  split
  · exact inv.stop
  have hfinish := inv.finish runID hstop now usage save
  split
  · exact hfinish.trans hfinish.inv.stop
  · exact hfinish

/-- An assignment is started while no authoritative report is on its
way. -/
theorem AgentInv.handleAssign {x : Executor.Assignment}
    (hx : P x.runID) (hfree : a.reporting = false) (t : Trial) : AgentInv P (a.handleAssign x t)
      ∧ ∀ y, (a.handleAssign x t).mayRun y = true → a.mayRun y = true
        ∨ y = x.runID ∧ a.runner.host.claimed y = false := by
  have hstarted := a.runner.start_started x t
  generalize hres : a.runner.start x t = res at hstarted
  obtain ⟨runner, outcome⟩ := res
  -- the runner alone, before anything is said
  have hinv : AgentInv P { a with runner } := by
    refine ⟨inv.runner.started hstarted hx, inv.waiting, ?_, ?_, inv.opening⟩
    · intro e he
      exact (inv.vouched e he).extends hstarted.extends
    · intro hrep
      rw [show a.reporting = true from hrep] at hfree
      cases hfree
  have hwithin : ∀ y, Agent.mayRun { a with runner } y = true → a.mayRun y = true
        ∨ y = x.runID ∧ a.runner.host.claimed y = false := by
    intro y hy
    rcases Agent.mayRun_iff.mp hy with hlive | ⟨hwaiting, hunclaimed⟩
    · rcases hstarted.alive hlive with hold | hnew
      · exact Or.inl (Agent.mayRun_iff.mpr (Or.inl hold))
      · exact Or.inr hnew
    · exact Or.inl (Agent.mayRun_iff.mpr (Or.inr ⟨hwaiting, hstarted.extends.unclaimed hunclaimed⟩))
  unfold Agent.handleAssign
  rw [hres]
  split
  · next events heq =>
    cases heq
    have hstep : Custody P { a with runner } ({ a with runner }.emit x events) :=
      hinv.emit fun e he => inv.runner.started_vouched hstarted hx he
    exact ⟨hstep.inv, fun y hy => hwithin y (hstep.within y hy)⟩
  · next message heq =>
    cases heq
    have hstep : Custody P { a with runner } ({ a with runner }.send
        [.event (x.report (Agent.startFailure message t.now))]) := by
      refine hinv.send ?_ ?_
      · intro e he
        cases List.mem_singleton.mp he
        exact ⟨hx, fun hseq => absurd rfl hseq⟩
      · intro processes hrep
        cases List.mem_singleton.mp hrep
    exact ⟨hstep.inv, fun y hy => hwithin y (hstep.within y hy)⟩
  · next heq =>
    cases heq
    exact ⟨hinv, hwithin⟩

theorem AgentInv.handle {answer : Agent.Answer}
    (hended : answer.ended = true) : Custody P a (a.handle answer) := by
  unfold Agent.handle
  split
  · split
    · exact ⟨inv, fun _ h => h⟩
    · next x rest hinbox =>
      have hmem : .assign x ∈ a.inbox := by
        rw [hinbox]
        exact List.mem_cons_self
      have hwaiting : a.waiting x.runID = true := Agent.waiting_iff.mpr ⟨x, hmem, rfl⟩
      -- no report is on its way while an assignment waits
      have hfree : a.reporting = false := by
        rw [Bool.eq_false_iff]
        intro hrep
        have hnone := (inv.reporting hrep x.runID).1
        rw [hwaiting] at hnone
        cases hnone
      have hpop : Custody P a { a with inbox := rest } := by
        refine inv.commands fun y hy => ?_
        rw [hinbox]
        exact List.mem_cons_of_mem _ hy
      obtain ⟨hinv, hwithin⟩ := hpop.inv.handleAssign (inv.waiting _ hwaiting) hfree answer.trial
      refine ⟨hinv, fun y hy => ?_⟩
      rcases hwithin y hy with hold | ⟨hid, hnew⟩
      · exact hpop.within y hold
      · rw [hid] at hnew ⊢
        exact Agent.mayRun_iff.mpr (Or.inr ⟨hwaiting, hnew⟩)
    · next runID executionToken rest hinbox =>
      have hpop : Custody P a { a with inbox := rest } := by
        refine inv.commands fun y hy => ?_
        rw [hinbox]
        exact List.mem_cons_of_mem _ hy
      exact hpop.trans (hpop.inv.handleCancel runID executionToken
        answer.exitCode hended answer.failed answer.trial.now answer.usage answer.trial.save)
  · exact ⟨inv, fun _ h => h⟩

theorem AgentInv.forward (runID : String) : Custody P a (a.forward runID) := by
  unfold Agent.forward
  split
  · exact ⟨inv, fun _ h => h⟩
  next e hfind =>
  have hsaid := inv.vouched e (Or.inl (List.mem_of_find?_eq_some hfind))
  have hpop : Custody P a
      { a with emitted := a.emitted.eraseP (·.runID == runID) } := by
    refine inv.tell ?_ fun _ h => h
    intro e he
    exact Or.inl (he.imp_left List.mem_of_mem_eraseP)
  refine hpop.trans (hpop.inv.send ?_ ?_)
  · intro e' he'
    cases List.mem_singleton.mp he'
    exact hsaid
  · intro processes hrep
    cases List.mem_singleton.mp hrep

theorem AgentInv.sample (usage : String → Option ResourceUsage) : Custody P a (a.sample usage) := by
  unfold Agent.sample
  split
  · refine inv.send ?_ ?_
    · intro e he
      cases List.mem_singleton.mp he
    · intro processes hrep
      cases List.mem_singleton.mp hrep
  · exact ⟨inv, fun _ h => h⟩

theorem AgentInv.processEnds (runID : String) : Custody P a (a.processEnds runID) :=
  inv.settle (inv.runner.kill runID) (a.runner.host.kill_settles runID)

end Acts

/-- A process that is stopped has ended when the stop is over. -/
def Agent.Act.thorough : Agent.Act → Bool
  | .handle answer => answer.ended
  | .finish _ ending _ _ _ => ending.ended
  | _ => true

/-- Every step of an agent keeps what it holds and says true, and makes
no run startable or alive that was not. -/
theorem AgentInv.act
    (inv : AgentInv P a) {act : Agent.Act} (h : act.thorough = true) : Custody P a (a.act act) := by
  cases act with
  | connect => exact inv.connect
  | firstReport probed => exact inv.firstReport probed
  | cancelCommand runID executionToken =>
    exact inv.cancelCommand runID executionToken
  | handle answer => exact inv.handle h
  | finish runID stop now usage save => exact inv.finish runID h now usage save
  | forward runID => exact inv.forward runID
  | sample usage => exact inv.sample usage
  | processEnds runID => exact inv.processEnds runID
  | stop => exact inv.stop
  | lose i =>
    refine inv.keep ?_
    intro m hm
    cases hm

/-- An assignment is written to an agent that has opened and reports
nothing absent. -/
theorem AgentInv.assign (inv : AgentInv P a) {x : Executor.Assignment} (hx : P x.runID)
    (hserving : a.phase = .serving) (hfree : a.reporting = false) :
    AgentInv P (a.receive (.assign x)) := by
  unfold Agent.receive
  rw [if_neg (by rw [hserving]; decide)]
  refine ⟨inv.runner, ?_, inv.vouched, ?_, ?_⟩
  · intro y hy
    obtain ⟨z, hz, hid⟩ := Agent.waiting_iff.mp hy
    rcases List.mem_append.mp hz with hold | hnew
    · exact inv.waiting y (Agent.waiting_iff.mpr ⟨z, hold, hid⟩)
    · cases List.mem_singleton.mp hnew
      rw [← hid]
      exact hx
  · intro hrep
    rw [show a.reporting = true from hrep] at hfree
    cases hfree
  · intro hphase
    exact absurd hserving hphase

/-- Nothing else becomes startable by it, nor the run if it was claimed
before. -/
theorem Agent.mayRun_assign {x : Executor.Assignment} {y : String}
    (h : (a.receive (.assign x)).mayRun y = true) :
    a.mayRun y = true ∨ y = x.runID ∧ a.runner.host.claimed y = false := by
  unfold Agent.receive at h
  split at h
  · exact Or.inl h
  rcases Agent.mayRun_iff.mp h with hlive | ⟨hwaiting, hnew⟩
  · exact Or.inl (Agent.mayRun_iff.mpr (Or.inl hlive))
  obtain ⟨z, hz, hid⟩ := Agent.waiting_iff.mp hwaiting
  rcases List.mem_append.mp hz with hold | hmem
  · exact Or.inl (Agent.mayRun_iff.mpr (Or.inr ⟨Agent.waiting_iff.mpr ⟨z, hold, hid⟩, hnew⟩))
  · cases List.mem_singleton.mp hmem
    exact Or.inr ⟨hid.symm, hnew⟩

end Yunling
