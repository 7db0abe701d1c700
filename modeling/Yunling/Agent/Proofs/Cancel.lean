/-
When a cancel ends the agent.

`Cancel` fails for a run that is no longer active, for another token,
when the supervisor ends between the look and the hand-over, when the
stop reports an error, and when the agent is asked to stop meanwhile.
`ExecutionClient.Run` returns every one of these errors, and `main` ends
the process on it. The assignments of the same loop are treated
otherwise: an active run and a foreign token are passed over there.

# Shape of the argument

A run is active exactly as long as its supervisor has not taken it off
(`Attended`). A cancel that finds the run gone, or under another token,
is refused at the look. One that finds it still active while its
supervisor has left the `select` waits for a hand-over that never comes,
and the supervisor only goes on towards the close of `done` (`Late`): the
loop takes no further command, and ends with an error at the latest when
`done` is closed (`late_cancel_ends_agent`).
-/
import Yunling.Agent.Commands
import Yunling.Executor.Proofs.Records

namespace Yunling

open Executor Relational

/-- How far the end of a supervisor has come. -/
def Watch.stage : Watch → Nat
  | .watching => 0
  | .stopping _ => 1
  | .completing _ _ => 2
  | .leaving => 3
  | .removed => 4
  | .closed => 5

/-- The run is still among the active ones. -/
def Watch.keeps (watch : Watch) : Bool := watch.stage < 4

namespace Commands

-- ======== supervisors and active runs

/-- `Start` leaves the active runs alone or adds its own. -/
theorem start_active (r : Runner) (a : Executor.Assignment) (t : Trial) :
    (r.start a t).1.active = r.active
      ∨ ∃ run, (r.start a t).1.active = r.active.set a.runID run := by
  have hstarted := r.start_started a t
  generalize r.start a t = outcome at hstarted ⊢
  obtain ⟨runner, result⟩ := outcome
  cases hstarted with
  | refused | replayed | unclaimed | failed => exact Or.inl rfl
  | launched => exact Or.inr ⟨_, rfl⟩

/-- A run is active exactly as long as its supervisor has not taken it
off. -/
def Attended (s : Commands) : Prop :=
  ∀ runID, (s.runner.active.get? runID).isSome = (s.supervisors.get? runID).any Watch.keeps

section Attended

variable {s : Commands} {runID : String} (h : s.Attended)

include h

theorem Attended.setSupervisor {watch watch' : Watch}
    (hwatch : s.supervisors.get? runID = some watch) (hkeeps : watch'.keeps = watch.keeps) :
    Attended { s with supervisors := s.supervisors.set runID watch' } := by
  intro x
  rw [h x, Hash.get?_set]
  split
  · next hx =>
    rw [hx, hwatch]
    exact hkeeps.symm
  · rfl

theorem Attended.move {watch watch' : Watch} (hkeeps : watch'.keeps = watch.keeps) :
    (s.move runID watch watch').Attended := by
  unfold Commands.move
  split
  · next hwatch => exact h.setSupervisor hwatch hkeeps
  · exact h

theorem Attended.handleAssign (a : Executor.Assignment) (t : Trial) :
    (s.handleAssign a t).Attended := by
  intro x
  unfold Commands.handleAssign
  dsimp only
  have hx := h x
  rcases start_active s.runner a t with hactive | ⟨run, hactive⟩
  · rw [hactive, if_neg (by cases s.runner.active.get? a.runID <;> simp)]
    exact hx
  · rw [hactive, Hash.get?_set, Hash.get?_set, if_pos rfl]
    by_cases heq : x = a.runID
    · rw [if_pos heq]
      split
      · rw [Hash.get?_set, if_pos heq]
        rfl
      · next hold =>
        -- the run was active before
        rw [← hx, heq]
        simpa [Option.isSome_iff_ne_none] using hold
    · rw [if_neg heq, hx]
      split
      · rw [Hash.get?_set, if_neg heq]
      · rfl

theorem Attended.handle (t : Trial) : (s.handle t).Attended := by
  unfold Commands.handle
  split
  · next a rest _ _ => exact Attended.handleAssign (s := { s with inbox := rest }) h a t
  · unfold handleCancel
    repeat' split
    all_goals exact h
  · exact h

theorem Attended.stopped {exitCode : Int} {ended : Bool} {err : Option String} :
    (s.stopped runID exitCode ended err).Attended := by
  unfold Commands.stopped
  split
  · next why hwatch => exact h.setSupervisor hwatch rfl
  · exact h

theorem Attended.complete (now : Int) (usage : Option ResourceUsage) (save : Write) :
    (s.complete runID now usage save).Attended := by
  unfold Commands.complete
  split
  · next hwatch hrun => exact h.setSupervisor hwatch rfl
  · exact h

theorem Attended.remove : (s.remove runID).Attended := by
  unfold Commands.remove
  split
  · intro x
    rw [Hash.get?_del, Hash.get?_set]
    split
    · rfl
    · exact h x
  · exact h

theorem Attended.step (op : Op) : (s.step op).Attended := by
  unfold Commands.step
  split
  · exact h
  cases op with
  | receive | cancelContext => exact h
  | handle t => exact h.handle t
  | handOver =>
    show s.handOver.Attended
    unfold Commands.handOver
    repeat' split
    · next hwatch => exact h.setSupervisor hwatch rfl
    all_goals exact h
  | seeDone =>
    show s.seeDone.Attended
    unfold Commands.seeDone
    repeat' split
    all_goals exact h
  | receiveReply =>
    show s.receiveReply.Attended
    unfold Commands.receiveReply
    repeat' split
    all_goals exact h
  | seeCanceled =>
    show s.seeCanceled.Attended
    unfold Commands.seeCanceled
    repeat' split
    all_goals exact h
  | connectionFails message =>
    dsimp only
    split
    all_goals exact h
  | exit | timeout => exact h.move rfl
  | agentStop runID =>
    show (s.agentStop runID).Attended
    unfold Commands.agentStop
    split
    · exact h.move rfl
    · exact h
  | stopped => exact h.stopped
  | complete runID now usage save => exact h.complete now usage save
  | remove => exact h.remove
  | closeDone => exact h.move rfl

end Attended

theorem attended_run (host : Host) (ops : List Op) : (run host ops).Attended := by
  have hfresh : (fresh host).Attended := fun _ => rfl
  exact Transition.run_invariant (I := Attended) (fun _ op h => h.step op) hfresh ops

-- ======== late cancels

/-- A cancel of the run has failed, or waits to hand its request to a
supervisor that has come to stage `n`. -/
def Late (s : Commands) (runID : String) (n : Nat) : Prop :=
  (∃ e, s.loop = .cancelFailed e)
    ∨ s.loop = .handing runID ∧ ∃ watch, s.supervisors.get? runID = some watch ∧ n ≤ watch.stage

section Late

variable {s : Commands} {runID : String} {n : Nat}

/-- A supervisor moves on while the cancel waits. -/
theorem Late.setSupervisor {x : String} {watch watch' : Watch} (h : s.Late runID n)
    (hwatch : s.supervisors.get? x = some watch) (hstage : watch.stage ≤ watch'.stage) :
    Late { s with supervisors := s.supervisors.set x watch' } runID n := by
  rcases h with hfailed | ⟨hloop, old, hold, hn⟩
  · exact Or.inl hfailed
  refine Or.inr ⟨hloop, ?_⟩
  rw [Hash.get?_set]
  split
  · next heq =>
    rw [← heq, hold] at hwatch
    cases hwatch
    exact ⟨watch', rfl, Nat.le_trans hn hstage⟩
  · exact ⟨old, hold, hn⟩

theorem Late.move {x : String} {watch watch' : Watch} (h : s.Late runID n)
    (hstage : watch.stage ≤ watch'.stage) : (s.move x watch watch').Late runID n := by
  unfold Commands.move
  split
  · next hwatch => exact h.setSupervisor hwatch hstage
  · exact h

/-- The loop does not go on: whatever else happens, the cancel waits or
fails, and the supervisor does not turn back. -/
theorem Late.step (h : s.Late runID n) (hn : 1 ≤ n) (op : Op) : (s.step op).Late runID n := by
  unfold Commands.step
  split
  · exact h
  next halive =>
  obtain ⟨hloop, watch, hwatch, hstage⟩ : s.loop = .handing runID
      ∧ ∃ watch, s.supervisors.get? runID = some watch ∧ n ≤ watch.stage := by
    rcases h with ⟨e, he⟩ | hwaits
    · simp [fatal, he] at halive
    · exact hwaits
  cases op with
  | receive | cancelContext => exact h
  | handle t =>
    have hsame : s.handle t = s := by simp [handle, hloop]
    dsimp only
    rw [hsame]
    exact h
  | handOver =>
    -- the supervisor is not in its select any more
    have hleft : s.supervisors.get? runID ≠ some .watching := by
      rw [hwatch]
      rintro ⟨⟩
      exact absurd hstage (by simp [Watch.stage]; omega)
    have hsame : s.handOver = s := by simp [handOver, hloop, hleft]
    dsimp only
    rw [hsame]
    exact h
  | seeDone =>
    show s.seeDone.Late runID n
    simp only [seeDone, hloop]
    split
    · exact Or.inl ⟨_, rfl⟩
    · exact h
  | receiveReply =>
    have hsame : s.receiveReply = s := by simp [receiveReply, hloop]
    dsimp only
    rw [hsame]
    exact h
  | seeCanceled =>
    show s.seeCanceled.Late runID n
    simp only [seeCanceled, hloop]
    split
    · exact Or.inl ⟨_, rfl⟩
    · exact h
  | connectionFails message =>
    dsimp only
    rw [if_neg (by simp [hloop])]
    exact h
  | exit | timeout | closeDone => exact h.move (by simp [Watch.stage])
  | agentStop x =>
    show (s.agentStop x).Late runID n
    unfold Commands.agentStop
    split
    · exact h.move (by simp [Watch.stage])
    · exact h
  | stopped x exitCode ended err =>
    show (s.stopped x exitCode ended err).Late runID n
    unfold Commands.stopped
    split
    · next hstopping => exact h.setSupervisor hstopping (by simp [Watch.stage])
    · exact h
  | complete x now usage save =>
    show (s.complete x now usage save).Late runID n
    unfold Commands.complete
    split
    · next hcompleting _ => exact h.setSupervisor hcompleting (by simp [Watch.stage])
    · exact h
  | remove x =>
    show (s.remove x).Late runID n
    unfold Commands.remove
    split
    · next hleaving => exact h.setSupervisor hleaving (by simp [Watch.stage])
    · exact h

/-- A step that moves a supervisor on from stage `n` brings the cancel to
the next stage. -/
theorem Late.next (h : s.Late runID n) (hn : 1 ≤ n) {op : Op}
    (hop : ∀ watch, s.loop = .handing runID → s.supervisors.get? runID = some watch →
      watch.stage = n → (s.step op).Late runID (n + 1)) : (s.step op).Late runID (n + 1) := by
  rcases h with hfailed | ⟨hloop, watch, hwatch, hstage⟩
  · exact Late.step (Or.inl hfailed) (by omega) op
  · by_cases heq : watch.stage = n
    · exact hop watch hloop hwatch heq
    · exact Late.step (Or.inr ⟨hloop, watch, hwatch, by omega⟩) (by omega) op

/-- The steps in which a supervisor comes to its end. -/
def endOf (runID : String) (exitCode : Int) (ended : Bool) (err : Option String)
    (now : Int) (usage : Option ResourceUsage) (save : Write) : List Op :=
  [.stopped runID exitCode ended err, .complete runID now usage save, .remove runID,
    .closeDone runID]

theorem Late.stopped (h : s.Late runID 1) {exitCode : Int} {ended : Bool} {err : Option String} :
    (s.step (.stopped runID exitCode ended err)).Late runID 2 := by
  refine h.next (by omega) fun watch hloop hwatch hstage => Or.inr ?_
  cases watch with
  | stopping why =>
    simp [Commands.step, fatal, hloop, Commands.stopped, hwatch, Hash.get?_set, Watch.stage]
  | _ => cases hstage

/-- A supervisor that has not finished has its run among the active
ones. -/
theorem Late.complete (h : s.Late runID 2) (hattended : s.Attended) {now : Int}
    {usage : Option ResourceUsage} {save : Write} :
    (s.step (.complete runID now usage save)).Late runID 3 := by
  refine h.next (by omega) fun watch hloop hwatch hstage => Or.inr ?_
  have hactive := hattended runID
  rw [hwatch] at hactive
  cases watch with
  | completing stop reply =>
    obtain ⟨run, hrun⟩ := Option.isSome_iff_exists.mp hactive
    simp [Commands.step, fatal, hloop, Commands.complete, hwatch, hrun, Hash.get?_set, Watch.stage]
  | _ => cases hstage

theorem Late.remove (h : s.Late runID 3) : (s.step (.remove runID)).Late runID 4 := by
  refine h.next (by omega) fun watch hloop hwatch hstage => Or.inr ?_
  cases watch with
  | leaving =>
    simp [Commands.step, fatal, hloop, Commands.remove, hwatch, Hash.get?_set, Watch.stage]
  | _ => cases hstage

theorem Late.closeDone (h : s.Late runID 4) : (s.step (.closeDone runID)).Late runID 5 := by
  refine h.next (by omega) fun watch hloop hwatch hstage => Or.inr ?_
  cases watch with
  | removed =>
    simp [Commands.step, fatal, hloop, Commands.move, hwatch, Hash.get?_set, Watch.stage]
  | _ => cases hstage

/-- When `done` is closed the cancel fails. -/
theorem Late.seeDone (h : s.Late runID 5) : ∃ e, (s.step .seeDone).loop = .cancelFailed e := by
  have hnext : (s.step .seeDone).Late runID 6 := by
    refine h.next (by omega) fun watch hloop hwatch hstage => Or.inl ?_
    cases watch with
    | closed => simp [Commands.step, fatal, hloop, Commands.seeDone, hwatch]
    | _ => cases hstage
  rcases hnext with hfailed | ⟨-, watch, -, hstage⟩
  · exact hfailed
  · cases watch <;> simp [Watch.stage] at hstage

end Late

/-- The request of a cancel can be handed over: the run is active under
its token, and its supervisor in the `select`. -/
def Reachable (s : Commands) (runID executionToken : String) : Prop :=
  (s.runner.active.get? runID).any (·.executionToken == executionToken)
    ∧ s.supervisors.get? runID = some .watching

instance (s : Commands) (runID executionToken : String) :
    Decidable (s.Reachable runID executionToken) :=
  inferInstanceAs (Decidable (_ ∧ _))

/-- The look of a cancel that cannot be handed over. -/
theorem Attended.late_handle {s : Commands} (h : s.Attended) {runID executionToken : String}
    {rest : List ExecutionCommand} (hloop : s.loop = .idle)
    (hinbox : s.inbox = .cancel runID executionToken :: rest)
    (hlate : ¬ s.Reachable runID executionToken) (t : Trial) :
    (s.step (.handle t)).Late runID 1 := by
  have hstep : s.step (.handle t) = { s with inbox := rest }.handleCancel runID executionToken := by
    simp [Commands.step, fatal, Commands.handle, hloop, hinbox]
  rw [hstep]
  unfold handleCancel
  dsimp only
  have hactive := h runID
  cases hrun : s.runner.active.get? runID with
  | none => exact Or.inl ⟨_, rfl⟩
  | some run =>
    dsimp only
    split
    · exact Or.inl ⟨_, rfl⟩
    next htok =>
    rw [hrun] at hactive
    cases hwatch : s.supervisors.get? runID with
    | none =>
      rw [hwatch] at hactive
      cases hactive
    | some watch =>
      refine Or.inr ⟨rfl, watch, hwatch, ?_⟩
      cases watch with
      | watching => exact absurd ⟨by simpa [hrun] using htok, hwatch⟩ hlate
      | _ => simp [Watch.stage]

-- ======== cancels and the agent

/-- A cancel that comes when its run is gone, is active under another
token or has a supervisor that has left its `select`, and a cancel whose
supervisor leaves the `select` before the request is handed over, ends
the agent: whatever happens next, the loop takes no further command and
does not return without an error, and when the supervisor comes to its
end the loop fails. -/
theorem late_cancel_ends_agent (host : Host) (ops later : List Op) (t : Trial)
    (runID executionToken : String) (rest : List ExecutionCommand) (exitCode : Int) (ended : Bool)
    (err : Option String) (now : Int) (usage : Option ResourceUsage) (save : Write)
    (hlate : (run host ops).loop = .idle
        ∧ (run host ops).inbox = .cancel runID executionToken :: rest
        ∧ ¬ (run host ops).Reachable runID executionToken
      ∨ (run host ops).loop = .handing runID
        ∧ ∃ watch, (run host ops).supervisors.get? runID = some watch ∧ watch ≠ .watching) :
    let s := run host (ops ++ .handle t :: later)
    let s' := run host (ops ++ .handle t :: later
      ++ (endOf runID exitCode ended err now usage save ++ [.seeDone]))
    (s.loop = .handing runID ∨ ∃ e, s.loop = .cancelFailed e)
      ∧ (∃ e, s'.loop = .cancelFailed e) ∧ s'.fatal = true := by
  intro s s'
  have hlooked : ((run host ops).step (.handle t)).Late runID 1 := by
    rcases hlate with ⟨hloop, hinbox, hlate⟩ | ⟨hloop, watch, hwatch, hleft⟩
    · exact (attended_run host ops).late_handle hloop hinbox hlate t
    · refine Late.step (Or.inr ⟨hloop, watch, hwatch, ?_⟩) (by omega) _
      cases watch with
      | watching => exact absurd rfl hleft
      | _ => simp [Watch.stage]
  have hs : s = Transition.run step ((run host ops).step (.handle t)) later :=
    Transition.run_append step (fresh host) ops (.handle t :: later)
  have hwaits : s.Late runID 1 := by
    rw [hs]
    exact Transition.run_invariant (I := fun s : Commands => s.Late runID 1)
      (fun _ op h => h.step (by omega) op) hlooked later
  have hclosed : (Transition.run step s (endOf runID exitCode ended err now usage save)).Late
      runID 5 :=
    ((hwaits.stopped.complete ((attended_run _ _).step _)).remove).closeDone
  obtain ⟨e, he⟩ : ∃ e, s'.loop = .cancelFailed e := by
    have hs' : s' = Transition.run step s _ := Transition.run_append step (fresh host) ..
    rw [hs', Transition.run_append]
    exact hclosed.seeDone
  refine ⟨?_, ⟨e, he⟩, ?_⟩
  · rcases hwaits with hfailed | ⟨hloop, -⟩
    · exact Or.inr hfailed
    · exact Or.inl hloop
  · unfold fatal
    rw [he]

/-- What the outside answers to an assignment that is launched. -/
def launches : Trial :=
  ⟨none, false, false, none, .done, none, .done, 1⟩

/-- Two runs are launched. -/
def twoRuns : List Op :=
  [.receive (.assign ⟨"run", "token"⟩), .handle launches,
    .receive (.assign ⟨"other", "token"⟩), .handle launches]

/-- The process of a run ends and its supervisor with it. -/
def runEnds : List Op :=
  endOf "run" 0 true none 2 none .done

/-- A cancel comes after the end of its run; another one finds the run,
and then its process ends. -/
theorem late_cancel_ends_agent_exited :
    let gone := twoRuns ++ .exit "run" 0 none :: runEnds ++ [.receive (.cancel "run" "token")]
    let left := twoRuns ++ [.receive (.cancel "run" "token"), .handle launches,
      .exit "run" 0 none]
    (run .empty (gone ++ [.handle launches] ++ (runEnds ++ [.seeDone]))).fatal = true
      ∧ (run .empty (left ++ [.handle launches] ++ (runEnds ++ [.seeDone]))).fatal = true := by
  intro gone left
  have hgone := late_cancel_ends_agent .empty gone [] launches "run" "token" [] 0 true none 2
    none .done (Or.inl ⟨rfl, rfl, by decide⟩)
  have hleft := late_cancel_ends_agent .empty left [] launches "run" "token" [] 0 true none 2
    none .done (Or.inr ⟨rfl, _, rfl, by decide⟩)
  exact ⟨hgone.2.2, hleft.2.2⟩

/-- A cancel ends the agent, and the supervision of another run with it,
when it comes after the end of its run, when it names another token, and
when the process ends between the look and the hand-over. -/
theorem cancel_ends_agent : (∀ ops ∈ [
        .exit "run" 0 none :: runEnds ++ [.receive (.cancel "run" "token"), .handle launches],
        [.receive (.cancel "run" "stale"), .handle launches],
        .receive (.cancel "run" "token") :: .handle launches :: .exit "run" 0 none :: runEnds
          ++ [.seeDone]],
      (run .empty (twoRuns ++ ops)).fatal = true
        ∧ (run .empty (twoRuns ++ ops)).supervisors.get? "other" = some .watching)
      ∧ (run .empty (twoRuns ++ .exit "run" 0 none :: runEnds
          ++ [.receive (.cancel "run" "token"), .handle launches])).loop
        = .cancelFailed .runNotRunning := by
  decide

-- ======== a cancel on its own

section Undisturbed

variable {s : Commands} {runID : String} {exitCode : Int} {ended : Bool} {err : Option String}
  {now : Int} {usage : Option ResourceUsage} {save : Write} {run : ActiveRun}

theorem step_look (hloop : s.loop = .idle) {rest : List ExecutionCommand}
    (hinbox : s.inbox = .cancel runID run.executionToken :: rest)
    (hrun : s.runner.active.get? runID = some run) (t : Trial) :
    s.step (.handle t) = { s with inbox := rest, loop := .handing runID } := by
  simp [step, fatal, handle, hloop, hinbox, handleCancel, hrun]

theorem step_handOver (hloop : s.loop = .handing runID)
    (hwatch : s.supervisors.get? runID = some .watching) : s.step .handOver = { s with
      loop := .awaiting runID
      supervisors := s.supervisors.set runID (.stopping .request) } := by
  simp [step, fatal, handOver, hloop, hwatch]

theorem step_stopped (hloop : s.loop = .awaiting runID)
    (hwatch : s.supervisors.get? runID = some (.stopping .request)) :
    s.step (.stopped runID exitCode ended err) = { s with
      supervisors := s.supervisors.set runID
        (.completing (.cancelled exitCode ended) (some err)) } := by
  simp [step, fatal, stopped, hloop, hwatch]

/-- The outcome is recorded as the undivided end of an execution records
it; the run is still among the active ones. -/
theorem step_complete (hloop : s.loop = .awaiting runID) {stop : Stop}
    (hwatch : s.supervisors.get? runID = some (.completing stop (some err)))
    (hrun : s.runner.active.get? runID = some run) :
    s.step (.complete runID now usage save) = { s with
      runner := { s.runner with host := (s.runner.finish runID stop now usage save).1.host }
      supervisors := s.supervisors.set runID .leaving
      replies := s.replies.set runID err } := by
  simp [step, fatal, complete, Runner.finish, hloop, hwatch, hrun]

theorem step_reply (hloop : s.loop = .awaiting runID) (hreply : s.replies.get? runID = some none) :
    s.step .receiveReply = { s with loop := .idle, replies := s.replies.del runID } := by
  simp [step, fatal, receiveReply, hloop, hreply]

/-- The error of the stop ends the loop, and with it the agent. -/
theorem run_reply_failed {message : String} (hloop : s.loop = .awaiting runID)
    (hreply : s.replies.get? runID = some (some message)) (ops : List Op) :
    Transition.run step s (.receiveReply :: ops)
      = { s with loop := .cancelFailed (.stopFailed message) } := by
  have hreceived : s.step .receiveReply
      = { s with loop := .cancelFailed (.stopFailed message) } := by
    simp [step, fatal, receiveReply, hloop, hreply]
  rw [Transition.run_cons, hreceived]
  induction ops with
  | nil => rfl
  | cons op ops ih => exact ih

theorem step_remove (hloop : s.loop = .idle) (hwatch : s.supervisors.get? runID = some .leaving) :
    s.step (.remove runID) = { s with
      runner := { s.runner with active := s.runner.active.del runID }
      supervisors := s.supervisors.set runID .removed } := by
  simp [step, fatal, remove, hloop, hwatch]

theorem step_closeDone (hloop : s.loop = .idle)
    (hwatch : s.supervisors.get? runID = some .removed) : s.step (.closeDone runID) = { s with
      supervisors := s.supervisors.set runID .closed } := by
  simp [step, fatal, move, hloop, hwatch]

/-- The runner after an undivided cancel: that after the end of the
execution, or, if the stop failed, a new one on the same machine. -/
theorem handleCancel_runner {a : Agent} (hrun : a.runner.active.get? runID = some run)
    (failed : Bool) :
    (a.handleCancel runID run.executionToken exitCode ended failed now usage save).runner
      = let r := (a.runner.finish runID (.cancelled exitCode ended) now usage save).1
        if failed then .fresh r.host else r := by
  cases failed <;> simp [Agent.handleCancel, Agent.finish, Runner.finish, hrun, Agent.emit,
    Agent.stop]

/-- What is left of the runner once the run is taken off. -/
theorem finish_active (r : Runner) (hrun : r.active.get? runID = some run) (stop : Stop) :
    (r.finish runID stop now usage save).1.active = r.active.del runID := by
  simp [Runner.finish, hrun]

/-- The look, the hand-over, the stop and the completion of a cancel that
nothing disturbs. -/
theorem run_cancelled (hloop : s.loop = .idle) {rest : List ExecutionCommand}
    (hinbox : s.inbox = .cancel runID run.executionToken :: rest)
    (hrun : s.runner.active.get? runID = some run)
    (hwatch : s.supervisors.get? runID = some .watching) (t : Trial) :
    Transition.run step s [.handle t, .handOver, .stopped runID exitCode ended err,
        .complete runID now usage save] = { s with
      inbox := rest
      loop := .awaiting runID
      runner := { s.runner with
        host := (s.runner.finish runID (.cancelled exitCode ended) now usage save).1.host }
      supervisors := s.supervisors.set runID .leaving
      replies := s.replies.set runID err } := by
  have hset (watches : Hash String Watch) (watch : Watch) :
      (watches.set runID watch).get? runID = some watch := by rw [Hash.get?_set, if_pos rfl]
  have hhanded : step { s with inbox := rest, loop := .handing runID } .handOver = _ :=
    step_handOver rfl hwatch
  let stopped := Watch.completing (.cancelled exitCode ended) (some err)
  have hcompleted : step { s with
      inbox := rest
      loop := .awaiting runID
      supervisors := s.supervisors.set runID stopped } (.complete runID now usage save) = _ :=
    step_complete rfl (hset _ _) hrun
  rw [Transition.run_cons, step_look hloop hinbox hrun, Transition.run_cons, hhanded,
    Transition.run_cons, step_stopped rfl (hset _ _), Transition.run_cons]
  dsimp only
  rw [Hash.set_set, hcompleted, Hash.set_set]
  rfl

/-- A cancel that nothing disturbs does what the undivided cancel does.
If the stop reports no error the runner is left the same and the loop
goes on; if it reports one the loop ends with it, and an agent started
anew finds the machine as after the undivided cancel. -/
theorem cancel_undisturbed {a : Agent} (hrunner : s.runner = a.runner) (hloop : s.loop = .idle)
    {rest : List ExecutionCommand}
    (hinbox : s.inbox = .cancel runID run.executionToken :: rest)
    (hrun : s.runner.active.get? runID = some run)
    (hwatch : s.supervisors.get? runID = some .watching) (t : Trial) :
    let s' := Transition.run step s [.handle t, .handOver, .stopped runID exitCode ended err,
        .complete runID now usage save, .receiveReply, .remove runID, .closeDone runID]
    let undivided := a.handleCancel runID run.executionToken exitCode ended err.isSome
      now usage save
    (err = none → s'.loop = .idle ∧ s'.runner = undivided.runner)
      ∧ ∀ message, err = some message → s'.loop = .cancelFailed (.stopFailed message)
        ∧ s'.fatal = true ∧ .fresh s'.runner.host = undivided.runner := by
  intro s' undivided
  have hs' : s' = Transition.run step (Transition.run step s [.handle t, .handOver,
      .stopped runID exitCode ended err, .complete runID now usage save])
      [.receiveReply, .remove runID, .closeDone runID] := rfl
  rw [run_cancelled hloop hinbox hrun hwatch t] at hs'
  have hundivided : undivided.runner = _ := handleCancel_runner (hrunner ▸ hrun) err.isSome
  rw [hundivided, ← hrunner]
  have hset {β : Type} (h : Hash String β) (v : β) : (h.set runID v).get? runID = some v := by
    rw [Hash.get?_set, if_pos rfl]
  constructor
  · intro herr
    subst herr
    rw [hs', Transition.run_cons, step_reply rfl (hset _ _), Transition.run_cons,
      step_remove rfl (hset _ _), Transition.run_cons, step_closeDone rfl (hset _ _)]
    refine ⟨rfl, ?_⟩
    show (⟨s.runner.active.del runID, _⟩ : Runner) = _
    rw [← finish_active s.runner hrun]
    rfl
  · intro message herr
    subst herr
    rw [hs', run_reply_failed rfl (hset _ _)]
    exact ⟨rfl, rfl, rfl⟩

end Undisturbed

/-- One of two runs is cancelled while its process runs; the stop reports
no error, or one. -/
theorem cancel_undisturbed_running :
    let s := run .empty (twoRuns ++ [.receive (.cancel "run" "token")])
    let cancel (err : Option String) := Transition.run step s [.handle launches, .handOver,
      .stopped "run" 0 true err, .complete "run" 2 none .done, .receiveReply, .remove "run",
      .closeDone "run"]
    (cancel none).runner = (({ Agent.unborn with runner := s.runner } : Agent).handleCancel
        "run" "token" 0 true false 2 none .done).runner
      ∧ (cancel (some "kill")).loop = .cancelFailed (.stopFailed "kill") := by
  intro s cancel
  have hrun : s.runner.active.get? "run" = some ⟨"token", launchStarted 1⟩ := rfl
  refine ⟨?_, ?_⟩
  · exact ((cancel_undisturbed rfl rfl rfl hrun rfl launches).1 rfl).2
  · exact ((cancel_undisturbed (a := { Agent.unborn with runner := s.runner }) rfl rfl rfl
      hrun rfl launches).2 "kill" rfl).1

end Commands

end Yunling
