/-
What the records of a machine say about its processes.

A process is only launched for a run that is being claimed, and a claim
stays. So a live process was claimed, a claimed run without a process
never gets one again, and an event that ends a started execution speaks
of a process that is gone for good.

# Shape of the argument

`Started` says once what a call of `Start` can do; everything below is
read off its five cases. `Host.Extends` is what every step of a runner
does to its machine: claims stay, and a process that is new belongs to a
run that was not claimed. What an event says (`Vouched`) survives such
steps.
-/
import Yunling.Executor.Runner

namespace Yunling.Executor

open Relational

variable {a : Assignment} {host host' : Host} {x : String}
  {outcome : Except StartError (List Event)} {r : Runner} {P : String → Prop}

-- ======== writing

section Writing

variable {files : Hash String RecordFile} {record : ExecutionRecord}
  {w : Write} {x : String} {f : RecordFile}

theorem write_keeps (h : files.get? x = some f) :
    (writeExecutionRecord files record w).1.get? x = some f := by
  unfold writeExecutionRecord
  by_cases hx : (files.get? record.runID).isSome
  · rw [if_pos hx]
    exact h
  have hne : x ≠ record.runID := by
    intro heq
    rw [← heq, h] at hx
    exact hx rfl
  rw [if_neg hx]
  cases w with
  | done | oversize | torn | unsynced => rw [Hash.get?_set, if_neg hne, h]
  | unopened => exact h

/-- A record that is new is the one written, or what came of it. -/
theorem write_get? (h : (writeExecutionRecord files record w).1.get? x = some f) :
    files.get? x = some f
      ∨ x = record.runID ∧ ∀ record', f = .whole record' → record' = record := by
  unfold writeExecutionRecord at h
  split at h
  · exact Or.inl h
  cases w with
  | unopened => exact Or.inl h
  | done | oversize | torn | unsynced =>
    rw [Hash.get?_set] at h
    split at h
    · next hx =>
      refine Or.inr ⟨hx, fun record' hwhole => ?_⟩
      rw [hwhole] at h
      simpa using h.symm
    · exact Or.inl h

/-- A write that succeeds created the record. -/
theorem write_done (h : (writeExecutionRecord files record w).2 = true) :
    ((writeExecutionRecord files record w).1.get? record.runID).isSome := by
  unfold writeExecutionRecord at h ⊢
  split at h
  · cases h
  next hx =>
  rw [if_neg hx]
  cases w with
  | done | oversize =>
    rw [Hash.get?_set, if_pos rfl]
    rfl
  | unopened | torn | unsynced => cases h

end Writing

-- ======== the start

/-- The claims after an attempt to claim a run. -/
def Host.claim (host : Host) (a : Assignment) (w : Write) : Host :=
  { host with
    claims := (writeExecutionRecord host.claims (a.record []) w).1 }

/-- What a call of `Start` can do. -/
inductive Started (r : Runner) (a : Assignment) : Runner → Except StartError (List Event) → Prop
  /-- refused -/
  | refused (e : StartError) : Started r a r (.error e)
  /-- answered from the result -/
  | replayed (result : ExecutionRecord) (claimed : r.host.claimed a.runID = true)
      (found : r.host.results.get? a.runID = some (.whole result)) :
      Started r a r (.ok result.events)
  /-- the claim went wrong -/
  | unclaimed (w : Write) (new : r.host.claimed a.runID = false) :
      Started r a { r with host := r.host.claim a w } (.error .executionUncertain)
  /-- claimed, but not launched -/
  | failed (w save : Write) (message : String) (now : Int) (new : r.host.claimed a.runID = false)
      (claimed : (r.host.claim a w).claimed a.runID = true) : Started r a
        { r with
          host := { r.host.claim a w with
            results := (writeExecutionRecord r.host.results
              (a.record [launchFailure message now]) save).1 } }
        (.ok [launchFailure message now])
  /-- launched -/
  | launched (w : Write) (now : Int) (new : r.host.claimed a.runID = false)
      (claimed : (r.host.claim a w).claimed a.runID = true) : Started r a
        { active := r.active.set a.runID ⟨a.executionToken, launchStarted now⟩
          host := { r.host.claim a w with
            processes := a.runID :: r.host.processes } }
        (.ok [launchStarted now])

theorem Host.replay_none (h : host.replay a = none) : host.claimed a.runID = false := by
  unfold Host.claimed
  cases hc : host.claims.get? a.runID with
  | none => rfl
  | some file =>
    -- where there is a claim there is an answer
    cases file with
    | torn | oversize => simp [Host.replay, hc] at h
    | whole claim =>
      simp only [Host.replay, hc] at h
      repeat' split at h
      all_goals cases h

theorem Host.replay_ok {events : List Event} (h : host.replay a = some (.ok events)) :
    host.claimed a.runID = true
      ∧ ∃ result, host.results.get? a.runID = some (.whole result) ∧ result.events = events := by
  unfold Host.replay at h
  unfold Host.claimed
  cases hc : host.claims.get? a.runID with
  | none => rw [hc] at h; cases h
  | some file =>
    refine ⟨rfl, ?_⟩
    repeat' split at h
    all_goals first
      | cases h; exact ⟨_, ‹_›, rfl⟩
      | cases h

theorem Runner.look_started {b : Bool} {found : Except StartError (List Event)}
    (h : r.look a b = some found) : Started r a r found := by
  cases found with
  | error e => exact .refused e
  | ok events =>
    unfold Runner.look at h
    repeat' split at h
    all_goals try cases h
    obtain ⟨hclaimed, result, hresult, rfl⟩ := Host.replay_ok h
    exact .replayed result hclaimed hresult

theorem Runner.look_none {b : Bool} (h : r.look a b = none) : r.host.claimed a.runID = false := by
  unfold Runner.look at h
  repeat' split at h
  all_goals try cases h
  exact Host.replay_none h

theorem Runner.launch_started (new : r.host.claimed a.runID = false) (t : Trial) :
    Started r a (r.launch a t).1 (r.launch a t).2 := by
  unfold Runner.launch
  dsimp only
  split
  · exact .unclaimed t.claim new
  next hdone =>
  have hclaimed : (r.host.claim a t.claim).claimed a.runID = true :=
    write_done (Bool.eq_true_of_not_eq_false hdone)
  split
  · exact .failed t.claim t.save _ t.now new hclaimed
  · exact .launched t.claim t.now new hclaimed

/-- Every call of `Start` is one of the five. -/
theorem Runner.start_started (r : Runner) (a : Assignment) (t : Trial) :
    Started r a (r.start a t).1 (r.start a t).2 := by
  unfold Runner.start
  split
  · exact .refused _
  split
  · next h => exact Runner.look_started h
  next h =>
  split
  · exact .refused _
  · split
    · next h' => exact Runner.look_started h'
    · exact Runner.launch_started (Runner.look_none h) t

-- ======== what a step leaves

/-- What the steps of a runner do to its machine. -/
structure Host.Extends (host host' : Host) : Prop where
  claimed : ∀ x, host.claimed x = true → host'.claimed x = true
  alive : ∀ x, host'.alive x = true → host.alive x = true ∨ host.claimed x = false

theorem Host.Extends.unclaimed (h : host.Extends host')
    (hx : host'.claimed x = false) : host.claimed x = false := by
  rw [Bool.eq_false_iff] at hx ⊢
  exact fun hclaimed => hx (h.claimed x hclaimed)

/-- A step that starts nothing. -/
structure Host.Settles (host host' : Host) : Prop where
  claimed : ∀ x, host.claimed x = true → host'.claimed x = true
  alive : ∀ x, host'.alive x = true → host.alive x = true

theorem Host.Settles.refl (host : Host) : host.Settles host := ⟨fun _ h => h, fun _ h => h⟩

theorem Host.Settles.dead (h : host.Settles host')
    (hx : host.alive x = false) : host'.alive x = false := by
  rw [Bool.eq_false_iff] at hx ⊢
  exact fun hlive => hx (h.alive x hlive)

theorem Host.Settles.extends (h : host.Settles host') : host.Extends host' :=
  ⟨h.claimed, fun x hx => Or.inl (h.alive x hx)⟩

/-- A reported event: its run is among those the agent has to do with,
and an event past the first one ends a process that is gone. -/
def Vouched (P : String → Prop) (host : Host) (e : AgentRunEvent) : Prop :=
  P e.runID ∧ (e.sequence ≠ 1 →
    host.claimed e.runID = true ∧ host.alive e.runID = false)

theorem Vouched.extends
    {e : AgentRunEvent} (h : Vouched P host e) (hext : host.Extends host') : Vouched P host' e := by
  refine ⟨h.1, fun hseq => ?_⟩
  obtain ⟨hclaimed, hdead⟩ := h.2 hseq
  refine ⟨hext.claimed _ hclaimed, Bool.eq_false_iff.mpr fun hlive => ?_⟩
  rcases hext.alive _ hlive with hold | hnew
  · rw [hold] at hdead
    cases hdead
  · rw [hclaimed] at hnew
    cases hnew

/-- The runner and its machine; `P` holds of the runs the machine has to
do with. -/
structure RunnerInv (P : String → Prop) (r : Runner) : Prop where
  known : ∀ x, r.host.claimed x = true → P x
  /-- processes are launched under a claim -/
  launched : ∀ x, r.host.alive x = true → r.host.claimed x = true
  active : ∀ x run, r.active.get? x = some run → r.host.claimed x = true
  /-- a result belongs to a claim, and what it says is true -/
  recorded : ∀ x result, r.host.results.get? x = some (.whole result) → r.host.claimed x = true ∧
      ∀ e ∈ result.events, e.sequence ≠ 1 → r.host.alive x = false

theorem Host.alive_cons (host : Host) (runID x : String) :
    { host with processes := runID :: host.processes }.alive x = true
      ↔ x = runID ∨ host.alive x = true := by
  simp [Host.alive]

theorem Host.alive_kill (host : Host) (runID x : String) :
    (host.kill runID).alive x = true ↔ host.alive x = true ∧ x ≠ runID := by
  simp [Host.alive, Host.kill]

theorem Host.kill_settles (host : Host) (runID : String) : host.Settles (host.kill runID) :=
  ⟨fun _ h => h, fun x h => ((host.alive_kill runID x).mp h).1⟩

theorem Host.claimed_claim {w : Write} (h : (host.claim a w).claimed x = true) :
    host.claimed x = true ∨ x = a.runID := by
  obtain ⟨f, hf⟩ := Option.isSome_iff_exists.mp h
  rcases write_get? hf with hold | ⟨hx, -⟩
  · exact Or.inl (Option.isSome_of_eq_some hold)
  · exact Or.inr hx

theorem Host.claimed_of_claimed (host : Host) (a : Assignment) (w : Write)
    (h : host.claimed x = true) : (host.claim a w).claimed x = true := by
  obtain ⟨f, hf⟩ := Option.isSome_iff_exists.mp h
  exact Option.isSome_of_eq_some (write_keeps hf)

section Steps

variable {P : String → Prop} {r r' : Runner} {a : Assignment}
  {outcome : Except StartError (List Event)} (inv : RunnerInv P r)
include inv

theorem RunnerInv.claim (hP : P a.runID) (w : Write) :
    RunnerInv P { r with host := r.host.claim a w } := by
  constructor
  · intro x hx
    rcases Host.claimed_claim hx with hold | hnew
    · exact inv.known x hold
    · rw [hnew]
      exact hP
  · intro x hx
    exact r.host.claimed_of_claimed a w (inv.launched x hx)
  · intro x run hx
    exact r.host.claimed_of_claimed a w (inv.active x run hx)
  · intro x result hx
    obtain ⟨hclaimed, htrue⟩ := inv.recorded x result hx
    exact ⟨r.host.claimed_of_claimed a w hclaimed, htrue⟩

/-- A result more, which says nothing untrue. -/
theorem RunnerInv.record {record : ExecutionRecord} (hclaimed : r.host.claimed record.runID = true)
    (htrue : ∀ e ∈ record.events, e.sequence ≠ 1 → r.host.alive record.runID = false) (w : Write) :
    RunnerInv P
      { r with
        host := { r.host with
          results := (writeExecutionRecord r.host.results record w).1 } }
    := by
  refine ⟨inv.known, inv.launched, inv.active, ?_⟩
  intro x result hx
  rcases write_get? hx with hold | ⟨hid, hfile⟩
  · exact inv.recorded x result hold
  obtain rfl := hfile result rfl
  rw [hid]
  exact ⟨hclaimed, htrue⟩

theorem RunnerInv.started (h : Started r a r' outcome) (hP : P a.runID) : RunnerInv P r' := by
  cases h with
  | refused e => exact inv
  | replayed result claimed found => exact inv
  | unclaimed w new => exact inv.claim hP w
  | failed w save message now new claimed =>
    refine (inv.claim hP w).record claimed ?_ save
    intro e he hseq
    obtain rfl := List.mem_singleton.mp he
    exact absurd rfl hseq
  | launched w now new claimed =>
    have hinv := inv.claim hP w
    refine ⟨hinv.known, ?_, ?_, ?_⟩
    · intro x hx
      rcases (Host.alive_cons (r.host.claim a w) a.runID x).mp hx with
        heq | hold
      · rw [heq]
        exact claimed
      · exact hinv.launched x hold
    · intro x run hx
      rw [Hash.get?_set] at hx
      split at hx
      · next heq =>
        rw [heq]
        exact claimed
      · exact hinv.active x run hx
    · intro x result hx
      obtain ⟨hclaimed, htrue⟩ := inv.recorded x result hx
      refine ⟨r.host.claimed_of_claimed a w hclaimed, ?_⟩
      intro e he hseq
      rw [Bool.eq_false_iff]
      intro hlive
      -- the launched run had no result, so this is another one
      rcases (Host.alive_cons (r.host.claim a w) a.runID x).mp hlive with
        heq | hold
      · rw [heq, new] at hclaimed
        cases hclaimed
      · exact Bool.eq_false_iff.mp (htrue e he hseq) hold

theorem RunnerInv.started_vouched {events : List Event} (h : Started r a r' (.ok events))
    (hP : P a.runID) {e : Event} (he : e ∈ events) : Vouched P r'.host (a.report e) := by
  refine ⟨hP, fun hseq => ?_⟩
  cases h with
  | replayed result claimed found =>
    exact ⟨claimed, (inv.recorded _ _ found).2 e he hseq⟩
  | failed | launched =>
    obtain rfl := List.mem_singleton.mp he
    exact absurd rfl hseq

end Steps

/-- Only the run that is started gets a process, and only if it was not
claimed. -/
theorem Started.alive {r r' : Runner} (h : Started r a r' outcome) (hx : r'.host.alive x = true) :
    r.host.alive x = true ∨ x = a.runID ∧ r.host.claimed x = false := by
  cases h with
  | refused | replayed | unclaimed | failed => exact Or.inl hx
  | launched w now new claimed =>
    rcases (Host.alive_cons (r.host.claim a w) a.runID x).mp hx with
      heq | hold
    · rw [heq]
      exact Or.inr ⟨rfl, new⟩
    · exact Or.inl hold

theorem Started.extends {r r' : Runner} (h : Started r a r' outcome) : r.host.Extends r'.host := by
  refine ⟨fun x hx => ?_, fun x hx => (h.alive hx).imp_right And.right⟩
  cases h with
  | refused e => exact hx
  | replayed result claimed found => exact hx
  | unclaimed w new | launched w now new claimed => exact r.host.claimed_of_claimed a w hx
  | failed w save message now new claimed =>
    exact r.host.claimed_of_claimed a w hx

-- ======== the end

section End

variable {P : String → Prop} {r : Runner} (inv : RunnerInv P r)
include inv

theorem RunnerInv.fresh : RunnerInv P (.fresh r.host) := by
  refine ⟨inv.known, inv.launched, ?_, inv.recorded⟩
  intro x run hx
  cases hx

theorem RunnerInv.kill (runID : String) : RunnerInv P { r with host := r.host.kill runID } := by
  refine ⟨inv.known, ?_, inv.active, ?_⟩
  · intro x hx
    exact inv.launched x ((r.host.alive_kill runID x).mp hx).1
  · intro x result hx
    obtain ⟨hclaimed, htrue⟩ := inv.recorded x result hx
    exact ⟨hclaimed, fun e he hseq =>
      (r.host.kill_settles runID).dead (htrue e he hseq)⟩

theorem RunnerInv.retire (runID : String) :
    RunnerInv P { r with active := r.active.del runID } := by
  refine ⟨inv.known, inv.launched, ?_, inv.recorded⟩
  intro x run hx
  rw [Hash.get?_del] at hx
  split at hx
  · cases hx
  · exact inv.active x run hx

end End

theorem Host.alive_kill_self (host : Host) (runID : String) :
    (host.kill runID).alive runID = false := by
  simp [Host.alive, Host.kill]

/-- The end of an execution whose process has ended. -/
theorem RunnerInv.finish (inv : RunnerInv P r) (runID : String) {stop : Stop}
    (hended : stop.ended = true) (now : Int) (usage : Option ResourceUsage) (save : Write) :
    RunnerInv P (r.finish runID stop now usage save).1
      ∧ r.host.Settles (r.finish runID stop now usage save).1.host
      ∧ ∀ x ∈ (r.finish runID stop now usage save).2,
        Vouched P (r.finish runID stop now usage save).1.host (x.1.report x.2) := by
  unfold Runner.finish
  cases hrun : r.active.get? runID with
  | none =>
    refine ⟨inv, .refl _, ?_⟩
    intro x hx
    cases hx
  | some run =>
    have hclaimed := inv.active runID run hrun
    dsimp only
    rw [if_pos hended]
    have hdead := r.host.alive_kill_self runID
    refine ⟨?_, ⟨fun _ h => h, ?_⟩, ?_⟩
    · -- the process goes first, then the record that says so
      refine ((inv.retire runID).kill runID).record ?_ ?_ save
      · exact hclaimed
      · intro e _ _
        exact hdead
    · intro x hx
      exact ((r.host.alive_kill runID x).mp hx).1
    · intro x hx
      obtain rfl := Option.mem_some_iff.mp hx
      exact ⟨inv.known runID hclaimed, fun _ => ⟨hclaimed, hdead⟩⟩

end Yunling.Executor
