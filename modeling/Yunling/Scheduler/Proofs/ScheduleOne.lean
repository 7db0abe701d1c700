/-
What one call of `ScheduleOne` does to the queue.

`World.blocked` says on the state before a call that the run has to wait:
it is queued and due, it has not waited too long, and either its quota is
reached or no candidate has room for it. A call that returns pushes the
run back exactly when it was blocked (`scheduleOne_ok`). For the loop
over the candidates this rests on the admission test of Redis: its reply
is a predicate of the state before (`LeaseState.admits`), and a refusal,
which only sweeps, does not change it for the candidates to come.

Whatever a call does, no run comes to wait that did not wait before, and
none changes its place in the queue order (`Database.Advances`).
-/
import Yunling.Platform.Effects
import Yunling.Redis.Proofs.Accounting
import Yunling.Scheduler.Service

namespace Yunling

open Relational Scheduler

variable {db db' : Database}

-- ======== the condition

/-- The admission test of `reserveScript`. -/
def LeaseState.admits (s : LeaseState) (request : LeaseRequest) : Bool :=
  let swept := s.sweep (unixMilli request.now)
  (swept.amounts.get? request.runID).isNone && request.required.cpuMillicores
      ≤ request.available.cpuMillicores - swept.reserved .cpu
    && request.required.memoryBytes ≤ request.available.memoryBytes - swept.reserved .memory
    && request.required.diskBytes ≤ request.available.diskBytes - swept.reserved .disk

section Scan

variable (env : Env)

/-- Some candidate has room for the run. -/
def hasRoom (run : Run) (now : Int) (candidates : List Candidate) (redis : Redis) : Bool :=
  candidates.any fun candidate =>
    (redis candidate.serverID).admits (run.leaseRequest candidate now)

/-- The run has to wait: it is queued, due and not overdue, and its quota
is reached or no candidate has room. -/
def World.blocked (w : World) (runID : String) : Bool :=
  match w.db.getRun runID with
  | none => false
  | some run =>
    let now := env.now w.ticks
    run.state == .queued && run.queuedAt ≤ now && !run.overdue now && (quotaReached run w.db
        || !hasRoom run now (candidates env run w.tick) w.redis)

end Scan

/-- The keys of the queue order. -/
structure SameTurn (a b : Run) : Prop where
  id : a.id = b.id
  priority : a.priority = b.priority
  queuedAt : a.queuedAt = b.queuedAt

-- ======== database

/-- Whatever is waiting in `db'` was waiting in `db`, in the same
place. -/
def Database.Advances (db db' : Database) : Prop :=
  ∀ runID run', db'.getRun runID = some run' → run'.state = .queued →
    ∃ run, db.getRun runID = some run ∧ run.state = .queued ∧ SameTurn run run'

theorem Database.Advances.refl (db : Database) : db.Advances db :=
  fun _ run hrun hq => ⟨run, hrun, hq, rfl, rfl, rfl⟩

/-- An operation that adds no run and leaves definitions and versions
alone. -/
theorem Effect.advances {op : Op}
    (h : Effect op db db') (hop : op.creates = false) (hdef : db'.definitions = db.definitions)
    (hver : db'.versions = db.versions) : db.Advances db' := by
  intro runID run' hrun' hq
  obtain ⟨r', hr', hsched'⟩ := Option.bind_eq_some_iff.mp hrun'
  have hreads' := db'.scheduled_reads hsched'
  obtain ⟨hmem', hid'⟩ := db'.runs.find?_eq_some.mp hr'
  obtain ⟨r, hr, hrq, hsame⟩ := h.queued_mem hop hmem' (hreads'.state.symm.trans hq)
  -- the joined rows are still there
  have hsched : ∃ run, db.scheduled r = some run := by
    unfold Database.scheduled at hsched' ⊢
    rw [hdef, hver, hsame.taskDefinitionId, hsame.scriptVersionId] at hsched'
    split at hsched'
    · exact ⟨_, rfl⟩
    · cases hsched'
  obtain ⟨run, hrun⟩ := hsched
  have hreads := db.scheduled_reads hrun
  have hfind : db.runs.find? runID = some r :=
    db.runs.find?_eq_some.mpr ⟨hr, hsame.id.symm.trans hid'⟩
  refine ⟨run, ?_, hreads.state.trans hrq, ?_, ?_, ?_⟩
  · unfold Database.getRun
    rw [hfind]
    exact hrun
  · rw [hreads.id, hreads'.id, hsame.id]
  · rw [hreads.priority, hreads'.priority, hsame.priority]
  · rw [hreads.queuedAt, hreads'.queuedAt, hsame.queuedAt]

theorem setQueueReason_advances {runID reason : String} {now : Int} {u : Unit}
    (h : setQueueReason runID reason now db = .ok (u, db')) : db.Advances db' := by
  have heff : Effect (.setQueueReason runID reason now) db
      (settle db (setQueueReason runID reason now db)) := setQueueReason_effect db runID reason now
  rw [h] at heff
  refine heff.advances rfl ?_ ?_ <;>
  · unfold setQueueReason at h
    repeat' split at h
    all_goals cases h; rfl

theorem expireRun_advances {runID : String} {at_ : Int} {expired : Bool}
    (h : expireRun runID at_ db = .ok (expired, db')) : db.Advances db' := by
  have heff : Effect (.expire runID at_) db
      (settle db (expireRun runID at_ db)) := expire_effect db runID at_
  rw [h] at heff
  refine heff.advances rfl ?_ ?_ <;>
  · unfold expireRun at h
    repeat' split at h
    all_goals cases h; rfl

theorem prepareSync_keeps {db prepared : Database} {serverID versionID : String}
    (h : db.prepareSync serverID versionID = .ok prepared) :
    prepared.definitions = db.definitions ∧ prepared.versions = db.versions := by
  unfold Database.prepareSync at h
  repeat' split at h
  all_goals first
    | cases h; exact ⟨rfl, rfl⟩
    | cases h

theorem assign_advances {a : Assignment}
    {assigned : Bool} (h : assign a db = .ok (assigned, db')) : db.Advances db' := by
  have heff : Effect (.assign a) db (settle db (assign a db)) := assign_effect db a
  rw [h] at heff
  have hkeeps : db'.definitions = db.definitions ∧ db'.versions = db.versions := by
    unfold assign at h
    repeat' split at h
    all_goals first
      | cases h; exact ⟨rfl, rfl⟩
      | cases h
        have hkept := prepareSync_keeps ‹Database.prepareSync _ _ _ = Except.ok _›
        exact hkept
      | cases h
  exact heff.advances rfl hkeeps.1 hkeeps.2

-- ======== ScheduleOne

/-- What a call that holds a run back, or does not, leaves behind. -/
structure Handled (pushed : Bool) (run : Run) (w w' : World) : Prop where
  queue : if pushed then w'.queue = w.queue.push run
    else w'.queue = w.queue ∨ w'.queue = w.queue.remove run.id
  attempted : w'.attempted = w.attempted
  db : w.db.Advances w'.db

section ScheduleOne

variable {env : Env} {run : Run} {now : Int} {outcome : Outcome} {w w' : World}
  {request : LeaseRequest} {leaseID reason runID : String}

theorem hold_ok (h : hold env run reason w = (.ok outcome, w')) : Handled true run w w' := by
  unfold hold at h
  dsimp only at h
  split at h
  · cases h
  · next hset =>
    obtain ⟨-, rfl⟩ := Prod.mk.inj h
    exact ⟨rfl, rfl, setQueueReason_advances hset⟩

theorem commit_ok {lease : Lease} (h : commit env run lease now w = (.ok outcome, w')) :
    Handled false run w w' := by
  unfold commit at h
  split at h
  · cases h
  · next hassign =>
    obtain ⟨-, rfl⟩ := Prod.mk.inj h
    exact ⟨Or.inl rfl, rfl, assign_advances hassign⟩
  · next hassign =>
    obtain ⟨-, rfl⟩ := Prod.mk.inj h
    exact ⟨Or.inr rfl, rfl, assign_advances hassign⟩

theorem LeaseState.sweep_sweep (s : LeaseState) (now : Int) :
    (s.sweep now).sweep now = s.sweep now := by
  have hnone : (s.sweep now).expired now = [] := by
    rw [List.eq_nil_iff_forall_not_mem]
    intro runID hmem
    have hlapsed := LeaseState.mem_expired.mp hmem
    unfold LeaseState.lapsed at hlapsed
    rw [(LeaseState.swept_sweep s now).expirations runID] at hlapsed
    split at hlapsed
    · cases hlapsed
    · next hnot => exact hnot hlapsed
  show ((s.sweep now).expired now).foldl _ _ = _
  rw [hnone]
  rfl

theorem LeaseState.reserveScript_admits {s s' : LeaseState} {expiry px : Int} {reply : Nat}
    (h : s.reserveScript (unixMilli request.now) request.runID
      request.required request.available expiry leaseID px = (.ok reply, s')) :
    decide (reply = 1) = s.admits request := by
  unfold LeaseState.reserveScript at h
  unfold LeaseState.admits
  dsimp only at h ⊢
  split at h
  · next htaken =>
    obtain ⟨hreply, -⟩ := Prod.mk.inj h
    cases hreply
    rw [Option.isNone_eq_false_iff.mpr htaken]
    simp
  · next hfree =>
    have hnone : ((s.sweep (unixMilli request.now)).amounts.get? request.runID).isNone = true := by
      simpa using hfree
    rw [hnone]
    split at h
    · next hfull =>
      obtain ⟨hreply, -⟩ := Prod.mk.inj h
      cases hreply
      rcases hfull with hfull | hfull | hfull
      · simp [Int.not_le.mpr hfull]
      · simp [Int.not_le.mpr hfull]
      · simp [Int.not_le.mpr hfull]
    · next hroom =>
      unfold LeaseState.write at h
      split at h
      · cases h
      · obtain ⟨hreply, -⟩ := Prod.mk.inj h
        cases hreply
        simp only [not_or, not_lt] at hroom
        simp [hroom]

/-- The reply of `TryReserve` is the admission test on the state before,
and a refusal leaves every admission test of the same instant as it
was. -/
theorem tryReserve_ok {redis redis' : Redis} {reply : Option Lease}
    (h : tryReserve request leaseID redis = (.ok reply, redis')) :
    reply.isSome = (redis request.serverID).admits request
      ∧ (reply = none → ∀ other : LeaseRequest, other.now = request.now →
        (redis' other.serverID).admits other = (redis other.serverID).admits other) := by
  unfold tryReserve at h
  split at h
  · cases h
  unfold Redis.eval at h
  dsimp only at h
  rcases hs : (redis request.serverID).reserveScript
    (unixMilli request.now) request.runID request.required
    request.available (unixMilli (request.now + request.ttl)) leaseID
    (request.ttl / 1000) with ⟨result, s'⟩
  rw [hs] at h
  cases result with
  | error e => cases h
  | ok code =>
    obtain ⟨hreply, rfl⟩ := Prod.mk.inj h
    cases hreply
    constructor
    · rw [← LeaseState.reserveScript_admits hs]
      by_cases hone : code = 1
      · simp [hone]
      · simp [hone]
    · intro hnone other hnow
      have hrefused : code ≠ 1 := by
        intro hone
        rw [if_neg (not_not.mpr hone)] at hnone
        cases hnone
      have hswept := LeaseState.reserveScript_refused hrefused hs
      by_cases hserver : other.serverID = request.serverID
      · rw [hserver, Function.update_self, hswept]
        unfold LeaseState.admits
        rw [hnow, LeaseState.sweep_sweep]
      · rw [Function.update_of_ne hserver]

/-- The loop over the candidates commits to the first that has room, and
holds the run back if none has. -/
theorem tryCandidates_ok : ∀ {candidates : List Candidate} {w : World},
      tryCandidates env run now reason candidates w = (.ok outcome, w') →
      Handled (!hasRoom run now candidates w.redis) run w w' := by
  intro candidates
  induction candidates with
  | nil => intro w h; exact hold_ok h
  | cons candidate rest ih =>
    intro w h
    unfold tryCandidates at h
    split at h
    · cases h
    · next redis htry =>
      obtain ⟨hreply, hkept⟩ := tryReserve_ok htry
      have hroom : hasRoom run now (candidate :: rest) w.redis = hasRoom run now rest redis := by
        unfold hasRoom
        rw [List.any_cons]
        have hfull : (w.redis candidate.serverID).admits
            (run.leaseRequest candidate now) = false := hreply.symm
        rw [hfull, Bool.false_or]
        congr 1
        funext other
        exact (hkept rfl (run.leaseRequest other now) rfl).symm
      have hrest := ih h
      rw [hroom]
      exact ⟨hrest.queue, hrest.attempted, hrest.db⟩
    · next lease redis htry =>
      obtain ⟨hreply, -⟩ := tryReserve_ok htry
      have hroom : hasRoom run now (candidate :: rest) w.redis = true := by
        have hfits : (w.redis candidate.serverID).admits
            (run.leaseRequest candidate now) = true := hreply.symm
        unfold hasRoom
        rw [List.any_cons, hfits, Bool.true_or]
      have hdone := commit_ok h
      rw [hroom]
      exact ⟨hdone.queue, hdone.attempted, hdone.db⟩

theorem hasRoom_rank (run : Run) (now : Int) (candidates : List Candidate) (redis : Redis) :
    hasRoom run now (rankCandidates candidates) redis = hasRoom run now candidates redis := by
  unfold hasRoom
  rw [Bool.eq_iff_iff]
  simp only [List.any_eq_true, mem_rankCandidates]

theorem place_ok (h : place env run now w = (.ok outcome, w')) : Handled (quotaReached run w.db
      || !hasRoom run now (candidates env run w) w.redis) run w w' := by
  unfold place at h
  cases hquota : quotaReached run w.db with
  | true =>
    rw [hquota] at h
    exact hold_ok h
  | false =>
    rw [hquota] at h
    have hdone := tryCandidates_ok h
    rw [hasRoom_rank] at hdone
    exact ⟨hdone.queue, hdone.attempted, hdone.db⟩

theorem expireRun_waiting {db db' : Database} {at_ : Int} (hget : db.getRun runID = some run)
    (hq : run.state = .queued) : expireRun run.id at_ db ≠ .ok (false, db') := by
  obtain ⟨r, hr, hreads⟩ := Database.getRun_eq_some hget
  obtain ⟨hmem, hid⟩ := db.runs.find?_eq_some.mp hr
  have hfind : db.runs.find? run.id = some r := db.runs.find?_eq_some.mpr ⟨hmem, hreads.id.symm⟩
  unfold expireRun
  rw [hfind]
  dsimp only
  rw [if_neg (not_not.mpr (hreads.state.symm.trans hq))]
  intro h
  cases h

/-- A call that returns holds the run back exactly when it was
blocked. -/
theorem scheduleOne_ok (h : scheduleOne env runID w = (.ok outcome, w')) :
    ∃ run, w.db.getRun runID = some run ∧ (w.blocked env runID = true → run.state = .queued)
      ∧ Handled (w.blocked env runID) run w w' := by
  unfold scheduleOne at h
  unfold World.blocked
  cases hget : w.db.getRun runID with
  | none => rw [hget] at h; cases h
  | some run =>
    rw [hget] at h
    dsimp only at h ⊢
    refine ⟨run, rfl, fun hb => ?_, ?_⟩
    · simp only [Bool.and_eq_true, beq_iff_eq] at hb
      exact hb.1.1.1
    split at h
    · next hstate =>
      obtain ⟨-, rfl⟩ := Prod.mk.inj h
      have hneq : (run.state == .queued) = false := by
        simpa using hstate
      rw [hneq]
      exact ⟨Or.inl rfl, rfl, .refl _⟩
    · next hstate =>
      have heq : (run.state == .queued) = true := by
        simpa using hstate
      rw [heq]
      split at h
      · next hearly =>
        obtain ⟨-, rfl⟩ := Prod.mk.inj h
        have hdue : decide (run.queuedAt ≤ env.now w.ticks) = false := by
          simpa using hearly
        rw [hdue]
        exact ⟨Or.inl rfl, rfl, .refl _⟩
      · next hearly =>
        have hdue : decide (run.queuedAt ≤ env.now w.ticks) = true := by
          simpa using hearly
        rw [hdue]
        split at h
        · -- a waiting run that is overdue is expired
          next hover =>
            rw [hover]
            split at h
            · cases h
            · next hexpire =>
              exact absurd hexpire (expireRun_waiting hget (not_not.mp hstate))
            · next hexpire =>
              split at h
              · obtain ⟨-, rfl⟩ := Prod.mk.inj h
                exact ⟨Or.inr rfl, rfl, expireRun_advances hexpire⟩
              · cases h
        · next hover =>
          rw [Bool.eq_false_of_not_eq_true hover]
          have hdone := place_ok h
          exact ⟨hdone.queue, hdone.attempted, hdone.db⟩

end ScheduleOne

end Yunling
