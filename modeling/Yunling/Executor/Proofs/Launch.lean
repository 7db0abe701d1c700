/-
Runners that share a work root launch a run at most once.

The owner of a claim launches the run, once, and whoever comes later
finds the claim. What a call reads in several steps is what it could have
read in one, so a call that begins when the run is claimed answers as the
undivided look does at the moment of the answer.

# Two levels

`Call.alone_start` connects the steps to `Runner.start`: a call that
nothing disturbs does what the undivided one does. What holds of any
interleaving is read off `Machine.Inv`.
-/
import Yunling.Executor.Proofs.Calls

namespace Yunling.Executor

open Relational

variable {m : Machine} {c : Call} {k : Nat} {host : Host}

-- ======== the machine

/-- The runs launched so far. -/
def Machine.launched (m : Machine) : List String :=
  m.launches.map Launch.runID

/-- What holds of every machine that is reached. -/
structure Machine.Inv (m : Machine) : Prop where
  begun : ∀ k c, m.calls.get? k = some c → c.begun.Grows m.host
  fits : ∀ k c, m.calls.get? k = some c → c.Fits (m.runner c.runner) m.launched
  apart : ∀ j k c c', j ≠ k → m.calls.get? j = some c → m.calls.get? k = some c' → c.Apart c'
  claimed : ∀ x ∈ m.launched, m.host.claimed x = true
  once : m.launched.Nodup
  new : ∀ l ∈ m.launches, l.begun.claimed l.runID = false
  answers : ∀ x ∈ m.answers, x.Sound

theorem Machine.inv_empty : Machine.empty.Inv where
  begun := fun k c h => by cases h
  fits := fun k c h => by cases h
  apart := fun j k c c' _ h => by cases h
  claimed := fun x hx => absurd hx List.not_mem_nil
  once := List.nodup_nil
  new := fun l hl => absurd hl List.not_mem_nil
  answers := fun x hx => absurd hx List.not_mem_nil

section Settle

variable {m : Machine} {k : Nat} {c : Call} {turn : Turn}

/-- The calls after a step: the others, and the one that went on. -/
theorem Machine.settle_calls {j : Nat} {c' : Call}
    (h : (m.settle k c turn).calls.get? j = some c') : j ≠ k ∧ m.calls.get? j = some c'
      ∨ j = k ∧ ∃ p, turn.outcome.next = some p ∧ c' = { c with phase := p } := by
  unfold Machine.settle at h
  by_cases hj : j = k
  · cases hnext : turn.outcome.next with
    | none =>
      rw [hnext] at h
      rw [Hash.get?_del, if_pos hj] at h
      cases h
    | some p =>
      rw [hnext] at h
      rw [Hash.get?_set, if_pos hj] at h
      exact Or.inr ⟨hj, p, rfl, (Option.some_inj.mp h).symm⟩
  · refine Or.inl ⟨hj, ?_⟩
    cases hnext : turn.outcome.next with
    | none =>
      rw [hnext] at h
      rw [Hash.get?_del, if_neg hj] at h
      exact h
    | some p =>
      rw [hnext] at h
      rw [Hash.get?_set, if_neg hj] at h
      exact h

theorem Machine.settle_runner : (m.settle k c turn).runner c.runner = turn.runner := by
  unfold Machine.runner Machine.settle
  simp

theorem Machine.settle_launched :
    (m.settle k c turn).launched = launchedBy m.launched c turn.launched := by
  unfold Machine.settle Machine.launched launchedBy
  dsimp only
  split <;> simp

/-- The active runs of a runner after a step of a call. -/
theorem Machine.settle_active (j : Nat) : (m.settle k c turn).active j = m.active j
      ∨ j = c.runner ∧ (m.settle k c turn).active j = turn.runner.active := by
  unfold Machine.settle
  by_cases hj : j = c.runner
  · right
    simp [hj]
  · left
    simp [hj]

end Settle

/-- No other call of the runner is under the mutex. -/
theorem Machine.not_contended {i : Nat} (h : m.contended k i = false) {j : Nat} (hj : j ≠ k)
    (hc : m.calls.get? j = some c) (hi : c.runner = i) : c.phase.locked = false := by
  have hnot := List.any_eq_false.mp h _ (Hash.get?_eq_some.mp hc)
  simpa [hj, hi] using hnot

theorem Machine.Inv.settle (h : m.Inv) (hc : m.calls.get? k = some c)
    (hfree : c.phase.locks = true → m.contended k c.runner = false) :
    (m.settle k c (c.turn (m.runner c.runner))).Inv := by
  have hfits := h.fits k c hc
  have hbegun := h.begun k c hc
  have heffect := c.turn_effect (m.runner c.runner)
  have hgrows : m.host.Grows (c.turn (m.runner c.runner)).runner.host := heffect.grows hfits
  constructor
  case begun =>
    intro j c' hj
    rcases Machine.settle_calls hj with ⟨-, hj⟩ | ⟨-, p, -, rfl⟩
    · exact (h.begun j c' hj).trans hgrows
    · exact hbegun.trans hgrows
  case fits =>
    intro j c' hj
    rw [Machine.settle_launched]
    rcases Machine.settle_calls hj with ⟨hjk, hj⟩ | ⟨-, p, hp, rfl⟩
    · refine heffect.fits (s := m.runner c'.runner) hfits
        (h.apart j k c' c hjk hj hc) rfl rfl ?_ (h.fits j c' hj)
      rcases Machine.settle_active (k := k) c'.runner with heq | ⟨heq, heq'⟩
      · exact Or.inl heq
      · exact Or.inr ⟨heq, congrArg m.active heq, heq'⟩
    · have hown := Call.turn_fits hp hbegun h.claimed hfits
      rw [← Machine.settle_runner (k := k) (m := m)] at hown
      exact hown
  case apart =>
    have hstep : ∀ {i c' p}, i ≠ k → m.calls.get? i = some c' →
        (c.turn (m.runner c.runner)).outcome.next = some p →
        { c with phase := p }.Apart c' := by
      intro i c' p hik hi hp
      refine Call.turn_apart hp (h.apart k i c c' (Ne.symm hik) hc hi)
        (h.fits i c' hi) rfl fun hl hr => ?_
      exact Machine.not_contended (hfree hl) hik hi hr.symm
    intro i j c₁ c₂ hij hi hj
    rcases Machine.settle_calls hi with ⟨hik, hi'⟩ | ⟨hik, p, hp, rfl⟩
    · rcases Machine.settle_calls hj with ⟨-, hj'⟩ | ⟨-, p, hp, rfl⟩
      · exact h.apart i j c₁ c₂ hij hi' hj'
      · exact (hstep hik hi' hp).symm
    · rcases Machine.settle_calls hj with ⟨hjk, hj'⟩ | ⟨hjk, -⟩
      · exact hstep hjk hj' hp
      · exact absurd (hik.trans hjk.symm) hij
  case claimed =>
    intro x hx
    rw [Machine.settle_launched] at hx
    unfold launchedBy at hx
    split at hx
    · next hl =>
      rw [hl] at heffect
      rcases List.mem_append.mp hx with hx | hx
      · exact hgrows.claimed (h.claimed x hx)
      · rw [List.mem_singleton.mp hx]
        exact hgrows.claimed (hfits.owned heffect.owns).1
    · exact hgrows.claimed (h.claimed x hx)
  case once =>
    rw [Machine.settle_launched]
    unfold launchedBy
    split
    · next hl =>
      rw [hl] at heffect
      have hnew := (hfits.owned heffect.owns).2
      refine List.nodup_append.mpr ⟨h.once, List.nodup_singleton _, fun x hx y hy => ?_⟩
      rw [List.mem_singleton.mp hy]
      exact fun heq => hnew (heq ▸ hx)
    · exact h.once
  case new =>
    intro l hl
    unfold Machine.settle at hl
    dsimp only at hl
    split at hl
    · next hlaunch =>
      rw [hlaunch] at heffect
      rcases List.mem_append.mp hl with hl | hl
      · exact h.new l hl
      · rw [List.mem_singleton.mp hl]
        exact hfits.new heffect.owns
    · exact h.new l hl
  case answers =>
    intro x hx
    unfold Machine.settle at hx
    dsimp only at hx
    split at hx
    · next result hresult =>
      rcases List.mem_append.mp hx with hx | hx
      · exact h.answers x hx
      · rw [List.mem_singleton.mp hx]
        exact Call.turn_sound hbegun hfits hresult
    · exact h.answers x hx

/-- What a call promises is about its runner and the records: it stays
when these do. -/
theorem Call.Fits.congr {r r' : Runner} {launched : List String} (h : c.Fits r launched)
    (hactive : r'.active = r.active) (hclaims : r'.host.claims = r.host.claims)
    (hresults : r'.host.results = r.host.results) : c.Fits r' launched := by
  unfold Call.Fits Host.claimed at h ⊢
  rw [hactive, hclaims, hresults]
  exact h

/-- A call that is new, and its first phase, exclude nothing. -/
theorem Call.apart_of_idle {c c' : Call} (hl : c.phase.locked = false)
    (ho : c.phase.owns = false) (hf : c.phase.fills = false) : c.Apart c' := by
  refine ⟨fun _ h => ?_, fun _ h => ?_, fun _ h => ?_⟩
  · rw [hl] at h; cases h
  · rw [ho] at h; cases h
  · rw [hf] at h; cases h

/-- A call enters, or goes on without touching what is shared, at a
phase that promises and excludes nothing. -/
theorem Machine.Inv.put (h : m.Inv) (hclaims : host.claims = m.host.claims)
    (hresults : host.results = m.host.results) (hbegun : c.begun.Grows m.host)
    (hfits : c.Fits (m.runner c.runner) m.launched) (hl : c.phase.locked = false)
    (ho : c.phase.owns = false) (hf : c.phase.fills = false) :
    Machine.Inv { m with host, calls := m.calls.set k c } := by
  have hgrows : m.host.Grows host := ⟨hclaims ▸ .refl _, hresults ▸ .refl _⟩
  have hcalls : ∀ {j c'}, (m.calls.set k c).get? j = some c' →
      j = k ∧ c' = c ∨ j ≠ k ∧ m.calls.get? j = some c' := by
    intro j c' hj
    rw [Hash.get?_set] at hj
    split at hj
    · next hjk => exact Or.inl ⟨hjk, (Option.some_inj.mp hj).symm⟩
    · next hjk => exact Or.inr ⟨hjk, hj⟩
  constructor
  case begun =>
    intro j c' hj
    rcases hcalls hj with ⟨-, rfl⟩ | ⟨-, hj⟩
    · exact hbegun.trans hgrows
    · exact (h.begun j c' hj).trans hgrows
  case fits =>
    intro j c' hj
    rcases hcalls hj with ⟨-, rfl⟩ | ⟨-, hj⟩
    · exact hfits.congr rfl hclaims hresults
    · exact (h.fits j c' hj).congr rfl hclaims hresults
  case apart =>
    intro i j c₁ c₂ hij hi hj
    rcases hcalls hi with ⟨-, rfl⟩ | ⟨-, hi⟩
    · exact Call.apart_of_idle hl ho hf
    · rcases hcalls hj with ⟨-, rfl⟩ | ⟨-, hj⟩
      · exact (Call.apart_of_idle hl ho hf).symm
      · exact h.apart i j c₁ c₂ hij hi hj
  case claimed => exact fun x hx => hgrows.claimed (h.claimed x hx)
  case once => exact h.once
  case new => exact h.new
  case answers => exact h.answers

theorem Machine.Inv.crash (h : m.Inv) (i : Nat) : (m.step (.crash i)).Inv := by
  have hcalls : ∀ {j c}, (m.step (.crash i)).calls.get? j = some c →
      m.calls.get? j = some c ∧ c.runner ≠ i := by
    intro j c hj
    have hmem := Hash.get?_eq_some.mp hj
    have hboth := List.mem_filter.mp hmem
    exact ⟨Hash.get?_eq_some.mpr hboth.1, by simpa using hboth.2⟩
  constructor
  case begun => exact fun j c hj => h.begun j c (hcalls hj).1
  case fits =>
    intro j c hj
    obtain ⟨hj', hne⟩ := hcalls hj
    refine (h.fits j c hj').congr ?_ rfl rfl
    show Function.update m.active i .empty c.runner = m.active c.runner
    rw [Function.update_of_ne hne]
  case apart =>
    exact fun j k c c' hjk hj hk =>
      h.apart j k c c' hjk (hcalls hj).1 (hcalls hk).1
  case claimed => exact h.claimed
  case once => exact h.once
  case new => exact h.new
  case answers => exact h.answers

theorem Machine.Inv.step (h : m.Inv) (op : MachineOp) : (m.step op).Inv := by
  cases op with
  | start k runner a t save =>
    show Machine.Inv (if (m.calls.get? k).isSome then m else _)
    split
    · exact h
    · exact h.put rfl rfl (.refl _) trivial rfl rfl rfl
  | go k =>
    unfold Machine.step
    dsimp only
    split
    · exact h
    next c hc =>
    split
    · exact h
    · next hgo =>
      refine h.settle hc fun hl => ?_
      simpa [hl] using hgo
  | finish k stop now usage =>
    unfold Machine.step
    dsimp only
    split
    · next c hc =>
      split
      · next started hp =>
        refine h.put ?_ ?_ (h.begun k c hc) trivial rfl rfl rfl
        · split <;> rfl
        · split <;> rfl
      · exact h
    · exact h
  | crash i => exact h.crash i

theorem Machine.inv_run (ops : List MachineOp) : (Machine.run ops).Inv :=
  Transition.run_invariant (fun _ op h => h.step op) Machine.inv_empty ops

-- ======== a call on its own

/-- Steps of a call that nothing disturbs, until it answers. -/
def Call.alone (c : Call) : Nat → Runner → Option (Runner × Except StartError (List Event))
  | 0, _ => none
  | n + 1, r =>
    let turn := c.turn r
    match turn.outcome with
    | .goOn phase => { c with phase }.alone n turn.runner
    | .answer result _ => some (turn.runner, result)
    | .over => none

section Alone

variable {c : Call} {r : Runner} {second : Bool}

/-- The steps of a look find what the undivided look finds. -/
theorem Call.alone_look_some {found : Except StartError (List Event)} (n : Nat)
    (hp : c.phase = .look second)
    (h : r.look c.assignment (c.trial.unreadableAt second) = some found) :
    c.alone (n + 3) r = some (r, found) := by
  unfold Runner.look Host.replay at h
  unfold Call.alone Call.turn
  rw [hp]
  dsimp only
  cases hrun : r.active.get? c.assignment.runID with
  | some run =>
    rw [hrun] at h
    dsimp only at h ⊢
    split at h
    · next htok => cases h; rw [if_pos htok]; rfl
    · next htok => cases h; rw [if_neg htok]; rfl
  | none =>
    rw [hrun] at h
    dsimp only at h ⊢
    split at h
    · next hun => cases h; rw [if_pos hun]; rfl
    next hun =>
    rw [if_neg hun]
    show Call.alone _ (n + 2) r = _
    unfold Call.alone Call.turn
    dsimp only
    rcases hclaim : r.host.claims.get? c.assignment.runID with _ | _ | _ | claim
    · rw [hclaim] at h; cases h
    · rw [hclaim] at h; cases h; rfl
    · rw [hclaim] at h; cases h; rfl
    rw [hclaim] at h
    dsimp only at h ⊢
    split at h
    · next hid => cases h; rw [if_pos hid]; rfl
    next hid =>
    rw [if_neg hid]
    split at h
    · next htok => cases h; rw [if_pos htok]; rfl
    next htok =>
    rw [if_neg htok]
    show Call.alone _ (n + 1) r = _
    unfold Call.alone Call.turn
    dsimp only
    rcases hresult : r.host.results.get? c.assignment.runID with _ | _ | _ | result
    · rw [hresult] at h; cases h; rfl
    · rw [hresult] at h; cases h; rfl
    · rw [hresult] at h; cases h; rfl
    · rw [hresult] at h
      dsimp only at h ⊢
      split at h
      · next hok => cases h; rw [if_pos hok]; rfl
      · next hok => cases h; rw [if_neg hok]; rfl

/-- A look that finds nothing goes on. -/
theorem Call.alone_look_none (n : Nat) (hp : c.phase = .look second)
    (h : r.look c.assignment (c.trial.unreadableAt second) = none) : c.alone (n + 2) r = { c with
      phase := if second then .createClaim else .prepare }.alone n r := by
  have hidle : r.active.get? c.assignment.runID = none := by
    unfold Runner.look at h
    cases hrun : r.active.get? c.assignment.runID with
    | none => rfl
    | some run =>
      rw [hrun] at h
      dsimp only at h
      split at h <;> cases h
  unfold Runner.look at h
  rw [hidle] at h
  dsimp only at h
  split at h
  · cases h
  next hread =>
  have hclaim : r.host.claims.get? c.assignment.runID = none := by
    have hunclaimed := Host.replay_none h
    rw [Bool.eq_false_iff] at hunclaimed
    by_contra hne
    exact hunclaimed (Host.claimed_iff.mpr hne)
  simp [Call.alone, Call.turn, hp, hidle, hread, hclaim, Runner.stays]

/-- A record created and then filled is a record written. -/
theorem createRecord_fillRecord (files : Hash String RecordFile)
    (record : ExecutionRecord) (w : Write) : writeExecutionRecord files record w
      = match createRecord files record.runID w with
        | none => (files, false)
        | some files' => fillRecord files' record w := by
  unfold writeExecutionRecord createRecord
  by_cases hthere : (files.get? record.runID).isSome
  · simp [hthere]
  · cases w <;> simp [hthere, fillRecord, Hash.set_set]

/-- The claim and the launch, step by step. -/
theorem Call.alone_launch (n : Nat) (hp : c.phase = .createClaim) :
    c.alone (n + 5) r = some (r.launch c.assignment c.trial) := by
  unfold Runner.launch
  rw [createRecord_fillRecord]
  have hid : ∀ events, (c.assignment.record events).runID = c.assignment.runID := fun _ => rfl
  rw [hid]
  unfold Call.alone Call.turn
  rw [hp]
  dsimp only
  cases hclaim : createRecord r.host.claims c.assignment.runID c.trial.claim with
  | none => rfl
  | some claims =>
    show Call.alone { c with phase := .fillClaim } (n + 4)
      { r with host := { r.host with claims } } = _
    unfold Call.alone Call.turn
    dsimp only
    cases hfill : (fillRecord claims (c.assignment.record []) c.trial.claim).2 with
    | false => simp [Runner.stays, Outcome.fail]
    | true =>
      unfold Call.alone Call.turn
      dsimp only
      cases c.trial.launch with
      | none => rfl
      | some message =>
        dsimp only
        rw [createRecord_fillRecord, hid]
        let failed := launchFailure message c.trial.now
        let filled := (fillRecord claims (c.assignment.record []) c.trial.claim).1
        show Call.alone { c with phase := .createFailure failed }
          (n + 2) { r with host := { r.host with claims := filled } } = _
        unfold Call.alone Call.turn
        dsimp only
        cases hsave : createRecord r.host.results c.assignment.runID c.trial.save with
        | none => rfl
        | some results => rfl

/-- A call of `Start` that nothing disturbs does what the undivided
`Start` does. -/
theorem Call.alone_start (i : Nat) (a : Assignment) (t : Trial) (save : Write) (begun : Host) :
    Call.alone ⟨i, a, t, save, .validate, begun⟩ 11 r = some (r.start a t) := by
  unfold Runner.start Call.alone Call.turn
  dsimp only
  cases t.invalid with
  | some message => rfl
  | none =>
    show Call.alone ⟨i, a, t, save, .look false, begun⟩ 10 r = _
    cases hfirst : r.look a t.unreadable with
    | some found => exact Call.alone_look_some 7 rfl hfirst
    | none =>
      rw [Call.alone_look_none 8 rfl hfirst]
      unfold Call.alone Call.turn
      dsimp only
      cases t.unprepared with
      | some message => rfl
      | none =>
        show Call.alone ⟨i, a, t, save, .look true, begun⟩ 7 r = _
        cases hsecond : r.look a t.unreadableAgain with
        | some found => exact Call.alone_look_some 4 rfl hsecond
        | none =>
          rw [Call.alone_look_none 5 rfl hsecond]
          exact Call.alone_launch 0 rfl

end Alone

-- ======== launching and replaying

/-- What a replay answers when it does not answer with events. -/
theorem Host.replay_error {a : Assignment} {e : StartError} (h : host.replay a = some (.error e)) :
    e = .executionUncertain ∨ e = .executionTokenMismatch := by
  unfold Host.replay at h
  repeat' split at h
  all_goals cases h
  all_goals simp

/-- A claim or a result over 1 MiB is not replayed. -/
theorem Host.replay_oversize {a : Assignment} {events : List Event}
    (h : host.claims.get? a.runID = some .oversize ∨ host.results.get? a.runID = some .oversize) :
    host.replay a ≠ some (.ok events) := by
  intro hok
  rcases h with hclaim | hresult
  · unfold Host.replay at hok
    rw [hclaim] at hok
    cases hok
  · obtain ⟨-, result, hwhole, -⟩ := Host.replay_ok hok
    rw [hresult] at hwhole
    cases hwhole

/-- However runners that share a machine interleave and crash, a run is
launched at most once and only by a call that began before it was
claimed. A call that begins when the run is claimed is refused when its
assignment is invalid, its runner has the run active or the records
cannot be read; otherwise it answers what the records say: the recorded
events where the record is complete and read, and an error of the two
kinds where it is not, or where one of the two files is over 1 MiB. -/
theorem launched_once_then_replayed (ops : List MachineOp) :
    let m := Machine.run ops
    (∀ runID, m.launched.count runID ≤ 1)
      ∧ (∀ l ∈ m.launches, l.begun.claimed l.runID = false)
      ∧ ∀ x ∈ m.answers, x.begun.claimed x.assignment.runID = true →
        (∀ message, x.trial.invalid = some message →
          x.result = .error (.failed message))
        ∧ (x.trial.invalid = none →
          (∀ run, x.seen.active.get? x.assignment.runID = some run →
            x.result = .error
              (if run.executionToken = x.assignment.executionToken
                then .runAlreadyActive else .executionTokenMismatch))
          ∧ (x.seen.active.get? x.assignment.runID = none →
            (x.trial.unreadable = true →
              x.result = .error .executionUncertain)
            ∧ (x.trial.unreadable = false →
              x.seen.host.replay x.assignment = some x.result
              ∧ (∀ events,
                x.begun.replay x.assignment = some (.ok events) →
                x.result = .ok events)
              ∧ (x.seen.host.claims.get? x.assignment.runID = some .oversize
                  ∨ x.seen.host.results.get? x.assignment.runID = some .oversize →
                ∃ e, x.result = .error e)
              ∧ ∀ e, x.result = .error e →
                e = .executionUncertain ∨ e = .executionTokenMismatch))) := by
  intro m
  have hinv : m.Inv := Machine.inv_run ops
  refine ⟨List.nodup_iff_count_le_one.mp hinv.once, hinv.new, ?_⟩
  intro x hx hclaimed
  have hlooks := (hinv.answers x hx).looks hclaimed
  constructor
  · intro message hinvalid
    rw [hinvalid] at hlooks
    exact hlooks
  intro hvalid
  rw [hvalid] at hlooks
  unfold Runner.look at hlooks
  constructor
  · intro run hrun
    rw [hrun] at hlooks
    dsimp only at hlooks
    split at hlooks
    · next htok => rw [if_pos htok]; exact (Option.some_inj.mp hlooks).symm
    · next htok => rw [if_neg htok]; exact (Option.some_inj.mp hlooks).symm
  · intro hidle
    rw [hidle] at hlooks
    dsimp only at hlooks
    constructor
    · intro hunread
      rw [if_pos hunread] at hlooks
      exact (Option.some_inj.mp hlooks).symm
    · intro hread
      rw [if_neg (by simp [hread])] at hlooks
      refine ⟨hlooks, fun events hevents => ?_, fun hover => ?_, fun e he => ?_⟩
      · have hlater := (hinv.answers x hx).grows.replay hevents
        rw [hlooks] at hlater
        exact Option.some_inj.mp hlater
      · cases hresult : x.result with
        | error e => exact ⟨e, rfl⟩
        | ok events =>
          rw [hresult] at hlooks
          exact absurd hlooks (Host.replay_oversize hover)
      · rw [he] at hlooks
        exact Host.replay_error hlooks

/-- A run, its launch, and a second call of `Start` while its process is
alive. -/
def startedTwice : List MachineOp :=
  let a : Assignment := ⟨"run", "token"⟩
  let t : Trial := ⟨none, false, false, none, .done, none, .done, 1⟩
  .start 0 0 a t .done :: List.replicate 9 (.go 0)
    ++ .start 1 0 a t .done :: List.replicate 2 (.go 1)

/-- A claim without a result need not be answered as uncertain or as a
mismatch: while the runner has the run active the answer says so. -/
theorem active_run_refused : ∃ x ∈ (Machine.run startedTwice).answers,
      x.begun.claimed x.assignment.runID = true
        ∧ (x.begun.results.get? x.assignment.runID).isNone = true
        ∧ x.result = .error .runAlreadyActive := by
  refine ⟨(Machine.run startedTwice).answers.get ⟨1, by decide⟩, List.get_mem .., ?_, ?_, ?_⟩
  · decide
  · decide
  · rfl

end Yunling.Executor
