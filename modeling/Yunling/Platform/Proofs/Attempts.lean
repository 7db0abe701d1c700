/-
Attempts that are over.

`process_confirmed_gone` is the platform's word for an attempt whose
process is gone; a retry is only made of such an attempt. This module
says when the word is given (`buries`), that it is not taken back as
long as no operation brings such a run back to `running`
(`Change.still`), and that in such runs of the platform every attempt
with a later one is recorded gone (`AttemptInv.replaced`). An active run
is not, so a lineage has at most one (`AttemptInv.active_unique`).

Whether the word is true is not the database's to know; that is the
subject of the fleet's proofs.
-/
import Yunling.Platform.Proofs.Lineage

namespace Yunling

open Relational

variable {db db' : Database}

-- ======== vocabulary

/-- The operation records the process of the run as gone: an event of
its execution ends it, or an authoritative report of its server leaves
it out. -/
def buries (op : Op) (r : TaskRun) : Bool :=
  match op with
  | .runEvent _ e =>
    r.id == e.runID && (stateForAgentEvent e.type).any (·.terminal)
  | .reconcile report _ =>
    report.authoritative && r.openOn report.serverID && !report.confirms r
  | _ => false

/-- A run recorded gone is neither active nor waiting. -/
def TaskRun.Rested (r : TaskRun) : Prop :=
  r.processConfirmedGone = true → r.state.active = false ∧ r.state ≠ .queued

/-- Given to the server, and no longer queued. -/
def Placed (db : Database) (serverID runID : String) : Prop :=
  ∃ r ∈ db.runs.rows, r.id = runID ∧ r.assignedServerId = some serverID ∧ r.state ≠ .queued

/-- A run is given to one server. -/
theorem Placed.unique {serverID serverID' runID : String} (h : Placed db serverID runID)
    (h' : Placed db serverID' runID) : serverID' = serverID := by
  obtain ⟨r, hr, hid, hserver, -⟩ := h
  obtain ⟨r', hr', hid', hserver', -⟩ := h'
  have heq := db.runs.eq_of_key_eq hr hr' (hid.trans hid'.symm)
  subst heq
  rw [hserver] at hserver'
  exact (Option.some_inj.mp hserver').symm

/-- And stays there. -/
theorem Effect.placed {op : Op} (h : Effect op db db') {serverID runID : String}
    (hp : Placed db serverID runID) : Placed db' serverID runID := by
  obtain ⟨r, hr, hid, hserver, hq⟩ := hp
  obtain ⟨r', hr', _, hc⟩ := h.changed hr hq
  exact ⟨r', hr', hc.sameRun.id.trans hid, hc.assignment_eq.2.1.trans hserver,
    fun hq' => hq (hc.queued hq')⟩

-- ======== changes

section Changes

variable {op : Op} {db : Database} {r r' : TaskRun} {released : Bool}
  (h : Change op db r r' released)
include h

/-- The word is given by the operations that bury, and for runs that
never left the queue. -/
theorem Change.gone (hgone : r'.processConfirmedGone = true) :
    r.processConfirmedGone = true ∨ r.state = .queued ∨ buries op r = true := by
  cases h with
  | keep | note | absent | retry => exact Or.inl hgone
  | expire at_ queued | cancel at_ queued | disable at_ queued => exact Or.inr (Or.inl queued)
  | lose => cases hgone
  | resume => cases hgone
  | vanish report at_ hop onServer authoritative unconfirmed alive =>
    simp [buries, hop, authoritative, onServer, unconfirmed]
  | event now e state hop htype hid htoken hnew hnext hvalid =>
    have hterm : state.terminal = true := hgone
    simp [buries, hop, hid, htype, hterm]

theorem Change.rested (hr : r.Rested) : r'.Rested := by
  intro hgone
  cases h with
  | keep | note | absent | retry => exact hr hgone
  | expire | cancel | disable | vanish => exact ⟨rfl, fun hq => by cases hq⟩
  | lose => cases hgone
  | resume => cases hgone
  | event now e state hop htype hid htoken hnew hnext hvalid =>
    have hterm : state.terminal = true := hgone
    show state.active = false ∧ state ≠ .queued
    revert hterm
    cases state <;> decide

/-- The word stands while the run is not brought back. -/
theorem Change.still (hr : r.Rested)
    (hback : Yunling.reenters db op r = true → r.processConfirmedGone = false)
    (hgone : r.processConfirmedGone = true) : r'.processConfirmedGone = true := by
  obtain ⟨hinactive, hqueued⟩ := hr hgone
  -- an active state could only be entered by coming back
  have hrest : r'.state.active = false := by
    rw [Bool.eq_false_iff]
    intro hactive
    rw [hback (h.reenters hinactive hactive)] at hgone
    cases hgone
  cases h with
  | keep | note | absent | retry => exact hgone
  | expire at_ queued | cancel at_ queued | disable at_ queued => exact absurd queued hqueued
  | resume => cases hrest
  | vanish => rfl
  | lose serverID at_ hop active =>
    rw [TaskRun.activeOn, Bool.and_eq_true] at active
    rw [active.2] at hinactive
    cases hinactive
  | event now e state hop htype hid htoken hnew hnext hvalid =>
    rcases stateForAgentEvent_cases htype with rfl | hterm
    · cases hrest
    · exact hterm

end Changes

/-- A row recorded gone after an operation was so before, or was queued,
or is buried by it. -/
theorem Effect.gone {op : Op} (h : Effect op db db')
    {r' : TaskRun} (hr' : r' ∈ db'.runs.rows) (hgone : r'.processConfirmedGone = true) :
    ∃ r ∈ db.runs.rows, r.id = r'.id ∧ (r.processConfirmedGone = true
      ∨ r.state = .queued ∨ buries op r = true) := by
  rcases h.origin hr' with ⟨r, hr, _, hc⟩ | ⟨a, run, -, rfl⟩ | ⟨-, -, hnew⟩
  · exact ⟨r, hr, hc.sameRun.id.symm, hc.gone hgone⟩
  · cases hgone
  · rw [hnew] at hgone
    cases hgone

-- ======== the invariant

/-- Attempts and the word that they are over. -/
structure AttemptInv (db : Database) : Prop where
  lineage : LineageInv db
  rested : ∀ r ∈ db.runs.rows, r.Rested
  /-- an attempt that has a later one is recorded gone -/
  replaced : ∀ r ∈ db.runs.rows, ∀ r' ∈ db.runs.rows, r.root = r'.root → r.attempt < r'.attempt →
    r.processConfirmedGone = true

theorem attemptInv_empty : AttemptInv Database.empty := by
  refine ⟨lineageInv_empty, ?_, ?_⟩
  · intro r hr; cases hr
  · intro r hr; cases hr

section Steps

variable {op : Op} {db db' : Database} (inv : AttemptInv db)
include inv

/-- A lineage whose last attempt is retried is over as a whole. -/
theorem AttemptInv.over {run : TaskRun} (hrun : run ∈ db.runs.rows)
    (retryable : run.retryable = true)
    (last : ∀ r ∈ db.runs.rows, r.retryOf = some run.root → r.attempt ≤ run.attempt) {r : TaskRun}
    (hr : r ∈ db.runs.rows) (hroot : r.root = run.root) : r.processConfirmedGone = true := by
  have hle := (inv.lineage.attempt_bounds hr).2
  rw [hroot, ← inv.lineage.attempt_eq_length hrun last] at hle
  by_cases heq : r.attempt = run.attempt
  · rw [inv.lineage.eq_of_attempt_eq hr hrun hroot heq]
    simp only [TaskRun.retryable, Bool.and_eq_true] at retryable
    exact retryable.1.1.2
  · exact inv.replaced r hr run hrun hroot (by omega)

/-- A row-wise change that takes no word back. -/
theorem AttemptInv.rewrite {f : TaskRun → TaskRun} (runs : db'.runs.rows = db.runs.rows.map f)
    (hsame : ∀ r ∈ db.runs.rows, SameRun r (f r)) (hrested : ∀ r ∈ db.runs.rows, (f r).Rested)
    (hstill : ∀ r ∈ db.runs.rows, r.processConfirmedGone = true →
      (f r).processConfirmedGone = true) : AttemptInv db' := by
  refine ⟨inv.lineage.rewrite hsame runs, ?_, ?_⟩
  · intro r' hr'
    rw [runs] at hr'
    obtain ⟨r, hr, rfl⟩ := List.mem_map.mp hr'
    exact hrested r hr
  · intro s hs s' hs' hroot hlt
    rw [runs] at hs hs'
    obtain ⟨r, hr, rfl⟩ := List.mem_map.mp hs
    obtain ⟨r', hr', rfl⟩ := List.mem_map.mp hs'
    rw [(hsame r hr).root, (hsame r' hr').root] at hroot
    rw [(hsame r hr).attempt, (hsame r' hr').attempt] at hlt
    exact hstill r hr (inv.replaced r hr r' hr' hroot hlt)

/-- A new queued row that no attempt of its lineage comes after; those
before it are over. -/
theorem AttemptInv.create {r : TaskRun} (hlineage : LineageInv db')
    (runs : db'.runs.rows = db.runs.rows ++ [r]) (hnew : r.processConfirmedGone = false)
    (hover : ∀ s ∈ db.runs.rows, s.root = r.root →
      s.attempt < r.attempt ∧ s.processConfirmedGone = true) : AttemptInv db' := by
  refine ⟨hlineage, ?_, ?_⟩
  · intro s hs
    rw [runs] at hs
    rcases List.mem_append.mp hs with hs | hs
    · exact inv.rested s hs
    · obtain rfl := List.mem_singleton.mp hs
      intro hgone
      rw [hnew] at hgone
      cases hgone
  · intro s hs s' hs' hroot hlt
    rw [runs] at hs hs'
    rcases List.mem_append.mp hs with hold | hlast
    · rcases List.mem_append.mp hs' with hold' | hlast'
      · exact inv.replaced s hold s' hold' hroot hlt
      · rw [List.mem_singleton.mp hlast'] at hroot
        exact (hover s hold hroot).2
    · rw [List.mem_singleton.mp hlast] at hroot hlt
      rcases List.mem_append.mp hs' with hold' | hlast'
      · have := (hover s' hold' hroot.symm).1
        omega
      · rw [List.mem_singleton.mp hlast'] at hlt
        omega

/-- Every operation keeps the invariant that brings back no run recorded
gone. -/
theorem AttemptInv.step (hback : ∀ r ∈ db.runs.rows, reenters db op r = true →
      r.processConfirmedGone = false) : AttemptInv (apply db op) := by
  have hlineage : LineageInv (apply db op) := inv.lineage.step
  cases apply_effect db op with
  | rewrite f released runs change leases =>
    refine inv.rewrite runs (fun r hr => (change r hr).sameRun) ?_ ?_
    · exact fun r hr => (change r hr).rested (inv.rested r hr)
    · exact fun r hr =>
      (change r hr).still (inv.rested r hr) (hback r hr)
  | assigned a run hop h =>
    refine inv.rewrite h.runs (fun r _ => sameRun_assignTo _ a r) ?_ ?_
    · intro r hr
      by_cases hid : r.id = a.runID
      · rw [Table.amend_pos (by simp [hid])]
        intro hgone
        cases hgone
      · rw [Table.amend_neg (by simp [hid])]
        exact inv.rested r hr
    · intro r hr hgone
      -- the assigned run was queued, and a queued run is not gone
      have hne : r.id ≠ a.runID := by
        intro hid
        have heq := db.runs.eq_of_key_eq hr h.mem (hid.trans h.id_eq.symm)
        rw [heq] at hgone
        exact (inv.rested run h.mem hgone).2 h.queued
      rw [Table.amend_neg (by simp [hne])]
      exact hgone
  | triggered d id versionID type trigger parameters now fresh runs leases =>
    refine inv.create hlineage runs rfl ?_
    intro s hs hroot
    have hmem : s ∈ db.lineage id := mem_lineage.mpr ⟨hs, hroot⟩
    rw [inv.lineage.lineage_fresh fresh] at hmem
    cases hmem
  | retried run id at_ automatic hop hrun retryable last fresh runs leases =>
    refine inv.create hlineage runs rfl ?_
    intro s hs hroot
    have hsroot : s.root = run.root := hroot
    refine ⟨?_, inv.over hrun retryable last hs hsroot⟩
    have hle := (inv.lineage.attempt_bounds hs).2
    rw [hsroot, ← inv.lineage.attempt_eq_length hrun last] at hle
    show s.attempt < run.attempt + 1
    omega

end Steps

/-- Two active runs of a lineage are one run. -/
theorem AttemptInv.active_unique (inv : AttemptInv db) {r r' : TaskRun} (hr : r ∈ db.runs.rows)
    (hr' : r' ∈ db.runs.rows) (hroot : r.root = r'.root) (hact : r.state.active = true)
    (hact' : r'.state.active = true) : r = r' := by
  -- neither is recorded gone, so neither has a later attempt
  have hfresh : ∀ s ∈ db.runs.rows, s.state.active = true → s.processConfirmedGone ≠ true := by
    intro s hs hactive hgone
    rw [(inv.rested s hs hgone).1] at hactive
    cases hactive
  have hle : r'.attempt ≤ r.attempt := by
    by_contra hlt
    exact hfresh r hr hact (inv.replaced r hr r' hr' hroot (by omega))
  have hge : r.attempt ≤ r'.attempt := by
    by_contra hlt
    exact hfresh r' hr' hact' (inv.replaced r' hr' r hr hroot.symm (by omega))
  exact inv.lineage.eq_of_attempt_eq hr hr' hroot (by omega)

end Yunling
