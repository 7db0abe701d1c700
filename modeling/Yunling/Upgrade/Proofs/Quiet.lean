/-
Servers that an upgrade may interrupt.

A server is quiet when no run is active on it, no scheduler has it on
offer, and it is asked to drain (`Quiet`). It stays so: a run that is
assigned to it would have to be on offer, and what is decided from now on
leaves out servers that are asked to drain. Only two things end it: the
drain is taken back (`Op.undrains`), or a run that was given up as
unknown comes back (`reenters`).
-/
import Yunling.Upgrade.System

namespace Yunling.Upgrade

open Relational Scheduler

-- ======== drains

/-- The operation takes the drain of a server back. -/
def undrains (db : Database) (serverID : String) : Op → Bool
  | .setDraining id draining => id == serverID && !draining
  | .updateServer id input now => id == serverID && (db.servers.find? id).any fun server =>
        !(input.write now server).drainRequested
  | _ => false

section Drains

variable {db db' : Database} {server : Server} {op : Op} (hs : server ∈ db.servers.rows)
  (hd : server.drainRequested = true)

include hs hd

/-- An `UPDATE` that leaves the drain of a server alone. -/
theorem drains_amend {p : Server → Bool} {f : Server → Server}
    (rows : db'.servers.rows = db.servers.rows.map (Table.amend p f))
    (keep : p server = true → (f server).id = server.id ∧ (f server).drainRequested = true) :
    ∃ server' ∈ db'.servers.rows, server'.id = server.id ∧ server'.drainRequested = true := by
  refine ⟨Table.amend p f server, ?_, ?_⟩
  · rw [rows]
    exact List.mem_map_of_mem hs
  · unfold Table.amend
    split
    · next hp => exact keep hp
    · exact ⟨rfl, hd⟩

theorem drains_same (h : db'.servers = db.servers) :
    ∃ server' ∈ db'.servers.rows, server'.id = server.id ∧ server'.drainRequested = true :=
  ⟨server, h ▸ hs, rfl, hd⟩

/-- A server stays asked to drain. -/
theorem apply_drains (hop : undrains db server.id op = false) :
    ∃ server' ∈ (apply db op).servers.rows, server'.id = server.id
      ∧ server'.drainRequested = true := by
  have hfind : ∀ id, server.id = id → db.servers.find? id = some server := by
    intro id hid
    exact db.servers.find?_eq_some.mpr ⟨hs, hid⟩
  cases op with
  | heartbeat h receivedAt =>
    show ∃ server' ∈ (settle db (saveHeartbeat h receivedAt db)).servers.rows, _
    unfold saveHeartbeat
    repeat' split
    all_goals first
      | exact drains_same hs hd rfl
      | exact drains_amend hs hd rfl (fun _ => ⟨rfl, hd⟩)
  | enrollServer id labels =>
    show ∃ server' ∈ (settle db (enrollServer id labels db)).servers.rows, _
    unfold enrollServer
    split
    · next servers hins =>
      obtain ⟨hrows, -⟩ := Table.insert?_eq_some hins
      refine ⟨server, ?_, rfl, hd⟩
      show server ∈ servers.rows
      rw [hrows]
      exact List.mem_append_left _ hs
    · exact drains_same hs hd rfl
  | updateServer id input now =>
    show ∃ server' ∈ (settle db (updateServer id input now db)).servers.rows, _
    unfold updateServer
    dsimp only
    repeat' split
    all_goals first
      | exact drains_same hs hd rfl
      | skip
    refine drains_amend hs hd rfl (fun hid => ⟨rfl, ?_⟩)
    have hid := eq_of_beq hid
    simpa [undrains, hid, hfind id hid] using hop
  | markOffline cutoff =>
    exact drains_amend hs hd rfl (fun _ => ⟨rfl, hd⟩)
  | revokeCredentials id =>
    show ∃ server' ∈ (settle db (revokeServerCredentials id db)).servers.rows, _
    unfold revokeServerCredentials
    split
    · exact drains_same hs hd rfl
    · exact drains_amend hs hd rfl (fun _ => ⟨rfl, hd⟩)
  | setDraining id draining =>
    show ∃ server' ∈ (settle db (setServerDraining id draining db)).servers.rows, _
    unfold setServerDraining
    split
    · exact drains_same hs hd rfl
    · refine drains_amend hs hd rfl (fun hid => ⟨rfl, ?_⟩)
      have hid := eq_of_beq hid
      simpa [undrains, hid] using hop
  | _ => exact drains_same hs hd (apply_servers_eq db rfl)

end Drains

-- ======== quiet servers

/-- No run is active on a server, it is asked to drain, and nothing is on
offer for it. -/
structure Quiet (slots : SlotState) (serverID : String) : Prop where
  idle : slots.db.slotsUsed serverID = 0
  drains : ∃ server ∈ slots.db.servers.rows, server.id = serverID ∧ server.drainRequested = true
  offers : ∀ offer ∈ slots.offers, offer.2.serverID ≠ serverID

section Quiet

variable {slots : SlotState} {serverID : String} {op : Op} {fold : Char → Char}
  (h : Quiet slots serverID)

include h

/-- An operation that neither takes the drain back nor brings a run
back. -/
theorem Quiet.applied (hback : ∀ r ∈ slots.db.runs.rows, reenters slots.db op r = true →
      r.assignedServerId ≠ some serverID) (hop : undrains slots.db serverID op = false)
    (hassign : ∀ a, op = .assign a → a.serverID ≠ serverID) :
    Quiet { slots with db := apply slots.db op } serverID := by
  refine ⟨?_, ?_, h.offers⟩
  · refine Nat.le_zero.mp (slotsUsed_step (Nat.le_of_eq h.idle)
      (fun r hr hre ha => ?_) (fun a ha hserver _ => ?_))
    · exact absurd ha (hback r hr hre)
    · exact absurd hserver (hassign a ha)
  · obtain ⟨server, hs, rfl, hd⟩ := h.drains
    exact apply_drains hs hd hop

/-- The drain of a server, or of another one, is set. -/
theorem Quiet.setDraining {id : String} {draining : Bool} (hset : draining = true ∨ id ≠ serverID) :
    Quiet { slots with db := apply slots.db (.setDraining id draining) } serverID := by
  refine h.applied (fun r _ hre => ?_) ?_ (fun a ha => by cases ha)
  · simp [reenters] at hre
  · rcases hset with rfl | hne <;> simp_all [undrains]

/-- `Filter` leaves out a server that is asked to drain. -/
theorem Quiet.not_offered {run : Run} {dbNow : Int} {c : Candidate}
    (hc : c ∈ filter fold run (slots.db.listSnapshots dbNow run)) : c.serverID ≠ serverID := by
  intro heq
  obtain ⟨item, hitem, rfl⟩ := List.mem_map.mp hc
  obtain ⟨hmem, haccepts⟩ := List.mem_filter.mp hitem
  obtain ⟨server, hs, rfl⟩ := List.mem_map.mp hmem
  have hs := (List.mem_insertionSort _).mp hs
  obtain ⟨server', hs', hid', hd⟩ := h.drains
  have hsame : server = server' := slots.db.servers.eq_of_key_eq hs hs' (heq.trans hid'.symm)
  have hnot : (slots.db.snapshotOf dbNow run server).draining = false := by
    simp only [accepts, Bool.and_eq_true, Bool.not_eq_true'] at haccepts
    exact haccepts.1.1.1.1.1.1.1.1.2
  rw [hsame] at hnot
  exact absurd hd (by simpa [Database.snapshotOf] using hnot)

/-- The steps of scheduling leave a quiet server alone. -/
theorem Quiet.slotStep {step : SlotStep}
    (hop : ∀ op hother, step = .other op hother → undrains slots.db serverID op = false
        ∧ ∀ r ∈ slots.db.runs.rows, reenters slots.db op r = true →
          r.assignedServerId ≠ some serverID) : Quiet (slotStep fold slots step) serverID := by
  cases step with
  | decide runID dbNow =>
    simp only [Yunling.slotStep]
    split
    · exact h
    refine { h with offers := fun offer hoffer => ?_ }
    rcases List.mem_append.mp hoffer with hoffer | hoffer
    · exact h.offers offer hoffer
    · obtain ⟨c, hc, rfl⟩ := List.mem_map.mp hoffer
      exact h.not_offered hc
  | commit run candidate leaseID executionToken now =>
    simp only [Yunling.slotStep]
    split
    · next hoffer =>
      refine h.applied (fun r _ hre => ?_) rfl (fun a ha => ?_)
      · simp [reenters] at hre
      · obtain rfl := Op.assign.inj ha
        exact h.offers _ hoffer
    · exact h
  | other op hother =>
    obtain ⟨hundrains, hback⟩ := hop op hother rfl
    refine h.applied hback hundrains (fun a ha => ?_)
    rw [ha] at hother
    cases hother

end Quiet

end Yunling.Upgrade
