/-
The status of a server and its two switches.

The scheduler offers a server by its status, while operators and upgrades
turn `enabled` and `drain_requested`. Every write that turns a switch
computes the status anew, each in its own way; between them a server that
is online is enabled and not asked to drain, and one that is draining is
enabled and asked to (`server_status_agrees`).
-/
import Yunling.Platform.Servers

namespace Yunling

open Relational

/-- The status says what the switches say. -/
structure Server.Agrees (s : Server) : Prop where
  online : s.status = .online → s.enabled = true ∧ s.drainRequested = false
  draining : s.status = .draining → s.enabled = true ∧ s.drainRequested = true

section Status

variable {db db' : Database}

/-- A status that says nothing of the switches. -/
theorem Server.Agrees.of_status {s : Server} (hne : s.status ≠ .online)
    (hne' : s.status ≠ .draining) : s.Agrees :=
  ⟨fun h => absurd h hne, fun h => absurd h hne'⟩

variable (h : ∀ s ∈ db.servers.rows, s.Agrees)

include h

theorem agrees_amend {p : Server → Bool} {f : Server → Server}
    (rows : db'.servers.rows = db.servers.rows.map (Table.amend p f))
    (keep : ∀ s ∈ db.servers.rows, p s = true → s.Agrees → (f s).Agrees) :
    ∀ s ∈ db'.servers.rows, s.Agrees := by
  intro s hs
  rw [rows] at hs
  obtain ⟨s, hmem, rfl⟩ := List.mem_map.mp hs
  unfold Table.amend
  split
  · next hp => exact keep s hmem hp (h s hmem)
  · exact h s hmem

theorem agrees_apply (op : Op) : ∀ s ∈ (apply db op).servers.rows, s.Agrees := by
  cases op with
  | heartbeat b receivedAt =>
    show ∀ s ∈ (settle db (saveHeartbeat b receivedAt db)).servers.rows, s.Agrees
    unfold saveHeartbeat
    split
    · exact h
    split
    · exact h
    next row hrow =>
    split
    · next haccepted =>
      split
      · refine agrees_amend h rfl fun s hs hid _ => ?_
        -- only the row that was found, which is enabled
        obtain rfl : s = row := Option.some.inj
          ((db.servers.find?_eq_some.mpr ⟨hs, eq_of_beq hid⟩).symm.trans hrow)
        have henabled : s.enabled = true := (Bool.and_eq_true_iff.mp haccepted).1
        constructor <;> simp only [Heartbeat.touch] <;> split <;> simp_all
      · exact h
    · exact h
  | enrollServer id labels =>
    show ∀ s ∈ (settle db (enrollServer id labels db)).servers.rows, s.Agrees
    unfold enrollServer
    split
    · next servers hinsert =>
      intro s hs
      rw [show (settle db (.ok ((), { db with servers }))).servers.rows = servers.rows from rfl,
        (Table.insert?_eq_some hinsert).1] at hs
      rcases List.mem_append.mp hs with hs | hs
      · exact h s hs
      · obtain rfl := List.mem_singleton.mp hs
        exact .of_status (by simp) (by simp)
    · exact h
  | updateServer id input now =>
    show ∀ s ∈ (settle db (updateServer id input now db)).servers.rows, s.Agrees
    unfold updateServer
    dsimp only
    split
    · exact h
    split
    · refine agrees_amend h rfl fun s _ _ hs => ?_
      obtain ⟨honline, hdraining⟩ := hs
      constructor <;> simp only [UpdateServerInput.write] <;> grind
    · exact h
  | markOffline cutoff =>
    exact agrees_amend h rfl fun _ _ _ _ => .of_status (by simp) (by simp)
  | revokeCredentials id =>
    show ∀ s ∈ (settle db (revokeServerCredentials id db)).servers.rows, s.Agrees
    unfold revokeServerCredentials
    split
    · exact h
    · exact agrees_amend h rfl fun _ _ _ _ => .of_status (by simp) (by simp)
  | setDraining id draining =>
    show ∀ s ∈ (settle db (setServerDraining id draining db)).servers.rows, s.Agrees
    unfold setServerDraining
    split
    · exact h
    · refine agrees_amend h rfl fun s _ _ hs => ?_
      obtain ⟨honline, hdraining⟩ := hs
      constructor <;> dsimp only <;> grind
  | _ =>
    rw [apply_servers_eq db rfl]
    exact h

end Status

/-- However the writes of servers and all other operations interleave. -/
theorem server_status_agrees (ops : List Op) :
    ∀ s ∈ (runOps .empty ops).servers.rows,
      (s.status = .online → s.enabled = true ∧ s.drainRequested = false)
      ∧ (s.status = .draining → s.enabled = true ∧ s.drainRequested = true) := by
  intro s hs
  have hrun : ∀ s ∈ (runOps .empty ops).servers.rows, s.Agrees :=
    Transition.run_invariant (I := fun db : Database => ∀ s ∈ db.servers.rows, s.Agrees)
      (fun _ op h => agrees_apply h op) (fun _ h => absurd h List.not_mem_nil) ops
  exact ⟨(hrun s hs).online, (hrun s hs).draining⟩

/-- An enrolled server after its first heartbeat. -/
theorem server_status_agrees_enrolled :
    ∃ s ∈ (runOps .empty (Sample.setup [])).servers.rows,
      s.status = .online ∧ s.enabled = true ∧ s.drainRequested = false := by
  obtain ⟨s, hs, honline⟩ : ∃ s ∈ (runOps .empty (Sample.setup [])).servers.rows,
      s.status = .online := by decide +kernel
  exact ⟨s, hs, honline, (server_status_agrees _ s hs).1 honline⟩

end Yunling
