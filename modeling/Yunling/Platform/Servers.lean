/-
What one operation can do to the servers, said once.

A server's row is updated in place or added by an enrolment; nothing
deletes it. No update touches the id or `max_concurrency`
(`apply_servers`), so a bound read off a server row stays the bound of
that server.
-/
import Yunling.Platform.Effects

namespace Yunling

open Relational Scheduler

/-- What an operation does to the servers. -/
inductive ServerEffect (db db' : Database) : Prop
  | update (f : Server → Server) (rows : db'.servers.rows = db.servers.rows.map f)
      (keep : ∀ s, (f s).id = s.id ∧ (f s).maxConcurrency = s.maxConcurrency)
  | enroll (s : Server) (fresh : ∀ t ∈ db.servers.rows, t.id ≠ s.id)
      (rows : db'.servers.rows = db.servers.rows ++ [s])

section Servers

variable {db db' : Database}

theorem ServerEffect.of_eq (h : db'.servers = db.servers) : ServerEffect db db' := by
  refine .update id ?_ fun _ => ⟨rfl, rfl⟩
  rw [h, List.map_id]

/-- An `UPDATE` that leaves both columns alone. -/
theorem ServerEffect.of_amend {p : Server → Bool} {f : Server → Server}
    (rows : db'.servers.rows = db.servers.rows.map (Table.amend p f)) (keep : ∀ s, (f s).id = s.id
      ∧ (f s).maxConcurrency = s.maxConcurrency) : ServerEffect db db' := by
  refine .update _ rows fun s => ?_
  unfold Table.amend
  split
  · exact keep s
  · exact ⟨rfl, rfl⟩

/-- A server of before is one of after, with the same bound. -/
theorem ServerEffect.mem_of_mem (h : ServerEffect db db') {s : Server} (hs : s ∈ db.servers.rows) :
    ∃ s' ∈ db'.servers.rows, s'.id = s.id ∧ s'.maxConcurrency = s.maxConcurrency := by
  cases h with
  | update f rows keep =>
    refine ⟨f s, ?_, keep s⟩
    rw [rows]
    exact List.mem_map_of_mem hs
  | enroll t fresh rows =>
    refine ⟨s, ?_, rfl, rfl⟩
    rw [rows]
    exact List.mem_append_left _ hs

/-- A server of after is one of before, with the same bound, or new. -/
theorem ServerEffect.mem (h : ServerEffect db db') {s' : Server} (hs' : s' ∈ db'.servers.rows) :
    (∃ s ∈ db.servers.rows, s'.id = s.id ∧ s'.maxConcurrency = s.maxConcurrency)
    ∨ ∀ t ∈ db.servers.rows, t.id ≠ s'.id := by
  cases h with
  | update f rows keep =>
    rw [rows] at hs'
    obtain ⟨s, hs, rfl⟩ := List.mem_map.mp hs'
    exact Or.inl ⟨s, hs, keep s⟩
  | enroll t fresh rows =>
    rw [rows] at hs'
    rcases List.mem_append.mp hs' with hs' | hs'
    · exact Or.inl ⟨s', hs', rfl, rfl⟩
    · obtain rfl := List.mem_singleton.mp hs'
      exact Or.inr fresh

end Servers

-- ======== loops

theorem foldl_servers {α : Type} {f : Database → α → Database}
    (h : ∀ db a, (f db a).servers = db.servers) (db : Database)
    (l : List α) : (l.foldl f db).servers = db.servers := by
  induction l generalizing db with
  | nil => rfl
  | cons a l ih => rw [List.foldl_cons, ih, h]

theorem appendForEach_servers (db : Database)
    (runs : List (String × Int)) (eventType : String) (state : RunState) (payload : Payload) :
    (db.appendForEach runs eventType state payload).servers = db.servers := by
  apply foldl_servers
  intro db run
  rfl

theorem reconcileItem_servers (report : RunningReport) (at_ : Int)
    (db : Database) (item : TaskRun) : (reconcileItem report at_ db item).servers = db.servers := by
  have husage : ∀ usage, (saveRunUsage db item.id usage).servers = db.servers := by
    intro usage
    unfold saveRunUsage
    repeat' split
    all_goals rfl
  unfold reconcileItem
  repeat' split
  all_goals first
    | rfl
    | exact husage _

-- ======== assembly

/-- The operations that write servers. -/
def Op.writesServers : Op → Bool
  | .heartbeat .. | .enrollServer .. | .updateServer .. | .markOffline ..
  | .revokeCredentials .. | .setDraining .. => true
  | _ => false

/-- The others leave them alone. -/
theorem apply_servers_eq (db : Database) {op : Op}
    (h : op.writesServers = false) : (apply db op).servers = db.servers := by
  cases op with
  | heartbeat | enrollServer | updateServer | markOffline | revokeCredentials | setDraining =>
    cases h
  | setEnabled id enabled cancelQueued now =>
    simp only [apply, setEnabled]
    repeat' split
    all_goals first
      | rfl
      | exact appendForEach_servers _ _ _ _ _
  | assign a =>
    simp only [apply, assign]
    repeat' split
    all_goals first
      | rfl
      | have hkept := prepareSync_frame ‹Database.prepareSync _ _ _ = Except.ok _›
        exact hkept.2
  | serverOffline serverID at_ => exact appendForEach_servers _ _ _ _ _
  | reconcile report now =>
    simp only [apply, reconcile]
    split
    · rfl
    · exact foldl_servers (reconcileItem_servers report now) db _
  | _ =>
    -- one statement, on another table
    simp only [apply, createDefinition, updateDefinition, deleteDefinition, triggerRun, cancelRun,
      expireRun, setQueueReason, eventServiceApply, applyRunEvent, AgentRunEvent.commit, retryRun,
      publishVersion]
    repeat' split
    all_goals rfl

/-- Every operation keeps the servers and their bounds. -/
theorem apply_servers (db : Database) (op : Op) : ServerEffect db (apply db op) := by
  cases op with
  | heartbeat h receivedAt =>
    show ServerEffect db (settle db (saveHeartbeat h receivedAt db))
    unfold saveHeartbeat
    repeat' split
    all_goals first
      | exact .of_eq rfl
      | exact .of_amend rfl fun _ => ⟨rfl, rfl⟩
  | enrollServer id labels =>
    show ServerEffect db (settle db (enrollServer id labels db))
    unfold enrollServer
    split
    · next hins =>
      obtain ⟨hrows, hfresh⟩ := Table.insert?_eq_some hins
      exact .enroll _ hfresh hrows
    · exact .of_eq rfl
  | updateServer id input now =>
    show ServerEffect db (settle db (updateServer id input now db))
    unfold updateServer
    dsimp only
    repeat' split
    all_goals first
      | exact .of_eq rfl
      | exact .of_amend rfl fun _ => ⟨rfl, rfl⟩
  | markOffline cutoff => exact .of_amend rfl fun _ => ⟨rfl, rfl⟩
  | revokeCredentials id =>
    show ServerEffect db (settle db (revokeServerCredentials id db))
    unfold revokeServerCredentials
    split
    · exact .of_eq rfl
    · exact .of_amend rfl fun _ => ⟨rfl, rfl⟩
  | setDraining id draining =>
    show ServerEffect db (settle db (setServerDraining id draining db))
    unfold setServerDraining
    split
    · exact .of_eq rfl
    · exact .of_amend rfl fun _ => ⟨rfl, rfl⟩
  | _ => exact .of_eq (apply_servers_eq db rfl)

end Yunling
