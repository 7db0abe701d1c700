/-
Writes to servers and their snapshots (`internal/server/postgres.go`, and
`SetServerDraining` of `internal/agentupgrade/postgres.go`), with the two
script writes the scheduler depends on.

A server's `max_concurrency` has no writer: a row is inserted with the
column's default, and every `UPDATE` leaves it alone.

# Scripts

A published version is an insert (a trigger keeps it immutable).
`saveSync` stands for every later write to a sync row: the sync service
moves its status and records the digest an agent reported; here the two
are free.
-/
import Yunling.Schema

namespace Yunling

-- ======== heartbeats

/-- `agentprotocol.Heartbeat`: the fields that reach the tables. -/
structure Heartbeat where
  serverID : String
  sequence : Nat
  cpuTotalMilli : Int
  cpuUsedMilli : Int
  memoryTotalBytes : Int
  memoryUsedBytes : Int
  diskTotalBytes : Int
  diskFreeBytes : Int
  runningTasks : Int
  runtimes : List String
  capabilities : List String
  deriving DecidableEq

namespace Heartbeat

/-- The `CHECK`s of `server_snapshots`. -/
def checks (h : Heartbeat) : Bool :=
  0 ≤ h.cpuTotalMilli && 0 ≤ h.cpuUsedMilli && 0 ≤ h.memoryTotalBytes && 0 ≤ h.memoryUsedBytes
    && 0 ≤ h.diskTotalBytes && 0 ≤ h.diskFreeBytes
    && 0 ≤ h.runningTasks

/-- The `UPDATE servers` of an accepted heartbeat. -/
def touch (h : Heartbeat) (receivedAt : Int) (s : Server) : Server :=
  { s with
    lastHeartbeatSequence := h.sequence
    lastSeenAt := some receivedAt
    status :=
      if s.status = .quarantined then s.status
      else if s.drainRequested then .draining
      else .online
    runtimes := h.runtimes
    agentCapabilities := h.capabilities }

/-- The snapshot row an accepted heartbeat inserts. -/
def snapshot (h : Heartbeat) (receivedAt : Int) : ServerSnapshot where
  serverId := h.serverID
  cpuTotalMilli := h.cpuTotalMilli
  cpuUsedMilli := h.cpuUsedMilli
  memoryTotalBytes := h.memoryTotalBytes
  memoryAvailableBytes := max (h.memoryTotalBytes - h.memoryUsedBytes) 0
  diskTotalBytes := max h.diskTotalBytes h.diskFreeBytes
  diskAvailableBytes := h.diskFreeBytes
  runningTasks := h.runningTasks.toNat
  collectedAt := receivedAt

end Heartbeat

/-- `SaveHeartbeat`: whether the heartbeat was accepted. -/
def saveHeartbeat (h : Heartbeat) (receivedAt : Int) : Tx Bool :=
  fun db =>
    if 2 ^ 63 ≤ h.sequence then .error .invalidHeartbeat
    else match db.servers.find? h.serverID with
      | none => .ok (false, db)
      | some s =>
        if s.enabled && s.lastHeartbeatSequence < h.sequence then
          if h.checks then
            .ok (true, { db with
              servers := db.servers.update (fun s => s.id == h.serverID)
                (h.touch receivedAt) fun _ => rfl
              snapshots := db.snapshots ++ [h.snapshot receivedAt] })
          else .error .constraint
        else .ok (false, db)

-- ======== servers

/-- `ConsumeEnrollmentToken`: the server row; every column it does not
name takes its default. -/
def enrollServer (id : String) (labels : List (String × String)) : Tx Unit := fun db =>
  match db.servers.insert?
      { id, status := .pending, enabled := true, drainRequested := false,
        labels, runtimes := [], agentCapabilities := [],
        maxConcurrency := 1, schedulingWeight := 100,
        lastHeartbeatSequence := 0, lastSeenAt := none } with
  | some servers => .ok ((), { db with servers })
  | none => .error .constraint

/-- `server.UpdateServerInput`; an absent field keeps its column. -/
structure UpdateServerInput where
  labels : Option (List (String × String))
  schedulingWeight : Option Int
  enabled : Option Bool
  draining : Option Bool
  deriving DecidableEq

/-- The `UPDATE servers` of `UpdateServer`; `now` is the database's
clock. -/
def UpdateServerInput.write (input : UpdateServerInput) (now : Int) (s : Server) : Server :=
  let enabled := input.enabled.getD s.enabled
  let draining := input.draining.getD s.drainRequested
  { s with
    labels := input.labels.getD s.labels
    schedulingWeight := input.schedulingWeight.getD s.schedulingWeight
    enabled
    drainRequested := if enabled = false then false else draining
    status :=
      if enabled = false then .offline
      else if draining && s.status == .online then .draining
      else if !draining && s.status == .draining then
        if s.lastSeenAt.any (now - 15 * second ≤ ·) then .online
        else .offline
      else s.status }

/-- `UpdateServer`. -/
def updateServer (id : String) (input : UpdateServerInput) (now : Int) : Tx Unit := fun db =>
  match db.servers.find? id with
  | none => .error .serverNotFound
  | some s =>
    let w := (input.write now s).schedulingWeight
    if 1 ≤ w ∧ w ≤ 1000 then
      .ok ((), { db with
        servers := db.servers.update (fun s => s.id == id) (input.write now) fun _ => rfl })
    else .error .constraint

/-- `MarkOfflineBefore`: the ids of the servers marked. -/
def markOfflineBefore (cutoff : Int) : Tx (List String) := fun db =>
  let silent := fun s : Server =>
    (s.status == .online || s.status == .draining) && s.lastSeenAt.any (decide <| · < cutoff)
  .ok ((db.servers.rows.filter silent).map (·.id), { db with
    servers := db.servers.update silent (fun s => { s with status := .offline }) fun _ => rfl })

/-- The server half of `RevokeServerCredentials`. -/
def revokeServerCredentials (id : String) : Tx Unit := fun db =>
  match db.servers.find? id with
  | none => .error .serverNotFound
  | some _ => .ok ((), { db with
      servers := db.servers.update (fun s => s.id == id)
        (fun s => { s with status := .offline }) fun _ => rfl })

/-- `SetServerDraining`. -/
def setServerDraining (id : String) (draining : Bool) : Tx Unit :=
  fun db =>
    match db.servers.find? id with
    | none => .error .serverIneligible
    | some _ => .ok ((), { db with
        servers := db.servers.update (fun s => s.id == id) (fun s => { s with
            drainRequested := draining
            status :=
              if draining && s.status == .online then .draining
              else if !draining && s.status == .draining then .online
              else s.status }) fun _ => rfl })

-- ======== scripts

/-- Publishing a version: a fresh id, and a version number not used by
its script. -/
def publishVersion (v : ScriptVersion) : Tx Unit := fun db =>
  if db.versions.rows.any fun w =>
      w.scriptId == v.scriptId && w.version == v.version then
    .error .constraint
  else match db.versions.insert? v with
    | some versions => .ok ((), { db with versions })
    | none => .error .constraint

/-- A write of the sync service: a new status and digest for the sync of
one version to one server. -/
def saveSync (serverID versionID : String) (status : SyncState)
    (sha256 : Option String) : Tx Unit := fun db =>
  .ok ((), { db with
    syncs := db.syncs.update (fun s => s.serverId == serverID && s.scriptVersionId == versionID)
      (fun s => { s with status, artifactSha256 := sha256 }) fun _ => rfl })

end Yunling
