/-
Which servers may take a run, and in which order they are tried
(`internal/scheduler/types.go`, `filter.go`, `score.go`).

`filter` keeps the servers that could take the run by what their last
heartbeat said; `rankCandidates` sorts them by score, then by id. Scores
are computed in 64-bit integers, so every product is wrapped.

# Case folding

`strings.EqualFold` compares under Unicode simple case folding. The
folding is a parameter here (`fold`, a representative of each character's
class): nothing below depends on which characters it identifies.
-/
import Yunling.Lib.OrderBy
import Yunling.Schema

namespace Yunling.Scheduler

open OrderBy

-- ======== types

/-- `task.Run`, as the scheduler reads it. -/
structure Run where
  id : String
  definitionID : String
  scriptVersionID : String
  state : RunState
  requiredLabels : List (String × String)
  requiredRuntime : String
  priority : Int
  resources : Resources
  maxConcurrency : Nat
  timeoutSeconds : Nat
  maxWaitSeconds : Nat
  queuedAt : Int
  requiresArtifacts : Bool
  deriving DecidableEq

/-- `server.Snapshot`. The two version maps are the lists of the keys
they map to `true`. -/
structure Snapshot where
  id : String
  status : ServerStatus
  enabled : Bool
  draining : Bool
  labels : List (String × String)
  runtimes : List String
  agentCapabilities : List String
  maxConcurrency : Int
  schedulingWeight : Int
  cpuTotalMillicores : Int
  cpuAvailableMillicores : Int
  memoryTotalBytes : Int
  memoryAvailableBytes : Int
  diskTotalBytes : Int
  diskAvailableBytes : Int
  runningTasks : Int
  readyScriptVersions : List String
  blockedScriptVersions : List String
  fairnessScore : Int
  deriving DecidableEq

/-- `scheduler.Candidate`. -/
structure Candidate where
  serverID : String
  total : Resources
  available : Resources
  runningTasks : Int
  maxConcurrency : Int
  scriptCached : Bool
  fairnessScore : Int
  schedulingWeight : Int
  deriving DecidableEq

/-- `scheduler.LeaseRequest`. -/
structure LeaseRequest where
  runID : String
  serverID : String
  available : Resources
  required : Resources
  now : Int
  ttl : Int
  deriving DecidableEq

/-- `scheduler.Lease`. -/
structure Lease where
  id : String
  runID : String
  serverID : String
  resources : Resources
  expiresAt : Int
  deriving DecidableEq

/-- `scheduler.Assignment`. -/
structure Assignment where
  runID : String
  serverID : String
  scriptVersionID : String
  executionToken : String
  lease : Lease
  assignedAt : Int
  deriving DecidableEq

/-- `scheduler.Outcome`. -/
inductive Outcome where
  | assigned | queued | expired
  deriving DecidableEq

-- ======== filter

/-- `strings.TrimSpace`. -/
def trimSpace (s : String) : List Char :=
  ((s.toList.dropWhile isSpace).reverse.dropWhile isSpace).reverse

/-- `labelsMatch`. -/
def labelsMatch (required available : List (String × String)) : Bool :=
  required.all fun entry => textAt available entry.1 == entry.2

section Filter

variable (fold : Char → Char)

/-- `strings.EqualFold` of the trimmed texts. -/
def equalFold (a b : String) : Bool :=
  (trimSpace a).map fold == (trimSpace b).map fold

/-- `runtimeAvailable`. -/
def runtimeAvailable (required : String) (runtimes : List String) : Bool :=
  runtimes.any fun runtimeName => equalFold fold runtimeName required

/-- The tests of the loop in `Filter`. -/
def accepts (run : Run) (item : Snapshot) : Bool :=
  item.status == .online && item.enabled && !item.draining
    && labelsMatch run.requiredLabels item.labels
    && runtimeAvailable fold run.requiredRuntime item.runtimes
    && !(run.requiresArtifacts && !item.agentCapabilities.contains "run_artifacts_v1")
    && !(item.maxConcurrency ≤ 0
      || item.maxConcurrency ≤ item.runningTasks)
    && !item.blockedScriptVersions.contains run.scriptVersionID
    && run.resources.cpuMillicores ≤ item.cpuAvailableMillicores
    && run.resources.memoryBytes ≤ item.memoryAvailableBytes
    && run.resources.diskBytes ≤ item.diskAvailableBytes

/-- The candidate a kept server becomes. -/
def Snapshot.candidate (item : Snapshot) (run : Run) : Candidate where
  serverID := item.id
  total := ⟨item.cpuTotalMillicores, item.memoryTotalBytes, item.diskTotalBytes⟩
  available := ⟨item.cpuAvailableMillicores, item.memoryAvailableBytes, item.diskAvailableBytes⟩
  runningTasks := item.runningTasks
  maxConcurrency := item.maxConcurrency
  scriptCached := item.readyScriptVersions.contains run.scriptVersionID
  fairnessScore := item.fairnessScore
  schedulingWeight :=
    if item.schedulingWeight ≤ 0 then 100 else item.schedulingWeight

/-- `Filter`. -/
def filter (run : Run) (servers : List Snapshot) : List Candidate :=
  (servers.filter (accepts fold run)).map (·.candidate run)

/-- A candidate comes from a server with a free slot in its last
snapshot and room for the run. -/
theorem mem_filter {run : Run} {servers : List Snapshot} {c : Candidate}
    (h : c ∈ filter fold run servers) : ∃ item ∈ servers, c = item.candidate run
      ∧ item.runningTasks < item.maxConcurrency
      ∧ run.resources.cpuMillicores ≤ c.available.cpuMillicores
      ∧ run.resources.memoryBytes ≤ c.available.memoryBytes
      ∧ run.resources.diskBytes ≤ c.available.diskBytes := by
  obtain ⟨item, hitem, rfl⟩ := List.mem_map.mp h
  obtain ⟨hmem, hacc⟩ := List.mem_filter.mp hitem
  simp only [accepts, Bool.and_eq_true, Bool.not_eq_true',
    Bool.or_eq_false_iff, decide_eq_false_iff_not, decide_eq_true_eq] at hacc
  obtain ⟨⟨⟨⟨⟨-, -, hslots⟩, -⟩, hcpu⟩, hmemory⟩, hdisk⟩ := hacc
  exact ⟨item, hmem, rfl, by omega, hcpu, hmemory, hdisk⟩

end Filter

-- ======== scores

/-- Two's complement wrap-around of a 64-bit result. -/
def wrap64 (x : Int) : Int := (x + 2 ^ 63) % 2 ^ 64 - 2 ^ 63

/-- `scoreBasis`. -/
def scoreBasis : Int := 10000

/-- `clamp`. -/
def clamp (value minimum maximum : Int) : Int :=
  if value < minimum then minimum
  else if maximum < value then maximum
  else value

/-- `ratio`. -/
def ratio (available total : Int) : Int :=
  if total ≤ 0 ∨ available ≤ 0 then 0
  else clamp ((wrap64 (available * scoreBasis)).tdiv total) 0 scoreBasis

/-- `Score`. -/
def score (candidate : Candidate) : Int :=
  let memory :=
    ratio candidate.available.memoryBytes candidate.total.memoryBytes
  let cpu :=
    ratio candidate.available.cpuMillicores candidate.total.cpuMillicores
  let availableSlots :=
    wrap64 (candidate.maxConcurrency - candidate.runningTasks)
  let concurrency := ratio availableSlots candidate.maxConcurrency
  let cache := if candidate.scriptCached then scoreBasis else 0
  let fairness := clamp candidate.fairnessScore 0 scoreBasis
  let base := (wrap64 (memory * 35 + cpu * 25 + concurrency * 20
    + cache * 15 + fairness * 5)).tdiv 100
  let weight :=
    if candidate.schedulingWeight ≤ 0 then 100
    else candidate.schedulingWeight
  (wrap64 (base * weight)).tdiv 100

/-- The order of `RankCandidates`: score descending, then server id. -/
abbrev Candidate.before : Candidate → Candidate → Prop :=
  Lex (fun c => -score c) (Asc (·.serverID))

/-- `RankCandidates`. -/
def rankCandidates (candidates : List Candidate) : List Candidate :=
  candidates.insertionSort Candidate.before

theorem mem_rankCandidates {c : Candidate} {candidates : List Candidate} :
    c ∈ rankCandidates candidates ↔ c ∈ candidates := List.mem_insertionSort _

-- ======== leases

/-- `leaseTTL`. -/
def leaseTTL (timeoutSeconds : Nat) : Int :=
  let timeout := timeoutSeconds * second
  (if timeout ≤ 0 then 60 * minute else timeout) + 2 * minute

/-- The reservation `ScheduleOne` asks of a candidate. -/
def Run.leaseRequest (run : Run) (candidate : Candidate) (now : Int) : LeaseRequest where
  runID := run.id
  serverID := candidate.serverID
  available := candidate.available
  required := run.resources
  now
  ttl := leaseTTL run.timeoutSeconds

/-- The lease a granted request returns, under its new id. -/
def LeaseRequest.lease (request : LeaseRequest) (leaseID : String) : Lease where
  id := leaseID
  runID := request.runID
  serverID := request.serverID
  resources := request.required
  expiresAt := request.now + request.ttl

/-- The assignment `ScheduleOne` makes of a granted lease. -/
def Run.assignment (run : Run) (lease : Lease) (executionToken : String)
    (now : Int) : Assignment where
  runID := run.id
  serverID := lease.serverID
  scriptVersionID := run.scriptVersionID
  executionToken
  lease
  assignedAt := now

end Yunling.Scheduler
