/-
Plans that upgrade agents batch by batch (`internal/agentupgrade/model.go`
and `version.go`, `internal/agentprotocol/upgrade.go`).

Ids the control plane generates are numbered in the order they are
drawn; `issued` counts them. Ids of servers and releases are given from
outside and stay texts.

The display columns of a plan (its events and the names of its servers)
are left out.
-/
import Yunling.Lib.OrderBy
import Yunling.Schema

namespace Yunling.Upgrade

open OrderBy

-- ======== enumerations

/-- `PlanStatus`. -/
inductive PlanStatus where
  | pending | running | paused | succeeded | cancelled
  deriving DecidableEq

/-- The statuses of `agent_upgrade_plans_one_active_idx`. -/
def PlanStatus.active : PlanStatus → Bool
  | .pending | .running | .paused => true
  | _ => false

/-- `TargetStatus`. -/
inductive TargetStatus where
  | waiting | draining | downloading | verifying | installing
  | reconnecting | healthChecking | succeeded | rollingBack | rolledBack
  | manualIntervention | cancelled
  deriving DecidableEq

/-- The text of a target status. -/
def TargetStatus.name : TargetStatus → String
  | .waiting => "waiting"
  | .draining => "draining"
  | .downloading => "downloading"
  | .verifying => "verifying"
  | .installing => "installing"
  | .reconnecting => "reconnecting"
  | .healthChecking => "health_checking"
  | .succeeded => "succeeded"
  | .rollingBack => "rolling_back"
  | .rolledBack => "rolled_back"
  | .manualIntervention => "manual_intervention"
  | .cancelled => "cancelled"

/-- `terminalTargetStatus`. -/
def TargetStatus.terminal : TargetStatus → Bool
  | .succeeded | .rolledBack | .manualIntervention | .cancelled => true
  | _ => false

/-- `UpgradeStage`. -/
inductive UpgradeStage where
  | accepted | downloading | verifying | installing | reconnecting
  | succeeded | rollingBack | rolledBack | failed
  deriving DecidableEq

/-- The text of a stage. -/
def UpgradeStage.name : UpgradeStage → String
  | .accepted => "accepted"
  | .downloading => "downloading"
  | .verifying => "verifying"
  | .installing => "installing"
  | .reconnecting => "reconnecting"
  | .succeeded => "succeeded"
  | .rollingBack => "rolling_back"
  | .rolledBack => "rolled_back"
  | .failed => "failed"

/-- `UpgradeAction`. -/
inductive UpgradeAction where
  | install | rollback
  deriving DecidableEq

/-- Why a call failed. -/
inductive UpgradeError where
  | invalidPlan | activePlanExists | serverIneligible
  | upgradeUnsupported | artifactUnavailable | noUpgradeNeeded
  | versionNotComparable | downgradeNotAllowed | rollbackSourceChanged
  | upgradeSourceChanged | releaseNotFound | planNotFound
  | targetNotFound | invalidTransition
  /-- a statement was refused, or the database not reached -/
  | database
  deriving DecidableEq

-- ======== plans

/-- `Target`. -/
structure Target where
  id : Nat
  planID : Nat
  serverID : String
  batchNumber : Nat
  sourceVersion : String
  targetVersion : String
  sourceDraining : Bool
  status : TargetStatus
  attempts : Nat
  commandID : Nat
  installCommandID : Nat
  errorCode : String
  errorMessage : String
  startedAt : Option Int
  updatedAt : Int
  finishedAt : Option Int
  deriving DecidableEq

/-- `Plan`. -/
structure Plan where
  id : Nat
  targetReleaseID : String
  targetVersion : String
  status : PlanStatus
  firstBatchSize : Nat
  batchSize : Nat
  drainTimeoutSeconds : Nat
  reconnectTimeoutSeconds : Nat
  verificationSeconds : Nat
  currentBatch : Nat
  revision : Nat
  cancelRequested : Bool
  createdBy : String
  pauseReason : String
  createdAt : Int
  startedAt : Option Int
  finishedAt : Option Int
  targets : List Target
  deriving DecidableEq

namespace Plan

/-- The targets as they are read: by batch, then by the time of their
last change, then by id. `rank` orders the ids by their texts. -/
def ordered (rank : Nat → Nat) (plan : Plan) : Plan :=
  { plan with
    targets := plan.targets.insertionSort
      (Lex (·.batchNumber) (Lex (·.updatedAt) (Asc fun t => rank t.id))) }

/-- `time.Duration(plan.DrainTimeoutSeconds) * time.Second`. -/
def drainTimeout (plan : Plan) : Int :=
  plan.drainTimeoutSeconds * second

/-- `time.Duration(plan.ReconnectTimeoutSeconds) * time.Second`. -/
def reconnectTimeout (plan : Plan) : Int :=
  plan.reconnectTimeoutSeconds * second

/-- `time.Duration(plan.VerificationSeconds) * time.Second`. -/
def verification (plan : Plan) : Int := plan.verificationSeconds * second

/-- `allTargetsTerminal`. -/
def allTargetsTerminal (plan : Plan) : Bool :=
  plan.targets.all (·.status.terminal)

/-- `hasBatch`. -/
def hasBatch (plan : Plan) (batch : Nat) : Bool :=
  plan.targets.any (·.batchNumber == batch)

/-- `batchSucceeded`. -/
def batchSucceeded (plan : Plan) (batch : Nat) : Bool :=
  plan.hasBatch batch && plan.targets.all fun t =>
    t.batchNumber != batch || t.status == .succeeded

end Plan

-- ======== messages

/-- `ArtifactInfo`. -/
structure ArtifactInfo where
  os : String
  arch : String
  fileName : String
  sha256 : String
  downloadURL : String
  byteSize : Int
  deriving DecidableEq

/-- `agentprotocol.UpgradeCommand`. What a rollback does not carry is
empty there. -/
structure UpgradeCommand where
  commandID : Nat
  planID : Nat
  targetID : Nat
  action : UpgradeAction
  sourceVersion : String
  targetVersion : String
  installCommandID : Option Nat
  artifact : Option ArtifactInfo
  reconnectTimeout : Int
  deriving DecidableEq

/-- `sentCommand`. -/
structure SentCommand where
  serverID : String
  command : UpgradeCommand
  deriving DecidableEq

/-- `agentprotocol.UpgradeEvent`. -/
structure UpgradeEvent where
  commandID : Nat
  targetID : Nat
  stage : UpgradeStage
  occurredAt : Int
  errorCode : String
  message : String
  deriving DecidableEq

/-- `agentprotocol.Heartbeat`: what it says about an upgrade. -/
structure UpgradeHeartbeat where
  serverID : String
  agentVersion : String
  upgrade : Option (Nat × Nat)
  deriving DecidableEq

-- ======== reads

/-- `agent_releases.status`. -/
inductive ReleaseStatus where
  | available | withdrawn
  deriving DecidableEq

/-- `ReleaseInfo`. -/
structure ReleaseInfo where
  id : String
  version : String
  status : ReleaseStatus
  capabilities : List String
  artifacts : List ArtifactInfo
  deriving DecidableEq

/-- `ServerRuntime`. -/
structure ServerRuntime where
  status : ServerStatus
  enabled : Bool
  draining : Bool
  runningTasks : Nat
  agentVersion : String
  agentOS : String
  agentArch : String
  lastSeenAt : Option Int
  hasSnapshot : Bool
  deriving DecidableEq

/-- `ServerInfo`. -/
structure ServerInfo where
  id : String
  status : ServerStatus
  agentVersion : String
  agentOS : String
  agentArch : String
  enabled : Bool
  draining : Bool
  capabilities : List String
  deriving DecidableEq

/-- What the store answers while a call runs. -/
structure Reads where
  release : String → Except UpgradeError ReleaseInfo
  runtime : String → Except UpgradeError ServerRuntime
  server : String → Except UpgradeError ServerInfo
  setServerDraining : String → Bool → Except UpgradeError Unit

/-- `Repository.Servers`: in order, or the first error. -/
def Reads.servers (reads : Reads) (ids : List String) : Except UpgradeError (List ServerInfo) :=
  ids.mapM reads.server

/-- `selfUpgradeCapability`. -/
def selfUpgradeCapability : String := "self_upgrade_v1"

/-- `hasArtifact`. -/
def ReleaseInfo.hasArtifact (release : ReleaseInfo) (osName arch : String) : Bool :=
  release.artifacts.any fun a => a.os == osName && a.arch == arch

/-- `matchingArtifact`. -/
def matchingArtifact (items : List ArtifactInfo) (osName arch : String) : Option ArtifactInfo :=
  items.find? fun a =>
    (osName == "" || a.os == osName) && (arch == "" || a.arch == arch)

/-- The release can be installed by agents themselves. -/
def ReleaseInfo.installable (release : ReleaseInfo) : Bool :=
  release.status == .available && release.capabilities.contains selfUpgradeCapability

/-- `status` is `online` or `draining`. -/
def reachable (status : ServerStatus) : Bool :=
  status == .online || status == .draining

-- ======== versions

/-- `stableVersionParts`: the three numbers of `x.y.z`, as texts without
leading zeros. -/
def stableVersionParts (version : String) : Option (List (List Char)) :=
  if version.utf8ByteSize = 0 ∨ 64 < version.utf8ByteSize then none
  else
    let digits := match version.toList with
      | 'v' :: rest => rest
      | all => all
    let segments := digits.splitOn '.'
    if segments.length = 3 ∧ segments.all fun segment =>
        !segment.isEmpty && (segment.length == 1 || segment.head? != some '0')
          && segment.all fun c => '0' ≤ c && c ≤ '9' then
      some segments
    else none

/-- The order of two segments: by length, then by digits. -/
def compareSegments (left right : List Char) : Ordering :=
  (compare left.length right.length).then
    (if left = right then .eq else if left < right then .lt else .gt)

/-- `compareStableVersions`: `none` when a version is not of the form
`x.y.z`. -/
def compareStableVersions (left right : String) : Option Ordering :=
  match stableVersionParts left, stableVersionParts right with
  | some l, some r =>
    some ((l.zip r).foldl (fun sofar p => sofar.then (compareSegments p.1 p.2)) .eq)
  | _, _ => none

-- ======== versions in the console

namespace Console

/-- The matches of an expression that is a sequence of pieces and spans
the whole text: the ways to cut the text, each piece taking as much as
it can first, as backtracking finds them. -/
def cuts : List (List Char → Bool) → List Char → List (List (List Char))
  | [], text => if text.isEmpty then [[]] else []
  | piece :: pieces, text =>
    (List.range (text.length + 1)).reverse.flatMap fun k =>
      if piece (text.take k) then (cuts pieces (text.drop k)).map (text.take k :: ·) else []

/-- `(0|[1-9][0-9]*)`. -/
def isNumber : List Char → Bool
  | [] => false
  | c :: rest => c == '0' && rest.isEmpty
      || '1' ≤ c && c ≤ '9' && rest.all fun d => '0' ≤ d && d ≤ '9'

/-- The expression: `v?`, then three numbers with `\.` between them. -/
def expression : List (List Char → Bool) :=
  [fun part => part == ['v'] || part == [], isNumber, (· == ['.']), isNumber, (· == ['.']),
    isNumber]

/-- `length` of a text: its UTF-16 code units. -/
def utf16Length (text : String) : Nat :=
  (text.toList.map fun c => if c.toNat < 65536 then 1 else 2).sum

/-- `stableVersionParts` of the console. Without the `m` flag `$` is the
end of the text, so a match is the whole of it. -/
def stableVersionParts (version : Option String) : Option (List (List Char)) :=
  match version with
  | none => none
  | some version =>
    if version = "" ∨ 64 < utf16Length version then none
    else match (cuts expression version.toList).head? with
      | some [_, x, _, y, _, z] => some [x, y, z]
      | _ => none

/-- The order of two parts in the loop of `compareAgentVersions`. -/
def compareParts (a b : List Char) : Ordering :=
  if a.length ≠ b.length then (if a.length < b.length then .lt else .gt)
  else if a ≠ b then (if a < b then .lt else .gt)
  else .eq

/-- `compareAgentVersions`: `none` is `null`, the direction is unknown. -/
def compareAgentVersions (left right : Option String) : Option Ordering :=
  match stableVersionParts left, stableVersionParts right with
  | some l, some r =>
    some ((l.zip r).foldl (fun sofar p => sofar.then (compareParts p.1 p.2)) .eq)
  | _, _ => none

end Console

end Yunling.Upgrade
