/-
The local updater of an agent (`internal/agentupdate`: `applier.go` and
the files of `state.go`).

`Apply` runs in a unit of its own, as root. It backs up the managed files
of the agent, replaces them by the staged ones, restarts the agent and
waits for it to connect; when something fails it puts the backup back. It
may be cut off at any point and is then run again, so it records in the
spec of the command how far it is (`Phase`).

# The disk

The directories a command works with are apart from each other: the
installed files (`installRoot`, by their paths), what was staged from the
archive, the backup of the command, and the backup that is kept for later
(`previous`). A file appears under its name by a rename: what is written
before that goes to a temporary file that nobody reads. So a file is
either as before or the new one, and `spec.json` and `runtime.json` are
always whole if they were to begin with.

# Operations

The operations on files may fail, and so may the calls of the system,
which change nothing here. Those of the recovery are a kind of their own
(`Device`).
-/
import Yunling.Lib.Crash
import Yunling.Lib.Hash
import Yunling.Upgrade.Model

namespace Yunling.Updater

open Crash Relational Upgrade

-- ======== files

/-- Where a file is. -/
inductive Directory where
  | installRoot | stage | backup | previous
  deriving DecidableEq

/-- A file. -/
structure File where
  content : List UInt8
  mode : Nat
  deriving DecidableEq

/-- A managed file: its name in an archive, and its path when
installed. -/
structure Managed where
  name : String
  target : String
  deriving DecidableEq

/-- `managedTargets`. -/
def managedTargets : List Managed :=
  [⟨"yunling-agent", "usr/local/bin/yunling-agent"⟩,
    ⟨"yunling-agent.service", "etc/systemd/system/yunling-agent.service"⟩,
    ⟨"yunling-run@.service", "etc/systemd/system/yunling-run@.service"⟩,
    ⟨"yunling-agent-upgrade@.service", "etc/systemd/system/yunling-agent-upgrade@.service"⟩,
    ⟨"50-yunling-agent.rules", "etc/polkit-1/rules.d/50-yunling-agent.rules"⟩]

/-- The mark of a managed file that was not there. -/
def Managed.missing (m : Managed) : String := m.name ++ ".missing"

-- ======== state

/-- How far a command is. -/
inductive Phase where
  | staged | backupComplete | replacing | filesReplaced | restarted
  | succeeded | rollingBack | rolledBack | rollbackReady | rollbackFailed
  deriving DecidableEq

/-- `Spec`: the order to the updater. -/
structure Spec where
  commandID : String
  targetID : String
  action : UpgradeAction
  targetVersion : String
  sha256 : String
  byteSize : Nat
  phase : Phase
  stageDir : Directory
  backupDir : Directory
  installRoot : Directory
  deriving DecidableEq

/-- `UpgradeRuntimeState`: what the agent reports. -/
structure UpgradeRuntimeState where
  commandID : String
  targetID : String
  targetVersion : String
  stage : UpgradeStage
  errorCode : String
  message : String
  updatedAt : Int
  deriving DecidableEq

/-- A file that is read as a whole. -/
inductive Stored (α : Type) where
  | missing
  | unreadable
  | holds (a : α)
  deriving DecidableEq

/-- What the updater finds and leaves. -/
structure Disk where
  spec : Stored Spec
  runtime : Stored UpgradeRuntimeState
  archive : Option (List UInt8)
  files : Hash (Directory × String) File

/-- Why a call failed. -/
inductive Failure where
  | invalidCommandID
  | artifactMismatch
  | notExist
  | invalidJSON
  /-- an operation on a file -/
  | io
  /-- a call of the system -/
  | system
  /-- `升级前备份缺少受管文件记录` -/
  | backupLacks (name : String)
  /-- `检测到旧版本重启尚未完成` -/
  | restartUnfinished
  /-- `检测到上次文件替换未完整结束` -/
  | replacementUnfinished
  /-- `升级恢复状态缺少目标编号` -/
  | noTargetID
  | joined (cause failure : Failure)
  /-- `代理升级失败并已回滚` -/
  | rolledBack (cause : Failure)
  deriving DecidableEq

/-- The kinds of operations. -/
inductive Device where
  | file
  /-- `systemctl`, and the wait for the agent -/
  | system
  /-- `systemctl` while an installation is taken back -/
  | recovery
  deriving DecidableEq

/-- A procedure of the updater. -/
abbrev Update := Proc Device Disk Failure

/-- `validCommandID`. -/
def validCommandID (value : String) : Bool :=
  1 ≤ value.utf8ByteSize && value.utf8ByteSize ≤ 128 && value.toList.all fun c =>
      ('a' ≤ c && c ≤ 'z') || ('A' ≤ c && c ≤ 'Z') || ('0' ≤ c && c ≤ '9')
        || c == '_' || c == '-'

-- ======== operations

/-- An operation on files that looks. -/
def look {α : Type} (f : Disk → Except Failure α) : Update α :=
  .read .file .io f

/-- An operation on files that changes something. -/
def change (f : Disk → Disk) : Update Unit := .write .file .io f

/-- A call of the system. -/
def call (device : Device) : Update Unit := .write device .system id

/-- `loadSpec`. -/
def loadSpec : Update Spec := look fun d =>
  match d.spec with
  | .missing => .error .notExist
  | .unreadable => .error .invalidJSON
  | .holds spec => .ok spec

/-- `saveSpec`. -/
def saveSpec (spec : Spec) : Update Unit :=
  change fun d => { d with spec := .holds spec }

/-- `LoadRuntimeState`. -/
def loadRuntimeState : Update (Option UpgradeRuntimeState) := look fun d =>
  match d.runtime with
  | .missing => .ok none
  | .unreadable => .error .invalidJSON
  | .holds state =>
    if validCommandID state.commandID then .ok (some state)
    else .error .invalidCommandID

/-- `SaveRuntimeState`. -/
def saveRuntimeState (state : UpgradeRuntimeState) : Update Unit :=
  if validCommandID state.commandID then
    change fun d => { d with runtime := .holds state }
  else .fail .invalidCommandID

/-- `os.Stat`: whether the file is there. -/
def stat (directory : Directory) (name : String) : Update Bool :=
  look fun d => .ok (d.files.get? (directory, name)).isSome

/-- `os.Remove`, where a file that is not there is no error. -/
def remove (directory : Directory) (name : String) : Update Unit :=
  change fun d => { d with files := d.files.del (directory, name) }

/-- A file under its name. -/
def put (directory : Directory) (name : String) (file : File) : Update Unit :=
  change fun d => { d with files := d.files.set (directory, name) file }

/-- `copyAtomic`. -/
def copyAtomic (source destination : Directory × String) (mode : Nat) : Update Unit := do
  let file ← look fun d =>
    match d.files.get? source with
    | none => .error .notExist
    | some file => .ok file
  put destination.1 destination.2 ⟨file.content, mode⟩

/-- `copyTree`. -/
def copyTree (source destination : Directory) : Update Unit := do
  let names ← look fun d => .ok ((d.files.rows.filter fun entry =>
    entry.1.1 == source).map fun entry => entry.1.2)
  names.forM fun name =>
    copyAtomic (source, name) (destination, name) 0o600

/-- `replaceDirectory`. -/
def replaceDirectory (destination source : Directory) : Update Unit := do
  let _ ← (change fun d => { d with
    files := d.files.delete fun entry => entry.1.1 == destination }).attempt
  copyTree source destination

-- ======== replacing

/-- `backupManaged`, for one file. -/
def backupFile (spec : Spec) (m : Managed) : Update Unit := do
  if ← stat spec.installRoot m.target then
    copyAtomic (spec.installRoot, m.target) (spec.backupDir, m.name) 0o600
  else
    put spec.backupDir m.missing ⟨[], 0o600⟩

/-- `backupManaged`. -/
def backupManaged (spec : Spec) : Update Unit :=
  managedTargets.forM (backupFile spec)

/-- The mode of an installed file. -/
def Managed.mode (m : Managed) : Nat :=
  if m.name = "yunling-agent" then 0o755 else 0o644

/-- `replaceManaged`, for one file. -/
def replaceFile (spec : Spec) (sourceRoot : Directory) (m : Managed) : Update Unit := do
  match ← (stat sourceRoot m.missing).attempt with
  | .ok true => remove spec.installRoot m.target
  -- the mark is taken for absent also when it cannot be looked at
  | _ =>
    if ← stat sourceRoot m.name then
      copyAtomic (sourceRoot, m.name) (spec.installRoot, m.target) m.mode
    else if sourceRoot = spec.backupDir then
      .fail (.backupLacks m.name)

/-- `replaceManaged`. -/
def replaceManaged (spec : Spec) (sourceRoot : Directory) : Update Unit :=
  managedTargets.forM (replaceFile spec sourceRoot)

section Apply

variable (digest : List UInt8 → String) (now : Int)

/-- `verifyStagedArchive`: no more than a byte beyond the size is
read. -/
def verifyStagedArchive (spec : Spec) : Update Unit := look fun d =>
  match d.archive with
  | none => .error .notExist
  | some archive =>
    let bytes := archive.take (spec.byteSize + 1)
    if bytes.length ≠ spec.byteSize ∨ digest bytes ≠ spec.sha256 then
      .error .artifactMismatch
    else .ok ()

-- ======== recovery

/-- A failed save comes on top of what failed before. -/
def saveAfter (cause : Failure) (spec : Spec) : Update Unit := do
  match ← (saveSpec spec).attempt with
  | .ok _ => pure ()
  | .error e => .fail (.joined cause e)

/-- What the agent reports after a rollback: `found` is what it had for
this command. -/
def rolledBackState (spec : Spec) (found : Option UpgradeRuntimeState) : UpgradeRuntimeState :=
  { found.getD ⟨spec.commandID, spec.targetID, spec.targetVersion, .failed,
      "", "", now⟩ with
    stage := .failed
    errorCode := "apply_rolled_back"
    message := "代理升级失败，已恢复升级前版本"
    updatedAt := now }

/-- `finishAutomaticRollback`. -/
def finishAutomaticRollback (spec : Spec) (cause : Failure) : Update Unit := do
  match ← loadRuntimeState.attempt with
  | .error e => .fail (.joined cause e)
  | .ok state =>
    let found := state.filter fun state => state.commandID == spec.commandID
    if found.isNone && spec.targetID = "" then
      .fail (.joined cause .noTargetID)
    else
      match ← (saveRuntimeState (rolledBackState now spec found)).attempt with
      | .error e => .fail (.joined cause e)
      | .ok _ =>
        match ← (call .recovery).attempt with
        | .error e => .fail (.joined cause e)
        | .ok _ =>
          saveAfter cause { spec with phase := .rolledBack }
          .fail (.rolledBack cause)

/-- `rollbackAfterFailure`. -/
def rollbackAfterFailure (spec : Spec) (cause : Failure) : Update Unit := do
  match ← (replaceManaged spec spec.backupDir).attempt with
  | .error e =>
    saveAfter (.joined cause e) { spec with phase := .rollbackFailed }
    .fail (.joined cause e)
  | .ok _ =>
    match ← (call .recovery).attempt with
    | .error e =>
      saveAfter (.joined cause e) { spec with phase := .rollbackFailed }
      .fail (.joined cause e)
    | .ok _ =>
      saveAfter cause { spec with phase := .rollbackReady }
      finishAutomaticRollback now { spec with phase := .rollbackReady } cause

/-- The rest of the call, unless this fails. -/
def orRollBack (spec : Spec) (step rest : Update Unit) : Update Unit := do
  match ← step.attempt with
  | .ok _ => rest
  | .error cause => rollbackAfterFailure now spec cause

-- ======== apply

/-- `Apply` in the phase `restarted`. -/
def awaitConfirmation (spec : Spec) : Update Unit :=
  orRollBack now spec (call .system) do
    saveSpec { spec with phase := .succeeded }
    let _ ← (replaceDirectory .previous spec.backupDir).attempt

/-- `Apply` in the phase `files_replaced`. -/
def restart (spec : Spec) : Update Unit :=
  orRollBack now spec (call .system) <|
    orRollBack now spec (call .system) do
      saveSpec { spec with phase := .restarted }
      awaitConfirmation now { spec with phase := .restarted }

/-- `Apply` in the phase `backup_complete`. -/
def replace (spec : Spec) : Update Unit := do
  let replacing := { spec with phase := .replacing }
  saveSpec replacing
  orRollBack now replacing (replaceManaged replacing spec.stageDir) <|
    let replaced := { spec with phase := .filesReplaced }
    orRollBack now replaced (saveSpec replaced) (restart now replaced)

/-- `Apply` in the phase `staged`. -/
def backUp (spec : Spec) : Update Unit := do
  verifyStagedArchive digest spec
  backupManaged spec
  saveSpec { spec with phase := .backupComplete }
  replace now { spec with phase := .backupComplete }

/-- `applyRollback`. -/
def applyRollback (spec : Spec) : Update Unit := do
  saveSpec { spec with phase := .rollingBack }
  replaceManaged spec spec.backupDir
  call .system
  call .system
  saveSpec { spec with phase := .rolledBack }

/-- `Apply`. -/
def apply (commandID : String) : Update Unit := do
  if validCommandID commandID then
    let spec ← loadSpec
    if spec.action = .rollback then applyRollback spec
    else
      match spec.phase with
      | .rollbackReady =>
        finishAutomaticRollback now spec .restartUnfinished
      | .replacing | .rollbackFailed =>
        rollbackAfterFailure now spec .replacementUnfinished
      | .staged => backUp digest now spec
      | .backupComplete => replace now spec
      | .filesReplaced => restart now spec
      | .restarted => awaitConfirmation now spec
      | .succeeded | .rollingBack | .rolledBack => pure ()
  else .fail .invalidCommandID

end Apply

end Yunling.Updater
