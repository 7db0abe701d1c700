/-
A backup run from its claim to its marks (`RunBackup` of
`internal/backup/service.go`, with `Export`, `SnapshotLocal`, `CopyToCOS`
and `Retention.Apply`).

Every database call, command and access to files is one operation, which
may be done, fail with or without its effect, or find the process gone:
`BackupOp` names them. What the outside answers to an attempt is in
`Attempt`: times, free space, the migration version before and after the
dump, what the export comes to, and the ids restic draws.

# What is left out

The files the export writes: they are what it is about, but nothing here
looks at them. Of the alerts only that they are called, since their
answers are dropped. Credentials and repository files are one operation
each. The service has a COS repository and a retention policy, as the
server configures it.
-/
import Yunling.Backup.Restic
import Yunling.Lib.Crash

namespace Yunling.Backup

open Crash

-- ======== operations

/-- The operations of a run. -/
inductive BackupOp where
  | claim | list | space
  | directories | credentials | version | dump | mirror | manifest
  | localConfig | localInit | localBackup | localList | localCheck
  | markLocal | cleanup
  | cosFiles | cosConfig | cosInit | cosCopy | cosList | cosCheck
  | markSucceeded | markDegraded | markFailed | alert
  | forgetLocal | forgetCOS
  deriving DecidableEq

inductive BackupError where
  | store (e : StoreError)
  | command (text : String)
  | failed (message : String) (cause : BackupError)
  | unrecorded (message : String) (cause mark : BackupError)
  | degraded
  | unrecordedDegraded (mark : BackupError)
  | cleanup

/-- What the runs work on. -/
structure Site where
  runs : BackupRuns
  localRepo : Repository
  cosRepo : Repository

/-- The settings of the service. -/
structure Config where
  root : String
  host : String
  lease : Int

/-- What the outside answers to one attempt. -/
structure Attempt where
  now : Int
  locked : String → Bool
  available : Int
  versionBefore : Int
  versionAfter : Int
  manifestSHA256 : String
  byteSize : Int
  objectCount : Int
  backupAt : Int
  localID : String
  cosID : String
  markAt : Int
  retryAt : Int

abbrev Run (α : Type) := Proc BackupOp Site BackupError α

/-- A command that changes nothing the runs look at. -/
def command (op : BackupOp) (text : String) : Run Unit :=
  .write op (.command text) id

/-- An alert call, whose answer is dropped. -/
def alert : Run Unit := do
  let _ ← (command .alert "").attempt
  pure ()

section Run

variable (cfg : Config) (a : Attempt)

-- ======== database

/-- `ClaimBackup`. -/
def claimBackup : Run (Option BackupRun) :=
  .op .claim (.store .database) fun s =>
    match s.runs.claim a.now cfg.lease a.locked with
    | .ok (runs, run) => (.ok run, { s with runs })
    | .error e => (.error (.store e), s)

/-- The calls that mark a run. -/
def markRun (op : BackupOp) (id : String) (mark : Mark) : Run Unit :=
  .op op (.store .database) fun s =>
    match s.runs.mark id mark with
    | .ok runs => (.ok (), { s with runs })
    | .error e => (.error (.store e), s)

/-- The order of `ListBackups`. -/
abbrev ListOrder : BackupRun → BackupRun → Prop :=
  OrderBy.Lex (fun r => -r.createdAt) (OrderBy.Asc fun r => OrderDual.toDual r.id)

/-- The size of the newest of the last hundred runs that succeeded. -/
def latestBytes (runs : BackupRuns) : Int :=
  match ((runs.rows.insertionSort ListOrder).take 100).find? fun r =>
      r.status = .succeeded && decide (0 < r.byteSize) with
  | some run => run.byteSize
  | none => 0

/-- `latestSuccessfulBytes`. -/
def latestSuccessfulBytes : Run Int :=
  .read .list (.store .database) fun s => .ok (latestBytes s.runs)

/-- `RequiredFreeBytes`. -/
def requiredFreeBytes (latest : Int) : Int :=
  let twoGiB := 2 * 1024 * 1024 * 1024
  let maxInt64 := 2 ^ 63 - 1
  if latest ≤ 0 then twoGiB
  else if maxInt64 / 3 * 2 < latest then maxInt64
  else max twoGiB (latest + latest / 2)

/-- `HasEnoughSpace`. -/
def hasEnoughSpace (available latest : Int) : Bool :=
  requiredFreeBytes latest ≤ available

/-- `fail`. -/
def failRun {α : Type} (id message : String) (cause : BackupError) : Run α := do
  match ← (markRun .markFailed id (.failed message a.markAt)).attempt with
  | .error e => .fail (.unrecorded message cause e)
  | .ok _ =>
    alert
    .fail (.failed message cause)

/-- A step whose error fails the run. -/
def orFail {α : Type} (id message : String) (step : Run α) : Run α := do
  match ← step.attempt with
  | .ok value => pure value
  | .error e => failRun a id message e

-- ======== export

/-- `readMigrationVersion`. -/
def readMigrationVersion (version : Int) : Run Int := do
  command .version "读取备份数据库迁移版本失败"
  if version < 1 then .fail (.command "备份数据库迁移版本无效")
  else pure version

/-- `Exporter.Export`: the directory it filled. -/
def exportRun (id : String) : Run String := do
  command .directories "创建备份导出目录"
  command .credentials "数据库备份凭据不可用"
  let before ← readMigrationVersion a.versionBefore
  command .dump "数据库导出失败"
  let after ← readMigrationVersion a.versionAfter
  if after ≠ before then
    .fail (.command "数据库导出期间迁移版本发生变化，请在迁移结束后重试备份")
  else
    command .credentials "对象存储备份凭据不可用"
    command .mirror "对象存储镜像失败"
    command .manifest "写入部署元数据"
    pure (staging cfg.root id)

-- ======== restic

/-- `restic cat config`, and `restic init` where there is no repository
yet. -/
def ensureRepository (config init : BackupOp) (repository : Site → Repository)
    (initialise : Site → Site) (checkText initText : String) : Run Unit := do
  if ← .read config (.command checkText) fun s =>
      .ok (repository s).initialised then
    pure ()
  else .write init (.command initText) initialise

/-- The one snapshot with the run's tag. -/
def onlySnapshot (listing : BackupOp) (repository : Site → Repository)
    (id listText countText : String) : Run String := do
  match ← .read listing (.command listText) fun s =>
      .ok ((repository s).tagged (runTag id)) with
  | [snapshotID] =>
    if blank snapshotID then .fail (.command countText) else pure snapshotID
  | _ => .fail (.command countText)

/-- The snapshot of an attempt. -/
def Attempt.snapshot (root id : String) : Snapshot where
  id := a.localID
  time := a.backupAt
  host := cfg.host
  paths := [root]
  tag := runTag id
  original := none

/-- `SnapshotLocal`. -/
def snapshotLocal (root id : String) : Run String := do
  ensureRepository .localConfig .localInit Site.localRepo
    (fun s => { s with localRepo := s.localRepo.init }) "本机备份仓库检查失败" "本机备份仓库初始化失败"
  .write .localBackup (.command "本机加密快照失败") fun s =>
    { s with localRepo := s.localRepo.add (a.snapshot cfg root id) }
  let snapshotID ← onlySnapshot .localList Site.localRepo id "查询本机快照失败" "本机快照数量异常"
  command .localCheck "本机快照完整性检查失败"
  pure snapshotID

/-- `restic copy` from the local repository. -/
def copySnapshot (localID : String) : Run Unit :=
  .op .cosCopy (.command "COS 快照复制失败") fun s =>
    match s.localRepo.snapshots.find? fun snapshot =>
        snapshot.id = localID with
    | some source =>
      (.ok (), { s with cosRepo := s.cosRepo.copy source a.cosID })
    | none => (.error (.command "COS 快照复制失败"), s)

/-- `CopyToCOS`. -/
def copyToCOS (localID id : String) : Run String := do
  command .cosFiles "COS 访问凭据不可用"
  ensureRepository .cosConfig .cosInit Site.cosRepo (fun s => { s with cosRepo := s.cosRepo.init })
    "COS 备份仓库检查失败" "COS 备份仓库初始化失败"
  copySnapshot a localID
  let snapshotID ← onlySnapshot .cosList Site.cosRepo id "查询 COS 快照失败" "COS 快照数量异常"
  command .cosCheck "COS 快照完整性检查失败"
  pure snapshotID

/-- `Retention.Apply`, for the run that has just succeeded. -/
def applyRetention : Run Unit := do
  .write .forgetLocal (.command "本机备份保留清理失败") fun s =>
    { s with localRepo := s.localRepo.forget (7 * day) }
  .write .forgetCOS (.command "COS 备份保留清理失败") fun s =>
    { s with cosRepo := s.cosRepo.forget (30 * day) }

-- ======== run

/-- What is recorded of a local snapshot. -/
def Attempt.result (snapshotID : String) : SnapshotResult where
  snapshotID
  manifestSHA256 := a.manifestSHA256
  byteSize := a.byteSize
  objectCount := a.objectCount

/-- The part of `RunBackup` for a run without a local snapshot. -/
def takeSnapshot (id : String) : Run String := do
  let latest ← orFail a id "读取历史备份大小失败" latestSuccessfulBytes
  orFail a id "检查备份空间失败" (command .space "")
  if hasEnoughSpace a.available latest then
    let root ← orFail a id "导出备份数据失败" (exportRun cfg a id)
    let snapshotID ← orFail a id "生成本机快照失败" (snapshotLocal cfg a root id)
    markRun .markLocal id (.localSnapshot (a.result snapshotID))
    match ← (command .cleanup "").attempt with
    | .error _ => .fail .cleanup
    | .ok _ => pure snapshotID
  else
    alert
    failRun a id "备份暂存空间不足" (.command "可用空间低于安全阈值")

/-- The part of `RunBackup` for a run with a local snapshot. -/
def upload (id localID : String) : Run Unit := do
  match ← (copyToCOS a localID id).attempt with
  | .error _ =>
    match ← (markRun .markDegraded id (.degraded "COS 快照复制失败" a.retryAt)).attempt with
    | .error e => .fail (.unrecordedDegraded e)
    | .ok _ =>
      alert
      .fail .degraded
  | .ok cosID =>
    markRun .markSucceeded id (.succeeded cosID a.markAt)
    alert
    alert
    alert
    let _ ← applyRetention.attempt
    alert

/-- `RunBackup`. -/
def runBackup : Run Unit := do
  match ← claimBackup cfg a with
  | none => pure ()
  | some run =>
    if run.localSnapshotID = "" then
      let localID ← takeSnapshot cfg a run.id
      upload a run.id localID
    else upload a run.id run.localSnapshotID

end Run

end Yunling.Backup
