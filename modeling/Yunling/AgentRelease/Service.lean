/-
Importing a release of the agent (`internal/agentrelease/service.go`,
`capabilities.go`), and the check of the command that installs it
(`apps/web/src/features/servers/agentInstallCommand.ts`).

A release is two archives, one for each architecture. `validateAgentArchive`
goes through the members of an archive; the installing command lists them
again, with `tar -tzf`, before it unpacks the archive on a new server.

The archive reader, the digest, the decoder of manifests and the answers
of the repository and of the object store are parameters (`Outside`).
-/
import Yunling.Release.Model
import Yunling.Scheduler.Model

namespace Yunling.AgentRelease

open Release (digit upperLetter lowerLetter leading hexText)

/-- The errors of the package, with what they add. -/
inductive ImportError where
  | invalid (detail : String)
  | mismatch (detail : String)
  | exists
  | failed (detail : String)
  deriving DecidableEq

-- ======== archives

/-- A member of an archive; `head` is what its first 256 bytes say, if
they can be read. -/
structure TarEntry where
  regular : Bool
  name : String
  head : Option String

/-- What the next call of `Reader.Next` answers. -/
inductive TarItem where
  | entry (e : TarEntry)
  | broken

/-- The keys of `required`. -/
def required : List String :=
  ["50-yunling-agent.rules", "install.sh", "yunling-agent", "yunling-agent.service",
    "yunling-run@.service", "agent-version", "yunling-agent-upgrade@.service"]

/-- The loop over the members, with those found so far. -/
def validateEntries (version : String) (found : List String) :
    List TarItem → Except ImportError (List String)
  | [] => .ok found
  | .broken :: _ => .error (.invalid "无法读取安装包")
  | .entry e :: rest =>
    if !e.regular then .error (.invalid "安装包包含非普通文件")
    else if e.name ∉ required ∨ e.name ∈ found then .error (.invalid "安装包文件集合不正确")
    else if e.name = "agent-version" ∧ e.head.map Scheduler.trimSpace ≠ some version.toList then
      .error (.invalid "包内版本不一致")
    else validateEntries version (e.name :: found) rest

/-- `validateAgentArchive` of the members of a body; there are none where
it is no gzip file. -/
def validateAgentArchive (version : String) : Option (List TarItem) → Except ImportError Unit
  | none => .error (.invalid "安装包不是有效的 gzip")
  | some items => do
    let found ← validateEntries version [] items
    if required.all found.contains then return ()
    else throw (.invalid "安装包缺少升级文件")

-- ======== imports

abbrev Bytes := List UInt8

/-- `ImportArtifact`; the body is missing, or cannot be read, or is what
is left to read of it. -/
structure ImportArtifact where
  os : String
  arch : String
  fileName : String
  byteSize : Int
  sha256 : String
  body : Option (Option Bytes)

/-- `storedArtifact`. -/
structure StoredArtifact where
  os : String
  arch : String
  fileName : String
  byteSize : Int
  sha256 : String
  deriving DecidableEq

def ImportArtifact.stored (a : ImportArtifact) : StoredArtifact :=
  ⟨a.os, a.arch, a.fileName, a.byteSize, a.sha256⟩

/-- `storedManifest`. -/
structure StoredManifest where
  version : String
  artifacts : List StoredArtifact
  capabilities : Option (List String)

/-- `ImportInput`. -/
structure ImportInput where
  version : String
  releaseNotes : Bytes
  manifestSHA256 : String
  manifestJSON : Bytes
  artifacts : List ImportArtifact
  capabilities : Option (List String)

/-- What the import asks others for. -/
structure Outside where
  sha256 : Bytes → String
  members : Bytes → Option (List TarItem)
  decode : Bytes → Option StoredManifest
  encode : StoredManifest → Option Bytes
  /-- the versions there are, if they can be listed -/
  versions : Option (List String)
  /-- `Put` and `Create` succeed -/
  stored : Bool

/-- `fileNamePattern`; such a name is its own base. -/
def fileNamePattern (name : String) : Bool :=
  let suffix := ".tar.gz".toList
  let stem := name.toList.take (name.toList.length - suffix.length)
  name.toList = stem ++ suffix && leading (fun c => digit c || upperLetter c || lowerLetter c)
      (fun c => digit c || upperLetter c || lowerLetter c || c == '.' || c == '_' || c == '-')
      191 stem

/-- `ValidateCapabilities`, with those seen so far. -/
def validateCapabilities (seen : List String) : List String → Except ImportError Unit
  | [] => .ok ()
  | c :: rest =>
    if c ∈ seen ∨ (c ≠ "self_upgrade_v1" ∧ c ≠ "run_artifacts_v1") then
      .error (.invalid "代理能力声明无效或重复")
    else validateCapabilities (c :: seen) rest

/-- `validateImportManifest`. -/
def validateImportManifest (out : Outside) (input : ImportInput) : Except ImportError Unit :=
  if input.manifestJSON = [] then
    if input.capabilities ≠ none ∧ input.manifestSHA256 ≠ "" then
      .error (.invalid "能力声明缺少原始清单")
    else .ok ()
  else if 2 ^ 20 < input.manifestJSON.length then .error (.invalid "")
  else if out.sha256 input.manifestJSON ≠ input.manifestSHA256 then
    .error (.mismatch "代理清单摘要不一致")
  else match out.decode input.manifestJSON with
    | none => .error (.invalid "")
    | some manifest =>
      if manifest.version ≠ input.version ∨ manifest.capabilities ≠ input.capabilities
          ∨ manifest.artifacts.length ≠ input.artifacts.length then
        .error (.mismatch "导入内容与代理清单不一致")
      else if ¬ (manifest.artifacts.map StoredArtifact.arch).Nodup then .error (.invalid "")
      else if ∀ a ∈ input.artifacts, a.stored
          = (manifest.artifacts.find? (·.arch == a.arch)).getD ⟨"", "", "", 0, ""⟩ then .ok ()
      else .error (.mismatch "安装包元数据与代理清单不一致")

/-- The checks of one archive, up to its body. -/
def importArtifact (out : Outside) (input : ImportInput) (validatePackage : Bool)
    (earlier : List (StoredArtifact × Bytes)) (a : ImportArtifact) :
    Except ImportError (StoredArtifact × Bytes) :=
  if a.os ≠ "linux" ∨ (a.arch ≠ "amd64" ∧ a.arch ≠ "arm64")
      ∨ earlier.any (·.1.arch == a.arch) then .error (.invalid "")
  else if !fileNamePattern a.fileName ∨ earlier.any (·.1.fileName == a.fileName) then
    .error (.invalid "")
  else if a.byteSize ≤ 0 ∨ 512 * 2 ^ 20 < a.byteSize ∨ !hexText 64 a.sha256.toList then
    .error (.invalid "")
  else match a.body with
    | none => .error (.invalid "")
    | some none => .error (.failed a.fileName)
    | some (some content) =>
      let body := content.take (a.byteSize + 1).toNat
      if body.length ≠ a.byteSize ∨ out.sha256 body ≠ a.sha256 then .error (.mismatch a.fileName)
      else
        (if validatePackage then validateAgentArchive input.version (out.members body)
          else .ok ()).map fun _ => (a.stored, body)

/-- The loop over the archives. -/
def importArtifacts (out : Outside) (input : ImportInput) (validatePackage : Bool) :
    List (StoredArtifact × Bytes) → List ImportArtifact →
      Except ImportError (List (StoredArtifact × Bytes))
  | earlier, [] => .ok earlier
  | earlier, a :: rest => do
    let item ← importArtifact out input validatePackage earlier a
    importArtifacts out input validatePackage (earlier ++ [item]) rest

/-- The digest of the manifest, given or computed. -/
def manifestDigest (out : Outside) (input : ImportInput) (capabilities : List String)
    (pending : List (StoredArtifact × Bytes)) : Option String :=
  if input.manifestSHA256 ≠ "" then some input.manifestSHA256
  else (out.encode ⟨input.version, pending.map (·.1), some capabilities⟩).map out.sha256

/-- What comes after the loop. -/
def storeRelease (out : Outside) (input : ImportInput) (capabilities : List String)
    (pending : List (StoredArtifact × Bytes)) :
    Except ImportError (List (StoredArtifact × Bytes)) :=
  if !(pending.any (·.1.arch == "amd64") && pending.any (·.1.arch == "arm64")) then
    .error (.invalid "")
  else match manifestDigest out input capabilities pending with
    | none => .error (.failed "")
    | some digest =>
      if !hexText 64 digest.toList then .error (.invalid "")
      else if !out.stored then .error (.failed "")
      else .ok pending

/-- `importRelease`: the archives that are stored. -/
def importRelease (out : Outside) (input : ImportInput) (capabilities : List String)
    (validatePackage : Bool) : Except ImportError (List (StoredArtifact × Bytes)) :=
  if !Release.versionPattern input.version ∨ 4000 < input.releaseNotes.length
      ∨ input.artifacts.length ≠ 2 then .error (.invalid "")
  else do
    validateCapabilities [] capabilities
    validateImportManifest out input
    match out.versions with
    | none => .error (.failed "")
    | some versions =>
      if versions.contains input.version then .error .exists
      else
        let pending ← importArtifacts out input validatePackage [] input.artifacts
        storeRelease out input capabilities pending

/-- `Service.Import`. Older manifests declare no capabilities. -/
def serviceImport (out : Outside) (input : ImportInput) :
    Except ImportError (List (StoredArtifact × Bytes)) :=
  importRelease out input (input.capabilities.getD ["self_upgrade_v1"]) true

-- ======== installation

/-- Why the installing command stops at the members. -/
inductive MemberError where
  /-- `代理安装包包含未允许的文件` -/
  | notAllowed (entry : String)
  /-- `代理安装包包含重复文件` -/
  | repeated (entry : String)
  /-- `代理安装包文件不完整` -/
  | incomplete
  deriving DecidableEq

/-- The names of the first `case`. -/
def allowed : List String :=
  ["50-yunling-agent.rules", "install.sh", "yunling-agent", "yunling-agent.service",
    "yunling-run@.service"]

/-- The loop over the lines of `tar -tzf`. No allowed name has a blank, so
`seen_files` is the list of the names. -/
def checkEntries (seen : List String) : List String → Except MemberError Nat
  | [] => .ok seen.length
  | entry :: rest =>
    if entry ∉ allowed then .error (.notAllowed entry)
    else if entry ∈ seen then .error (.repeated entry)
    else checkEntries (seen ++ [entry]) rest

/-- The check of the members. -/
def checkMembers (names : List String) : Except MemberError Unit := do
  if (← checkEntries [] names) ≠ 5 then throw .incomplete

/-- The names `tar -tzf` lists. -/
def memberNames (items : List TarItem) : List String :=
  items.filterMap fun
    | .entry e => some e.name
    | .broken => none

end Yunling.AgentRelease
