/-
The release state on the production host (`internal/release/state.go`).

`current.json` and `previous.json` say which release runs and which one
ran before; each release has a directory with its manifest and, once it
was deployed successfully, a record of that (`successful.json`). Both
state files change together: `commitState` writes what is to be written
to a journal (`state-transaction.json`), and `recoverState`, with which
every call begins, carries out what it finds there.

# The disk

`writeJSONAtomic` makes a file appear under its name by a rename, so the
file is as before or new as a whole; it may report an error after that,
when the directory cannot be synchronised. The record of a success alone
is written in place, byte by byte (`writeSuccess`), and until it is
synchronised a power loss may leave any beginning of it, or nothing
(`Disk.Loses`). Temporary files are read by nobody and left out, as are
the modes and the checks for symbolic links. The root directory is
there.

# Texts

The files hold JSON. `Formats` has the texts of releases and of the
journal.
-/
import Yunling.Lib.Codec
import Yunling.Lib.Crash
import Yunling.Lib.Hash
import Yunling.Release.Model

namespace Yunling.Release

open Crash Relational

-- ======== state

/-- `stateTransaction`: the journal. -/
structure StateTransaction where
  current : StoredRelease
  previous : Option StoredRelease
  deriving DecidableEq

/-- What of a journal is written. -/
def StateTransaction.kept (t : StateTransaction) : StateTransaction :=
  ⟨t.current.kept, t.previous.map StoredRelease.kept⟩

theorem StateTransaction.kept_kept (t : StateTransaction) : t.kept.kept = t.kept := by
  cases t with
  | mk current previous => cases previous <;> rfl

/-- The texts of what is stored. -/
structure Formats where
  release : Codec StoredRelease.kept
  transaction : Codec StateTransaction.kept
  /-- a journal of releases that have texts has one -/
  journal : ∀ t : StateTransaction, (release.marshal t.current).isSome →
    (∀ previous, t.previous = some previous → (release.marshal previous).isSome) →
    (transaction.marshal t).isSome

/-- The directory of a release. -/
structure History where
  /-- `release-manifest.json` -/
  manifest : Option (List UInt8)
  /-- `successful.json` -/
  success : Option (List UInt8)
  deriving DecidableEq

/-- The files. -/
structure Disk where
  current : Option (List UInt8)
  previous : Option (List UInt8)
  transaction : Option (List UInt8)
  histories : Hash String History
  /-- the target whose record is being written, and whether the content
  is synchronised already -/
  writing : Option (String × Bool)

/-- The kinds of operations. -/
inductive Device where
  /-- a file or a directory is looked at -/
  | read
  /-- the directory of a release gets its name -/
  | history
  /-- the record of a success is created -/
  | record
  /-- a byte of it is written -/
  | append
  /-- it is synchronised -/
  | sync
  /-- it is closed, and its directory synchronised -/
  | close
  | journal
  /-- the state files, and the removal of the journal -/
  | state
  deriving DecidableEq

/-- A procedure on the files. -/
abbrev Procedure := Proc Device Disk Failure

-- ======== operations

/-- A result that is there already. -/
def check {α : Type} : Except Failure α → Procedure α
  | .ok a => pure a
  | .error e => .fail e

/-- Something is looked at. -/
def look {α : Type} (f : Disk → α) : Procedure α :=
  .read .read .io fun d => .ok (f d)

/-- Something is changed. -/
def change (device : Device) (f : Disk → Disk) : Procedure Unit :=
  .write device .io f

/-- `marshalJSONLine`. -/
def marshalJSONLine {α : Type} {kept : α → α} (format : Codec kept)
    (value : α) : Procedure (List UInt8) :=
  match format.marshalLine value with
  | some data => pure data
  | none => .fail .encode

/-- `writeJSONAtomic`. -/
def writeJSONAtomic {α : Type} {kept : α → α} (format : Codec kept) (device : Device) (value : α)
    (put : List UInt8 → Disk → Disk) : Procedure Unit := do
  let data ← marshalJSONLine format value
  change device (put data)

/-- The success record of a target. -/
def Disk.success (d : Disk) (targetID : String) : Option (List UInt8) :=
  (d.histories.get? targetID).bind (·.success)

/-- The manifest of a target. -/
def Disk.manifest (d : Disk) (targetID : String) : Option (List UInt8) :=
  (d.histories.get? targetID).bind (·.manifest)

/-- The success record of a target is as given. -/
def Disk.setSuccess (d : Disk) (targetID : String) (content : List UInt8) : Disk :=
  { d with
    histories := d.histories.set targetID ⟨d.manifest targetID, some content⟩ }

/-- The record of a target is being written. -/
def Disk.pending (d : Disk) (targetID : String) (synced : Bool) : Disk :=
  { d with writing := some (targetID, synced) }

section Store

variable (json : Formats)

/-- `loadReleaseFile`: the content is that of a file, if it is there. -/
def readRelease (content : Option (List UInt8)) (requireSuccess : Bool) :
    Except Failure StoredRelease :=
  match content with
  | none => .error .notExist
  | some text =>
    match json.release.unmarshal text with
    | none => .error (.wrapped "解析发布状态" .decode)
    | some release =>
      match validateStoredRelease release requireSuccess with
      | .error e => .error e
      | .ok _ => .ok { release with validated := true }

/-- `loadReleaseFile`. -/
def loadReleaseFile (content : Disk → Option (List UInt8))
    (requireSuccess : Bool) : Procedure StoredRelease := do
  check (readRelease json (← look content) requireSuccess)

-- ======== recovery

/-- What a journal says, checked as `recoverState` does. -/
def readTransaction (text : List UInt8) : Except Failure StateTransaction :=
  match json.transaction.unmarshal text with
  | none => .error (.wrapped "解析状态事务" .decode)
  | some t =>
    match validateStoredRelease t.current true with
    | .error e => .error e
    | .ok _ =>
      match t.previous with
      | none => .ok t
      | some previous =>
        match validateStoredRelease previous true with
        | .error e => .error e
        | .ok _ => .ok t

/-- `previous.json` becomes what the journal says. -/
def replayPrevious : Option StoredRelease → Procedure Unit
  | some previous => writeJSONAtomic json.release .state previous
    fun data d => { d with previous := some data }
  | none => change .state fun d => { d with previous := none }

/-- `recoverState`. -/
def recoverState : Procedure Unit := do
  match ← look (·.transaction) with
  | none => pure ()
  | some text =>
    let t ← check (readTransaction json text)
    replayPrevious json t.previous
    writeJSONAtomic json.release .state t.current fun data d =>
      { d with current := some data }
    change .state fun d => { d with transaction := none }
    -- the directory is synchronised
    change .state id

-- ======== loads

/-- `LoadCurrent`. -/
def loadCurrent : Procedure StoredRelease := do
  recoverState json
  loadReleaseFile json (·.current) true

/-- `LoadPrevious`. -/
def loadPrevious : Procedure StoredRelease := do
  recoverState json
  loadReleaseFile json (·.previous) true

/-- `LoadTarget`. -/
def loadTarget (targetID : String) : Procedure StoredRelease := do
  if validTargetID targetID then
    recoverState json
    match readRelease json (← look (·.success targetID)) true with
    | .ok release => pure release
    | .error .notExist =>
      if (← look (·.manifest targetID)).isSome then
        .fail .releaseNotSuccessful
      else .fail .releaseNotFound
    | .error e => .fail e
  else .fail (.invalidRelease "")

-- ======== history

/-- `saveHistory`. -/
def saveHistory (release : StoredRelease) : Procedure Unit := do
  if (← look (·.histories.get? release.targetID)).isSome then
    .fail .releaseExists
  else
    writeJSONAtomic json.release .history release fun data d =>
      { d with
        histories := d.histories.set release.targetID ⟨some data, none⟩ }

/-- `SaveValidated`. -/
def saveValidated (release : StoredRelease) : Procedure Unit :=
  if release.validated
      && (release.origin == .ghcr || release.origin == .releaseIntegration)
    then do
      check (validateStoredRelease release false)
      saveHistory json { release with successfulAt := .zero }
  else .fail (.invalidRelease "")

-- ======== success

/-- `os.OpenFile` with `O_EXCL`: whether the record is new. -/
def Disk.openSuccess (targetID : String) (d : Disk) : Except Failure Bool × Disk :=
  match d.histories.get? targetID with
  | none => (.error .notExist, d)
  | some history =>
    if history.success.isSome then (.ok false, d)
    else (.ok true, (d.pending targetID false).setSuccess targetID [])

/-- A byte more of the record. -/
def appendSuccess (targetID : String) (byte : UInt8) : Procedure Unit :=
  change .append fun d =>
    d.setSuccess targetID ((d.success targetID).getD [] ++ [byte])

/-- What a power loss may leave of the disk: everything, or, while a
record is being written, not its directory entry, or only a beginning of
what was not synchronised. -/
inductive Disk.Loses (d : Disk) : Disk → Prop
  | nothing : Disk.Loses d { d with writing := none }
  | entry (targetID : String) (synced : Bool) (pending : d.writing = some (targetID, synced)) :
      Disk.Loses d { d with
        histories := d.histories.set targetID ⟨d.manifest targetID, none⟩
        writing := none }
  | content (targetID : String) (n : Nat) (pending : d.writing = some (targetID, false)) :
      Disk.Loses d { d.setSuccess targetID (((d.success targetID).getD []).take n) with
        writing := none }

/-- Whether a record that is there is one of this release. -/
def recordAgrees (release : StoredRelease) (data existing : List UInt8) : Bool :=
  existing == data || ((json.release.unmarshal existing).any fun recorded =>
    sameReleaseIdentity recorded release)

/-- `writeSuccess`, with the text of the release. -/
def writeRecord (release : StoredRelease) (data : List UInt8) : Procedure Unit := do
  if ← .op .record .io (Disk.openSuccess release.targetID) then
    data.forM (appendSuccess release.targetID)
    change .sync (·.pending release.targetID true)
    change .close fun d => { d with writing := none }
  else
    match ← (look (·.success release.targetID)).attempt with
    | .ok (some existing) =>
      if recordAgrees json release data existing then pure ()
      else .fail .releaseExists
    | _ => .fail .releaseExists

/-- `writeSuccess`. -/
def writeSuccess (release : StoredRelease) : Procedure Unit := do
  writeRecord json release (← marshalJSONLine json.release release)

/-- A file that is not there is no error. -/
def optional : Except Failure StoredRelease → Except Failure (Option StoredRelease)
  | .ok release => .ok (some release)
  | .error .notExist => .ok none
  | .error e => .error e

/-- `commitState`. -/
def commitState (release : StoredRelease) : Procedure Unit := do
  recoverState json
  let previous ← check (optional (readRelease json (← look (·.current)) true))
  writeJSONAtomic json.transaction .journal ⟨release, previous⟩
    fun data d => { d with transaction := some data }
  recoverState json

/-- `CommitSuccess`, with what was read as the manifest. -/
def commitVerified (release : StoredRelease) : Except Failure StoredRelease → Procedure Unit
  | .error e => .fail (.wrapped "读取已验证候选" e)
  | .ok validated =>
    if sameReleaseIdentity validated release then do
      writeSuccess json release
      commitState json release
    else .fail (.invalidRelease "成功版本与已验证候选不一致")

/-- `CommitSuccess`. -/
def commitSuccess (release : StoredRelease) : Procedure Unit := do
  if release.validated then
    check (validateStoredRelease release true)
    commitVerified json release (readRelease json (← look (·.manifest release.targetID)) false)
  else .fail (.invalidRelease "")

/-- The release `CreateBootstrap` makes. -/
def bootstrapRelease (images : ServiceImages)
    (compatibility : Compatibility) (successfulAt : Time) : StoredRelease :=
  { targetID := "bootstrap", origin := .localBootstrap, sourceSHA := ""
    images, compatibility, successfulAt, validated := true }

/-- `CreateBootstrap`. -/
def createBootstrap (images : ServiceImages) (compatibility : Compatibility) (successfulAt : Time) :
    Procedure StoredRelease := do
  let release := bootstrapRelease images compatibility successfulAt
  check (validateStoredRelease release true)
  saveHistory json release
  writeSuccess json release
  commitState json release
  pure release

end Store

end Yunling.Release
