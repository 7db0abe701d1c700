/-
Releases (`internal/release`): what is stored of one, and when it is
valid (`manifest.go`, and `validateStoredRelease` of `state.go`).

A release comes from a candidate manifest, or is the production as it was
found at the start (`local-bootstrap`). The build for the integration
tests has releases of its own; in production their images are never
accepted (`validateReleaseIntegrationImages`).

# Patterns

The regular expressions of the source are written as the functions that
decide them; the ones with groups return what the groups match.
-/
import Mathlib.Data.List.Basic

namespace Yunling.Release

-- ======== types

/-- `time.Time`: nanoseconds since the zero time, and the offset of its
zone. -/
structure Time where
  instant : Int
  offset : Int
  deriving DecidableEq

/-- `time.Time{}`. -/
def Time.zero : Time := ⟨0, 0⟩

/-- `IsZero`. -/
def Time.isZero (t : Time) : Bool := t.instant == 0

/-- `isUTCNonZero`. -/
def isUTCNonZero (t : Time) : Bool := !t.isZero && t.offset == 0

/-- `ReleaseOrigin`. -/
inductive ReleaseOrigin where
  | ghcr
  | localBootstrap
  | releaseIntegration
  /-- any other text -/
  | other (text : String)
  deriving DecidableEq

/-- `ServiceImages`. -/
structure ServiceImages where
  api : String
  scheduler : String
  web : String
  ops : String
  deriving DecidableEq

/-- `Compatibility`. -/
structure Compatibility where
  migrationTreeSHA256 : String
  deploymentContractSHA256 : String
  agentVersion : String
  agentManifestSHA256 : String
  deriving DecidableEq

/-- `StoredRelease`. -/
structure StoredRelease where
  targetID : String
  origin : ReleaseOrigin
  sourceSHA : String
  images : ServiceImages
  compatibility : Compatibility
  successfulAt : Time
  validated : Bool
  deriving DecidableEq

variable {release : StoredRelease}

/-- What of a release is written: `validated` is not. -/
def StoredRelease.kept (release : StoredRelease) : StoredRelease :=
  { release with validated := false }

theorem StoredRelease.kept_kept (release : StoredRelease) : release.kept.kept = release.kept := rfl

/-- `sameReleaseIdentity`. -/
def sameReleaseIdentity (left right : StoredRelease) : Bool :=
  { left with successfulAt := .zero, validated := false }
    == { right with successfulAt := .zero, validated := false }

/-- Why a call failed. -/
inductive Failure where
  /-- `ErrInvalidRelease` -/
  | invalidRelease (detail : String)
  | releaseExists
  | releaseNotFound
  | releaseNotSuccessful
  /-- a value that has no text -/
  | encode
  /-- a text that is not the text of a value -/
  | decode
  | notExist
  /-- an operation on a file -/
  | io
  | wrapped (text : String) (cause : Failure)
  | joined (cause failure : Failure)
  deriving DecidableEq

-- ======== patterns

/-- The rest of a text after its beginning. -/
def after : List Char → List Char → Option (List Char)
  | [], rest => some rest
  | c :: cs, d :: rest => if c = d then after cs rest else none
  | _ :: _, [] => none

def digit (c : Char) : Bool := '0' ≤ c && c ≤ '9'

def lowerLetter (c : Char) : Bool := 'a' ≤ c && c ≤ 'z'

def upperLetter (c : Char) : Bool := 'A' ≤ c && c ≤ 'Z'

def lowerHex (c : Char) : Bool := digit c || ('a' ≤ c && c ≤ 'f')

/-- `[0-9a-f]{n}`. -/
def hexText (n : Nat) (text : List Char) : Bool :=
  text.length == n && text.all lowerHex

/-- A first character, and at most `n` others. -/
def leading (first others : Char → Bool) (n : Nat) : List Char → Bool
  | [] => false
  | c :: cs => first c && cs.length ≤ n && cs.all others

/-- `lowerHex40Pattern`. -/
def lowerHex40Pattern (value : String) : Bool := hexText 40 value.toList

/-- `lowerHex64Pattern`. -/
def lowerHex64Pattern (value : String) : Bool := hexText 64 value.toList

/-- `targetIDPattern`. -/
def targetIDPattern (value : String) : Bool :=
  leading (fun c => '1' ≤ c && c ≤ '9') digit 18 value.toList

/-- `versionPattern`. -/
def versionPattern (value : String) : Bool :=
  leading (fun c => digit c || upperLetter c || lowerLetter c)
    (fun c => digit c || upperLetter c || lowerLetter c || c == '.'
      || c == '_' || c == '-') 63 value.toList

/-- `[a-z0-9](?:[a-z0-9-]{0,38})`. -/
def ownerText (text : List Char) : Bool :=
  leading (fun c => lowerLetter c || digit c)
    (fun c => lowerLetter c || digit c || c == '-') 38 text

/-- `bootstrapImagePattern`, with the service it matches. -/
def bootstrapImagePattern (image : String) : Option String := do
  let rest ← after "yunling-local-bootstrap/".toList image.toList
  let service := rest.takeWhile (· != ':')
  let digest ← after [':'] (rest.drop service.length)
  if ["api", "scheduler", "web", "ops"].contains (String.ofList service) && hexText 12 digest then
    some (String.ofList service)
  else none

/-- `ghcrStoredImagePattern`, with the owner and the name it matches. -/
def ghcrStoredImagePattern (text : List Char) : Option (String × String) := do
  let rest ← after "ghcr.io/".toList text
  let owner := rest.takeWhile (· != '/')
  let rest ← after "/yunling-".toList (rest.drop owner.length)
  let name := rest.takeWhile (· != '@')
  let digest ← after "@sha256:".toList (rest.drop name.length)
  if ownerText owner && ["services", "web", "ops"].contains (String.ofList name)
      && hexText 64 digest then
    some (String.ofList owner, String.ofList name)
  else none

/-- `parseStoredGHCRImage`. -/
def parseStoredGHCRImage (value : String) : Option (String × String) :=
  ghcrStoredImagePattern value.toList

/-- `validTargetID`. -/
def validTargetID (value : String) : Bool :=
  value == "bootstrap" || targetIDPattern value

-- ======== validation

/-- `validCompatibility`. -/
def validCompatibility (value : Compatibility) : Bool :=
  lowerHex64Pattern value.migrationTreeSHA256 && lowerHex64Pattern value.deploymentContractSHA256
    && versionPattern value.agentVersion
    && lowerHex64Pattern value.agentManifestSHA256

/-- `validateReleaseIntegrationImages`, in production. -/
def validateReleaseIntegrationImages (_ : ServiceImages) : Bool := false

/-- The images of a published release. -/
def validGHCRImages (images : ServiceImages) : Bool :=
  match parseStoredGHCRImage images.api, parseStoredGHCRImage images.web,
    parseStoredGHCRImage images.ops with
  | some (servicesOwner, servicesName), some (webOwner, webName), some (opsOwner, opsName) =>
    servicesName == "services" && images.scheduler == images.api
      && webName == "web" && opsName == "ops" && webOwner == servicesOwner
      && opsOwner == servicesOwner
  | _, _, _ => false

/-- The images of the production as it was found. -/
def validBootstrapImages (images : ServiceImages) : Bool :=
  [("api", images.api), ("scheduler", images.scheduler),
    ("web", images.web), ("ops", images.ops)].all fun (service, image) =>
      bootstrapImagePattern image == some service

/-- `validateStoredRelease`. -/
def validateStoredRelease (release : StoredRelease) (requireSuccess : Bool) : Except Failure Unit :=
  if !validCompatibility release.compatibility then
    .error (.invalidRelease "兼容性摘要无效")
  else if requireSuccess && !isUTCNonZero release.successfulAt then
    .error (.invalidRelease "成功时间无效")
  else if !release.successfulAt.isZero && !isUTCNonZero release.successfulAt then
    .error (.invalidRelease "成功时间必须使用 UTC")
  else
    let valid :=
      match release.origin with
      | .ghcr => targetIDPattern release.targetID && lowerHex40Pattern release.sourceSHA
        && validGHCRImages release.images
      | .localBootstrap => release.targetID == "bootstrap"
        && release.sourceSHA == "" && validBootstrapImages release.images
      | .releaseIntegration => targetIDPattern release.targetID
        && lowerHex40Pattern release.sourceSHA && validateReleaseIntegrationImages release.images
      | .other _ => false
    if valid then .ok () else .error (.invalidRelease "")

@[simp] theorem validateStoredRelease_kept (release : StoredRelease) (requireSuccess : Bool) :
    validateStoredRelease release.kept requireSuccess
      = validateStoredRelease release requireSuccess := rfl

/-- A release that is valid as a success is valid as a candidate. -/
theorem validateStoredRelease_success (h : validateStoredRelease release true = .ok ()) :
    validateStoredRelease release false = .ok () := by
  unfold validateStoredRelease at h ⊢
  split at h
  · cases h
  next hcompatibility =>
  rw [if_neg hcompatibility]
  split at h
  · cases h
  · exact h

/-- When a release was deployed need not be said of a candidate. -/
theorem validateStoredRelease_undeployed (h : validateStoredRelease release false = .ok ()) :
    validateStoredRelease { release with successfulAt := .zero } false = .ok () := by
  unfold validateStoredRelease at h ⊢
  split at h
  · cases h
  next hcompatibility =>
  rw [if_neg hcompatibility]
  rw [if_neg (by simp)] at h ⊢
  split at h
  · cases h
  · exact h

/-- A release that was deployed was a candidate before. -/
theorem validateStoredRelease_candidate (h : validateStoredRelease release true = .ok ()) :
    validateStoredRelease { release with successfulAt := .zero } false = .ok () :=
  validateStoredRelease_undeployed (validateStoredRelease_success h)

theorem validTargetID_of_valid {requireSuccess : Bool}
    (h : validateStoredRelease release requireSuccess = .ok ()) :
    validTargetID release.targetID = true := by
  unfold validateStoredRelease at h
  split at h
  · cases h
  split at h
  · cases h
  split at h
  · cases h
  · unfold validTargetID
    cases horigin : release.origin with
    | other text => simp [horigin] at h
    | _ => simp_all

theorem validateStoredRelease_ghcr (horigin : release.origin = .ghcr)
    (hcompatibility : validCompatibility release.compatibility = true)
    (htime : isUTCNonZero release.successfulAt = true)
    (htarget : targetIDPattern release.targetID = true)
    (hsource : lowerHex40Pattern release.sourceSHA = true)
    (himages : validGHCRImages release.images = true) :
    validateStoredRelease release true = .ok () := by
  unfold validateStoredRelease
  simp [hcompatibility, htime, horigin, htarget, hsource, himages]

theorem sameReleaseIdentity_refl (release : StoredRelease) :
    sameReleaseIdentity release release = true := by
  exact beq_self_eq_true _

/-- When a release was deployed is not part of its identity. -/
theorem sameReleaseIdentity_successfulAt (release : StoredRelease)
    (successfulAt : Time) (validated : Bool) :
    sameReleaseIdentity { release with successfulAt, validated } release = true := by
  exact beq_self_eq_true _

end Yunling.Release
