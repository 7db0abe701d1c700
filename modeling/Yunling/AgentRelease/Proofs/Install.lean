/-
No imported release can be installed with the console's command.

The import wants seven members, among them the version and the unit of
the upgrade; the command of the console still has the five of the time
before upgrades. So what the one accepts the other refuses, always.
-/
import Yunling.AgentRelease.Service
import Yunling.Lib.Fallible

namespace Yunling.AgentRelease

open Fallible

section Members

variable {version : String} {out : Outside} {input : ImportInput}

-- ======== imports

/-- What was found is named by a member, or was found before. -/
theorem mem_of_validateEntries {items : List TarItem} {found found' : List String}
    (h : validateEntries version found items = .ok found') :
    ∀ name ∈ found', name ∈ found ∨ name ∈ memberNames items := by
  induction items generalizing found with
  | nil => cases h; exact fun name hname => Or.inl hname
  | cons item rest ih =>
    cases item with
    | broken => cases h
    | entry e =>
      unfold validateEntries at h
      repeat' split at h
      all_goals first | cases h | skip
      intro name hname
      rcases ih h name hname with hfound | hrest
      · rcases List.mem_cons.mp hfound with rfl | hfound
        · exact Or.inr (by simp [memberNames])
        · exact Or.inl hfound
      · exact Or.inr (by simp_all [memberNames])

/-- An archive that is accepted has all that is required. -/
theorem required_of_validated {members : Option (List TarItem)}
    (h : validateAgentArchive version members = .ok ()) :
    ∃ items, members = some items ∧ ∀ name ∈ required, name ∈ memberNames items := by
  cases members with
  | none => cases h
  | some items =>
    refine ⟨items, rfl, fun name hname => ?_⟩
    obtain ⟨found, hfound, h⟩ := ok_of_bind h
    split at h
    · next hall =>
      have hmem := List.all_eq_true.mp hall name hname
      rcases mem_of_validateEntries hfound name (by simpa using hmem) with h | h
      · cases h
      · exact h
    · cases h

theorem validated_of_importArtifact {earlier : List (StoredArtifact × Bytes)} {a : ImportArtifact}
    {item : StoredArtifact × Bytes} (h : importArtifact out input true earlier a = .ok item) :
    validateAgentArchive input.version (out.members item.2) = .ok () := by
  unfold importArtifact at h
  split at h
  · cases h
  split at h
  · cases h
  split at h
  · cases h
  split at h
  · cases h
  · cases h
  next content _ =>
  dsimp only at h
  split at h
  · cases h
  cases hvalid : validateAgentArchive input.version
      (out.members (content.take (a.byteSize + 1).toNat)) with
  | error e =>
    rw [hvalid] at h
    cases h
  | ok _ =>
    rw [hvalid] at h
    cases h
    exact hvalid

theorem validated_of_importArtifacts {artifacts : List ImportArtifact}
    {earlier pending : List (StoredArtifact × Bytes)}
    (h : importArtifacts out input true earlier artifacts = .ok pending) :
    ∀ item ∈ pending, item ∈ earlier
      ∨ validateAgentArchive input.version (out.members item.2) = .ok () := by
  induction artifacts generalizing earlier with
  | nil => cases h; exact fun item hitem => Or.inl hitem
  | cons a rest ih =>
    obtain ⟨new, hnew, h⟩ := ok_of_bind h
    intro item hitem
    rcases ih h item hitem with hearlier | hvalid
    · rcases List.mem_append.mp hearlier with hearlier | hlast
      · exact Or.inl hearlier
      · rw [List.mem_singleton.mp hlast]
        exact Or.inr (validated_of_importArtifact hnew)
    · exact Or.inr hvalid

theorem validated_of_serviceImport {pending : List (StoredArtifact × Bytes)}
    (h : serviceImport out input = .ok pending) :
    ∀ item ∈ pending, validateAgentArchive input.version (out.members item.2) = .ok () := by
  unfold serviceImport importRelease at h
  split at h
  · cases h
  obtain ⟨_, -, h⟩ := ok_of_bind h
  obtain ⟨_, -, h⟩ := ok_of_bind h
  split at h
  · cases h
  split at h
  · cases h
  obtain ⟨stored, hstored, h⟩ := ok_of_bind h
  have hpending : stored = pending := by
    unfold storeRelease at h
    repeat' split at h
    all_goals cases h
    rfl
  subst hpending
  intro item hitem
  exact (validated_of_importArtifacts hstored item hitem).resolve_left List.not_mem_nil

-- ======== installation

theorem allowed_of_checkEntries {names seen : List String} {n : Nat}
    (h : checkEntries seen names = .ok n) : ∀ name ∈ names, name ∈ allowed := by
  induction names generalizing seen with
  | nil => exact fun _ h => absurd h List.not_mem_nil
  | cons entry rest ih =>
    unfold checkEntries at h
    split at h
    · cases h
    next hallowed =>
    split at h
    · cases h
    · intro name hname
      rcases List.mem_cons.mp hname with rfl | hrest
      · exact not_not.mp hallowed
      · exact ih h name hrest

end Members

/-- Whatever `Import` accepts, the installing command refuses. -/
theorem imported_not_installable (out : Outside) (input : ImportInput)
    (pending : List (StoredArtifact × Bytes)) (h : serviceImport out input = .ok pending) :
    ∀ item ∈ pending, ∃ items, out.members item.2 = some items
      ∧ checkMembers (memberNames items) ≠ .ok () := by
  intro item hitem
  obtain ⟨items, hmembers, hall⟩ :=
    required_of_validated (validated_of_serviceImport h item hitem)
  refine ⟨items, hmembers, fun hcheck => ?_⟩
  obtain ⟨n, hn, -⟩ := ok_of_bind hcheck
  have hversion := allowed_of_checkEntries hn "agent-version" (hall _ (by decide))
  revert hversion
  decide

namespace Sample

/-- The digest of everything. -/
def digest : String := String.ofList (List.replicate 64 '0')

/-- An archive as `package.sh` makes it. -/
def members : List TarItem :=
  ["50-yunling-agent.rules", "agent-version", "install.sh", "yunling-agent",
    "yunling-agent-upgrade@.service", "yunling-agent.service", "yunling-run@.service"].map
    fun name => .entry ⟨true, name, if name = "agent-version" then some "1.2.0\n" else none⟩

def out : Outside where
  sha256 := fun _ => digest
  members := fun _ => some members
  decode := fun _ => none
  encode := fun _ => none
  versions := some []
  stored := true

def input : ImportInput where
  version := "1.2.0"
  releaseNotes := []
  manifestSHA256 := digest
  manifestJSON := []
  artifacts := ["amd64", "arm64"].map fun arch =>
    ⟨"linux", arch, arch ++ ".tar.gz", 1, digest, some (some [0])⟩
  capabilities := none

def pending : List (StoredArtifact × Bytes) :=
  ["amd64", "arm64"].map fun arch => (⟨"linux", arch, arch ++ ".tar.gz", 1, digest⟩, [0])

theorem imported : serviceImport out input = .ok pending := by decide +kernel

end Sample

theorem imported_not_installable_packaged :
    serviceImport Sample.out Sample.input = .ok Sample.pending
      ∧ ∃ items, Sample.out.members [0] = some items ∧ checkMembers (memberNames items) ≠ .ok () :=
  ⟨Sample.imported, imported_not_installable Sample.out Sample.input Sample.pending
    Sample.imported _ List.mem_cons_self⟩

/-- The command stops at the file with the version. -/
theorem packaged_release_refused : serviceImport Sample.out Sample.input = .ok Sample.pending
      ∧ checkMembers (memberNames Sample.members) = .error (.notAllowed "agent-version") :=
  ⟨Sample.imported, by decide +kernel⟩

end Yunling.AgentRelease
