/-
Agents can stage what was imported, when nothing but white space follows
the first 256 bytes of its version.

The import reads no more than these bytes of the member that names the
version, and the agent reads all of it. Of a release whose version is
followed by something else the import sees the version, and every agent
refuses it (`long_version_unstageable`).
-/
import Mathlib.Data.List.DropRight
import Yunling.AgentRelease.Stage
import Yunling.Lib.Fallible

namespace Yunling.AgentRelease

open Fallible

-- ======== versions

/-- `strings.TrimSpace` of characters. -/
def trimmed (text : List Char) : List Char :=
  ((text.dropWhile isSpace).reverse.dropWhile isSpace).reverse

/-- Trimming takes white space only. -/
theorem countP_trimmed (text : List Char) :
    (trimmed text).countP (!isSpace ·) = text.countP (!isSpace ·) := by
  have hdrop : ∀ l : List Char, (l.dropWhile isSpace).countP (!isSpace ·)
      = l.countP (!isSpace ·) := by
    intro l
    have htake : (l.takeWhile isSpace).countP (!isSpace ·) = 0 :=
      List.countP_eq_zero.mpr fun c hc => by simpa using List.mem_takeWhile_imp hc
    rw [← Nat.zero_add (List.countP _ _), ← htake, ← List.countP_append,
      List.takeWhile_append_dropWhile]
  unfold trimmed
  rw [List.countP_reverse, hdrop, List.countP_reverse, hdrop]

/-- What comes after a text goes with trimming when it is white space. -/
theorem trimmed_append {text more : List Char} :
    trimmed (text ++ more) = trimmed text ↔ ∀ c ∈ more, isSpace c = true := by
  constructor
  · intro h c hc
    have hcount := congrArg (List.countP (!isSpace ·)) h
    rw [countP_trimmed, countP_trimmed, List.countP_append, Nat.add_eq_left,
      List.countP_eq_zero] at hcount
    simpa using hcount c hc
  · intro h
    unfold trimmed
    rw [List.dropWhile_append]
    split
    · next htext =>
      rw [List.isEmpty_iff.mp htext, List.dropWhile_eq_nil_iff.mpr h]
    · rw [List.reverse_append, List.dropWhile_append_of_pos (by simpa using h)]

-- ======== bodies

/-- What comes after the first 256 bytes. -/
def Body.after (body : Body) : Body := body.drop (body.first 256).length

/-- It is white space. -/
def Body.Padded (body : Body) : Prop := ∀ r ∈ body.after, r.any isSpace = true

theorem first_append_drop {n : Nat} {body : Body} (h : none ∉ body.first n) :
    body.first n ++ body.drop (body.first n).length = body := by
  induction body generalizing n with
  | nil => simp [Body.first]
  | cons r rest ih =>
    unfold Body.first at h ⊢
    dsimp only at h ⊢
    split
    · next hfits =>
      rw [if_pos hfits, List.mem_cons, not_or] at h
      simp [ih h.2]
    · next hcut =>
      rw [if_neg hcut] at h
      obtain rfl : n = 0 := by simpa using h
      rfl

/-- The body names the version that its beginning names, when the rest is
white space. -/
theorem version_iff {body : Body} {version : List Char}
    (h : (body.first 256).text.map Scheduler.trimSpace = some version) :
    body.text.map Scheduler.trimSpace = some version ↔ body.Padded := by
  have hfirst : none ∉ body.first 256 := by
    intro hmem
    rw [Body.text, if_pos hmem] at h
    cases h
  have hbody : body = body.first 256 ++ body.after := (first_append_drop hfirst).symm
  rw [Body.text, if_neg hfirst, Option.map_some, Option.some.injEq] at h
  by_cases hafter : none ∈ body.after
  · have hmem : none ∈ body := hbody ▸ List.mem_append_right _ hafter
    rw [Body.text, if_pos hmem]
    exact iff_of_false (by simp) fun hspace => absurd (hspace none hafter) (by simp)
  have hmem : none ∉ body := by
    rw [hbody, List.mem_append]
    exact not_or.mpr ⟨hfirst, hafter⟩
  rw [Body.text, if_neg hmem, Option.map_some, Option.some.injEq, ← h]
  have htext : body.filterMap id = (body.first 256).filterMap id ++ body.after.filterMap id := by
    rw [← List.filterMap_append, ← hbody]
  simp only [Scheduler.trimSpace, String.toList_ofList, htext]
  refine trimmed_append.trans ⟨fun hspace r hr => ?_, fun hspace c hc => ?_⟩
  · cases r with
    | none => exact absurd hr hafter
    | some c => exact hspace c (List.mem_filterMap.mpr ⟨some c, hr, rfl⟩)
  · obtain ⟨r, hr, rfl : r = some c⟩ := List.mem_filterMap.mp hc
    exact hspace _ hr

-- ======== members

/-- Where a member names the version, white space follows its first 256
bytes. -/
def Members.Padded : Members → Prop
  | .member m rest => (m.name = "agent-version" → m.body.Padded) ∧ rest.Padded
  | _ => True

theorem stageable_of_required : ∀ name ∈ required, name ∈ stageable ∧ base name = name := by
  decide

theorem required_of_stageable : ∀ name ∈ stageable, name ∈ required := by decide

/-- The two loops go through the members together. -/
theorem extractEntries_iff {version : String} {members : Members} {found : List String}
    (files : List Staged)
    (h : validateEntries version (files.map (·.name)) members.items = .ok found) :
    (members.Padded → ∃ files', extractEntries version files members = .ok files'
        ∧ files'.map (·.name) = found)
      ∧ ∀ files', extractEntries version files members = .ok files' → members.Padded := by
  induction members generalizing files with
  | eof =>
    cases h
    exact ⟨fun _ => ⟨files, rfl, rfl⟩, fun _ _ => trivial⟩
  | broken => cases h
  | torn m =>
    simp only [Members.items, validateEntries] at h
    repeat' split at h
    all_goals cases h
  | member m rest ih =>
    simp only [Members.items, validateEntries] at h
    split at h
    · cases h
    split at h
    · cases h
    split at h
    · cases h
    next hregular hname hversion =>
    rw [not_or, not_not] at hname
    obtain ⟨hallowed, hbase⟩ := stageable_of_required _ hname.1
    unfold extractEntries
    rw [if_neg hregular, if_neg (by simp [hallowed, hbase, hname.2])]
    by_cases hpadded : m.name = "agent-version" → m.body.Padded
    · rw [if_neg fun hwrong => hwrong.2 ((version_iff
        (by simpa [hwrong.1] using hversion)).mpr (hpadded hwrong.1))]
      have hrest := fun mode => ih (⟨m.name, m.body, mode⟩ :: files) h
      exact ⟨fun hp => (hrest _).1 hp.2, fun files' hok => ⟨hpadded, (hrest _).2 files' hok⟩⟩
    · obtain ⟨hv, hpadded'⟩ := Classical.not_imp.mp hpadded
      rw [if_pos ⟨hv, fun hsame =>
        hpadded' ((version_iff (by simpa [hv] using hversion)).mp hsame)⟩]
      exact ⟨fun hp => absurd hp.1 hpadded, fun _ hok => by cases hok⟩

/-- Of the archives that pass the import, agents can stage those whose
version is followed by white space only. -/
theorem importable_stageable_iff (version : String) (members : Members)
    (h : validateAgentArchive version (some members.items) = .ok ()) :
    (∃ files, extractArchive version (some members) = .ok files) ↔ members.Padded := by
  obtain ⟨found, hfound, hall⟩ := ok_of_bind h
  obtain ⟨hextract, hpadded⟩ := extractEntries_iff [] hfound
  constructor
  · rintro ⟨files, hfiles⟩
    obtain ⟨files', hfiles', -⟩ := ok_of_bind hfiles
    exact hpadded files' hfiles'
  intro hmembers
  obtain ⟨files, hfiles, hnames⟩ := hextract hmembers
  have hfull : stageable.all (files.map (·.name)).contains = true := by
    rw [hnames, List.all_eq_true]
    intro name hname
    split at hall
    · next hrequired =>
      exact List.all_eq_true.mp hrequired name (required_of_stageable name hname)
    · cases hall
  refine ⟨files, ?_⟩
  simp only [extractArchive, hfiles]
  exact if_pos hfull

/-- An archive with all that is required, whose version is `body`. -/
def sampleMembers (body : Body) : Members :=
  stageable.foldr (fun name rest =>
    .member ⟨true, name, if name = "agent-version" then body else []⟩ rest) .eof

theorem importable_stageable_iff_line : (∃ files, extractArchive "1.0.0"
        (some (sampleMembers ("1.0.0\n".toList.map some))) = .ok files)
      ↔ (sampleMembers ("1.0.0\n".toList.map some)).Padded :=
  importable_stageable_iff "1.0.0" _ (by decide +kernel)

/-- Something follows the version and 251 blanks. -/
theorem long_version_unstageable :
    let members := sampleMembers (("1.0.0".toList ++ List.replicate 251 ' ' ++ ['x']).map some)
    validateAgentArchive "1.0.0" (some members.items) = .ok ()
      ∧ extractArchive "1.0.0" (some members) = .error .versionMismatch := by
  decide +kernel

end Yunling.AgentRelease
