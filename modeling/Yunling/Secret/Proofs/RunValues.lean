/-
Dispatch and redaction see the same secrets of a run, when its bindings
have no blanks around their references.

Dispatch trims a reference before it asks for the secret, and redaction
takes it as it is stored. A reference that trimming changes is no id of a
secret: the run gets its value, and every look at its log fails
(`padded_reference_unredacted`).
-/
import Yunling.Lib.Fallible
import Yunling.Secret.RunValues

namespace Yunling.Secret

open Fallible

variable {σ : Type} {vault : Vault σ} {bindings : List (String × String)}

-- ======== loops

theorem mem_unique {seen refs : List String} {ref : String} :
    ref ∈ unique seen refs ↔ ref ∈ refs ∧ ref ∉ seen := by
  induction refs generalizing seen with
  | nil => simp [unique]
  | cons first refs ih =>
    unfold unique
    split <;> grind

theorem unique_unique (seen refs : List String) :
    unique seen (unique seen refs) = unique seen refs := by
  induction refs generalizing seen with
  | nil => rfl
  | cons ref refs ih =>
    by_cases h : ref ∈ seen
    · simp only [unique, if_pos h, ih]
    · simp only [unique, if_neg h, ih]

/-- Asking once for each secret is asking for them all. -/
theorem resolve_unique (refs : List String) :
    vault.resolve (unique [] refs) = vault.resolve refs := by
  have hblank : (unique [] refs).any (trim · == "") = refs.any (trim · == "") := by
    simp [List.any_eq, mem_unique]
  unfold Vault.resolve
  rw [hblank, unique_unique]

/-- What was resolved under an id is the content of its row. -/
theorem trim_of_resolved {refs : List String} {resolved : List (String × String)}
    (h : vault.resolve refs = .ok resolved) {key value : String}
    (hvalue : valueAt resolved key = .ok value) : trim key = key := by
  have hmem : (key, value) ∈ resolved := by
    unfold valueAt at hvalue
    cases hlookup : resolved.reverse.lookup key with
    | none =>
      rw [hlookup] at hvalue
      cases hvalue
    | some found =>
      rw [hlookup] at hvalue
      cases hvalue
      obtain ⟨before, after, heq, -⟩ := List.lookup_eq_some_iff.mp hlookup
      exact List.mem_reverse.mp (by simp [heq])
  unfold Vault.resolve at h
  split at h
  · cases h
  obtain ⟨stored, hstored, h⟩ := ok_of_bind h
  split at h
  · cases h
  obtain ⟨item, hitem, hrow⟩ := (mem_mapM_ok h _).mp hmem
  obtain ⟨_, -, hrow⟩ := ok_of_bind hrow
  cases hrow
  exact vault.id_trim _ _ hstored item hitem

-- ======== both sides

theorem mem_sorted {b : String × String} : b ∈ sorted bindings ↔ b ∈ bindings :=
  (List.perm_insertionSort _ _).mem_iff

/-- A run without secrets has none to redact. -/
theorem valuesForRun_nil (vault : Vault σ) : valuesForRun (some vault) (some []) = .ok [] := by
  simp [valuesForRun, sorted, unique, Vault.resolve, vault.load_nil, pure, bind, Except.pure,
    Except.bind]

/-- What dispatch delivers, it has resolved under the trimmed
references. -/
theorem resolved_of_delivered {delivered : List (String × String)} (hne : bindings ≠ [])
    (h : resolveSecretBindings (some vault) bindings = some delivered) :
    ∃ resolved, vault.resolve ((sorted bindings).map (trim ·.2)) = .ok resolved
      ∧ ((sorted bindings).mapM fun b => do return (b.1, ← valueAt resolved (trim b.2)))
        = .ok delivered := by
  unfold resolveSecretBindings at h
  rw [if_neg hne, Option.bind_some] at h
  split at h
  · cases h
  cases hcall : (vault.resolve ((sorted bindings).map (trim ·.2)) >>= fun resolved =>
      (sorted bindings).mapM fun b => do return (b.1, ← valueAt resolved (trim b.2))) with
  | error e =>
    rw [hcall] at h
    cases h
  | ok values =>
    rw [hcall] at h
    cases h
    exact ok_of_bind hcall

/-- The secrets of a run are redacted exactly when trimming changes none
of its references. -/
theorem run_values_delivered_iff (vault : Vault σ) (bindings delivered : List (String × String))
    (h : resolveSecretBindings (some vault) bindings = some delivered) :
    (∃ values, valuesForRun (some vault) (some bindings) = .ok values
        ∧ ∀ value, value ∈ values ↔ value ∈ delivered.map (·.2))
      ↔ ∀ b ∈ bindings, trim b.2 = b.2 := by
  rcases eq_or_ne bindings [] with rfl | hne
  · obtain rfl : [] = delivered := Option.some.inj h
    simp [valuesForRun_nil]
  obtain ⟨resolved, hresolved, hdelivered⟩ := resolved_of_delivered hne h
  constructor
  · rintro ⟨values, hvalues, -⟩ b hb
    obtain ⟨resolved', hresolved', hvalues⟩ := ok_of_bind hvalues
    obtain ⟨value, hvalue⟩ := exists_mapM_ok.mp ⟨values, hvalues⟩ b.2
      (mem_unique.mpr ⟨List.mem_map_of_mem (mem_sorted.mpr hb), List.not_mem_nil⟩)
    exact trim_of_resolved hresolved' hvalue
  · intro htrim
    have hrefs : (sorted bindings).map (trim ·.2) = (sorted bindings).map (·.2) :=
      List.map_congr_left fun b hb => htrim b (mem_sorted.mp hb)
    rw [hrefs, ← resolve_unique] at hresolved
    -- dispatch found a value for every reference, so redaction does
    have hvalue : ∀ b ∈ sorted bindings, ∃ value, valueAt resolved b.2 = .ok value := by
      intro b hb
      obtain ⟨_, hb'⟩ := exists_mapM_ok.mp ⟨_, hdelivered⟩ b hb
      rw [htrim b (mem_sorted.mp hb)] at hb'
      obtain ⟨value, hvalue, -⟩ := ok_of_bind hb'
      exact ⟨value, hvalue⟩
    obtain ⟨values, hvalues⟩ : ∃ values, (unique [] ((sorted bindings).map (·.2))).mapM
        (valueAt resolved) = .ok values := by
      refine exists_mapM_ok.mpr fun id hid => ?_
      obtain ⟨b, hb, rfl⟩ := List.mem_map.mp (mem_unique.mp hid).1
      exact hvalue b hb
    refine ⟨values, ?_, fun value => ?_⟩
    · simp only [valuesForRun, hresolved]
      exact hvalues
    rw [mem_mapM_ok hvalues, List.mem_map]
    constructor
    · rintro ⟨id, hid, hid'⟩
      obtain ⟨b, hb, rfl⟩ := List.mem_map.mp (mem_unique.mp hid).1
      refine ⟨(b.1, value), (mem_mapM_ok hdelivered _).mpr ⟨b, hb, ?_⟩, rfl⟩
      rw [htrim b (mem_sorted.mp hb), hid']
      rfl
    · rintro ⟨named, hnamed, rfl⟩
      obtain ⟨b, hb, hb'⟩ := (mem_mapM_ok hdelivered named).mp hnamed
      rw [htrim b (mem_sorted.mp hb)] at hb'
      obtain ⟨value, hvalue, hb'⟩ := ok_of_bind hb'
      cases hb'
      exact ⟨b.2, mem_unique.mpr ⟨List.mem_map_of_mem hb, List.not_mem_nil⟩, hvalue⟩

/-- A vault with one secret. -/
def sampleVault : Vault (String × String) where
  id := Prod.fst
  load ids := .ok ([("s", "v")].filter fun row => ids.contains row.1)
  opened row := .ok row.2
  load_nil := rfl
  id_trim := by
    rintro ids items h item hitem
    cases h
    obtain rfl := List.mem_singleton.mp (List.mem_of_mem_filter hitem)
    decide

theorem run_values_delivered_iff_plain :
    ∃ values, valuesForRun (some sampleVault) (some [("TOKEN", "s")]) = .ok values
      ∧ ∀ value, value ∈ values ↔ value ∈ [("TOKEN", "v")].map Prod.snd :=
  (run_values_delivered_iff sampleVault [("TOKEN", "s")] [("TOKEN", "v")] (by decide)).mpr
    (by decide)

/-- A reference with blanks around it: the run gets the value, and the
redaction of its log finds none. -/
theorem padded_reference_unredacted :
    resolveSecretBindings (some sampleVault) [("TOKEN", " s ")] = some [("TOKEN", "v")]
      ∧ valuesForRun (some sampleVault) (some [("TOKEN", " s ")]) = .error .secretNotFound := by
  decide

end Yunling.Secret
