/-
The stored chunks of the control plane under `Accept`.

`save_cases` says what one call can do: nothing, or add its chunk at the
end of the stream. A confirmed chunk is in the table afterwards, and the
number that is confirmed is past it.
-/
import Yunling.Logstream.Service

namespace Yunling.Logstream

open Relational Utf8 Secret

/-- The stored chunks of a stream, in the order they came in. -/
def ChunkStore.stream (st : ChunkStore) (key : Key) : List LogChunk :=
  st.logChunks.rows.filter (·.key = key)

/-- The chunks of a stream are numbered from 1 to `n`, in the order they
came in. -/
def ChunkStore.Numbered (st : ChunkStore) (key : Key) (n : Nat) : Prop :=
  (st.stream key).map LogChunk.sequence = List.range' 1 n

section Numbered

variable {st : ChunkStore} {key : Key} {n : Nat}

theorem ChunkStore.Numbered.nextSequence (h : st.Numbered key n) : st.nextSequence key = n + 1 := by
  have hseq : (st.logChunks.rows.filter (·.key = key)).map LogChunk.sequence = List.range' 1 n := h
  unfold ChunkStore.nextSequence
  rw [hseq]
  cases n with
  | zero => rfl
  | succ n =>
    have hmax : (List.range' 1 (n + 1)).max? = some (n + 1) := by
      rw [List.max?_eq_some_iff]
      refine ⟨by simp [List.mem_range'_1], fun b hb => ?_⟩
      rw [List.mem_range'_1] at hb
      omega
    rw [hmax]
    rfl

theorem ChunkStore.Numbered.text (h : st.Numbered key n) :
    st.text key = (st.stream key).flatMap LogChunk.content := by
  have hsorted : (st.stream key).Pairwise (OrderBy.Asc LogChunk.sequence) := by
    have hle : ((st.stream key).map LogChunk.sequence).Pairwise (· ≤ ·) := by
      rw [show (st.stream key).map LogChunk.sequence = _ from h]
      exact List.pairwise_le_range'
    have hseq := List.pairwise_map.mp hle
    exact hseq
  unfold ChunkStore.text
  rw [show (st.logChunks.rows.filter (·.key = key)) = st.stream key from rfl,
    hsorted.insertionSort_eq]

end Numbered

-- ======== accept

theorem ChunkStore.insert_ok {st st' : ChunkStore} {c : LogChunk} (h : st.insert c = .ok st') :
    st'.logChunks.rows = st.logChunks.rows ++ [c] ∧ ∀ r ∈ st.logChunks.rows, r.path ≠ c.path := by
  unfold ChunkStore.insert at h
  split at h
  · cases h
  split at h
  · cases h
  split at h
  · cases h
  · next hins =>
    cases h
    exact Table.insert?_eq_some hins

/-- What one call can do to the table, and what it confirms. -/
theorem ChunkStore.save_cases (st : ChunkStore) (c : LogChunk) (next : Nat) :
    ((st.save c next).1 = st ∨ c.sequence = next
        ∧ (st.save c next).1.logChunks.rows = st.logChunks.rows ++ [c]
        ∧ ∀ r ∈ st.logChunks.rows, r.path ≠ c.path) ∧ ∀ n, (st.save c next).2 = .ok n →
      n = max next (c.sequence + 1) ∧ c.sequence ≤ next ∧ ∃ r ∈ (st.save c next).1.logChunks.rows,
          r.path = c.path ∧ r.content = c.content := by
  have hfind : ∀ r, st.find c = some r → r ∈ st.logChunks.rows ∧ r.path = c.path := fun r hr =>
    st.logChunks.find?_eq_some.mp hr
  unfold ChunkStore.save
  split
  · exact ⟨Or.inl rfl, fun n hn => by cases hn⟩
  split
  · next hlow =>
    cases hf : st.find c with
    | none => exact ⟨Or.inl rfl, fun n hn => by cases hn⟩
    | some r =>
      simp only
      split
      · exact ⟨Or.inl rfl, fun n hn => by cases hn⟩
      next hsame =>
      refine ⟨Or.inl rfl, fun n hn => ?_⟩
      cases hn
      obtain ⟨hr, hpath⟩ := hfind r hf
      exact ⟨by omega, by omega, r, hr, hpath, by simpa using hsame⟩
  · next hhigh hlow =>
    have heq : c.sequence = next := by omega
    cases hins : st.insert c with
    | ok st' =>
      obtain ⟨hrows, hfresh⟩ := ChunkStore.insert_ok hins
      refine ⟨Or.inr ⟨heq, hrows, hfresh⟩, fun n hn => ?_⟩
      cases hn
      exact ⟨by omega, by omega, c, by simp [hrows], rfl, rfl⟩
    | error message =>
      cases hf : st.find c with
      | none => exact ⟨Or.inl rfl, fun n hn => by cases hn⟩
      | some r =>
        simp only
        split
        · next hsame =>
          refine ⟨Or.inl rfl, fun n hn => ?_⟩
          cases hn
          obtain ⟨hr, hpath⟩ := hfind r hf
          exact ⟨by omega, by omega, r, hr, hpath, hsame⟩
        · exact ⟨Or.inl rfl, fun n hn => by cases hn⟩

theorem prepare_ok {wide : Bytes → Bytes} {c c' : LogChunk} {now : Int}
    {r : Redaction} (h : prepare wide c now r = .ok c') :
    c'.path = c.path ∧ r.apply wide c.content = some c'.content := by
  unfold prepare at h
  split at h
  · cases h
  split at h
  · cases h
  · next content hcontent =>
    cases h
    exact ⟨rfl, hcontent⟩

end Yunling.Logstream
