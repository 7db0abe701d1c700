/-
The files of the log buffer under the operations of its calls.

`lt_nextSequence` says which numbers the next chunk stays above: those
below the cursor, and those of the chunks still pending. Everything
about numbering is read off it. `saveAll` says what the chunks of one
`Append` do to the files: their numbers are new, so they are added, and
nothing else happens.
-/
import Yunling.Logstream.Spool

namespace Yunling.Logstream

open Relational Utf8

variable {key : Key} {content : Bytes} {now : Nat → Int} {result : List LogChunk} {disk : Disk}
  {c : LogChunk} {s : Spool}

-- ======== the listing

theorem Disk.mem_pending : c ∈ disk.pending key ↔ c ∈ disk.chunks.rows ∧ c.key = key := by
  unfold Disk.pending
  rw [List.mem_insertionSort, List.mem_filter, decide_eq_true_eq]

/-- The numbers the next chunk stays above. -/
theorem Disk.lt_nextSequence {n : Nat} : n < disk.nextSequence key ↔ n = 0
      ∨ (∃ m, disk.cursors.get? key = some m ∧ n < m) ∨ ∃ c ∈ disk.pending key, n ≤ c.sequence := by
  have hlast : ∀ last, (disk.pending key).getLast? = some last → last ∈ disk.pending key
        ∧ ∀ c ∈ disk.pending key, c.sequence ≤ last.sequence := by
    intro last h
    have hmax := OrderBy.getLast?_insertionSort h
    refine ⟨List.mem_of_getLast? h, fun c hc => ?_⟩
    exact hmax.2 c ((List.mem_insertionSort _).mp hc)
  unfold Disk.nextSequence
  cases hcur : disk.cursors.get? key with
  | none =>
    cases hp : (disk.pending key).getLast? with
    | none =>
      rw [List.getLast?_eq_none_iff] at hp
      simp [hp]
    | some last =>
      obtain ⟨hmem, hmax⟩ := hlast last hp
      simp only [Nat.succPNat_coe, reduceCtorEq, false_and, exists_false, false_or]
      constructor
      · intro h
        exact Or.inr ⟨last, hmem, by omega⟩
      · rintro (h | ⟨c, hc, h⟩)
        · omega
        · have := hmax c hc
          omega
  | some next =>
    have hpos := next.pos
    cases hp : (disk.pending key).getLast? with
    | none =>
      rw [List.getLast?_eq_none_iff] at hp
      simp only [hp, Option.some.injEq, exists_eq_left',
        List.not_mem_nil, false_and, exists_false, or_false]
      omega
    | some last =>
      obtain ⟨hmem, hmax⟩ := hlast last hp
      simp only [Option.some.injEq, exists_eq_left']
      constructor
      · intro h
        split at h
        · exact Or.inr (Or.inr ⟨last, hmem, Nat.lt_succ_iff.mp (by simpa using h)⟩)
        · exact Or.inr (Or.inl h)
      · intro h
        have hle : n < next ∨ n ≤ last.sequence := by
          rcases h with h | h | ⟨c, hc, h⟩
          · exact Or.inl (by omega)
          · exact Or.inl h
          · exact Or.inr (h.trans (hmax c hc))
        split
        · rw [Nat.succPNat_coe]
          omega
        · omega

/-- A pending chunk has a smaller number than the next one. -/
theorem Disk.sequence_lt
    (h : c ∈ disk.chunks.rows) : c.sequence < disk.nextSequence c.key := Disk.lt_nextSequence.mpr
    (Or.inr (Or.inr ⟨c, Disk.mem_pending.mpr ⟨h, rfl⟩, le_rfl⟩))

-- ======== the chunks

section Number

variable (key : Key) (now : Nat → Int)

theorem mem_number {next : Nat} {ps : List Bytes} {c : LogChunk} (h : c ∈ number key now next ps) :
    c.key = key ∧ next ≤ c.sequence ∧ c.sequence < next + ps.length
      ∧ ∃ p ∈ ps, c.content = toValidUTF8 p := by
  induction ps generalizing next with
  | nil => cases h
  | cons p ps ih =>
    rw [number, List.mem_cons] at h
    rcases h with rfl | h
    · exact ⟨rfl, le_rfl, by simp, p, List.mem_cons_self, rfl⟩
    · obtain ⟨hkey, hlo, hhi, q, hq, hc⟩ := ih h
      rw [List.length_cons]
      exact ⟨hkey, by omega, by omega, q, List.mem_cons_of_mem p hq, hc⟩

@[simp] theorem length_number (next : Nat) (ps : List Bytes) :
    (number key now next ps).length = ps.length := by
  induction ps generalizing next with
  | nil => rfl
  | cons p ps ih => rw [number, List.length_cons, ih, List.length_cons]

/-- Chunks are numbered one after the other. -/
theorem sequence_number (next : Nat) (ps : List Bytes) :
    (number key now next ps).map LogChunk.sequence = List.range' next ps.length := by
  induction ps generalizing next with
  | nil => rfl
  | cons p ps ih =>
    rw [number, List.map_cons, ih, List.length_cons, List.range'_succ]

theorem content_number (next : Nat) (ps : List Bytes) :
    (number key now next ps).map LogChunk.content = ps.map toValidUTF8 := by
  induction ps generalizing next with
  | nil => rfl
  | cons p ps ih => rw [number, List.map_cons, ih, List.map_cons]

theorem path_number_nodup (next : Nat) (ps : List Bytes) :
    ((number key now next ps).map LogChunk.path).Nodup := by
  have hseq : ((number key now next ps).map LogChunk.sequence).Nodup := by
    rw [sequence_number]
    exact List.nodup_range'
  have hsnd : (number key now next ps).map LogChunk.sequence
      = ((number key now next ps).map LogChunk.path).map Prod.snd := by
    rw [List.map_map]
    rfl
  rw [hsnd] at hseq
  exact hseq.of_map _

end Number

/-- The new chunks have numbers no file has. -/
theorem Spool.newChunks_fresh (hc : c ∈ s.newChunks key content now) :
    ∀ r ∈ s.disk.chunks.rows, r.path ≠ c.path := by
  intro r hr heq
  obtain ⟨hkey, hlo, -⟩ := mem_number key now hc
  have hlt := Disk.sequence_lt hr
  have hkeys : r.key = c.key := congrArg Prod.fst heq
  have hseq : r.sequence = c.sequence := congrArg Prod.snd heq
  rw [hkeys, hkey] at hlt
  omega

-- ======== operations

/-- The files after operations. -/
def Disk.applyAll (disk : Disk) (ops : List FileOp) : Disk :=
  ops.foldl Disk.apply disk

theorem Disk.applyAll_append (disk : Disk) (ops ops' : List FileOp) :
    disk.applyAll (ops ++ ops') = (disk.applyAll ops).applyAll ops' := List.foldl_append

/-- The operations of an agent, as far as the disk is concerned. -/
theorem Spool.performAll_disk (s : Spool) (ops : List FileOp) :
    (s.performAll ops).disk = s.disk.applyAll ops := by
  induction ops generalizing s with
  | nil => rfl
  | cons op ops ih => exact ih (s.perform op)

/-- The size of chunks is settled when a buffer is opened. -/
theorem Spool.performAll_chunkSize (s : Spool) (ops : List FileOp) :
    (s.performAll ops).chunkSize = s.chunkSize := by
  induction ops generalizing s with
  | nil => rfl
  | cons op ops ih => exact ih (s.perform op)

/-- Chunks under new names are added to the files. -/
theorem Disk.saveAll (disk : Disk) {cs : List LogChunk}
    (hnew : ∀ c ∈ cs, ∀ r ∈ disk.chunks.rows, r.path ≠ c.path)
    (hnodup : (cs.map LogChunk.path).Nodup) : (disk.applyAll (cs.map .saveChunk)).chunks.rows
        = disk.chunks.rows ++ cs ∧ (disk.applyAll (cs.map .saveChunk)).cursors = disk.cursors := by
  induction cs generalizing disk with
  | nil => exact ⟨(List.append_nil _).symm, rfl⟩
  | cons c cs ih =>
    rw [List.map_cons, List.nodup_cons] at hnodup
    have hrows : (disk.apply (.saveChunk c)).chunks.rows = disk.chunks.rows ++ [c] :=
      Table.upsert_rows_of_fresh (hnew c List.mem_cons_self)
    have hrest := ih (disk.apply (.saveChunk c)) ?_ hnodup.2
    · rw [hrows, List.append_assoc, List.singleton_append] at hrest
      exact hrest
    intro d hd r hr
    rw [hrows, List.mem_append, List.mem_singleton] at hr
    rcases hr with hr | rfl
    · exact hnew d (List.mem_cons_of_mem c hd) r hr
    · intro heq
      exact hnodup.1 (List.mem_map.mpr ⟨d, hd, heq.symm⟩)

/-- Removing chunk files leaves the others, and the cursors. -/
theorem Disk.removeAll (disk : Disk) (cs : List LogChunk) :
    (∀ r, r ∈ (disk.applyAll (cs.map .removeChunk)).chunks.rows
        ↔ r ∈ disk.chunks.rows ∧ ∀ c ∈ cs, r.path ≠ c.path)
      ∧ (disk.applyAll (cs.map .removeChunk)).cursors = disk.cursors := by
  induction cs generalizing disk with
  | nil => exact ⟨fun r => by simp [Disk.applyAll], rfl⟩
  | cons c cs ih =>
    obtain ⟨hrows, hcur⟩ := ih (disk.apply (.removeChunk c))
    refine ⟨fun r => ?_, hcur⟩
    show r ∈ ((disk.apply (.removeChunk c)).applyAll _).chunks.rows ↔ _
    rw [hrows r, show (disk.apply (.removeChunk c)).chunks
      = disk.chunks.delete (·.path = c.path) from rfl, Table.mem_delete]
    simp [and_assoc]

-- ======== whole appends

theorem Spool.append_ok {cut : Option Nat} (h : (s.append key content now cut).2 = .ok result) :
    cut = none ∧ s.refusal key result = none ∧ result = s.newChunks key content now := by
  unfold Spool.append at h
  simp only at h
  split at h
  · cases h
  next hrefusal =>
  split at h
  · next hcut =>
    cases h
    exact ⟨hcut, hrefusal, rfl⟩
  · cases h

/-- The files after an `Append` that succeeds: the chunks are added, and
the cursor of their stream is moved past them. -/
theorem Spool.append_disk (h : (s.append key content now none).2 = .ok result) :
    (s.append key content now none).1.disk.chunks.rows = s.disk.chunks.rows ++ result
      ∧ ∀ other, (s.append key content now none).1.disk.cursors.get? other
        = if other = key ∧ result ≠ [] then
            some (advance (s.disk.nextSequence key) result.length)
          else s.disk.cursors.get? other := by
  obtain ⟨-, hrefusal, rfl⟩ := Spool.append_ok h
  have hdisk : (s.append key content now none).1.disk
      = s.disk.applyAll (appendOps key (s.disk.nextSequence key)
        (s.newChunks key content now)) := by
    unfold Spool.append Spool.appended
    rw [Spool.performAll_disk]
    simp only [hrefusal]
    rfl
  rw [hdisk]
  unfold appendOps
  by_cases hnil : s.newChunks key content now = []
  · simp [hnil, Disk.applyAll]
  obtain ⟨hrows, hcur⟩ := s.disk.saveAll (fun _ => Spool.newChunks_fresh) (path_number_nodup key now
      (s.disk.nextSequence key) (pieces s.chunkSize content.length content))
  rw [if_neg hnil, Disk.applyAll_append]
  refine ⟨hrows, fun other => ?_⟩
  show (((s.disk.applyAll _).cursors.del key).set key _).get? other = _
  rw [show (s.disk.applyAll ((s.newChunks key content now).map
    .saveChunk)).cursors = s.disk.cursors from hcur, Hash.get?_set, Hash.get?_del]
  by_cases hother : other = key <;> simp [hother, hnil]

/-- A successful `Append` puts its chunks behind those of its stream. -/
theorem Spool.append_pending (h : (s.append key content now none).2 = .ok result) :
    (s.append key content now none).1.disk.pending key = s.disk.pending key ++ result := by
  have hrows := (Spool.append_disk h).1
  obtain ⟨-, -, rfl⟩ := Spool.append_ok h
  have hmem : ∀ c ∈ s.newChunks key content now, c.key = key
      ∧ s.disk.nextSequence key ≤ c.sequence := by
    intro c hc
    obtain ⟨hkey, hlo, -⟩ := mem_number key now hc
    exact ⟨hkey, hlo⟩
  unfold Disk.pending
  rw [hrows, List.filter_append, List.filter_eq_self.mpr fun c hc => decide_eq_true (hmem c hc).1]
  refine OrderBy.insertionSort_append ?_ ?_
  · intro r hr c hc
    obtain ⟨hr, hrkey⟩ := List.mem_filter.mp hr
    have hlt := Disk.sequence_lt hr
    rw [of_decide_eq_true hrkey] at hlt
    exact Nat.le_of_lt (Nat.lt_of_lt_of_le hlt (hmem c hc).2)
  · have hsorted : ((s.newChunks key content now).map LogChunk.sequence).Pairwise (· ≤ ·) := by
      rw [Spool.newChunks, sequence_number]
      exact List.pairwise_le_range'
    have hseq := List.pairwise_map.mp hsorted
    exact hseq

-- ======== acknowledgements

/-- What an `Acknowledge` removes: chunks of its stream, with smaller
numbers. -/
theorem Spool.acknowledged_spec (s : Spool) (key : Key) (nextSequence : Nat) (cut : Option Nat) :
    ∃ gone : List LogChunk, s.acknowledged key nextSequence cut = gone.map .removeChunk
      ∧ (∀ c ∈ gone, c ∈ s.disk.pending key ∧ c.sequence < nextSequence) ∧ gone.Nodup := by
  unfold Spool.acknowledged
  split
  · exact ⟨[], rfl, by simp, List.nodup_nil⟩
  have hnodup : ((s.disk.pending key).filter (·.sequence < nextSequence)).Nodup :=
    ((List.perm_insertionSort _ _).nodup_iff.mpr (s.disk.chunks.nodup.of_map.filter _)).filter _
  have hmem : ∀ c ∈ (s.disk.pending key).filter
      (·.sequence < nextSequence), c ∈ s.disk.pending key ∧ c.sequence < nextSequence := by
    intro c hc
    simpa using List.mem_filter.mp hc
  cases cut with
  | none => exact ⟨_, rfl, hmem, hnodup⟩
  | some k =>
    exact ⟨_, (List.map_take ..).symm, fun c hc => hmem c (List.mem_of_mem_take hc),
      hnodup.sublist (List.take_sublist _ _)⟩

-- ======== a small buffer

/-- A buffer for chunks of four bytes. -/
def smallSpool : Spool where
  chunkSize := 4
  maxBytes := 1024
  usedBytes := 0
  disk := .empty
  encodedLen := fun c => c.content.length
  chunkSize_pos := by decide
  chunkSize_le := by decide
  maxBytes_pos := by decide

/-- The output of one run. -/
def smallKey : Key := ⟨"run", "token", .stdout⟩

end Yunling.Logstream
