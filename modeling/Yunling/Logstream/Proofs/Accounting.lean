/-
The bytes of a log buffer.

`usedBytes` is counted when a buffer is opened and from then on kept by
hand, file by file, through calls that may fail at any file. It is what
the files come to at all times (`Spool.Exact`): an `Append` adds the
chunks it saved, whose numbers are new, and an `Acknowledge` takes off the
files it removed, which were there.
-/
import Yunling.Logstream.Proofs.Sequence

namespace Yunling.Logstream

open Relational Utf8

/-- The counter is what the chunk files come to. -/
def Spool.Exact (s : Spool) : Prop := s.usedBytes = bufferedBytes s.encodedLen s.disk

/-- What happens to a buffer, under any of its sizes. -/
inductive SpoolCall where
  | newSpool (root : String) (chunkSize maxBytes : Int)
  | append (key : Key) (content : Bytes) (now : Nat → Int) (cut : Option Nat)
  | acknowledge (key : Key) (nextSequence : Nat) (cut : Option Nat)

/-- The buffer after a call; a `NewSpool` that is refused leaves the one
that was open. -/
def Spool.call (s : Spool) : SpoolCall → Spool
  | .newSpool root chunkSize maxBytes =>
    match Logstream.newSpool s.encodedLen root s.disk chunkSize maxBytes with
    | .ok s' => s'
    | .error _ => s
  | .append key content now cut => (s.append key content now cut).1
  | .acknowledge key nextSequence cut => (s.acknowledge key nextSequence cut).1

variable {s s' : Spool} {key : Key} {content : Bytes} {now : Nat → Int} {cut : Option Nat}

theorem newSpool_exact {encodedLen : LogChunk → Nat} {root : String} {disk : Disk}
    {chunkSize maxBytes : Int}
    (h : newSpool encodedLen root disk chunkSize maxBytes = .ok s) : s.Exact := by
  unfold newSpool at h
  split at h
  · cases h
  split at h
  · cases h
  · cases h
    rfl

-- ======== appends

/-- Saving adds what is saved. -/
theorem Spool.performAll_usedBytes (s : Spool) {ops : List FileOp}
    (h : ∀ c, .removeChunk c ∉ ops) :
    (s.performAll ops).usedBytes = s.usedBytes + ((saved ops).map s.encodedLen).sum
      ∧ (s.performAll ops).encodedLen = s.encodedLen := by
  induction ops generalizing s with
  | nil => exact ⟨rfl, rfl⟩
  | cons op ops ih =>
    obtain ⟨hused, hlen⟩ := ih (s.perform op) fun c hc => h c (List.mem_cons_of_mem op hc)
    refine ⟨hused.trans ?_, hlen⟩
    cases op with
    | removeChunk c => exact absurd List.mem_cons_self (h c)
    | saveChunk c => simp [saved, FileOp.saved?, perform, charge, Nat.add_assoc]
    | removeCursor | saveCursor => rfl

theorem Spool.appended_saves (s : Spool) (key : Key) (content : Bytes) (now : Nat → Int)
    (cut : Option Nat) (c : LogChunk) : .removeChunk c ∉ s.appended key content now cut := by
  have hops : ∀ next result, .removeChunk c ∉ appendOps key next result := by
    intro next result
    unfold appendOps writeSequenceCursor
    split <;> simp
  unfold Spool.appended upTo
  dsimp only
  split
  · exact List.not_mem_nil
  · cases cut with
    | none => exact hops _ _
    | some k => exact fun h => hops _ _ (List.mem_of_mem_take h)

theorem Spool.Exact.append (h : s.Exact) : (s.append key content now cut).1.Exact := by
  obtain ⟨hused, hlen⟩ := s.performAll_usedBytes (s.appended_saves key content now cut)
  have hrows := (s.appended_spec key content now cut).rows
  unfold Exact bufferedBytes at *
  show (s.performAll _).usedBytes
    = ((s.performAll _).disk.chunks.rows.map (s.performAll _).encodedLen).sum
  rw [hused, hlen, performAll_disk, hrows, List.map_append, List.sum_append, h]

/-- An `Append` that adds anything has the room for it. -/
theorem Spool.append_within (h : s.usedBytes < (s.append key content now cut).1.usedBytes) :
    (s.append key content now cut).1.usedBytes ≤ s.maxBytes := by
  have hused : (s.append key content now cut).1.usedBytes = _ :=
    (s.performAll_usedBytes (s.appended_saves key content now cut)).1
  have hsum := ((s.appended_spec key content now cut).made.sublist.map
    s.encodedLen).sum_le_sum fun _ _ => Nat.zero_le _
  rw [hused] at h ⊢
  cases hrefusal : s.refusal key (s.newChunks key content now) with
  | some e =>
    have hnone : s.appended key content now cut = [] := by simp [appended, hrefusal]
    simp [hnone, saved] at h
  | none =>
    unfold refusal at hrefusal
    split at hrefusal
    · cases hrefusal
    split at hrefusal
    · cases hrefusal
    next hroom =>
    by_cases hnone : s.newChunks key content now = []
    · simp only [hnone, List.map_nil, List.sum_nil] at hsum
      omega
    · have := not_and.mp hroom hnone
      omega

-- ======== acknowledgements

theorem Spool.Exact.remove (h : s.Exact) {c : LogChunk} (hc : c ∈ s.disk.chunks.rows) :
    (s.perform (.removeChunk c)).Exact := by
  have hperm := ((s.disk.chunks.perm_cons_delete hc).map s.encodedLen).sum_eq
  unfold Exact bufferedBytes at *
  show s.usedBytes - s.encodedLen c = ((s.disk.chunks.delete _).rows.map s.encodedLen).sum
  rw [h, hperm, List.map_cons, List.sum_cons, Nat.add_sub_cancel_left]

theorem Spool.Exact.removeAll (h : s.Exact) {gone : List LogChunk}
    (hgone : ∀ c ∈ gone, c ∈ s.disk.chunks.rows) (hnodup : gone.Nodup) :
    (s.performAll (gone.map .removeChunk)).Exact := by
  induction gone generalizing s with
  | nil => exact h
  | cons c gone ih =>
    obtain ⟨hnew, hnodup⟩ := List.nodup_cons.mp hnodup
    refine ih (h.remove (hgone c List.mem_cons_self)) (fun c' hc' => ?_) hnodup
    -- another chunk has another path
    have hmem := hgone c' (List.mem_cons_of_mem c hc')
    have hne : c'.path ≠ c.path := fun heq =>
      hnew (s.disk.chunks.eq_of_key_eq hmem (hgone c List.mem_cons_self) heq ▸ hc')
    exact Table.mem_delete.mpr ⟨hmem, by simpa using hne⟩

theorem Spool.Exact.acknowledge (h : s.Exact) {nextSequence : Nat} :
    (s.acknowledge key nextSequence cut).1.Exact := by
  obtain ⟨gone, hops, hgone, hnodup⟩ := s.acknowledged_spec key nextSequence cut
  unfold Spool.acknowledge
  rw [hops]
  exact h.removeAll (fun c hc => (Disk.mem_pending.mp (hgone c hc).1).1) hnodup

-- ======== histories

theorem Spool.Exact.call (h : s.Exact) (c : SpoolCall) : (s.call c).Exact := by
  cases c with
  | newSpool root chunkSize maxBytes =>
    simp only [Spool.call]
    split
    · next hopened => exact newSpool_exact hopened
    · exact h
  | append => exact h.append
  | acknowledge => exact h.acknowledge

/-- After any calls the counter is what the files come to, an `Append`
brings it to the limit at most, and one that is refused for the limit
changes no file. -/
theorem spool_accounting_exact (encodedLen : LogChunk → Nat) (root : String) (disk : Disk)
    (chunkSize maxBytes : Int) (s₀ : Spool)
    (h : newSpool encodedLen root disk chunkSize maxBytes = .ok s₀) (calls : List SpoolCall) :
    let s := Transition.run Spool.call s₀ calls
    s.usedBytes = bufferedBytes s.encodedLen s.disk ∧ ∀ key content now cut,
      (s.usedBytes < (s.append key content now cut).1.usedBytes →
        (s.append key content now cut).1.usedBytes ≤ s.maxBytes)
      ∧ ((s.append key content now cut).2 = .error .spoolLimitExceeded →
        (s.append key content now cut).1.disk = s.disk) := by
  intro s
  have hexact : s.Exact := Transition.run_invariant (fun _ c h => h.call c) (newSpool_exact h) calls
  refine ⟨hexact, fun key content now cut => ⟨s.append_within, fun hrefused => ?_⟩⟩
  unfold Spool.append Spool.appended at *
  dsimp only at *
  cases hrefusal : s.refusal key (s.newChunks key content now) with
  | some e => rfl
  | none =>
    simp only [hrefusal] at hrefused
    split at hrefused <;> cases hrefused

/-- A text of two chunks, of which one is acknowledged before the agent
starts again. -/
def sampleCalls : List SpoolCall :=
  [.append ⟨"run", "token", .stdout⟩ [0x61, 0x62, 0x63] (fun _ => 0) none,
    .acknowledge ⟨"run", "token", .stdout⟩ 2 none,
    .newSpool "log" 2 64]

theorem spool_accounting_exact_restarted :
    ∃ s₀, newSpool (·.content.length) "log" .empty 2 64 = .ok s₀
      ∧ (Transition.run Spool.call s₀ sampleCalls).usedBytes = 1
      ∧ bufferedBytes (Transition.run Spool.call s₀ sampleCalls).encodedLen
        (Transition.run Spool.call s₀ sampleCalls).disk = 1 := by
  obtain ⟨s₀, hopened, hused⟩ : ∃ s₀, newSpool (·.content.length) "log" .empty 2 64 = .ok s₀
      ∧ (Transition.run Spool.call s₀ sampleCalls).usedBytes = 1 := ⟨_, rfl, by decide +kernel⟩
  refine ⟨s₀, hopened, hused, ?_⟩
  rw [← (spool_accounting_exact _ "log" .empty 2 64 s₀ hopened sampleCalls).1, hused]

end Yunling.Logstream
