/-
Whether the control plane accepts what is in the buffer.

A piece is at most as long as a chunk may be, and is repaired after it
was cut: every run of bytes that belong to no character becomes the
three bytes of U+FFFD. A piece with many short runs grows by this, up to
twice its length, past what `Accept` takes (`noisy_chunk_rejected`); and
a NUL is valid UTF-8 that the database refuses.
-/
import Yunling.Logstream.Proofs.Files
import Yunling.Logstream.Proofs.Pieces
import Yunling.Logstream.Service

namespace Yunling.Logstream

open Utf8

theorem length_toValidUTF8 (p : Bytes) :
    (toValidUTF8 p).length + badBytes 0 p = p.length + 3 * badRuns false 0 p := length_scrub _ _ _ _

theorem nul_mem_toValidUTF8 (p : Bytes) : 0 ∈ toValidUTF8 p ↔ 0 ∈ p :=
  mem_scrub_ascii _ (by decide) (by decide) _ _ _

theorem Spool.refusal_key {s : Spool} {key : Key} {result : List LogChunk}
    (h : s.refusal key result = none) : validSpoolKey key = true := by
  unfold Spool.refusal at h
  split at h
  · cases h
  · next hkey => simpa using hkey

/-- A numbered piece of an admitted stream is a valid chunk when it is
short enough. -/
theorem validChunk_number {key : Key} {now : Nat → Int} {next : Nat}
    {ps : List Bytes} {c : LogChunk} (hkey : validSpoolKey key = true)
    (hnext : 0 < next) (hc : c ∈ number key now next ps) :
    validChunk c = true ↔ c.content.length ≤ defaultChunkSize := by
  obtain ⟨hck, hlo, -⟩ := mem_number key now hc
  have hseq : c.sequence ≠ 0 := by omega
  obtain rfl := hck
  unfold validSpoolKey LogChunk.key at hkey
  simp only [Bool.and_eq_true, Bool.not_eq_true'] at hkey
  unfold validChunk
  simp [hkey.1.1, hkey.1.2, hkey.2, hseq]

/-- The chunks of a text are acceptable exactly when no piece grows past
the limit and the text has no NUL. -/
theorem chunks_acceptable_iff (s : Spool) (key : Key) (content : Bytes) (now : Nat → Int)
    (result : List LogChunk) (h : (s.append key content now none).2 = .ok result) :
    (∀ c ∈ result, validChunk c = true ∧ 0 ∉ c.content)
      ↔ 0 ∉ content ∧ ∀ p ∈ pieces s.chunkSize content.length content,
        p.length + 3 * badRuns false 0 p
          ≤ defaultChunkSize + badBytes 0 p := by
  obtain ⟨-, hrefusal, rfl⟩ := Spool.append_ok h
  have hkey := Spool.refusal_key hrefusal
  have hnext := (s.disk.nextSequence key).pos
  have hcontent := content_number key now (s.disk.nextSequence key)
    (pieces s.chunkSize content.length content)
  have hchunk : ∀ c ∈ s.newChunks key content now,
      (validChunk c = true ∧ 0 ∉ c.content)
        ↔ c.content.length ≤ defaultChunkSize ∧ 0 ∉ c.content :=
    fun c hc => and_congr_left fun _ => validChunk_number hkey hnext hc
  have hpiece : ∀ p, ((toValidUTF8 p).length ≤ defaultChunkSize
      ∧ 0 ∉ toValidUTF8 p) ↔ p.length + 3 * badRuns false 0 p
        ≤ defaultChunkSize + badBytes 0 p ∧ 0 ∉ p := by
    intro p
    have hlen := length_toValidUTF8 p
    rw [nul_mem_toValidUTF8]
    refine and_congr_left fun _ => ?_
    omega
  have hall : (∀ c ∈ s.newChunks key content now,
      validChunk c = true ∧ 0 ∉ c.content)
      ↔ ∀ p ∈ pieces s.chunkSize content.length content,
        p.length + 3 * badRuns false 0 p
          ≤ defaultChunkSize + badBytes 0 p ∧ 0 ∉ p := by
    calc (∀ c ∈ s.newChunks key content now,
          validChunk c = true ∧ 0 ∉ c.content)
        ↔ ∀ c ∈ s.newChunks key content now,
            c.content.length ≤ defaultChunkSize ∧ 0 ∉ c.content :=
          forall₂_congr hchunk
      _ ↔ ∀ t ∈ (s.newChunks key content now).map LogChunk.content,
            t.length ≤ defaultChunkSize ∧ 0 ∉ t := by
          rw [List.forall_mem_map]
      _ ↔ ∀ p ∈ pieces s.chunkSize content.length content,
            (toValidUTF8 p).length ≤ defaultChunkSize
              ∧ 0 ∉ toValidUTF8 p := by
          rw [show (s.newChunks key content now).map LogChunk.content
            = _ from hcontent, List.forall_mem_map]
      _ ↔ _ := forall₂_congr fun p _ => hpiece p
  have hnul : 0 ∈ content
      ↔ ∃ p ∈ pieces s.chunkSize content.length content, 0 ∈ p := by
    conv_lhs => rw [← pieces_flatten s.chunkSize_pos (le_refl content.length)]
    exact List.mem_flatten
  rw [hall, hnul]
  constructor
  · intro hp
    exact ⟨fun ⟨p, hmem, h0⟩ => (hp p hmem).2 h0, fun p hmem => (hp p hmem).1⟩
  · intro ⟨h0, hp⟩ p hmem
    exact ⟨hp p hmem, fun h => h0 ⟨p, hmem, h⟩⟩

theorem chunks_acceptable_hi : smallSpool.newChunks smallKey [0x68, 0x69] (fun _ => 0) ≠ []
      ∧ ∀ c ∈ smallSpool.newChunks smallKey [0x68, 0x69] (fun _ => 0),
        validChunk c = true ∧ 0 ∉ c.content :=
  ⟨by decide, (chunks_acceptable_iff smallSpool smallKey [0x68, 0x69]
    (fun _ => 0) _ rfl).mpr (by decide)⟩

-- ======== noisy output

/-- The buffer of an agent: chunks of 64 KiB, half a gigabyte in all. -/
def standardSpool : Spool :=
  { smallSpool with
    chunkSize := defaultChunkSize
    maxBytes := 512 * 1024 * 1024
    chunkSize_pos := by decide
    chunkSize_le := le_rfl
    maxBytes_pos := by decide }

/-- A letter and a byte that belongs to no character, `n` times. -/
def noise (n : Nat) : Bytes := (List.replicate n [0x61, 0xFF]).flatten

theorem length_noise (n : Nat) : (noise n).length = 2 * n := by
  simp [noise, Nat.mul_comm]

theorem length_scrub_noise (n : Nat) (bad : Bool) :
    (scrub [0xEF, 0xBF, 0xBD] bad 0 (noise n)).length = 4 * n := by
  induction n generalizing bad with
  | zero => rfl
  | succ n ih =>
    have hnoise : noise (n + 1) = [0x61] ++ 0xFF :: noise n := by
      simp [noise, List.replicate_succ]
    have hbad : runeWidth (0xFF :: noise n) = 0 := by
      simp [runeWidth, lead]
    rw [hnoise, scrub_rune _ (show IsRune [0x61] by decide), scrub_of_width_zero _ _ hbad]
    simp only [Bool.false_eq_true, if_false, List.length_append,
      List.length_cons, List.length_nil, ih]
    omega

/-- A text that fits into a chunk and into the buffer is one chunk. -/
theorem Spool.append_single (s : Spool) (key : Key) (content : Bytes)
    (now : Nat → Int) (hkey : validSpoolKey key = true)
    (hne : content ≠ []) (hle : content.length ≤ s.chunkSize)
    (hroom : ∀ c : LogChunk, c.content = toValidUTF8 content →
      s.encodedLen c ≤ s.maxBytes - s.usedBytes) (hused : s.usedBytes < s.maxBytes) :
    (s.append key content now none).2
      = .ok (number key now (s.disk.nextSequence key) [content]) := by
  have hchunks : s.newChunks key content now
      = number key now (s.disk.nextSequence key) [content] := by
    unfold Spool.newChunks
    rw [pieces_single hne hle]
  have hrefusal : s.refusal key (number key now (s.disk.nextSequence key) [content]) = none := by
    unfold Spool.refusal
    rw [if_neg (by simp [hkey]), if_neg]
    rintro ⟨-, hfull | hfull⟩
    · omega
    simp only [number, List.map_cons, List.map_nil, List.sum_cons,
      List.sum_nil, Nat.add_zero] at hfull
    have := hroom ⟨key.runID, key.executionToken,
      s.disk.nextSequence key, key.stream, toValidUTF8 content, now (s.disk.nextSequence key)⟩ rfl
    omega
  unfold Spool.append
  simp only [hchunks, hrefusal, if_true]

/-- 64 KiB of such output become one chunk of 128 KiB, which `Accept`
refuses; and so does the database a NUL. -/
theorem noisy_chunk_rejected : (∃ c, (standardSpool.append smallKey (noise 32768) (fun _ => 0)
        none).2 = .ok [c] ∧ c.content.length = 131072 ∧ validChunk c = false)
    ∧ ∃ c, (smallSpool.append smallKey [0] (fun _ => 0) none).2 = .ok [c] ∧ 0 ∈ c.content := by
  constructor
  · have hlen := length_scrub_noise 32768 false
    have hnoise := length_noise 32768
    generalize noise 32768 = text at hlen hnoise
    have hone := Spool.append_single standardSpool smallKey text (fun _ => 0) (by decide)
      (List.ne_nil_of_length_pos (by omega)) (by rw [hnoise]; decide) (by
        intro c hc
        show c.content.length ≤ 512 * 1024 * 1024
        rw [hc, toValidUTF8, hlen]
        decide)
      (by decide)
    refine ⟨_, hone, hlen, ?_⟩
    unfold validChunk
    simp only [toValidUTF8, hlen]
    decide
  · exact ⟨(smallSpool.newChunks smallKey [0] fun _ => 0).head (by decide), by decide, by decide⟩

end Yunling.Logstream
