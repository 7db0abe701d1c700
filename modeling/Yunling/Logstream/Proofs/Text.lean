/-
Whether the buffered chunks add up to what a script printed.

A script's output arrives in slices of whatever length its pipe was read
in. Each slice is cut and repaired by itself, so a character that lies
across two slices becomes a replacement in both. Counting the bytes that
start a character shows that nothing ever makes up for it: the chunks of
a slice have at least as many as the slice has whole characters, and one
more when there is a piece of a character at either end
(`starts_repaired`). Over all slices this is more than the text has, as
soon as one slice is not valid by itself (`starts_lt`).
-/
import Yunling.Agent.LogClient
import Yunling.Logstream.Proofs.Files
import Yunling.Logstream.Proofs.Pieces

namespace Yunling.Logstream

open Utf8

variable {chunkSize : Nat} {rs : List Bytes} {w t h : Bytes} {ws : List Bytes} {now : Nat → Int}
  {key : Key}

/-- The contents of the chunks of one slice. -/
def repaired (chunkSize : Nat) (w : Bytes) : Bytes :=
  ((pieces chunkSize w.length w).map toValidUTF8).flatten

-- ======== valid slices

/-- A valid text is cut between characters. -/
theorem pieces_valid (hsize : 4 ≤ chunkSize)
    (hw : Valid w) : ∀ p ∈ pieces chunkSize w.length w, Valid p := by
  refine pieces_induction (by omega) (P := fun content ps => Valid content → ∀ p ∈ ps, Valid p)
    (fun _ p hp => absurd hp List.not_mem_nil) ?_ le_rfl hw
  intro content rest hne ih ⟨rs, hrs, hflat⟩ p hp
  have hshape : [] ++ (rs.flatten ++ []) = content := by simp [hflat]
  rw [← hshape] at hne
  have hlen := (Part.of_runes hrs).pieceLength hne hsize
  rw [hshape] at hlen
  rcases hlen with hall | ⟨rs₁, rs₂, rfl, hcut⟩
  · rw [hall, List.drop_length] at ih
    rw [hall, List.take_length] at hp
    rcases List.mem_cons.mp hp with rfl | hp
    · exact ⟨rs, hrs, hflat⟩
    · exact ih ⟨[], by simp, rfl⟩ p hp
  · rw [List.nil_append] at hcut
    rw [List.flatten_append] at hflat
    have htake : content.take (pieceLength chunkSize content) = rs₁.flatten := by
      rw [hcut, ← hflat, List.take_left]
    have hdrop : content.drop (pieceLength chunkSize content) = rs₂.flatten := by
      rw [hcut, ← hflat, List.drop_left]
    rw [hdrop] at ih
    rw [htake] at hp
    rcases List.mem_cons.mp hp with rfl | hp
    · exact ⟨rs₁, fun r hr => hrs r (List.mem_append_left rs₂ hr), rfl⟩
    · exact ih ⟨rs₂, fun r hr => hrs r (List.mem_append_right rs₁ hr), rfl⟩ p hp

/-- A slice that is valid by itself is buffered as it is. -/
theorem repaired_valid (hsize : 4 ≤ chunkSize) (hw : Valid w) : repaired chunkSize w = w := by
  have hid : (pieces chunkSize w.length w).map toValidUTF8 = pieces chunkSize w.length w := by
    conv_rhs => rw [← List.map_id (pieces chunkSize w.length w)]
    refine List.map_congr_left fun p hp => ?_
    exact scrub_valid _ (pieces_valid hsize hw p hp)
  rw [repaired, hid, pieces_flatten (by omega) le_rfl]

-- ======== other slices

/-- There is a piece of a character at either end. -/
def torn (t h : Bytes) : Nat := if t = [] ∧ h = [] then 0 else 1

/-- One piece: its characters, and a replacement where there is a piece
of one. -/
theorem Part.starts_toValidUTF8 (hp : Part t rs h) :
    rs.length + torn t h ≤ starts (toValidUTF8 (t ++ (rs.flatten ++ h))) := by
  have hfill : starts [0xEF, 0xBF, 0xBD] = 1 := by decide
  unfold toValidUTF8
  rw [scrub_continuation _ hp.tail, scrub_runes _ hp.runes, starts_append,
    starts_append, starts_flatten hp.runes]
  unfold torn
  cases t with
  | cons x t =>
    simp only [List.isEmpty_cons, Bool.or_false, Bool.false_eq_true,
      if_false, hfill, reduceCtorEq, false_and]
    omega
  | nil =>
    rcases hp.head with rfl | ⟨u, hu, hrune⟩
    · simp
    · by_cases hh : h = []
      · simp [hh]
      · rw [scrub_cut _ hrune hh hu]
        simp [hh, hfill]

/-- A slice: its characters, and one more where there is a piece of
one. -/
theorem Part.starts_repaired (hsize : 4 ≤ chunkSize) (hp : Part t rs h) :
    rs.length + torn t h ≤ starts (repaired chunkSize (t ++ (rs.flatten ++ h))) := by
  refine pieces_induction (by omega) (P := fun content ps => ∀ t rs h, Part t rs h →
      content = t ++ (rs.flatten ++ h) →
      rs.length + torn t h ≤ starts ((ps.map toValidUTF8).flatten)) ?_ ?_ le_rfl t rs h hp rfl
  · intro t rs h hp heq
    have hnil := List.append_eq_nil_iff.mp heq.symm
    have hnil' := List.append_eq_nil_iff.mp hnil.2
    have hrs : rs = [] := by
      cases rs with
      | nil => rfl
      | cons r rs =>
        have hr := hp.runes r List.mem_cons_self
        exact absurd (List.append_eq_nil_iff.mp hnil'.1).1 hr.1
    simp [hrs, hnil.1, hnil'.2, torn]
  · intro content rest hne ih t rs h hp heq
    subst heq
    rw [List.map_cons, List.flatten_cons, starts_append]
    rcases hp.pieceLength hne hsize with hall | ⟨rs₁, rs₂, rfl, hcut⟩
    · rw [hall, List.take_length]
      exact Nat.le_trans hp.starts_toValidUTF8 (Nat.le_add_right _ _)
    have hsplit : t ++ ((rs₁ ++ rs₂).flatten ++ h)
        = (t ++ rs₁.flatten) ++ ([] ++ (rs₂.flatten ++ h)) := by simp
    rw [hsplit] at hcut ih ⊢
    rw [hcut, List.drop_left] at ih
    rw [hcut, List.take_left]
    have hfirst : Part t rs₁ [] := ⟨hp.tail, hp.tail_short,
        fun r hr => hp.runes r (List.mem_append_left rs₂ hr), Or.inl rfl⟩
    have h₁ := hfirst.starts_toValidUTF8
    have h₂ := ih [] rs₂ h (hp.rest _) rfl
    rw [List.append_nil] at h₁
    rw [List.length_append]
    unfold torn at *
    by_cases ht : t = [] <;> by_cases hh : h = [] <;>
      simp only [ht, hh, and_self, and_true, and_false, if_true, if_false] at * <;> omega

-- ======== all slices

/-- Where the first slice of a text ends: in the rest of a character,
between two, or inside one. -/
theorem first_slice {w rest : Bytes} (h : w ++ rest = t ++ rs.flatten) :
    (∃ t', t = w ++ t' ∧ rest = t' ++ rs.flatten)
      ∨ (∃ rs₁ rs₂, rs = rs₁ ++ rs₂ ∧ w = t ++ rs₁.flatten ∧ rest = rs₂.flatten)
      ∨ ∃ rs₁ u v rs₂, rs = rs₁ ++ (u ++ v) :: rs₂ ∧ u ≠ [] ∧ v ≠ []
        ∧ w = t ++ (rs₁.flatten ++ u) ∧ rest = v ++ rs₂.flatten := by
  rcases List.append_eq_append_iff.mp h with ⟨t', ht, hrest⟩ | ⟨w', hw, hflat⟩
  · exact Or.inl ⟨t', ht, hrest⟩
  right
  subst hw
  clear h
  induction rs generalizing w' with
  | nil =>
    obtain ⟨rfl, rfl⟩ := List.append_eq_nil_iff.mp hflat.symm
    exact Or.inl ⟨[], [], rfl, by simp, rfl⟩
  | cons r rs ih =>
    rcases List.append_eq_append_iff.mp hflat with ⟨w'', hw', hrs⟩ | ⟨v, hr, hrest⟩
    · -- the first character is in the slice
      subst hw'
      rcases ih w'' hrs with ⟨rs₁, rs₂, rfl, hw, hrest⟩
        | ⟨rs₁, u, v, rs₂, rfl, hu, hv, hw, hrest⟩
      · refine Or.inl ⟨r :: rs₁, rs₂, rfl, ?_, hrest⟩
        rw [List.append_cancel_left hw, List.flatten_cons]
      · refine Or.inr ⟨r :: rs₁, u, v, rs₂, rfl, hu, hv, ?_, hrest⟩
        rw [List.append_cancel_left hw, List.flatten_cons, List.append_assoc]
    · by_cases hu : w' = []
      · subst hu
        exact Or.inl ⟨[], r :: rs, rfl, by simp,
          by rw [hrest, List.flatten_cons, hr, List.nil_append]⟩
      by_cases hv : v = []
      · subst hv
        exact Or.inl ⟨[r], rs, rfl, by simp [hr], by simpa using hrest⟩
      · exact Or.inr ⟨[], w', v, rs, by rw [hr, List.nil_append], hu, hv, by simp, hrest⟩

/-- Over all slices: the characters of the text, and more if it starts
inside a character or some slice is not valid by itself. -/
theorem Part.starts_slices (hsize : 4 ≤ chunkSize) (hp : Part t rs [])
    (hflat : ws.flatten = t ++ rs.flatten) :
    rs.length ≤ starts ((ws.map (repaired chunkSize)).flatten) ∧ ((t ≠ [] ∨ ∃ w ∈ ws, ¬ Valid w) →
        rs.length < starts ((ws.map (repaired chunkSize)).flatten)) := by
  induction ws generalizing t rs with
  | nil =>
    obtain ⟨rfl, hrs⟩ := List.append_eq_nil_iff.mp hflat.symm
    obtain rfl : rs = [] := by
      cases rs with
      | nil => rfl
      | cons r rs =>
        have hr := hp.runes r List.mem_cons_self
        exact absurd (List.append_eq_nil_iff.mp hrs).1 hr.1
    simp
  | cons w ws ih =>
    rw [List.map_cons, List.flatten_cons, starts_append]
    rcases first_slice hflat with ⟨t', rfl, hrest⟩
      | ⟨rs₁, rs₂, rfl, rfl, hrest⟩
      | ⟨rs₁, u, v, rs₂, rfl, hu, hv, rfl, hrest⟩
    · -- the slice lies within the rest of a character
      have ht := List.all_append.symm.trans hp.tail
      rw [Bool.and_eq_true] at ht
      have hshort := hp.tail_short
      rw [List.length_append] at hshort
      have hw : Part w [] [] := ⟨ht.1, by omega, by simp, Or.inl rfl⟩
      have hself := hw.starts_repaired hsize
      obtain ⟨hle, hlt⟩ := ih ⟨ht.2, by omega, hp.runes, Or.inl rfl⟩ hrest
      simp only [List.flatten_nil, List.append_nil, List.length_nil, torn, and_true] at hself
      refine ⟨by omega, fun hbad => ?_⟩
      by_cases hnil : w = []
      · have hbad' : t' ≠ [] ∨ ∃ x ∈ ws, ¬ Valid x := by
          subst hnil
          rcases hbad with hbad | ⟨x, hx, hxbad⟩
          · exact Or.inl hbad
          · rcases List.mem_cons.mp hx with rfl | hx
            · exact absurd ⟨[], by simp, rfl⟩ hxbad
            · exact Or.inr ⟨x, hx, hxbad⟩
        have := hlt hbad'
        omega
      · rw [if_neg hnil] at hself
        omega
    · -- it ends between two characters
      have hfirst : Part t rs₁ [] := ⟨hp.tail, hp.tail_short,
          fun r hr => hp.runes r (List.mem_append_left rs₂ hr), Or.inl rfl⟩
      have hself := hfirst.starts_repaired hsize
      obtain ⟨hle, hlt⟩ := ih (hp.rest _) hrest
      rw [List.append_nil] at hself
      rw [List.length_append]
      refine ⟨by omega, fun hbad => ?_⟩
      by_cases ht : t = []
      · rcases hbad with hbad | ⟨x, hx, hxbad⟩
        · exact absurd ht hbad
        rcases List.mem_cons.mp hx with rfl | hx
        · refine absurd ⟨rs₁, hfirst.runes, ?_⟩ hxbad
          rw [ht, List.nil_append]
        · have := hlt (Or.inr ⟨x, hx, hxbad⟩)
          omega
      · simp only [torn, ht, false_and, if_false] at hself
        omega
    · -- it ends inside a character, whose rest makes the next one bad
      have hrune := hp.runes (u ++ v) (by simp)
      have hfirst : Part t rs₁ u := ⟨hp.tail, hp.tail_short,
          fun r hr => hp.runes r (List.mem_append_left _ hr), Or.inr ⟨v, hv, hrune⟩⟩
      have hself := hfirst.starts_repaired hsize
      have hvtail : v.all continuation = true ∧ v.length ≤ 3 := by
        obtain ⟨a, cs, heq, -, hcs, hshort⟩ := hrune.shape
        cases u with
        | nil => exact absurd rfl hu
        | cons x u =>
          simp only [List.cons_append, List.cons.injEq] at heq
          rw [← heq.2] at hcs hshort
          rw [List.all_append, Bool.and_eq_true] at hcs
          rw [List.length_append] at hshort
          exact ⟨hcs.2, by omega⟩
      have hnext : Part v rs₂ [] := ⟨hvtail.1, hvtail.2, fun r hr => hp.runes r (by simp [hr]),
          Or.inl rfl⟩
      have hlt := (ih hnext hrest).2 (Or.inl hv)
      simp only [torn, hu, and_false, if_false] at hself
      simp only [List.length_append, List.length_cons]
      omega

/-- The chunks add up to the text exactly when every slice is valid by
itself. -/
theorem repaired_slices_iff (hsize : 4 ≤ chunkSize) (hvalid : Valid ws.flatten) :
    (ws.map (repaired chunkSize)).flatten = ws.flatten ↔ ∀ w ∈ ws, Valid w := by
  constructor
  · intro heq w hw
    by_contra hbad
    obtain ⟨rs, hrs, hflat⟩ := hvalid
    have hlt := ((Part.of_runes hrs).starts_slices hsize hflat.symm).2 (Or.inr ⟨w, hw, hbad⟩)
    rw [heq, ← hflat, starts_flatten hrs] at hlt
    omega
  · intro hall
    have hid : ws.map (repaired chunkSize) = ws := by
      conv_rhs => rw [← List.map_id ws]
      exact List.map_congr_left fun w hw => repaired_valid hsize (hall w hw)
    rw [hid]

-- ======== the buffer

/-- A write that succeeds adds its slice to the text of the stream. -/
theorem write_text {c c' : LogClient} {n : Nat} (h : c.write key w now none = (c', .ok n)) :
    c'.spool.chunkSize = c.spool.chunkSize ∧ (c'.spool.disk.pending key).flatMap LogChunk.content
        = (c.spool.disk.pending key).flatMap LogChunk.content ++ repaired c.spool.chunkSize w := by
  unfold LogClient.write at h
  split at h
  · next hnil =>
    cases h
    simp [hnil, repaired]
  split at h
  · cases h
  next spool result happ =>
  cases h
  have hok : (c.spool.append key w now none).2 = .ok result := by
    rw [happ]
  have hpend := Spool.append_pending hok
  obtain ⟨-, -, rfl⟩ := Spool.append_ok hok
  rw [happ] at hpend
  have hsize : (c.spool.append key w now none).1.chunkSize
      = c.spool.chunkSize := Spool.performAll_chunkSize _ _
  rw [happ] at hsize
  refine ⟨hsize, ?_⟩
  rw [hpend, List.flatMap_append]
  congr 1
  rw [List.flatMap_def, Spool.newChunks, content_number]
  rfl

/-- The text of a stream after the writes of a script. -/
theorem writeAll_text {c c' : LogClient} (h : LogClient.writeAll key now c ws = .ok c') :
    (c'.spool.disk.pending key).flatMap LogChunk.content
      = (c.spool.disk.pending key).flatMap LogChunk.content
        ++ (ws.map (repaired c.spool.chunkSize)).flatten := by
  induction ws generalizing c with
  | nil =>
    cases h
    simp
  | cons w ws ih =>
    rw [LogClient.writeAll] at h
    split at h
    · cases h
    · next c₁ n hw =>
      obtain ⟨hsize, htext⟩ := write_text hw
      rw [ih h, htext, hsize, List.map_cons, List.flatten_cons, List.append_assoc]

/-- The buffered chunks of a valid output add up to it exactly when no
write ends inside a character. -/
theorem log_text_iff (c c' : LogClient) (key : Key) (now : Nat → Int)
    (ws : List Bytes) (hsize : 4 ≤ c.spool.chunkSize) (hfresh : c.spool.disk.pending key = [])
    (hvalid : Valid ws.flatten) (hwrites : LogClient.writeAll key now c ws = .ok c') :
    (c'.spool.disk.pending key).flatMap LogChunk.content = ws.flatten ↔ ∀ w ∈ ws, Valid w := by
  rw [writeAll_text hwrites, hfresh, List.flatMap_nil]
  exact repaired_slices_iff hsize hvalid

theorem log_text_two_words : ∃ c', LogClient.writeAll smallKey (fun _ => 0) (.ofSpool smallSpool)
        [[0xC3, 0xA9], [0x61]] = .ok c' ∧ (c'.spool.disk.pending smallKey).flatMap LogChunk.content
        = [0xC3, 0xA9, 0x61] := ⟨_, rfl, (log_text_iff (.ofSpool smallSpool) _ smallKey (fun _ => 0)
    [[0xC3, 0xA9], [0x61]] (by decide) (by decide)
    ⟨[[0xC3, 0xA9], [0x61]], by decide, rfl⟩ rfl).mpr fun w hw =>
      ⟨[w], by simpa using (show ∀ x ∈ [[0xC3, 0xA9], [0x61]], IsRune x by
        decide) w hw, by simp⟩⟩

/-- A character written in two slices becomes two replacements. -/
theorem split_character_lost : Valid [0xC3, 0xA9]
    ∧ ∃ c', LogClient.writeAll smallKey (fun _ => 0) (.ofSpool smallSpool) [[0xC3], [0xA9]] = .ok c'
      ∧ (c'.spool.disk.pending smallKey).flatMap LogChunk.content
        = [0xEF, 0xBF, 0xBD, 0xEF, 0xBF, 0xBD] :=
  ⟨⟨[[0xC3, 0xA9]], by decide, rfl⟩, _, rfl, by decide⟩

end Yunling.Logstream
