/-
Where `Append` cuts a text.

The length of a piece is lowered to the start of a character, so a piece
ends where a byte that is no continuation byte follows, or where the
text does (`pieceLength_spec`). With room for one character, four bytes,
this never fails on a part of a valid text: such a part is the rest of a
character, whole characters, and the beginning of one (`Part`), and a
piece takes whole characters off it (`pieceLength_part`).
-/
import Yunling.Logstream.Spool

namespace Yunling.Logstream

open Utf8

variable {rs : List Bytes} {chunkSize : Nat} {t h : Bytes} {b : UInt8}

-- ======== the length

theorem backUp_le (content : Bytes) (n : Nat) : backUp content n ≤ n := by
  induction n with
  | zero => exact le_rfl
  | succ n ih =>
    unfold backUp
    split
    · exact le_rfl
    · split
      · omega
      · exact le_rfl

/-- What the inner loop passes over are continuation bytes. -/
theorem backUp_passed (content : Bytes) (n : Nat) :
    ∀ i, backUp content n < i → i ≤ n → ∃ b, content[i]? = some b ∧ continuation b = true := by
  induction n with
  | zero => intro i hlo hhi; omega
  | succ n ih =>
    intro i hlo hhi
    unfold backUp at hlo
    split at hlo
    · omega
    next b hb =>
    split at hlo
    · next hc =>
      by_cases hi : i = n + 1
      · rw [hi]
        exact ⟨b, hb, hc⟩
      · exact ih i hlo (by omega)
    · omega

/-- Where the inner loop stops, a character starts or nothing is
left. -/
theorem backUp_stop (content : Bytes) (n : Nat) (h : backUp content n ≠ 0) :
    ∀ b, content[backUp content n]? = some b → continuation b = false := by
  induction n with
  | zero => exact absurd rfl h
  | succ n ih =>
    unfold backUp at h ⊢
    split
    · next hnone => intro b hb; rw [hnone] at hb; cases hb
    next b hb =>
    split
    · next hc =>
      rw [hb] at h
      simp only [hc, if_true] at h
      exact ih h
    · next hc =>
      intro b' hb'
      rw [hb] at hb'
      cases hb'
      simpa using hc

theorem pieceLength_pos (hsize : 0 < chunkSize)
    {content : Bytes} (h : content ≠ []) : 0 < pieceLength chunkSize content := by
  have := List.length_pos_of_ne_nil h
  unfold pieceLength
  simp only
  split <;> omega

theorem pieceLength_le (chunkSize : Nat) (content : Bytes) :
    pieceLength chunkSize content ≤ content.length ∧ pieceLength chunkSize content ≤ chunkSize := by
  have := backUp_le content (min content.length chunkSize)
  unfold pieceLength
  simp only
  split <;> omega

-- ======== the pieces

section Pieces

variable {chunkSize : Nat} (hsize : 0 < chunkSize) {content : Bytes} {fuel : Nat}

theorem pieces_cons (h : content ≠ []) :
    pieces chunkSize (fuel + 1) content = content.take (pieceLength chunkSize content)
        :: pieces chunkSize fuel (content.drop (pieceLength chunkSize content)) := by
  cases content with
  | nil => exact absurd rfl h
  | cons b content => rfl

@[simp] theorem pieces_nil (fuel : Nat) : pieces chunkSize fuel [] = [] := by
  cases fuel <;> rfl

include hsize in
/-- Induction along the loop of `Append`, whose fuel lasts. -/
theorem pieces_induction {P : Bytes → List Bytes → Prop} (nil : P [] [])
    (cons : ∀ content rest, content ≠ [] → P (content.drop (pieceLength chunkSize content)) rest →
      P content (content.take (pieceLength chunkSize content) :: rest))
    (hfuel : content.length ≤ fuel) : P content (pieces chunkSize fuel content) := by
  induction fuel generalizing content with
  | zero =>
    obtain rfl := List.length_eq_zero_iff.mp (Nat.le_zero.mp hfuel)
    exact nil
  | succ fuel ih =>
    by_cases h : content = []
    · rw [h, pieces_nil]
      exact nil
    · rw [pieces_cons h]
      have hpos := pieceLength_pos hsize h
      refine cons content _ h (ih ?_)
      rw [List.length_drop]
      omega

include hsize in
theorem pieces_flatten (hfuel : content.length ≤ fuel) :
    (pieces chunkSize fuel content).flatten = content := by
  refine pieces_induction hsize (P := fun c ps => ps.flatten = c) rfl
    (fun content rest _ ih => ?_) hfuel
  rw [List.flatten_cons, ih, List.take_append_drop]

theorem pieces_single (hne : content ≠ []) (hle : content.length ≤ chunkSize) :
    pieces chunkSize content.length content = [content] := by
  obtain ⟨n, hn⟩ : ∃ n, content.length = n + 1 :=
    ⟨content.length - 1, by have := List.length_pos_of_ne_nil hne; omega⟩
  have hback : backUp content (min content.length chunkSize) = n + 1 := by
    rw [Nat.min_eq_left hle, hn, backUp, List.getElem?_eq_none (by omega)]
  have hwhole : pieceLength chunkSize content = n + 1 := by
    unfold pieceLength
    simp only [hback]
    rw [if_neg (Nat.succ_ne_zero n)]
  rw [hn, pieces_cons hne, hwhole, ← hn, List.take_length, List.drop_length, pieces_nil]

end Pieces

-- ======== parts of valid text

/-- A part of a valid text: the rest of a character, whole characters,
and the beginning of one. -/
structure Part (t : Bytes) (rs : List Bytes) (h : Bytes) : Prop where
  tail : t.all continuation = true
  tail_short : t.length ≤ 3
  runes : ∀ r ∈ rs, IsRune r
  head : h = [] ∨ ∃ u, u ≠ [] ∧ IsRune (h ++ u)

theorem Part.of_runes (h : ∀ r ∈ rs, IsRune r) : Part [] rs [] := ⟨rfl, by simp, h, Or.inl rfl⟩

theorem Part.rest (rs : List Bytes) {rs' : List Bytes}
    (hp : Part t (rs ++ rs') h) : Part [] rs' h :=
  ⟨rfl, by simp, fun r hr => hp.runes r (List.mem_append_right rs hr), hp.head⟩

/-- Past its first byte a character has continuation bytes only. -/
theorem continuation_of_rune {r : Bytes} (h : IsRune r) {i : Nat}
    (hi : 0 < i) (hb : r[i]? = some b) : continuation b = true := by
  obtain ⟨a, cs, rfl, -, hcs, -⟩ := h.shape
  obtain ⟨j, rfl⟩ : ∃ j, i = j + 1 := ⟨i - 1, by omega⟩
  exact List.all_eq_true.mp hcs b (List.mem_of_getElem? hb)

/-- Whole characters are followed by a byte that starts one. -/
theorem Part.starts_rest (hp : Part [] rs h) (hb : (rs.flatten ++ h)[0]? = some b) :
    continuation b = false := by
  have hfirst : ∀ r u : Bytes, r ≠ [] → IsRune (r ++ u) → r[0]? = some b →
      continuation b = false := by
    intro r u hr hrune hrb
    obtain ⟨a, cs, heq, ha, -⟩ := hrune.shape
    cases r with
    | nil => exact absurd rfl hr
    | cons x r =>
      simp only [List.cons_append, List.cons.injEq] at heq
      obtain rfl : x = b := by simpa using hrb
      rw [heq.1]
      exact ha
  cases rs with
  | nil =>
    rcases hp.head with rfl | ⟨u, -, hu⟩
    · simp at hb
    · refine hfirst h u ?_ hu (by simpa using hb)
      rintro rfl
      simp at hb
  | cons r rs =>
    have hr := hp.runes r List.mem_cons_self
    have hpos : 0 < r.length := List.length_pos_of_ne_nil hr.1
    rw [List.flatten_cons, List.append_assoc, List.getElem?_append_left hpos] at hb
    exact hfirst r [] hr.1 (by rw [List.append_nil]; exact hr) hb

/-- A byte that continues no character is where one ends. -/
theorem Part.boundary (hp : Part [] rs h) {k : Nat} (hb : (rs.flatten ++ h)[k]? = some b)
    (hc : continuation b = false) : ∃ rs₁ rs₂, rs = rs₁ ++ rs₂ ∧ rs₁.flatten.length = k := by
  by_cases hk : k = 0
  · exact ⟨[], rs, rfl, hk.symm⟩
  induction rs generalizing k with
  | nil =>
    rcases hp.head with rfl | ⟨u, -, hu⟩
    · simp at hb
    have hb' : (h ++ u)[k]? = some b := by
      rw [List.getElem?_append_left]
      · simpa using hb
      · exact (List.getElem?_eq_some_iff.mp hb).1
    rw [continuation_of_rune hu (by omega) hb'] at hc
    cases hc
  | cons r rs ih =>
    have hr := hp.runes r List.mem_cons_self
    rw [List.flatten_cons, List.append_assoc] at hb
    rcases Nat.lt_or_ge k r.length with hlt | hge
    · rw [List.getElem?_append_left hlt] at hb
      rw [continuation_of_rune hr (by omega) hb] at hc
      cases hc
    · rw [List.getElem?_append_right hge] at hb
      by_cases hzero : k - r.length = 0
      · exact ⟨[r], rs, rfl, by simp; omega⟩
      · obtain ⟨rs₁, rs₂, rfl, hlen⟩ := ih (hp.rest [r]) hb hzero
        refine ⟨r :: rs₁, rs₂, rfl, ?_⟩
        rw [List.flatten_cons, List.length_append]
        omega

variable (hp : Part t rs h) (hne : t ++ (rs.flatten ++ h) ≠ []) (hsize : 4 ≤ chunkSize)

include hp hne hsize

/-- Four bytes are room for one character, so the inner loop of `Append`
stops before the beginning of the text. -/
theorem Part.backUp_ne_zero :
    backUp (t ++ (rs.flatten ++ h)) (min (t ++ (rs.flatten ++ h)).length chunkSize) ≠ 0 := by
  intro hzero
  have hpassed := backUp_passed (t ++ (rs.flatten ++ h))
    (min (t ++ (rs.flatten ++ h)).length chunkSize)
  have hpos := List.length_pos_of_ne_nil hne
  -- the loop does not start at the end of the text
  have hlong : chunkSize < (t ++ (rs.flatten ++ h)).length := by
    by_contra hle
    obtain ⟨b, hb, -⟩ := hpassed (t ++ (rs.flatten ++ h)).length (by omega) (by omega)
    simp at hb
  -- a character starts among the first five bytes, and not at the first
  have hstart : ∀ (u : Bytes) (rs' : List Bytes), t ++ (rs.flatten ++ h) = u ++ (rs'.flatten ++ h) →
      Part [] rs' h → 1 ≤ u.length → u.length ≤ 4 → False := by
    intro u rs' heq hp' hlo hhi
    obtain ⟨b, hb, hc⟩ := hpassed u.length (by omega) (by omega)
    rw [heq, List.getElem?_append_right le_rfl, Nat.sub_self] at hb
    rw [hp'.starts_rest hb] at hc
    cases hc
  cases t with
  | cons x t =>
    have := hp.tail_short
    exact hstart (x :: t) rs rfl (hp.rest []) (by simp) (by omega)
  | nil =>
    cases rs with
    | nil =>
      rcases hp.head with rfl | ⟨u, hu, hrune⟩
      · simp at hpos
      obtain ⟨a, cs, heq, -, -, hcs⟩ := hrune.shape
      have := congrArg List.length heq
      simp only [List.length_append, List.length_cons, List.flatten_nil, List.nil_append] at *
      omega
    | cons r rs =>
      have hr := hp.runes r List.mem_cons_self
      obtain ⟨a, cs, rfl, -, -, hcs⟩ := hr.shape
      exact hstart (a :: cs) rs (by simp) (hp.rest [a :: cs]) (by simp) (by simp; omega)

/-- A piece of a part is all of it, or ends between two characters. -/
theorem Part.pieceLength : pieceLength chunkSize (t ++ (rs.flatten ++ h))
        = (t ++ (rs.flatten ++ h)).length ∨ ∃ rs₁ rs₂, rs = rs₁ ++ rs₂
        ∧ pieceLength chunkSize (t ++ (rs.flatten ++ h)) = (t ++ rs₁.flatten).length := by
  have hnz := hp.backUp_ne_zero hne hsize
  have hstop := backUp_stop _ _ hnz
  have hlen : Logstream.pieceLength chunkSize (t ++ (rs.flatten ++ h))
      = backUp (t ++ (rs.flatten ++ h)) (min (t ++ (rs.flatten ++ h)).length chunkSize) := by
    unfold Logstream.pieceLength
    rw [if_neg hnz]
  rw [← hlen] at hstop
  have hle := (pieceLength_le chunkSize (t ++ (rs.flatten ++ h))).1
  generalize Logstream.pieceLength chunkSize (t ++ (rs.flatten ++ h)) = k at hstop hle
  rcases Nat.lt_or_ge k (t ++ (rs.flatten ++ h)).length with hlt | hge
  · right
    have hb : (t ++ (rs.flatten ++ h))[k]?
        = some (t ++ (rs.flatten ++ h))[k] := List.getElem?_eq_getElem hlt
    have hc := hstop _ hb
    rcases Nat.lt_or_ge k t.length with htail | htail
    · rw [List.getElem?_append_left htail] at hb
      have := List.all_eq_true.mp hp.tail _ (List.mem_of_getElem? hb)
      rw [this] at hc
      cases hc
    · rw [List.getElem?_append_right htail] at hb
      obtain ⟨rs₁, rs₂, heq, hflat⟩ := (hp.rest []).boundary hb hc
      refine ⟨rs₁, rs₂, heq, ?_⟩
      rw [List.length_append]
      omega
  · left
    omega

end Yunling.Logstream
