/-
Replacing one word after the other, seen from the text they start with.

`taken` says which occurrences of the words the replacements take, in
terms of that text alone: word by word, from left to right, each
occurrence that has no letter in common with one taken before. When the
words have no letter of what is written for them, this is what successive
replacements do: the result is the text with these occurrences written
over (`written_replaced`). So a word of other letters begins or ends the
result where it begins or ends the text and no taken occurrence has a
letter of it (`prefix_replaced_iff`, `suffix_replaced_iff`).

`blot` is the text with the taken letters blotted out, which keeps every
letter in its place; a replacement is the same operation on it.
-/
import Yunling.Lib.Replace

namespace Replace

variable {α : Type}

-- ======== occurrences

/-- No occurrence of a list, each given by where it starts and how long it
is, has a letter of a piece. -/
def Free (taken : List (Nat × Nat)) (i n : Nat) : Prop := ∀ o ∈ taken, ¬ Shares o.1 o.2 i n

instance (taken : List (Nat × Nat)) (i n : Nat) : Decidable (Free taken i n) :=
  inferInstanceAs (Decidable (∀ o ∈ taken, ¬ max o.1 i < min (o.1 + o.2) (i + n)))

/-- The occurrences of `w` in a text that starts at `k` are added to those
taken before, from left to right, where they are free. -/
def takeWord [DecidableEq α] (w : List α) : Nat → List α → List (Nat × Nat) → List (Nat × Nat)
  | _, [], taken => taken
  | k, c :: s, taken => takeWord w (k + 1) s
    (if w ≠ [] ∧ w <+: c :: s ∧ Free taken k w.length then (k, w.length) :: taken else taken)

/-- The occurrences that replacements of the words take of a text. -/
def taken [DecidableEq α] (ws : List (List α)) (s : List α) : List (Nat × Nat) :=
  ws.foldl (fun taken w => takeWord w 0 s taken) []

/-- The text after the replacements. -/
def replaced [DecidableEq α] (new : List α) (ws : List (List α)) (s : List α) : List α :=
  ws.foldl (fun t w => replaceAll w new 0 t) s

/-- A text that starts at `k`, with the letters of the occurrences blotted
out. -/
def blot (taken : List (Nat × Nat)) : Nat → List α → List (Option α)
  | _, [] => []
  | k, c :: s => (if Free taken k 1 then some c else none) :: blot taken (k + 1) s

section Blot

variable {o : List (Nat × Nat)} {w s : List α} {k : Nat}

theorem Free.cons {p : Nat × Nat} {i n : Nat} :
    Free (p :: o) i n ↔ ¬ Shares p.1 p.2 i n ∧ Free o i n := List.forall_mem_cons

theorem Free.zero : Free o k 0 := by
  intro p _ h
  unfold Shares at h
  omega

theorem Free.succ {n : Nat} : Free o k (n + 1) ↔ Free o k 1 ∧ Free o (k + 1) n := by
  rw [Free, Free, Free, ← forall₂_and]
  refine forall₂_congr fun p _ => ?_
  unfold Shares
  omega

theorem blot_nil (k : Nat) (s : List α) : blot [] k s = s.map some := by
  induction s generalizing k with
  | nil => rfl
  | cons c s ih =>
    have hfree : Free [] k 1 := fun _ h => absurd h List.not_mem_nil
    rw [blot, if_pos hfree, ih, List.map_cons]

theorem length_blot : (blot o k s).length = s.length := by
  induction s generalizing k with
  | nil => rfl
  | cons c s ih => rw [blot, List.length_cons, List.length_cons, ih]

theorem drop_blot (n : Nat) : (blot o k s).drop n = blot o (k + n) (s.drop n) := by
  induction s generalizing k n with
  | nil => simp [blot]
  | cons c s ih =>
    cases n with
    | zero => rfl
    | succ n => rw [blot, List.drop_succ_cons, List.drop_succ_cons, ih, Nat.add_right_comm,
        Nat.add_assoc]

theorem blot_cons {p : Nat × Nat} (h : p.1 + p.2 ≤ k) : blot (p :: o) k s = blot o k s := by
  induction s generalizing k with
  | nil => rfl
  | cons c s ih =>
    have hfree : Free (p :: o) k 1 ↔ Free o k 1 := by
      rw [Free.cons, and_iff_right]
      unfold Shares
      omega
    rw [blot, blot, ih (by omega)]
    simp only [hfree]

/-- A word can be read in what is left where it is in the text and free. -/
theorem prefix_blot_iff : w.map some <+: blot o k s ↔ w <+: s ∧ Free o k w.length := by
  induction w generalizing k s with
  | nil => simp [Free.zero]
  | cons x w ih =>
    cases s with
    | nil => simp [blot]
    | cons c s =>
      rw [List.map_cons, blot, List.cons_prefix_cons, ih, List.cons_prefix_cons,
        List.length_cons]
      have hsucc : Free o k (w.length + 1) ↔ _ := Free.succ
      by_cases hfree : Free o k 1
      · simp only [hsucc, hfree, if_true, Option.some.injEq, true_and, and_assoc]
      · simp [hsucc, hfree]

theorem suffix_blot_iff :
    w.map some <:+ blot o 0 s ↔ w <:+ s ∧ Free o (s.length - w.length) w.length := by
  rw [List.suffix_iff_eq_drop, List.suffix_iff_eq_drop, length_blot, List.length_map, drop_blot,
    Nat.zero_add]
  constructor
  · intro h
    have hread : w.map some <+: blot o (s.length - w.length) (s.drop (s.length - w.length)) :=
      ⟨[], by rw [List.append_nil, h]⟩
    have hpre := prefix_blot_iff.mp hread
    have hlen := congrArg List.length h
    rw [List.length_map, length_blot] at hlen
    exact ⟨hpre.1.eq_of_length hlen, hpre.2⟩
  · rintro ⟨h, hfree⟩
    have hpre : w.map some <+: blot o _ (s.drop (s.length - w.length)) :=
      prefix_blot_iff.mpr ⟨⟨[], by rw [List.append_nil, ← h]⟩, hfree⟩
    refine hpre.eq_of_length ?_
    rw [length_blot, ← h, List.length_map]

end Blot

-- ======== taking a word

section Take

variable [DecidableEq α] {o : List (Nat × Nat)} {w s : List α} {k : Nat}

theorem mem_takeWord {p : Nat × Nat} (h : p ∈ takeWord w k s o) : p ∈ o ∨ k ≤ p.1 := by
  induction s generalizing k o with
  | nil => exact Or.inl h
  | cons c s ih =>
    rcases ih h with hp | hp
    · split at hp
      · rcases List.mem_cons.mp hp with rfl | hp
        · exact Or.inr (le_refl k)
        · exact Or.inl hp
      · exact Or.inl hp
    · exact Or.inr (by omega)

theorem subset_takeWord : o ⊆ takeWord w k s o := by
  induction s generalizing k o with
  | nil => exact List.Subset.refl o
  | cons c s ih =>
    refine List.Subset.trans ?_ ih
    split
    · exact List.subset_cons_self _ _
    · exact List.Subset.refl o

theorem takeWord_nil : takeWord [] k s o = o := by
  induction s generalizing k with
  | nil => rfl
  | cons c s ih => rw [takeWord, if_neg fun h => h.1 rfl, ih]

/-- The letters before those that are looked at stay as they are. -/
theorem free_takeWord : Free (takeWord w (k + 1) s o) k 1 ↔ Free o k 1 := by
  constructor
  · exact fun h p hp => h p (subset_takeWord hp)
  · intro h p hp
    rcases mem_takeWord hp with hp | hp
    · exact h p hp
    · unfold Shares
      omega

/-- Taking a word is replacing it in what is left. While `j` letters of an
occurrence are still to be passed, they are taken already. -/
theorem blot_takeWord (hw : w ≠ []) (j : Nat) (hj : ∀ i < j, ¬ Free o (k + i) 1) :
    blot (takeWord w k s o) k s = List.replicate (min j s.length) none
      ++ replaceAll (w.map some) (List.replicate w.length none) j (blot o k s) := by
  have hpos := List.length_pos_of_ne_nil hw
  induction s generalizing k j o with
  | nil => simp [blot, replaceAll]
  | cons c s ih =>
    have hlater : ∀ o, (if Free (takeWord w (k + 1) s o) k 1 then some c else none)
        = if Free o k 1 then some c else none := fun o => by simp only [free_takeWord]
    cases j with
    | succ j =>
      have hk : ¬ Free o k 1 := hj 0 (by omega)
      have hnot : ¬ (w ≠ [] ∧ w <+: c :: s ∧ Free o k w.length) := by
        rintro ⟨-, -, hfree⟩
        obtain ⟨n, hn⟩ := Nat.exists_eq_succ_of_ne_zero hpos.ne'
        rw [hn] at hfree
        exact hk (Free.succ.mp hfree).1
      rw [takeWord, if_neg hnot, blot, hlater, if_neg hk, blot, replaceAll, List.length_cons,
        Nat.succ_min_succ, List.replicate_succ, List.cons_append,
        ih j fun i hi => by
          rw [Nat.add_assoc, Nat.add_comm 1 i]
          exact hj (i + 1) (by omega)]
    | zero =>
      have hiff := prefix_blot_iff (o := o) (w := w) (s := c :: s) (k := k)
      rw [Nat.zero_min, List.replicate_zero, List.nil_append]
      by_cases hhit : w <+: c :: s ∧ Free o k w.length
      · have hblot := hiff.mpr hhit
        have hlen := hhit.1.length_le
        have hk : ¬ Free ((k, w.length) :: o) k 1 := by
          rw [Free.cons]
          unfold Shares
          omega
        have hrest := ih (o := (k, w.length) :: o) (k := k + 1) (w.length - 1) fun i hi => by
          rw [Free.cons]
          unfold Shares
          omega
        rw [List.length_cons] at hlen
        rw [takeWord, if_pos ⟨hw, hhit⟩, blot, hlater, if_neg hk, hrest, replaceAll_skip, drop_blot,
          blot_cons (by omega), ← drop_blot, ← replaceAll_skip]
        rw [blot, replaceAll, if_pos ⟨by simpa using hw, by rwa [blot] at hblot⟩, List.length_map,
          Nat.min_eq_left (by omega)]
        obtain ⟨n, hn⟩ := Nat.exists_eq_succ_of_ne_zero hpos.ne'
        rw [hn]
        rfl
      · have hmiss := fun h => hhit (hiff.mp h)
        have hrest := ih (o := o) (k := k + 1) 0 fun i hi => absurd hi (by omega)
        rw [Nat.zero_min, List.replicate_zero, List.nil_append] at hrest
        rw [takeWord, if_neg fun h => hhit h.2, blot, hlater, hrest, blot]
        rw [blot] at hmiss
        rw [replaceAll_miss hmiss]

end Take

-- ======== the result

/-- A text with `new` written for each blot. -/
inductive Written (new : List α) : List (Option α) → List α → Prop where
  | nil : Written new [] []
  | keep (c : α) {b : List (Option α)} {s : List α} (h : Written new b s) :
    Written new (some c :: b) (c :: s)
  | blot (n : Nat) {b : List (Option α)} {s : List α} (h : Written new b s) :
    Written new (List.replicate (n + 1) none ++ b) (new ++ s)

section Written

variable {new v w s t : List α} {b : List (Option α)}

theorem written_some (s : List α) : Written new (s.map some) s := by
  induction s with
  | nil => exact .nil
  | cons c s ih => exact .keep c ih

theorem avoids_replicate (v : List α) (n : Nat) :
    Avoids (List.replicate n none) (v.map some) := by
  intro x hx hnone
  obtain ⟨c, -, rfl⟩ := List.mem_map.mp hx
  cases (List.mem_replicate.mp hnone).2

variable (hnew : new ≠ [])

include hnew

theorem Written.split (h : Written new b (v ++ t)) (hv : Avoids new v) :
    ∃ b', b = v.map some ++ b' ∧ Written new b' t := by
  induction v generalizing b with
  | nil => exact ⟨b, rfl, h⟩
  | cons c v ih =>
    generalize hs : c :: v ++ t = s at h
    cases h with
    | nil => cases hs
    | keep c' h =>
      cases hs
      obtain ⟨b', rfl, h'⟩ := ih h (hv.of_subset (List.subset_cons_self c v))
      exact ⟨b', rfl, h'⟩
    | blot n h =>
      have hnil := hv.eq_nil hnew (hs ▸ List.prefix_append (c :: v) t)
      cases hnil

/-- A word of other letters begins the result where it begins what is
left. -/
theorem Written.prefix_iff (h : Written new b s) (hv : Avoids new v) :
    v <+: s ↔ v.map some <+: b := by
  constructor
  · rintro ⟨t, rfl⟩
    obtain ⟨b', rfl, -⟩ := h.split hnew hv
    exact List.prefix_append _ _
  · intro hpre
    induction h generalizing v with
    | nil => rw [List.map_eq_nil_iff.mp (List.prefix_nil.mp hpre)]
    | keep c h ih =>
      cases v with
      | nil => exact List.nil_prefix
      | cons x v =>
        obtain ⟨hx, hrest⟩ := List.cons_prefix_cons.mp hpre
        cases hx
        exact List.cons_prefix_cons.mpr
          ⟨rfl, ih (hv.of_subset (List.subset_cons_self _ v)) hrest⟩
    | blot n h ih =>
      have hnil := (avoids_replicate v (n + 1)).eq_nil (by simp) hpre
      rw [List.map_eq_nil_iff.mp hnil]
      exact List.nil_prefix

/-- A word of other letters is the result when it is what is left. -/
theorem Written.eq_iff (h : Written new b s) (hv : Avoids new v) : v = s ↔ v.map some = b := by
  constructor
  · rintro rfl
    obtain ⟨b', rfl, h'⟩ := Written.split (t := []) hnew (by rwa [List.append_nil]) hv
    generalize hs : ([] : List α) = t at h'
    cases h' with
    | nil => rw [List.append_nil]
    | keep c h' => cases hs
    | blot n h' => exact absurd (List.append_eq_nil_iff.mp hs.symm).1 hnew
  · rintro rfl
    induction v generalizing s with
    | nil => cases h; rfl
    | cons c v ih =>
      cases h with
      | keep _ h => rw [← ih (hv.of_subset (List.subset_cons_self c v)) h]

theorem Written.suffix_iff (h : Written new b s) (hv : Avoids new v) :
    v <:+ s ↔ v.map some <:+ b := by
  induction h with
  | nil => simp
  | keep c h ih =>
    rw [List.suffix_cons_iff, List.suffix_cons_iff, ih, (h.keep c).eq_iff hnew hv]
  | blot n h ih =>
    constructor
    · exact fun hsuf => (ih.mp (hv.suffix_append hsuf)).trans (List.suffix_append _ _)
    · exact fun hsuf => (ih.mpr ((avoids_replicate v (n + 1)).suffix_append hsuf)).trans
        (List.suffix_append _ _)

/-- Replacing a word in the result is replacing it in what is left. -/
theorem Written.replaceAll [DecidableEq α] (h : Written new b s) (hw : Avoids new w)
    (hne : w ≠ []) : Written new
      (replaceAll (w.map some) (List.replicate w.length none) 0 b) (replaceAll w new 0 s) := by
  have hne' : w.map some ≠ [] := by simpa using hne
  induction hn : s.length using Nat.strong_induction_on generalizing s b with
  | _ n ih =>
  cases h with
  | nil => exact .nil
  | @keep c b s h =>
    by_cases hpre : w <+: c :: s
    · obtain ⟨t, ht⟩ := hpre
      obtain ⟨b', hb', h'⟩ := Written.split hnew (ht ▸ h.keep c) hw
      have hpos := List.length_pos_of_ne_nil hne
      obtain ⟨m, hm⟩ := Nat.exists_eq_succ_of_ne_zero hpos.ne'
      rw [hb', ← ht, replaceAll_hit hne', replaceAll_hit hne, hm]
      refine .blot m (hm ▸ ih t.length ?_ h' rfl)
      rw [← hn, ← ht, List.length_append]
      omega
    · have hpre' : ¬ w.map some <+: some c :: b :=
        fun hp => hpre (((h.keep c).prefix_iff hnew hw).mpr hp)
      rw [replaceAll_miss hpre, replaceAll_miss hpre']
      exact .keep c (ih s.length (by rw [← hn]; exact Nat.lt_succ_self _) h rfl)
  | @blot m b s h =>
    have hskip : Skips new w new new s := .of_letters hne (fun c hc => hw c hc) s
    have hskip' : Skips (List.replicate w.length none) (w.map some) (List.replicate (m + 1) none)
        (List.replicate (m + 1) none) b := .of_letters hne' (avoids_replicate w (m + 1)) b
    rw [hskip.out (List.prefix_refl s), hskip'.out (List.prefix_refl b)]
    refine .blot m (ih s.length ?_ h rfl)
    have := List.length_pos_of_ne_nil hnew
    rw [← hn, List.length_append]
    omega

end Written

-- ======== successive replacements

section Replaced

variable [DecidableEq α] {new v s : List α} {ws : List (List α)}

variable (hnew : new ≠ []) (hws : ∀ w ∈ ws, Avoids new w)

include hnew hws

/-- Successive replacements write over what is taken. -/
theorem written_replaced : Written new (blot (taken ws s) 0 s) (replaced new ws s) := by
  suffices hrest : ∀ o t, Written new (blot o 0 s) t →
      Written new (blot (ws.foldl (fun o w => takeWord w 0 s o) o) 0 s) (replaced new ws t) by
    exact hrest [] s (blot_nil 0 s ▸ written_some s)
  induction ws with
  | nil => exact fun _ _ h => h
  | cons w ws ih =>
    intro o t h
    obtain ⟨hw, hws⟩ := List.forall_mem_cons.mp hws
    refine ih hws (takeWord w 0 s o) (replaceAll w new 0 t) ?_
    by_cases hne : w = []
    · rw [hne, takeWord_nil, replaceAll_empty]
      exact h
    · have hblot := blot_takeWord (o := o) (s := s) (k := 0) hne 0 fun i hi => absurd hi (by omega)
      rw [Nat.zero_min, List.replicate_zero, List.nil_append] at hblot
      rw [hblot]
      exact h.replaceAll hnew hw hne

theorem prefix_replaced_iff (hv : Avoids new v) :
    v <+: replaced new ws s ↔ v <+: s ∧ Free (taken ws s) 0 v.length :=
  ((written_replaced hnew hws).prefix_iff hnew hv).trans prefix_blot_iff

theorem suffix_replaced_iff (hv : Avoids new v) : v <:+ replaced new ws s
    ↔ v <:+ s ∧ Free (taken ws s) (s.length - v.length) v.length :=
  ((written_replaced hnew hws).suffix_iff hnew hv).trans suffix_blot_iff

theorem eq_replaced_iff (hs : Avoids new s) :
    s = replaced new ws s ↔ Free (taken ws s) 0 s.length := by
  rw [(written_replaced hnew hws).eq_iff hnew hs]
  constructor
  · intro h
    have hpre : s.map some <+: blot (taken ws s) 0 s := ⟨[], by rw [List.append_nil, h]⟩
    exact (prefix_blot_iff.mp hpre).2
  · intro h
    refine List.IsPrefix.eq_of_length (prefix_blot_iff.mpr ⟨List.prefix_refl s, h⟩) ?_
    rw [length_blot, List.length_map]

end Replaced

end Replace
