/-
Replacing a word in a text: every occurrence, from left to right,
without overlap.

`replaceAll` is a structural recursion that counts how many letters of
the occurrence it is in are still to be dropped; `replaceAll_hit` and
`replaceAll_miss` are the equations of the usual recursion on the text,
and `replace_induction` is the induction that goes with them.

# What a replacement leaves

When the replacement shares no letter with a word, the replacement
neither completes an occurrence of the word nor is part of one. So a
word in the result is a word of the text (`infix_of_replaceAll`, and at
its beginning `prefix_of_replaceAll`), and the word that was replaced is
not in the result at all (`not_infix_replaceAll`).

# Two words

Replacements of two words come in either order to the same
(`replaceAll_comm`) unless they meet (`Meets`): they take occurrences
that share a letter, or one of them writes what the other word is in
part made of.
-/
import Mathlib.Data.List.Infix

namespace Replace

variable {α : Type} [DecidableEq α]

/-- Every occurrence of `old` replaced by `new`; an empty `old` has
none. The counter says how many letters are still to be dropped. -/
def replaceAll (old new : List α) : Nat → List α → List α
  | _, [] => []
  | k + 1, _ :: s => replaceAll old new k s
  | 0, a :: s =>
    if old ≠ [] ∧ old <+: a :: s then
      new ++ replaceAll old new (old.length - 1) s
    else a :: replaceAll old new 0 s

section

variable {old new : List α}

theorem replaceAll_skip (k : Nat) (s : List α) :
    replaceAll old new k s = replaceAll old new 0 (s.drop k) := by
  induction s generalizing k with
  | nil => simp [replaceAll]
  | cons a s ih =>
    cases k with
    | zero => rfl
    | succ k => rw [replaceAll, ih, List.drop_succ_cons]

theorem replaceAll_hit (hold : old ≠ []) (t : List α) :
    replaceAll old new 0 (old ++ t) = new ++ replaceAll old new 0 t := by
  cases old with
  | nil => exact absurd rfl hold
  | cons b old =>
    rw [List.cons_append, replaceAll,
      if_pos ⟨hold, by rw [← List.cons_append]; exact List.prefix_append _ _⟩, replaceAll_skip]
    simp

theorem replaceAll_miss {a : α} {s : List α} (h : ¬ old <+: a :: s) :
    replaceAll old new 0 (a :: s) = a :: replaceAll old new 0 s := by
  rw [replaceAll, if_neg fun h' => h h'.2]

theorem replaceAll_empty (s : List α) : replaceAll [] new 0 s = s := by
  induction s with
  | nil => rfl
  | cons a s ih => rw [replaceAll, if_neg fun h => h.1 rfl, ih]

/-- Induction along a replacement. -/
theorem replace_induction {P : List α → Prop} (old : List α) (hold : old ≠ []) (nil : P [])
    (hit : ∀ t, P t → P (old ++ t)) (miss : ∀ a s, ¬ old <+: a :: s → P s → P (a :: s)) :
    ∀ s, P s := by
  intro s
  -- an occurrence takes at least one letter off the text
  induction hn : s.length using Nat.strong_induction_on generalizing s with
  | _ n ih =>
    cases s with
    | nil => exact nil
    | cons a s =>
      by_cases h : old <+: a :: s
      · obtain ⟨t, ht⟩ := h
        have hpos := List.length_pos_of_ne_nil hold
        have hlen : t.length < n := by
          rw [← hn, ← ht, List.length_append]
          omega
        rw [← ht]
        exact hit t (ih t.length hlen t rfl)
      · have hlen : s.length < n := by
          rw [← hn, List.length_cons]
          omega
        exact miss a s h (ih s.length hlen s rfl)

end

-- ======== words in the result

/-- The word shares no letter with the replacement. -/
def Avoids (new v : List α) : Prop := ∀ x ∈ v, x ∉ new

section Avoids

variable {old new v : List α} {s : List α}

omit [DecidableEq α] in
theorem Avoids.of_subset {w : List α} (h : Avoids new v) (hw : w ⊆ v) :
    Avoids new w := fun x hx => h x (hw hx)

omit [DecidableEq α] in
theorem Avoids.eq_nil (h : Avoids new v) (hnew : new ≠ []) (hv : v <+: new ++ s) : v = [] := by
  cases v with
  | nil => rfl
  | cons x v =>
    cases new with
    | nil => exact absurd rfl hnew
    | cons y new =>
      obtain ⟨rfl, -⟩ := List.cons_prefix_cons.mp hv
      exact absurd List.mem_cons_self (h x List.mem_cons_self)

omit [DecidableEq α] in
/-- A word that avoids the replacement, found in it and what follows,
is found in what follows. -/
theorem Avoids.infix_append (h : Avoids new v) (hv : v <:+: new ++ s) : v <:+: s := by
  by_cases hnil : v = []
  · rw [hnil]
    exact List.nil_infix
  induction new with
  | nil => exact hv
  | cons y new ih =>
    rw [List.cons_append, List.infix_cons_iff] at hv
    rcases hv with hv | hv
    · exact absurd (h.eq_nil (List.cons_ne_nil y new) hv) hnil
    · exact ih (fun x hx hmem => h x hx (List.mem_cons_of_mem y hmem)) hv

omit [DecidableEq α] in
theorem Avoids.suffix_append (h : Avoids new v) (hv : v <:+ new ++ s) : v <:+ s := by
  induction new with
  | nil => exact hv
  | cons y new ih =>
    rw [List.cons_append, List.suffix_cons_iff] at hv
    rcases hv with rfl | hv
    · exact absurd List.mem_cons_self (h y List.mem_cons_self)
    · exact ih (fun x hx hmem => h x hx (List.mem_cons_of_mem y hmem)) hv

variable (hnew : new ≠ [])

include hnew

theorem prefix_of_replaceAll (h : Avoids new v) (hv : v <+: replaceAll old new 0 s) : v <+: s := by
  by_cases hold : old = []
  · rw [hold, replaceAll_empty] at hv
    exact hv
  induction s using replace_induction old hold generalizing v with
  | nil => exact hv
  | hit t ih =>
    rw [replaceAll_hit hold] at hv
    rw [h.eq_nil hnew hv]
    exact List.nil_prefix
  | miss a s hmiss ih =>
    rw [replaceAll_miss hmiss] at hv
    cases v with
    | nil => exact List.nil_prefix
    | cons x v =>
      obtain ⟨rfl, hrest⟩ := List.cons_prefix_cons.mp hv
      exact List.cons_prefix_cons.mpr ⟨rfl, ih (h.of_subset (List.subset_cons_self x v)) hrest⟩

theorem infix_of_replaceAll (h : Avoids new v) (hv : v <:+: replaceAll old new 0 s) : v <:+: s := by
  by_cases hold : old = []
  · rw [hold, replaceAll_empty] at hv
    exact hv
  induction s using replace_induction old hold with
  | nil => exact hv
  | hit t ih =>
    rw [replaceAll_hit hold] at hv
    exact (ih (h.infix_append hv)).trans (List.suffix_append _ _).isInfix
  | miss a s hmiss ih =>
    rcases List.infix_cons_iff.mp (replaceAll_miss hmiss ▸ hv) with hv | hv
    · rw [← replaceAll_miss hmiss] at hv
      exact (prefix_of_replaceAll hnew h hv).isInfix
    · exact (ih hv).trans (List.suffix_cons a s).isInfix

/-- A result without a letter of the replacement is the text. -/
theorem replaceAll_eq_self (h : Avoids new (replaceAll old new 0 s)) :
    replaceAll old new 0 s = s := by
  by_cases hold : old = []
  · rw [hold, replaceAll_empty]
  induction s using replace_induction old hold with
  | nil => rfl
  | hit t ih =>
    rw [replaceAll_hit hold] at h
    have hnil := (h.of_subset (List.subset_append_left _ _)).eq_nil hnew (List.prefix_append new [])
    exact absurd hnil hnew
  | miss a s hmiss ih =>
    rw [replaceAll_miss hmiss] at h ⊢
    rw [ih (h.of_subset (List.subset_cons_self _ _))]

/-- The replaced word is gone. -/
theorem not_infix_replaceAll (h : Avoids new old) (hold : old ≠ []) (s : List α) :
    ¬ old <:+: replaceAll old new 0 s := by
  induction s using replace_induction old hold with
  | nil =>
    intro hv
    exact hold (List.infix_nil.mp hv)
  | hit t ih =>
    rw [replaceAll_hit hold]
    exact fun hv => ih (h.infix_append hv)
  | miss a s hmiss ih =>
    intro hv
    rcases List.infix_cons_iff.mp (replaceAll_miss hmiss ▸ hv) with hv | hv
    · rw [← replaceAll_miss hmiss] at hv
      exact hmiss (prefix_of_replaceAll hnew h hv)
    · exact ih hv

end Avoids

-- ======== what a replacement takes

/-- A replacement in `l ++ (old ++ r)` takes the occurrence after `l`. -/
inductive Cut (old : List α) : List α → List α → Prop where
  | here (r : List α) : Cut old [] r
  | hit {l r : List α} (h : Cut old l r) : Cut old (old ++ l) r
  | miss {c : α} {l r : List α} (hmiss : ¬ old <+: c :: (l ++ (old ++ r))) (h : Cut old l r) :
    Cut old (c :: l) r

theorem Cut.replaceAll {old new l r : List α} (hold : old ≠ []) (h : Cut old l r) :
    replaceAll old new 0 (l ++ (old ++ r))
      = Replace.replaceAll old new 0 l ++ (new ++ Replace.replaceAll old new 0 r) := by
  induction h with
  | here r => exact replaceAll_hit hold r
  | hit h ih => rw [List.append_assoc, replaceAll_hit hold, replaceAll_hit hold, ih,
      List.append_assoc]
  | @miss c l r hmiss h ih =>
    have hmiss' : ¬ old <+: c :: l := fun hpre =>
      hmiss (hpre.trans (List.prefix_append (c :: l) (old ++ r)))
    rw [List.cons_append, replaceAll_miss hmiss, replaceAll_miss hmiss', ih, List.cons_append]

/-- Two pieces of a text, given by where they start and how long they
are, have a letter in common. -/
def Shares (i m j n : Nat) : Prop := max i j < min (i + m) (j + n)

theorem Shares.common {β : Type} {l m r l' n r' : List β} (h : l ++ (m ++ r) = l' ++ (n ++ r'))
    (hshare : Shares l.length m.length l'.length n.length) : ∃ c ∈ m, c ∈ n := by
  unfold Shares at hshare
  have hm : max l.length l'.length - l.length < m.length := by omega
  have hn : max l.length l'.length - l'.length < n.length := by omega
  have hget := congrArg (·[max l.length l'.length]?) h
  simp only [List.getElem?_append_right (Nat.le_max_left l.length l'.length),
    List.getElem?_append_right (Nat.le_max_right l.length l'.length),
    List.getElem?_append_left hm, List.getElem?_append_left hn, List.getElem?_eq_getElem hm,
    List.getElem?_eq_getElem hn, Option.some.injEq] at hget
  exact ⟨_, List.getElem_mem hm, hget ▸ List.getElem_mem hn⟩

/-- The replacements of two words meet in a text: they take occurrences
with a letter in common, or what one of them writes becomes part of an
occurrence of the other word. -/
inductive Meets (new : List α) : List α → List α → List α → Prop where
  | clash {a b l r l' r' : List α} (h : l ++ (a ++ r) = l' ++ (b ++ r')) (ha : Cut a l r)
    (hb : Cut b l' r') (hshare : Shares l.length a.length l'.length b.length) :
    Meets new a b (l ++ (a ++ r))
  | feeds {a b l r l' r' : List α} (ha : Cut a l r)
    (h : replaceAll a new 0 (l ++ (a ++ r)) = l' ++ (b ++ r'))
    (hshare : Shares (replaceAll a new 0 l).length new.length l'.length b.length) :
    Meets new a b (l ++ (a ++ r))
  | symm {a b s : List α} (h : Meets new a b s) : Meets new b a s

section Commute

variable {a b w new s t x y z : List α}

/-- A replacement of `w` in `x ++ t` writes `y` for `x` and then goes on
with `t`. -/
structure Skips (new w x y t : List α) : Prop where
  cut : ∀ {l r}, t = l ++ (w ++ r) → Cut w l r → Cut w (x ++ l) r
  out : ∀ {l}, l <+: t → replaceAll w new 0 (x ++ l) = y ++ replaceAll w new 0 l

theorem Skips.hit (hw : w ≠ []) (t : List α) : Skips new w w new t :=
  ⟨fun _ h => .hit h, fun _ => replaceAll_hit hw _⟩

theorem Skips.nil : Skips new w [] [] t := ⟨fun _ h => h, fun _ => rfl⟩

theorem Skips.cons {c : α} (hmiss : ¬ w <+: c :: (x ++ t)) (h : Skips new w x x t) :
    Skips new w (c :: x) (c :: x) t := by
  constructor
  · rintro l r rfl hcut
    refine .miss ?_ (h.cut rfl hcut)
    show ¬ w <+: c :: (x ++ l ++ (w ++ r))
    rwa [List.append_assoc]
  · intro l hl
    have hmiss' : ¬ w <+: c :: (x ++ l) := fun hpre =>
      hmiss (hpre.trans (List.cons_prefix_cons.mpr ⟨rfl, (List.prefix_append_right_inj x).mpr hl⟩))
    rw [List.cons_append, replaceAll_miss hmiss', h.out hl, List.cons_append]

/-- A replacement that takes nothing from a piece leaves it. -/
theorem Skips.of_later (h : ∀ l r, x ++ t = l ++ (w ++ r) → Cut w l r → x.length ≤ l.length) :
    Skips new w x x t := by
  induction x with
  | nil => exact .nil
  | cons c x ih =>
    have hmiss : ¬ w <+: c :: (x ++ t) := by
      rintro ⟨r, hr⟩
      exact absurd (h [] r hr.symm (.here r)) (by simp)
    refine .cons hmiss (ih fun l r heq hcut => ?_)
    have hlater := h (c :: l) r (by rw [List.cons_append, heq, List.cons_append])
      (.miss (heq ▸ hmiss) hcut)
    exact Nat.le_of_succ_le_succ hlater

/-- A replacement leaves a piece that has no letter of its word. -/
theorem Skips.of_letters (hw : w ≠ []) (h : Avoids x w) (t : List α) : Skips new w x x t := by
  refine .of_later fun l r heq _ => ?_
  by_contra hlt
  have hpos := List.length_pos_of_ne_nil hw
  obtain ⟨c, hc, hc'⟩ := Shares.common (l := []) heq
    (by simp only [Shares, List.length_nil]; omega)
  exact h c hc' hc

/-- Two replacements that meet later in a text meet in it. -/
theorem Meets.after (h : Meets new a b t) (ha : Skips new a x y t) (hb : Skips new b x z t) :
    Meets new a b (x ++ t) := by
  induction h generalizing y z with
  | @clash a b l r l' r' heq hcut hcut' hshare =>
    rw [← List.append_assoc]
    refine .clash ?_ (ha.cut rfl hcut) (hb.cut heq hcut') ?_
    · rw [List.append_assoc, heq, List.append_assoc]
    · unfold Shares at hshare ⊢
      simp only [List.length_append]
      omega
  | @feeds a b l r l' r' hcut heq hshare =>
    have hout := ha.out (List.prefix_append l (a ++ r))
    have hall := ha.out (List.prefix_refl (l ++ (a ++ r)))
    have hfed : replaceAll a new 0 (x ++ l ++ (a ++ r)) = (y ++ l') ++ (b ++ r') := by
      rw [List.append_assoc, hall, heq, List.append_assoc]
    rw [← List.append_assoc]
    refine .feeds (ha.cut rfl hcut) hfed ?_
    unfold Shares at hshare ⊢
    rw [hout]
    simp only [List.length_append]
    omega
  | symm _ ih => exact (ih hb ha).symm

/-- A word at the beginning of the result was there before, or has part
of what was written. -/
theorem prefix_cases (hb : b ≠ []) (ha : a ≠ []) (h : a <+: replaceAll b new 0 s) :
    a <+: s ∨ ∃ l r, s = l ++ (b ++ r) ∧ Cut b l r ∧ (replaceAll b new 0 l).length < a.length := by
  induction s using replace_induction b hb generalizing a with
  | nil => exact Or.inl h
  | hit t ih => exact Or.inr ⟨[], t, rfl, .here t, List.length_pos_of_ne_nil ha⟩
  | miss c s hmiss ih =>
    rw [replaceAll_miss hmiss] at h
    cases a with
    | nil => exact absurd rfl ha
    | cons c' a =>
      obtain ⟨rfl, hrest⟩ := List.cons_prefix_cons.mp h
      by_cases hnil : a = []
      · rw [hnil]
        exact Or.inl (List.cons_prefix_cons.mpr ⟨rfl, List.nil_prefix⟩)
      rcases ih hnil hrest with hpre | ⟨l, r, rfl, hcut, hlen⟩
      · exact Or.inl (List.cons_prefix_cons.mpr ⟨rfl, hpre⟩)
      · have hmiss' : ¬ b <+: c' :: l := fun hpre =>
          hmiss (hpre.trans (List.prefix_append (c' :: l) (b ++ r)))
        refine Or.inr ⟨c' :: l, r, rfl, .miss hmiss hcut, ?_⟩
        rw [replaceAll_miss hmiss']
        exact Nat.succ_lt_succ hlen

/-- Words without a common letter do not meet, when what is written has no
letter of theirs either. -/
theorem not_meets_of_letters (ha : Avoids new a) (hb : Avoids new b) (hane : a ≠ []) (hbne : b ≠ [])
    (hcommon : ∀ c ∈ a, c ∉ b) : ¬ Meets new a b s := by
  intro h
  induction h with
  | clash heq _ _ hshare =>
    obtain ⟨c, hc, hc'⟩ := Shares.common heq hshare
    exact hcommon c hc hc'
  | feeds hcut heq hshare =>
    obtain ⟨c, hc, hc'⟩ := Shares.common ((hcut.replaceAll hane).symm.trans heq) hshare
    exact hb c hc' hc
  | symm _ ih => exact ih hb ha hbne hane fun c hc hc' => hcommon c hc' hc

/-- Words that meet are in the text, unless they have a letter of what is
written. -/
theorem Meets.occurs (h : Meets new a b s) :
    (Avoids new a → b ≠ [] → a <:+: s) ∧ (Avoids new b → a ≠ [] → b <:+: s) := by
  induction h with
  | clash heq _ _ _ =>
    exact ⟨fun _ _ => ⟨_, _, List.append_assoc _ _ _⟩,
      fun _ _ => ⟨_, _, (List.append_assoc _ _ _).trans heq.symm⟩⟩
  | feeds hcut heq hshare =>
    refine ⟨fun _ _ => ⟨_, _, List.append_assoc _ _ _⟩, fun hb hane => ?_⟩
    obtain ⟨c, hc, hc'⟩ := Shares.common ((hcut.replaceAll hane).symm.trans heq) hshare
    exact absurd hc (hb c hc')
  | symm _ ih => exact ih.symm

/-- Replacements that do not meet commute. -/
theorem replaceAll_comm (hnew : new ≠ []) (h : ¬ Meets new a b s) :
    replaceAll a new 0 (replaceAll b new 0 s) = replaceAll b new 0 (replaceAll a new 0 s) := by
  by_cases hane : a = []
  · rw [hane, replaceAll_empty, replaceAll_empty]
  by_cases hbne : b = []
  · rw [hbne, replaceAll_empty, replaceAll_empty]
  induction hn : s.length using Nat.strong_induction_on generalizing s with
  | _ n ih =>
  have hpos : ∀ {w : List α}, w ≠ [] → 0 < w.length := List.length_pos_of_ne_nil
  have hhit : ∀ {a b t : List α}, a ≠ [] → b ≠ [] → ¬ Meets new a b (a ++ t) →
      (¬ Meets new a b t → replaceAll a new 0 (replaceAll b new 0 t)
        = replaceAll b new 0 (replaceAll a new 0 t)) →
      replaceAll a new 0 (replaceAll b new 0 (a ++ t))
        = replaceAll b new 0 (replaceAll a new 0 (a ++ t)) := by
    intro a b t hane hbne h hrec
    have hpass : Skips new b a a t := .of_later fun l r heq hcut => by
      by_contra hlt
      have := hpos hbne
      have := hpos hane
      refine h (.clash (l := []) heq (.here t) hcut ?_)
      simp only [Shares, List.length_nil]
      omega
    have hwritten : Skips new b new new (replaceAll a new 0 t) := .of_later fun l r heq _ => by
      by_contra hlt
      have := hpos hbne
      have := hpos hnew
      refine h (.feeds (l := []) (.here t) ((replaceAll_hit hane t).trans heq) ?_)
      simp only [Shares, replaceAll, List.length_nil]
      omega
    rw [hpass.out (List.prefix_refl t), replaceAll_hit hane, replaceAll_hit hane,
      hwritten.out (List.prefix_refl _), hrec fun hmeets => h (hmeets.after (.hit hane t) hpass)]
  have hshorter : ∀ {w t : List α}, w ≠ [] → w ++ t = s → t.length < n := by
    intro w t hw hs
    have := hpos hw
    rw [← hn, ← hs, List.length_append]
    omega
  by_cases hpa : a <+: s
  · obtain ⟨t, rfl⟩ := hpa
    exact hhit hane hbne h fun h' => ih t.length (hshorter hane rfl) h' rfl
  by_cases hpb : b <+: s
  · obtain ⟨t, rfl⟩ := hpb
    exact (hhit hbne hane (fun h' => h h'.symm)
      fun h' => (ih t.length (hshorter hbne rfl) (fun h'' => h' h''.symm) rfl).symm).symm
  cases s with
  | nil => rfl
  | cons c s =>
    have hmiss : ∀ {v w : List α}, v ≠ [] → w ≠ [] → ¬ Meets new w v (c :: s) → ¬ v <+: c :: s →
        ¬ w <+: c :: s → ¬ v <+: c :: replaceAll w new 0 s := by
      intro v w hvne hwne hapart hvs hws hpre
      rw [← replaceAll_miss hws] at hpre
      rcases prefix_cases hwne hvne hpre with hpre' | ⟨l, r, heq, hcut, hlen⟩
      · exact hvs hpre'
      · obtain ⟨r', hr'⟩ := hpre
        rw [heq] at hapart hr'
        have hfed : replaceAll w new 0 (l ++ (w ++ r)) = [] ++ (v ++ r') := hr'.symm
        refine hapart (.feeds hcut hfed ?_)
        have := hpos hnew
        simp only [Shares, List.length_nil]
        omega
    have hskip : ∀ {w : List α}, ¬ w <+: c :: s → Skips new w [c] [c] s :=
      fun hw => .cons hw .nil
    rw [replaceAll_miss hpb, replaceAll_miss hpa,
      replaceAll_miss (hmiss hane hbne (fun h' => h h'.symm) hpa hpb),
      replaceAll_miss (hmiss hbne hane h hpb hpa),
      ih s.length (hshorter (List.cons_ne_nil c []) rfl)
        (fun h' => h (h'.after (hskip hpa) (hskip hpb))) rfl]

end Commute

-- ======== words across the parts

section Parts

variable {β : Type} {v : List β} {xs : List (List β)}

/-- The end of a word that starts where a text starts: whole parts of
the text, and the beginning of the next. -/
theorem prefix_flatten (hv : v ≠ []) (h : v <+: xs.flatten) :
    ∃ mids y after p, xs = mids ++ y :: after ∧ v = mids.flatten ++ p ∧ p ≠ [] ∧ p <+: y := by
  induction xs generalizing v with
  | nil => exact absurd (List.prefix_nil.mp h) hv
  | cons x xs ih =>
    rcases List.prefix_or_prefix_of_prefix h (List.prefix_append x xs.flatten) with hx | ⟨w, rfl⟩
    · exact ⟨[], x, xs, v, rfl, by simp, hv, hx⟩
    by_cases hw : w = []
    · subst hw
      rw [List.append_nil] at hv ⊢
      exact ⟨[], x, xs, x, rfl, by simp, hv, List.prefix_rfl⟩
    · obtain ⟨mids, y, after, p, rfl, rfl, hp, hy⟩ :=
        ih hw ((List.prefix_append_right_inj x).mp h)
      exact ⟨x :: mids, y, after, p, rfl, by simp, hp, hy⟩

/-- A word of a text that is a word of no part of it lies across parts:
it has the end of one, whole parts, and the beginning of another. -/
theorem infix_flatten (hv : v ≠ []) (h : v <:+: xs.flatten) (hnone : ∀ x ∈ xs, ¬ v <:+: x) :
    ∃ before x mids y after s p, xs = before ++ x :: (mids ++ y :: after)
      ∧ v = s ++ (mids.flatten ++ p) ∧ s ≠ [] ∧ s <:+ x ∧ p ≠ [] ∧ p <+: y := by
  induction xs with
  | nil => exact absurd (List.infix_nil.mp h) hv
  | cons x xs ih =>
    obtain ⟨a, b, heq⟩ := h
    have hlater : v <:+: xs.flatten → _ := fun hrest =>
      ih hrest fun y hy => hnone y (List.mem_cons_of_mem x hy)
    have hfirst : ∀ s, x = a ++ s → ¬ v <+: s := by
      rintro s rfl ⟨c, rfl⟩
      exact hnone _ List.mem_cons_self ⟨a, c, by simp⟩
    have hadd : (∃ before x' mids y after s p, xs = before ++ x' :: (mids ++ y :: after)
          ∧ v = s ++ (mids.flatten ++ p) ∧ s ≠ [] ∧ s <:+ x' ∧ p ≠ [] ∧ p <+: y) →
        ∃ before x' mids y after s p, x :: xs = before ++ x' :: (mids ++ y :: after)
            ∧ v = s ++ (mids.flatten ++ p) ∧ s ≠ [] ∧ s <:+ x' ∧ p ≠ [] ∧ p <+: y := by
      rintro ⟨before, x', mids, y, after, s, p, rfl, hrest⟩
      exact ⟨x :: before, x', mids, y, after, s, p, rfl, hrest⟩
    rw [List.append_assoc] at heq
    rcases List.append_eq_append_iff.mp heq with ⟨s, hx, hrest⟩ | ⟨a', -, hrest⟩
    · rcases List.append_eq_append_iff.mp hrest with ⟨c, hs, -⟩ | ⟨p, hvp, hflat⟩
      · exact absurd ⟨c, hs.symm⟩ (hfirst s hx)
      by_cases hs : s = []
      · subst hs
        exact hadd (hlater ⟨[], b, by simp [hvp, hflat]⟩)
      by_cases hp : p = []
      · subst hp
        exact absurd ⟨[], by simp [hvp]⟩ (hfirst s hx)
      · obtain ⟨mids, y, after, q, rfl, rfl, hq, hy⟩ := prefix_flatten hp ⟨b, hflat.symm⟩
        exact ⟨[], x, mids, y, after, s, q, rfl, hvp, hs, ⟨a, hx.symm⟩, hq, hy⟩
    · exact hadd (hlater ⟨a', b, by rw [hrest, List.append_assoc]⟩)

end Parts

end Replace
