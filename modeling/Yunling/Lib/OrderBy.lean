/-
`ORDER BY`: the orders rows are listed in, and what the first row of a
listing is.

An order is built from keys: `Asc key` compares by one key, `Lex key r`
by one key and among equals by `r`. A descending key is a negated one.
Sorting is Mathlib's stable insertion sort, which evaluates; its head
comes before every other element (`head?_insertionSort`).
-/
import Mathlib.Data.List.Sort
import Mathlib.Data.String.Basic

namespace OrderBy

variable {α : Type} {r : α → α → Prop} {l : List α}

/-- The head of a sorted list comes before every element. -/
theorem head?_insertionSort [DecidableRel r] [Std.Total r] [IsTrans α r] {a : α}
    (h : (l.insertionSort r).head? = some a) : a ∈ l ∧ ∀ b ∈ l, r a b := by
  have hmem : a ∈ l := (List.mem_insertionSort r).mp (List.mem_of_head? h)
  refine ⟨hmem, fun b hb => ?_⟩
  have hsorted := List.pairwise_insertionSort r l
  have hb' : b ∈ l.insertionSort r := (List.mem_insertionSort r).mpr hb
  cases hs : l.insertionSort r with
  | nil => rw [hs] at hb'; cases hb'
  | cons c rest =>
    rw [hs] at h hsorted hb'
    cases h
    rcases List.mem_cons.mp hb' with rfl | hrest
    · exact (total_of r b b).elim id id
    · exact List.rel_of_pairwise_cons hsorted hrest

/-- The last of a sorted list comes after every element. -/
theorem getLast?_insertionSort [DecidableRel r] [Std.Total r] [IsTrans α r] {a : α}
    (h : (l.insertionSort r).getLast? = some a) : a ∈ l ∧ ∀ b ∈ l, r b a := by
  obtain ⟨init, hinit⟩ := List.getLast?_eq_some_iff.mp h
  have hsorted := List.pairwise_insertionSort r l
  rw [hinit, List.pairwise_append] at hsorted
  refine ⟨(List.mem_insertionSort r).mp (by simp [hinit]), fun b hb => ?_⟩
  have hb' : b ∈ l.insertionSort r := (List.mem_insertionSort r).mpr hb
  rw [hinit, List.mem_append, List.mem_singleton] at hb'
  rcases hb' with hb' | rfl
  · exact hsorted.2.2 b hb' a List.mem_cons_self
  · exact (total_of r b b).elim id id

theorem orderedInsert_concat [DecidableRel r] {b c : α} (h : r b c) (l : List α) :
    List.orderedInsert r b (l ++ [c]) = List.orderedInsert r b l ++ [c] := by
  induction l with
  | nil => simp [List.orderedInsert, h]
  | cons a l ih =>
    simp only [List.cons_append, List.orderedInsert_cons]
    split
    · rfl
    · rw [ih, List.cons_append]

/-- What comes after everything is listed last. -/
theorem insertionSort_concat [DecidableRel r] {c : α} (h : ∀ a ∈ l, r a c) :
    (l ++ [c]).insertionSort r = l.insertionSort r ++ [c] := by
  induction l with
  | nil => rfl
  | cons a l ih =>
    simp only [List.cons_append, List.insertionSort_cons]
    rw [ih fun b hb => h b (List.mem_cons_of_mem a hb),
      orderedInsert_concat (h a List.mem_cons_self)]

theorem insertionSort_append [DecidableRel r] {l cs : List α} (h : ∀ a ∈ l, ∀ c ∈ cs, r a c)
    (hcs : cs.Pairwise r) : (l ++ cs).insertionSort r = l.insertionSort r ++ cs := by
  induction cs generalizing l with
  | nil => simp
  | cons c cs ih =>
    rw [List.pairwise_cons] at hcs
    have hnext : ∀ a ∈ l ++ [c], ∀ d ∈ cs, r a d := by
      intro a ha d hd
      rcases List.mem_append.mp ha with ha | ha
      · exact h a ha d (List.mem_cons_of_mem c hd)
      · exact List.mem_singleton.mp ha ▸ hcs.1 d hd
    rw [← List.singleton_append, ← List.append_assoc, ih hnext hcs.2,
      insertionSort_concat fun a ha => h a ha c List.mem_cons_self, List.append_assoc]

/-- Compare by `key`. -/
def Asc {β : Type} [LE β] (key : α → β) (a b : α) : Prop := key a ≤ key b

section Asc

variable {β : Type} [LinearOrder β] {key : α → β}

instance : DecidableRel (Asc key) := fun a b =>
  inferInstanceAs (Decidable (key a ≤ key b))

instance : Std.Total (Asc key) where
  total a b := le_total (key a) (key b)

instance : IsTrans α (Asc key) where
  trans _ _ _ hab hbc := le_trans hab hbc

end Asc

/-- Compare by `key`, and among equal keys by `r`. -/
def Lex {β : Type} [LT β] (key : α → β) (r : α → α → Prop) (a b : α) : Prop :=
  key a < key b ∨ key a = key b ∧ r a b

section Lex

variable {β : Type} [LinearOrder β] {key : α → β} {r : α → α → Prop}

instance [DecidableRel r] : DecidableRel (Lex key r) := fun a b =>
  inferInstanceAs (Decidable (key a < key b ∨ key a = key b ∧ r a b))

instance [Std.Total r] : Std.Total (Lex key r) where
  total a b := by
    rcases lt_trichotomy (key a) (key b) with h | h | h
    · exact Or.inl (Or.inl h)
    · rcases total_of r a b with hr | hr
      · exact Or.inl (Or.inr ⟨h, hr⟩)
      · exact Or.inr (Or.inr ⟨h.symm, hr⟩)
    · exact Or.inr (Or.inl h)

instance [IsTrans α r] : IsTrans α (Lex key r) where
  trans a b c hab hbc := by
    rcases hab with hab | ⟨hab, rab⟩
    · rcases hbc with hbc | ⟨hbc, -⟩
      · exact Or.inl (hab.trans hbc)
      · exact Or.inl (hbc ▸ hab)
    · rcases hbc with hbc | ⟨hbc, rbc⟩
      · exact Or.inl (hab ▸ hbc)
      · exact Or.inr ⟨hab.trans hbc, IsTrans.trans a b c rab rbc⟩

theorem Lex.key_le {a b : α} (h : Lex key r a b) : key a ≤ key b := by
  rcases h with h | ⟨h, -⟩
  · exact h.le
  · exact h.le

end Lex

end OrderBy
