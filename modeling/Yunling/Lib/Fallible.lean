/-
Loops that may fail.

A loop that ends on its first error is a `foldlM` in `Except`. A run
that did not fail is taken apart turn by turn (`ok_of_bind`,
`foldlM_rel`), or at one of its turns (`foldlM_range_at`); a loop over
the indices of a list does not fail, and keeps an invariant that says how
far it is, when every turn does (`foldlM_range`).
-/
import Mathlib.Data.List.Basic

namespace Fallible

variable {ε σ ι α β : Type} {f : ι → Except ε α} {is : List ι}

/-- What succeeds in two steps succeeds in each. -/
theorem ok_of_bind {x : Except ε α} {f : α → Except ε β} {b : β}
    (h : (x >>= f) = .ok b) : ∃ a, x = .ok a ∧ f a = .ok b := by
  cases x with
  | error e => cases h
  | ok a => exact ⟨a, rfl, h⟩

/-- A loop that collects its results ends well when every turn does. -/
theorem exists_mapM_ok : (∃ as, is.mapM f = .ok as) ↔ ∀ i ∈ is, ∃ a, f i = .ok a := by
  induction is with
  | nil => simp [pure, Except.pure]
  | cons i is ih =>
    rw [List.mapM_cons, List.forall_mem_cons, ← ih]
    constructor
    · rintro ⟨as, h⟩
      obtain ⟨a, ha, h⟩ := ok_of_bind h
      obtain ⟨rest, hrest, -⟩ := ok_of_bind h
      exact ⟨⟨a, ha⟩, rest, hrest⟩
    · rintro ⟨⟨a, ha⟩, rest, hrest⟩
      exact ⟨a :: rest, by rw [ha, hrest]; rfl⟩

/-- It collects what its turns give. -/
theorem mem_mapM_ok {as : List α}
    (h : is.mapM f = .ok as) (a : α) : a ∈ as ↔ ∃ i ∈ is, f i = .ok a := by
  induction is generalizing as with
  | nil => cases h; simp
  | cons i is ih =>
    rw [List.mapM_cons] at h
    obtain ⟨first, hfirst, h⟩ := ok_of_bind h
    obtain ⟨rest, hrest, h⟩ := ok_of_bind h
    cases h
    simp [ih hrest, hfirst, eq_comm]

/-- What every turn relates, a loop relates. -/
theorem foldlM_rel {f : σ → ι → Except ε σ} {R : σ → σ → Prop}
    (hrefl : ∀ s, R s s) (htrans : ∀ {s s' s''}, R s s' → R s' s'' → R s s'')
    (hturn : ∀ {s s' i}, f s i = .ok s' → R s s') {s s' : σ}
    (h : is.foldlM f s = .ok s') : R s s' := by
  induction is generalizing s with
  | nil => cases h; exact hrefl _
  | cons i is ih =>
    obtain ⟨middle, hfirst, hrest⟩ := ok_of_bind h
    exact htrans (hturn hfirst) (ih hrest)

/-- A loop over `0, …, n - 1` whose turns do not fail and carry an
invariant on. -/
theorem foldlM_range {f : σ → Nat → Except ε σ} {I : Nat → σ → Prop} {n : Nat}
    (hturn : ∀ k s, k < n → I k s → ∃ s', f s k = .ok s' ∧ I (k + 1) s') {s : σ} (h : I 0 s) :
    ∃ s', (List.range n).foldlM f s = .ok s' ∧ I n s' := by
  induction n with
  | zero => exact ⟨s, rfl, h⟩
  | succ n ih =>
    obtain ⟨middle, hfold, hmiddle⟩ := ih fun k s hk => hturn k s (Nat.lt_succ_of_lt hk)
    obtain ⟨s', hlast, hs'⟩ := hturn n middle (Nat.lt_succ_self n) hmiddle
    refine ⟨s', ?_, hs'⟩
    rw [List.range_succ, List.foldlM_append, hfold]
    show ([n].foldlM f middle) = .ok s'
    rw [List.foldlM_cons, hlast]
    rfl

/-- A loop that did not fail, at one of its turns. -/
theorem foldlM_range_at {f : σ → Nat → Except ε σ} {n i : Nat} (hi : i < n) {s middle s' : σ}
    (hbefore : (List.range i).foldlM f s = .ok middle) (h : (List.range n).foldlM f s = .ok s') :
    ∃ next, f middle i = .ok next ∧ (List.range' (i + 1) (n - i - 1)).foldlM f next = .ok s' := by
  have hsplit : List.range n = List.range i ++ i :: List.range' (i + 1) (n - i - 1) := by
    rw [← List.range'_succ, Nat.sub_add_cancel (by omega : 1 ≤ n - i),
      List.range_eq_range', List.range_eq_range']
    have hjoin : List.range' 0 i ++ List.range' (0 + i) (n - i)
        = List.range' 0 (i + (n - i)) := List.range'_append_1
    rw [Nat.zero_add, Nat.add_sub_cancel' (Nat.le_of_lt hi)] at hjoin
    exact hjoin.symm
  rw [hsplit, List.foldlM_append, hbefore] at h
  exact ok_of_bind h

end Fallible
