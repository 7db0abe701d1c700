/-
Lists that are related element by element.

`List.Forall₂ R l l'` is how a loop that rewrites some elements of a list
in place is described: every element is related to what became of it.
The relation is kept by rewriting one element (`set`) and by chaining
rewrites (`trans`), and read for some element (`mem_left`, `mem_right`),
at an index (`at_index`) or for a projection that it keeps (`map_eq`).
-/
import Mathlib.Data.List.Forall2

namespace Pointwise

variable {α : Type} {R : α → α → Prop} {l l' l'' : List α} {a : α}

/-- One element is rewritten, the others are kept. -/
theorem set (hrefl : ∀ a, R a a) {i : Nat} {b : α} (ha : l[i]? = some a) (hab : R a b) :
    List.Forall₂ R l (l.set i b) := by
  induction l generalizing i with
  | nil => cases ha
  | cons x l ih =>
    cases i with
    | zero =>
      obtain rfl : x = a := by simpa using ha
      exact .cons hab (List.forall₂_same.mpr fun a _ => hrefl a)
    | succ i => exact .cons (hrefl x) (ih (by simpa using ha))

/-- Rewrites are chained. -/
theorem trans (htrans : ∀ a b c, R a b → R b c → R a c)
    (h : List.Forall₂ R l l') (h' : List.Forall₂ R l' l'') : List.Forall₂ R l l'' := by
  induction h generalizing l'' with
  | nil => exact h'
  | cons hab _ ih =>
    cases h' with
    | cons hbc hrest => exact .cons (htrans _ _ _ hab hbc) (ih hrest)

/-- What the relation keeps is kept along the list. -/
theorem map_eq {β : Type} {f : α → β} (hf : ∀ a b, R a b → f b = f a)
    (h : List.Forall₂ R l l') : l'.map f = l.map f := by
  induction h with
  | nil => rfl
  | cons hab _ ih => rw [List.map_cons, List.map_cons, hf _ _ hab, ih]

variable (h : List.Forall₂ R l l')

include h

theorem at_index {i : Nat} (ha : l[i]? = some a) : ∃ b, l'[i]? = some b ∧ R a b := by
  induction h generalizing i with
  | nil => cases ha
  | cons hab _ ih =>
    cases i with
    | zero =>
      cases ha
      exact ⟨_, rfl, hab⟩
    | succ i => exact ih ha

theorem mem_left (ha : a ∈ l) : ∃ b ∈ l', R a b := by
  obtain ⟨i, hi⟩ := List.getElem?_of_mem ha
  obtain ⟨b, hb, hr⟩ := at_index h hi
  exact ⟨b, List.mem_of_getElem? hb, hr⟩

theorem mem_right {b : α} (hb : b ∈ l') : ∃ a ∈ l, R a b := mem_left h.flip hb

end Pointwise
