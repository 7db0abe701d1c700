/-
Hashes: fields with values, as a key-value server keeps them.

A hash is a table whose rows are a field and its value. Setting a field
writes it in place, so writing what is there changes nothing
(`set_of_get?`); the same holds for deleting what is not there
(`del_of_get?`). Equal hashes are therefore what an idempotence argument
can ask for.

# Totals

`total f` adds up `f` of the values, in any commutative group. Setting
or deleting one field moves it by the difference of the new value and the
old one (`total_set`, `total_del`). A ledger that keeps such a total in a
counter is exact when each of its operations moves the counter by that
difference.
-/
import Yunling.Lib.Table
import Mathlib.Algebra.BigOperators.Group.List.Basic
import Mathlib.Algebra.Order.BigOperators.Group.List
import Mathlib.Tactic.Abel

namespace Relational

/-- Fields with values. -/
abbrev Hash (κ β : Type) := Table (κ × β) κ Prod.fst

namespace Hash

variable {κ β : Type} [DecidableEq κ]

-- ======== operations

/-- `HGET`. -/
def get? (h : Hash κ β) (k : κ) : Option β := (h.find? k).map Prod.snd

/-- `HSET`. -/
def set (h : Hash κ β) (k : κ) (v : β) : Hash κ β :=
  if hk : h.find? k = none then h.insert (k, v) hk
  else h.update (fun e => e.1 = k) (fun e => (e.1, v)) fun _ => rfl

/-- `HDEL`. -/
def del (h : Hash κ β) (k : κ) : Hash κ β := h.delete fun e => e.1 = k

-- ======== reading

variable {h : Hash κ β} {k : κ} {v : β}

theorem get?_eq_some : h.get? k = some v ↔ (k, v) ∈ h.rows := by
  unfold get?
  rw [Option.map_eq_some_iff]
  constructor
  · intro ⟨e, he, hv⟩
    obtain ⟨hmem, hk⟩ := h.find?_eq_some.mp he
    rw [← hk, ← hv]
    exact hmem
  · intro hmem
    exact ⟨(k, v), h.find?_eq_some.mpr ⟨hmem, rfl⟩, rfl⟩

theorem get?_eq_none : h.get? k = none ↔ h.find? k = none := Option.map_eq_none_iff

/-- The rows of a hash after a write. -/
theorem set_rows (h : Hash κ β) (k : κ) (v : β) :
    (h.set k v).rows = if h.get? k = none then h.rows ++ [(k, v)]
      else h.rows.map (Table.amend (fun e => e.1 = k) fun e => (e.1, v)) := by
  unfold set
  by_cases hk : h.find? k = none
  · rw [dif_pos hk, if_pos (get?_eq_none.mpr hk)]
    rfl
  · rw [dif_neg hk, if_neg fun hg => hk (get?_eq_none.mp hg)]
    rfl

theorem get?_delete (h : Hash κ β) (p : κ → Bool) (k : κ) :
    Hash.get? (h.delete fun e => p e.1) k = if p k then none else h.get? k := by
  apply Option.ext
  intro v
  rw [get?_eq_some, Table.mem_delete]
  cases hp : p k with
  | true => simp
  | false => simp [get?_eq_some]

theorem get?_del (h : Hash κ β) (k k' : κ) :
    (h.del k).get? k' = if k' = k then none else h.get? k' := by
  have hdel := get?_delete h (fun e => decide (e = k)) k'
  simp only [decide_eq_true_eq] at hdel
  exact hdel

theorem get?_del_eq_some {k' : κ} (hg : (h.del k).get? k' = some v) :
    k' ≠ k ∧ h.get? k' = some v := by
  rw [get?_del] at hg
  by_cases hk : k' = k
  · rw [if_pos hk] at hg
    cases hg
  · rw [if_neg hk] at hg
    exact ⟨hk, hg⟩

theorem get?_set (h : Hash κ β) (k k' : κ) (v : β) :
    (h.set k v).get? k' = if k' = k then some v else h.get? k' := by
  apply Option.ext
  intro w
  rw [get?_eq_some, set_rows]
  by_cases hk : k' = k
  · subst hk
    rw [if_pos rfl, Option.some_inj]
    cases hg : h.get? k' with
    | none =>
      have hnot : (k', w) ∉ h.rows := fun hm => by
        rw [get?_eq_some.mpr hm] at hg
        cases hg
      simp [hnot, eq_comm]
    | some old =>
      have hold := get?_eq_some.mp hg
      simp only [reduceCtorEq, if_false, List.mem_map, Table.amend, decide_eq_true_eq]
      constructor
      · rintro ⟨e, _, he⟩
        split at he
        · exact (Prod.ext_iff.mp he).2
        · next hne => exact absurd (congrArg Prod.fst he) hne
      · intro hv
        exact ⟨(k', old), hold, by simp [hv]⟩
  · rw [if_neg hk, get?_eq_some]
    split
    · simp [hk]
    simp only [List.mem_map, Table.amend, decide_eq_true_eq]
    constructor
    · rintro ⟨e, he, hew⟩
      split at hew
      · next heq => exact absurd ((congrArg Prod.fst hew).symm.trans heq) hk
      · rw [← hew]
        exact he
    · intro hm
      exact ⟨(k', w), hm, if_neg hk⟩

-- ======== writes of nothing

theorem set_of_get? (hg : h.get? k = some v) : h.set k v = h := by
  apply Table.ext_rows
  rw [set_rows, if_neg (by simp [hg])]
  refine (List.map_congr_left fun e he => ?_).trans (List.map_id _)
  unfold Table.amend
  split
  · next hk =>
    have hk' : e.1 = k := by simpa using hk
    have hrow : e = (k, v) := h.eq_of_key_eq he (get?_eq_some.mp hg) hk'
    rw [hrow, id]
  · rfl

theorem del_of_get? (hg : h.get? k = none) : h.del k = h := by
  apply Table.ext_rows
  refine List.filter_eq_self.mpr fun e he => ?_
  have hne := h.find?_eq_none.mp (get?_eq_none.mp hg) e he
  simpa using hne

theorem del_set (h : Hash κ β) (k : κ) (v : β) : (h.set k v).del k = h.del k := by
  apply Table.ext_rows
  show (h.set k v).rows.filter _ = h.rows.filter _
  rw [set_rows]
  split
  · simp
  rw [List.filter_map]
  have hcomp : (fun e : κ × β => !decide (e.1 = k))
      ∘ Table.amend (fun e => e.1 = k) (fun e => (e.1, v)) = fun e => !decide (e.1 = k) := by
    funext e
    have hkey : (Table.amend (fun e : κ × β => decide (e.1 = k))
        (fun e => (e.1, v)) e).1 = e.1 := by
      unfold Table.amend
      split <;> rfl
    rw [Function.comp, hkey]
  rw [hcomp]
  refine (List.map_congr_left fun e he => ?_).trans (List.map_id _)
  exact Table.amend_neg (by simpa using (List.mem_filter.mp he).2)

/-- The later of two writes counts. -/
theorem set_set (h : Hash κ β) (k : κ) (v w : β) : (h.set k v).set k w = h.set k w := by
  apply Table.ext_rows
  have hthere : (h.set k v).get? k ≠ none := by
    rw [get?_set]
    simp
  rw [set_rows, if_neg hthere, set_rows, set_rows]
  by_cases hk : h.get? k = none
  · have hrest : h.rows.map (Table.amend (fun e => e.1 = k) fun e => (e.1, w)) = h.rows := by
      refine (List.map_congr_left fun e he => ?_).trans (List.map_id _)
      have hne := h.find?_eq_none.mp (get?_eq_none.mp hk) e he
      exact Table.amend_neg (by simpa using hne)
    simp [hk, hrest, Table.amend]
  · rw [if_neg hk, if_neg hk, List.map_map]
    refine List.map_congr_left fun e _ => ?_
    by_cases he : e.1 = k
    · simp [Table.amend, he]
    · simp [Table.amend, he]

-- ======== totals

section Totals

variable {M : Type} [AddCommGroup M] (f : β → M)

/-- The values of a hash, added up. -/
def total (h : Hash κ β) : M := (h.rows.map fun e => f e.2).sum

/-- What one field adds to the total. -/
def share (h : Hash κ β) (k : κ) : M := ((h.get? k).map f).getD 0

theorem total_eq_del_add_share (h : Hash κ β) (k : κ) :
    total f h = total f (h.del k) + share f h k := by
  show (h.rows.map fun e => f e.2).sum
    = ((h.rows.filter fun e => !decide (e.1 = k)).map fun e => f e.2).sum
      + (((h.rows.find? fun e => decide (e.1 = k)).map Prod.snd).map f).getD 0
  have hnodup := h.nodup
  generalize h.rows = rows at hnodup ⊢
  -- the keys are distinct, so below a row with key `k` there is none
  induction rows with
  | nil => simp
  | cons e rows ih =>
    rw [List.map_cons, List.nodup_cons] at hnodup
    by_cases hk : e.1 = k
    · have hrest : rows.filter (fun e => !decide (e.1 = k)) = rows := by
        refine List.filter_eq_self.mpr fun e' he' => ?_
        have hne : e'.1 ≠ k := fun hk' =>
          hnodup.1 (List.mem_map.mpr ⟨e', he', hk'.trans hk.symm⟩)
        simpa using hne
      simp [hk, hrest, add_comm]
    · have ih' := ih hnodup.2
      simp only [List.map_cons, List.sum_cons, hk, decide_false,
        Bool.not_false, List.filter_cons_of_pos, List.find?_cons]
      rw [ih']
      exact (add_assoc _ _ _).symm

theorem total_del (h : Hash κ β) (k : κ) : total f (h.del k) = total f h - share f h k := by
  rw [total_eq_del_add_share f h k]
  abel

theorem total_set (h : Hash κ β) (k : κ) (v : β) :
    total f (h.set k v) = total f h - share f h k + f v := by
  rw [total_eq_del_add_share f (h.set k v) k, del_set, total_del]
  unfold share
  rw [get?_set, if_pos rfl]
  rfl

/-- Values that are not negative have a total that is not. -/
theorem total_nonneg [PartialOrder M] [IsOrderedAddMonoid M]
    {h : Hash κ β} (hf : ∀ k v, h.get? k = some v → 0 ≤ f v) : 0 ≤ total f h := by
  refine List.sum_nonneg fun x hx => ?_
  obtain ⟨e, he, rfl⟩ := List.mem_map.mp hx
  exact hf e.1 e.2 (get?_eq_some.mpr he)

end Totals

end Hash

end Relational
