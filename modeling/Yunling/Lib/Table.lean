/-
Keyed tables: the relational fragment the transactions are written in.

A table is a list of rows whose keys are pairwise distinct; the primary
key is part of the type, so a table that violates it cannot be built
and no later proof re-establishes it. Rows keep their insertion order,
which nothing may depend on except through an explicit sort.

# Statements

- `update p f` is `UPDATE … SET f WHERE p`: a row-wise map. `f` carries
  the proof that it leaves the key alone.
- `insert?` is `INSERT`: it refuses a key that is taken.
- `upsert` is `INSERT … ON CONFLICT DO UPDATE`.
- `find?` is a primary key `SELECT`; `find?_eq_some` is the reading
  lemma every caller uses instead of unfolding it.

# Counting

Quota arguments count rows before and after a row-wise change.
`countP_map_le` bounds the new count by the old one plus the rows that
came in; `countP_le_one` says that a predicate pinned to one key holds
of at most one row. An update of one row (`countP_amend_key_le`) and one
that brings nothing in (`countP_amend_le`) are their instances.
`countP_amend_key` is exact for one row.

# Loops

A transaction that reads a list of rows and then updates them one by
one is, row by row, the single update its own row triggers
(`foldl_update_rows`): the rows read are distinct, so no iteration sees
another one's effect.
-/
import Mathlib.Data.List.Nodup
import Mathlib.Data.List.Count

namespace Relational

/-- Rows under a primary key. -/
structure Table (ρ κ : Type) (key : ρ → κ) where
  rows : List ρ
  nodup : (rows.map key).Nodup

namespace Table

variable {ρ κ : Type} {key : ρ → κ} {p : ρ → Bool} {f : ρ → ρ} {r : ρ} {t : Table ρ κ key} {k : κ}

/-- A table is its rows. -/
theorem ext_rows {t u : Table ρ κ key} (h : t.rows = u.rows) : t = u := by
  cases u
  cases h
  rfl

/-- The empty table. -/
def empty : Table ρ κ key where
  rows := []
  nodup := List.nodup_nil

@[simp] theorem empty_rows : (empty : Table ρ κ key).rows = [] := rfl

-- ======== updates

/-- One row under `UPDATE … SET f WHERE p`. -/
def amend (p : ρ → Bool) (f : ρ → ρ) (r : ρ) : ρ := if p r then f r else r

theorem amend_pos (h : p r = true) : amend p f r = f r := if_pos h

theorem amend_neg (h : p r = false) : amend p f r = r := if_neg (by simp [h])

theorem map_amend_self (h : ∀ r, f r = r) (l : List ρ) : l.map (amend p f) = l := by
  have hid : amend p f = id := by
    funext r
    unfold amend
    split
    · exact h r
    · rfl
  rw [hid, List.map_id]

theorem key_amend (hf : ∀ r, key (f r) = key r) (r : ρ) : key (amend p f r) = key r := by
  unfold amend
  split
  · exact hf r
  · rfl

/-- `UPDATE … SET f WHERE p`. -/
def update (t : Table ρ κ key) (p : ρ → Bool) (f : ρ → ρ)
    (hf : ∀ r, key (f r) = key r) : Table ρ κ key where
  rows := t.rows.map (amend p f)
  nodup := by
    have hkeys : (t.rows.map (amend p f)).map key = t.rows.map key := by
      rw [List.map_map]
      exact List.map_congr_left fun r _ => key_amend hf r
    rw [hkeys]
    exact t.nodup

@[simp] theorem update_rows (t : Table ρ κ key) (p : ρ → Bool) (f : ρ → ρ)
    (hf : ∀ r, key (f r) = key r) : (t.update p f hf).rows = t.rows.map (amend p f) := rfl

-- ======== deletes

/-- `DELETE … WHERE p`. -/
def delete (t : Table ρ κ key) (p : ρ → Bool) : Table ρ κ key where
  rows := t.rows.filter fun r => !p r
  nodup := t.nodup.sublist (List.filter_sublist.map key)

theorem mem_delete : r ∈ (t.delete p).rows ↔ r ∈ t.rows ∧ p r = false := by
  unfold delete
  simp

-- ======== primary key access

/-- Two rows of a table with one key are one row. -/
theorem eq_of_key_eq (t : Table ρ κ key) {r s : ρ} (hr : r ∈ t.rows)
    (hs : s ∈ t.rows) (h : key r = key s) : r = s := List.inj_on_of_nodup_map t.nodup hr hs h

variable [DecidableEq κ]

/-- `SELECT … WHERE key = k`. -/
def find? (t : Table ρ κ key) (k : κ) : Option ρ :=
  t.rows.find? fun r => key r = k

/-- A primary key lookup finds exactly the row that carries the key. -/
theorem find?_eq_some (t : Table ρ κ key) : t.find? k = some r ↔ r ∈ t.rows ∧ key r = k := by
  constructor
  · intro h
    exact ⟨List.mem_of_find?_eq_some h, by simpa using List.find?_some h⟩
  intro ⟨hr, hk⟩
  cases hf : t.find? k with
  | none =>
    have := List.find?_eq_none.mp hf r hr
    simp [hk] at this
  | some s =>
    have hs := List.mem_of_find?_eq_some hf
    have hks : key s = k := by simpa using List.find?_some hf
    rw [t.eq_of_key_eq hs hr (hks.trans hk.symm)]

theorem find?_eq_none (t : Table ρ κ key) : t.find? k = none ↔ ∀ r ∈ t.rows, key r ≠ k := by
  unfold find?
  simp [List.find?_eq_none]

/-- The row with a key after an update is the row updated. -/
theorem find?_update (t : Table ρ κ key) (p : ρ → Bool) (f : ρ → ρ) (hf : ∀ r, key (f r) = key r)
    (k : κ) : (t.update p f hf).find? k = (t.find? k).map (amend p f) := by
  unfold find? update
  rw [List.find?_map]
  congr 2
  funext r
  rw [Function.comp, key_amend hf]

/-- Updating the row with a key. -/
theorem find?_update_key (t : Table ρ κ key)
    (hp : ∀ r, p r = decide (key r = k)) (f : ρ → ρ) (hf : ∀ r, key (f r) = key r) (k' : κ) :
    (t.update p f hf).find? k' = if k' = k then (t.find? k').map f else t.find? k' := by
  rw [find?_update]
  cases h : t.find? k' with
  | none => simp
  | some r =>
    have hkey := (t.find?_eq_some.mp h).2
    by_cases hk : k' = k
    · rw [if_pos hk, Option.map_some, Option.map_some, amend_pos (by simp [hp, hkey, hk])]
    · rw [if_neg hk, Option.map_some, amend_neg (by simp [hp, hkey, hk])]

/-- A row that is not deleted. -/
theorem find?_delete (t : Table ρ κ key)
    (h : ∀ r ∈ t.rows, key r = k → p r = false) : (t.delete p).find? k = t.find? k := by
  refine Option.ext fun r => ?_
  rw [find?_eq_some, find?_eq_some, mem_delete]
  exact ⟨fun hr => ⟨hr.1.1, hr.2⟩, fun hr => ⟨⟨hr.1, h r hr.1 hr.2⟩, hr.2⟩⟩

-- ======== inserts

/-- `INSERT` of a row whose key is free. -/
def insert (t : Table ρ κ key) (r : ρ) (h : t.find? (key r) = none) : Table ρ κ key where
  rows := t.rows ++ [r]
  nodup := by
    rw [List.map_append, List.nodup_append]
    refine ⟨t.nodup, by simp, ?_⟩
    intro a ha b hb
    obtain ⟨s, hs, rfl⟩ := List.mem_map.mp ha
    have hb' : b = key r := by simpa using hb
    rw [hb']
    exact t.find?_eq_none.mp h s hs

/-- `INSERT`, refused when the key is taken. -/
def insert? (t : Table ρ κ key) (r : ρ) : Option (Table ρ κ key) :=
  if h : t.find? (key r) = none then some (t.insert r h) else none

theorem insert?_eq_some {t t' : Table ρ κ key} (h : t.insert? r = some t') :
    t'.rows = t.rows ++ [r] ∧ ∀ s ∈ t.rows, key s ≠ key r := by
  unfold insert? at h
  split at h
  · next hfree =>
    cases h
    exact ⟨rfl, t.find?_eq_none.mp hfree⟩
  · cases h

theorem find?_insert? {t t' : Table ρ κ key} (h : t.insert? r = some t') (k : κ) :
    t'.find? k = if k = key r then some r else t.find? k := by
  obtain ⟨hrows, hnew⟩ := insert?_eq_some h
  by_cases hk : k = key r
  · rw [if_pos hk, find?_eq_some, hrows]
    exact ⟨List.mem_append_right _ List.mem_cons_self, hk.symm⟩
  · rw [if_neg hk]
    unfold find?
    rw [hrows]
    simp [Ne.symm hk]

/-- `INSERT … ON CONFLICT DO UPDATE`: the row takes the place of the one
with its key. -/
def upsert (t : Table ρ κ key) (r : ρ) : Table ρ κ key :=
  (t.delete fun s => key s = key r).insert r <| by
    rw [find?_eq_none]
    intro s hs
    simpa using (mem_delete.mp hs).2

theorem mem_upsert {r s : ρ} : s ∈ (t.upsert r).rows ↔ s = r ∨ s ∈ t.rows ∧ key s ≠ key r := by
  unfold upsert insert
  rw [List.mem_append, mem_delete, or_comm]
  simp

/-- A row under a new key goes to the end. -/
theorem upsert_rows_of_fresh (h : ∀ s ∈ t.rows, key s ≠ key r) :
    (t.upsert r).rows = t.rows ++ [r] := by
  show t.rows.filter (fun s => !decide (key s = key r)) ++ [r] = _
  rw [List.filter_eq_self.mpr fun s hs => by simpa using h s hs]

/-- A predicate that pins the key holds of at most one row. -/
theorem countP_le_one (t : Table ρ κ key)
    (hp : ∀ r ∈ t.rows, p r = true → key r = k) : t.rows.countP p ≤ 1 := by
  have hle : t.rows.countP p ≤ (t.rows.map key).count k := by
    rw [List.count, List.countP_map]
    refine List.countP_mono_left ?_
    intro r hr hpr
    simpa using hp r hr hpr
  exact Nat.le_trans hle (List.nodup_iff_count_le_one.mp t.nodup k)

/-- Deleting by key takes one row. -/
theorem perm_cons_delete (t : Table ρ κ key) (hr : r ∈ t.rows) :
    t.rows.Perm (r :: (t.delete fun s => key s = key r).rows) := by
  have hone : t.rows.filter (fun s => key s = key r) = [r] := by
    have hle := t.countP_le_one (p := fun s => decide (key s = key r))
      fun s _ hs => by simpa using hs
    have hmem : r ∈ t.rows.filter (fun s => key s = key r) := List.mem_filter.mpr ⟨hr, by simp⟩
    rw [List.countP_eq_length_filter] at hle
    obtain ⟨s, hs⟩ := List.length_eq_one_iff.mp (Nat.le_antisymm hle (List.length_pos_of_mem hmem))
    rw [hs, List.mem_singleton] at hmem
    rw [hs, hmem]
  have hsplit := List.filter_append_perm (fun s => decide (key s = key r)) t.rows
  rw [hone] at hsplit
  exact hsplit.symm

-- ======== counting

omit [DecidableEq κ] in
/-- Counting after a row-wise change: at most the old count plus the
rows the change brings in. -/
theorem countP_map_le (l : List ρ) (f : ρ → ρ) (q : ρ → Bool) :
    (l.map f).countP q ≤ l.countP q + l.countP fun r => !q r && q (f r) := by
  induction l with
  | nil => simp
  | cons r l ih =>
    simp only [List.map_cons, List.countP_cons]
    cases q r <;> cases q (f r) <;>
      simp only [Bool.not_true, Bool.not_false, Bool.and_true,
        Bool.and_false, if_true, Bool.false_eq_true, if_false] <;>
      omega

omit [DecidableEq κ] in
/-- An update that never makes `q` true does not raise its count. -/
theorem countP_amend_le (l : List ρ) (p : ρ → Bool) (f : ρ → ρ) (q : ρ → Bool)
    (h : ∀ r ∈ l, p r = true → q (f r) = false) : (l.map (amend p f)).countP q ≤ l.countP q := by
  rw [List.countP_map]
  refine List.countP_mono_left fun r hr hq => ?_
  cases hp : p r with
  | true =>
    rw [Function.comp, amend_pos hp, h r hr hp] at hq
    cases hq
  | false =>
    rw [Function.comp, amend_neg hp] at hq
    exact hq

/-- Updating one row raises a count by at most one. -/
theorem countP_amend_key_le (t : Table ρ κ key) (k : κ) (f : ρ → ρ) (q : ρ → Bool) :
    (t.rows.map (amend (fun r => key r = k) f)).countP q ≤ t.rows.countP q + 1 := by
  refine Nat.le_trans (countP_map_le _ _ q) (Nat.add_le_add_left ?_ _)
  refine t.countP_le_one (k := k) fun r _ hq => ?_
  by_contra hk
  rw [amend_neg (by simp [hk])] at hq
  cases hqr : q r <;> simp [hqr] at hq

/-- Updating one row moves a count by what the row was and became. -/
theorem countP_amend_key (t : Table ρ κ key) (hr : r ∈ t.rows) (f : ρ → ρ) (q : ρ → Bool) :
    (t.rows.map (amend (fun s => key s = key r) f)).countP q + (if q r then 1 else 0)
      = t.rows.countP q + (if q (f r) then 1 else 0) := by
  have hperm := t.perm_cons_delete hr
  have hrest : (t.delete fun s => key s = key r).rows.map (amend (fun s => key s = key r) f)
        = (t.delete fun s => key s = key r).rows := by
    conv_rhs => rw [← List.map_id (t.delete _).rows]
    refine List.map_congr_left fun s hs => ?_
    exact amend_neg (mem_delete.mp hs).2
  rw [(hperm.map _).countP_eq, hperm.countP_eq, List.map_cons, hrest,
    List.countP_cons, List.countP_cons, amend_pos (by simp)]
  omega

-- ======== loops

/-- The row with a key, if it meets a condition. -/
theorem find?_key_and (t : Table ρ κ key) (hr : r ∈ t.rows) (p : ρ → Bool) :
    t.rows.find? (fun s => decide (key s = key r) && p s) = if p r then some r else none := by
  cases hfind : t.rows.find? (fun s => decide (key s = key r) && p s) with
  | none =>
    have hnot := List.find?_eq_none.mp hfind r hr
    cases hp : p r with
    | true => simp [hp] at hnot
    | false => rfl
  | some s =>
    have hs := List.find?_some hfind
    simp only [Bool.and_eq_true, decide_eq_true_eq] at hs
    have heq := t.eq_of_key_eq (List.mem_of_find?_eq_some hfind) hr hs.1
    rw [heq] at hs ⊢
    rw [if_pos hs.2]

/-- A loop of updates by key, over rows with different keys: a row is
changed by the one with its key, if there is one. -/
theorem foldl_update_find? {f : ρ → ρ → ρ} (hf : ∀ s r, key (f s r) = key r) {todo : List ρ}
    (hnd : (todo.map key).Nodup) (t : Table ρ κ key) : ((todo.filter p).foldl
        (fun u s => u.update (fun r => key r = key s) (f s) (hf s)) t).rows = t.rows.map fun r =>
          match todo.find? (fun s => decide (key s = key r) && p s) with
          | some s => f s r
          | none => r := by
  induction todo generalizing t with
  | nil => simp
  | cons s todo ih =>
    rw [List.map_cons, List.nodup_cons] at hnd
    cases hp : p s with
    | false =>
      rw [List.filter_cons_of_neg (by simp [hp]), ih hnd.2 t]
      refine List.map_congr_left fun r _ => ?_
      rw [List.find?_cons_of_neg (by simp [hp])]
    | true =>
      rw [List.filter_cons_of_pos hp, List.foldl_cons, ih hnd.2, update_rows, List.map_map]
      refine List.map_congr_left fun r _ => ?_
      by_cases hk : key r = key s
      · -- the row is changed here, and by nothing that follows
        have hrest : todo.find? (fun s' =>
            decide (key s' = key (f s r)) && p s') = none := by
          rw [List.find?_eq_none]
          intro s' hs'
          have hne : key s' ≠ key (f s r) := by
            rw [hf, hk]
            exact fun he => hnd.1 (List.mem_map.mpr ⟨s', hs', he⟩)
          simp [hne]
        simp only [Function.comp, amend, hk, decide_true, if_true]
        rw [hrest, List.find?_cons_of_pos (by simp [hp])]
      · have hk' : ¬ key s = key r := fun h => hk h.symm
        simp only [Function.comp, amend, hk, decide_false, Bool.false_eq_true, if_false]
        rw [List.find?_cons_of_neg (by simp [hk'])]

/-- The row-wise reading of a loop: reading the rows that meet `p` and
then applying to each, by key, a function of the row read, changes a
row exactly when it was read. -/
theorem foldl_update_rows (t : Table ρ κ key) (p : ρ → Bool)
    (f : ρ → ρ → ρ) (hf : ∀ s r, key (f s r) = key r) : ((t.rows.filter p).foldl
        (fun u s => u.update (fun r => key r = key s) (f s) (hf s)) t).rows
      = t.rows.map fun r => if p r then f r r else r := by
  rw [foldl_update_find? hf t.nodup t]
  refine List.map_congr_left fun r hr => ?_
  rw [t.find?_key_and hr p]
  cases p r <;> rfl

end Table

end Relational
