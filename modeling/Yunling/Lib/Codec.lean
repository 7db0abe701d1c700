/-
Texts of values, as a program writes them to files.

A text is written line by line, and a reader may find only the beginning
of it. What makes such a format safe to read is that the beginning of a
text is not itself the text of something else: `torn`. So a text either
says everything or nothing (`unmarshal_take`).

A value need not be written whole: what is read back is `kept` of it. Not
every value has a text.
-/
import Mathlib.Data.List.Basic

/-- Texts for values of `α`, of which `kept` is written. -/
structure Codec {α : Type} (kept : α → α) where
  marshal : α → Option (List UInt8)
  unmarshal : List UInt8 → Option α
  /-- what is not written does not matter -/
  marshal_kept : ∀ a, marshal (kept a) = marshal a
  nonempty : ∀ {a text}, marshal a = some text → text ≠ []
  whole : ∀ {a text}, marshal a = some text → unmarshal text = some (kept a)
  /-- a line end may follow -/
  line : ∀ {a text}, marshal a = some text → unmarshal (text ++ [10]) = some (kept a)
  /-- the beginning of a text is no text -/
  torn : ∀ {a text n}, marshal a = some text → n < text.length → unmarshal (text.take n) = none

namespace Codec

variable {α : Type} {kept : α → α} (c : Codec kept) {values : List α}

/-- The text of a value, with a line end. -/
def marshalLine (a : α) : Option (List UInt8) :=
  (c.marshal a).map (· ++ [10])

variable {c} {a : α} {data : List UInt8}

theorem marshalLine_of_text {text : List UInt8} (h : c.marshal a = some text) :
    c.marshalLine a = some (text ++ [10]) := by
  unfold marshalLine
  rw [h]
  rfl

theorem length_marshalLine (h : c.marshalLine a = some data) : 1 < data.length := by
  obtain ⟨text, htext, rfl⟩ := Option.map_eq_some_iff.mp h
  have := List.length_pos_iff.mpr (c.nonempty htext)
  rw [List.length_append, List.length_singleton]
  omega

theorem unmarshal_marshalLine (h : c.marshalLine a = some data) :
    c.unmarshal data = some (kept a) := by
  obtain ⟨text, htext, rfl⟩ := Option.map_eq_some_iff.mp h
  exact c.line htext

/-- The beginning of a line says everything when at most the line end is
missing, and nothing otherwise. -/
theorem unmarshal_take (h : c.marshalLine a = some data) (n : Nat) :
    c.unmarshal (data.take n) = if data.length ≤ n + 1 then some (kept a) else none := by
  obtain ⟨text, htext, rfl⟩ := Option.map_eq_some_iff.mp h
  rw [List.length_append, List.length_singleton]
  rcases Nat.lt_trichotomy n text.length with hlt | heq | hgt
  · rw [List.take_append_of_le_length (Nat.le_of_lt hlt), c.torn htext hlt, if_neg (by omega)]
  · rw [heq, List.take_left, c.whole htext, if_pos (Nat.le_refl _)]
  · rw [List.take_of_length_le (by simp; omega), c.line htext, if_pos (by omega)]

-- ======== a few values

/-- What a text made of zeros and a one says: how many zeros. -/
def zeros : List UInt8 → Option Nat
  | [1] | [1, 10] => some 0
  | 0 :: text => (zeros text).map (· + 1)
  | _ => none

theorem zeros_cons (text : List UInt8) : zeros (0 :: text) = (zeros text).map (· + 1) := by
  simp [zeros]

theorem zeros_replicate (i : Nat) : zeros (List.replicate i 0 ++ [1]) = some i
      ∧ zeros (List.replicate i 0 ++ [1] ++ [10]) = some i := by
  induction i with
  | zero => exact ⟨rfl, rfl⟩
  | succ i ih =>
    rw [List.replicate_succ, List.cons_append, List.cons_append, zeros_cons, zeros_cons, ih.1, ih.2]
    exact ⟨rfl, rfl⟩

theorem zeros_take (i : Nat) {n : Nat} (hn : n < i + 1) :
    zeros ((List.replicate i (0 : UInt8) ++ [1]).take n) = none := by
  have hle : n ≤ i := Nat.le_of_lt_succ hn
  rw [List.take_append_of_le_length (by simpa using hle), List.take_replicate, Nat.min_eq_left hle]
  clear hn hle
  induction n with
  | zero => rfl
  | succ n ih =>
    rw [List.replicate_succ, zeros_cons, ih]
    rfl

theorem getElem?_of_idxOf? [DecidableEq α] {i : Nat}
    (h : values.idxOf? a = some i) : values[i]? = some a := by
  obtain ⟨hi, heq, _⟩ := List.idxOf?_eq_some_iff.mp h
  rw [List.getElem?_eq_getElem hi, heq]

/-- A format for the values of a list. -/
def ofList [DecidableEq α] (hkept : ∀ a : α, kept (kept a) = kept a)
    (values : List α) : Codec kept where
  marshal a := ((values.map kept).idxOf? (kept a)).map fun i =>
    List.replicate i 0 ++ [1]
  unmarshal text := (zeros text).bind fun i => (values.map kept)[i]?
  marshal_kept a := by rw [hkept]
  nonempty := by
    intro a text h
    obtain ⟨i, _, rfl⟩ := Option.map_eq_some_iff.mp h
    simp
  whole := by
    intro a text h
    obtain ⟨i, hi, rfl⟩ := Option.map_eq_some_iff.mp h
    rw [(zeros_replicate i).1]
    exact getElem?_of_idxOf? hi
  line := by
    intro a text h
    obtain ⟨i, hi, rfl⟩ := Option.map_eq_some_iff.mp h
    rw [(zeros_replicate i).2]
    exact getElem?_of_idxOf? hi
  torn := by
    intro a text n h hn
    obtain ⟨i, hi, rfl⟩ := Option.map_eq_some_iff.mp h
    rw [zeros_take i (by simpa using hn)]
    rfl

theorem ofList_marshal_iff [DecidableEq α] {hkept : ∀ a : α, kept (kept a) = kept a} :
    ((ofList hkept values).marshal a).isSome ↔ kept a ∈ values.map kept := by
  unfold ofList
  rw [Option.isSome_map, List.isSome_idxOf?]

theorem ofList_marshal [DecidableEq α] (hkept : ∀ a : α, kept (kept a) = kept a)
    (h : a ∈ values) : ((ofList hkept values).marshal a).isSome :=
  ofList_marshal_iff.mpr (List.mem_map_of_mem h)

end Codec
