/-
UTF-8 at the level of bytes: which byte sequences encode a character,
and the repair of text that is not valid.

A character is a lead byte and the continuation bytes it announces, the
first of them in a range the lead byte may narrow (no overlong forms, no
surrogates, nothing past U+10FFFF). `runeWidth` reads one character off
the front of a byte list, `0` where there is none; it is all the decoder
the rest needs.

# Repair

`scrub` walks a byte list character by character and writes one
replacement for every maximal run of bytes that belong to no character.
It is a structural recursion: instead of jumping over the continuation
bytes of a character it counts how many are still to be copied.

# Counting characters

In valid text every character has exactly one byte that is no
continuation byte (`starts`), so counting those bytes counts characters.
-/
import Mathlib.Data.List.Basic

namespace Utf8

variable {r t : Bytes} {b : UInt8}

/-- Bytes of a text. -/
abbrev Bytes := List UInt8

-- ======== characters

/-- A byte that continues a character. -/
def continuation (b : UInt8) : Bool := 0x80 ≤ b && b ≤ 0xBF

/-- What a lead byte announces: how many continuation bytes follow, and
the range of the first of them. -/
def lead (a : UInt8) : Option (Nat × UInt8 × UInt8) :=
  if a < 0x80 then some (0, 0x80, 0xBF)
  else if a < 0xC2 then none
  else if a < 0xE0 then some (1, 0x80, 0xBF)
  else if a = 0xE0 then some (2, 0xA0, 0xBF)
  else if a = 0xED then some (2, 0x80, 0x9F)
  else if a < 0xF0 then some (2, 0x80, 0xBF)
  else if a = 0xF0 then some (3, 0x90, 0xBF)
  else if a < 0xF4 then some (3, 0x80, 0xBF)
  else if a = 0xF4 then some (3, 0x80, 0x8F)
  else none

/-- The bytes after a lead byte are as announced. -/
def follows (n : Nat) (lo hi : UInt8) (p : Bytes) : Bool :=
  n ≤ p.length && (p.take n).all continuation && (n == 0 || p.head?.any fun b => lo ≤ b && b ≤ hi)

/-- The number of bytes of the character a byte list starts with; `0`
where it starts with none. -/
def runeWidth : Bytes → Nat
  | [] => 0
  | a :: p =>
    match lead a with
    | none => 0
    | some (n, lo, hi) => if follows n lo hi p then n + 1 else 0

/-- The bytes of one character. -/
def IsRune (r : Bytes) : Prop := r ≠ [] ∧ runeWidth r = r.length

instance (r : Bytes) : Decidable (IsRune r) :=
  inferInstanceAs (Decidable (_ ∧ _))

/-- A sequence of characters. -/
def Valid (p : Bytes) : Prop := ∃ rs : List Bytes, (∀ r ∈ rs, IsRune r) ∧ rs.flatten = p

/-- The lead byte of a character announces its other bytes. -/
theorem IsRune.cases (h : IsRune r) : ∃ a cs lo hi, r = a :: cs ∧ lead a = some (cs.length, lo, hi)
      ∧ follows cs.length lo hi cs = true := by
  obtain ⟨hne, hw⟩ := h
  cases r with
  | nil => exact absurd rfl hne
  | cons a cs =>
    simp only [runeWidth] at hw
    split at hw
    · simp at hw
    next n lo hi hlead =>
    split at hw
    · next hfol =>
      obtain rfl : n = cs.length := by simpa using hw
      exact ⟨a, cs, lo, hi, rfl, hlead, hfol⟩
    · simp at hw

theorem follows_append {n : Nat} {lo hi : UInt8} {p : Bytes}
    (h : follows n lo hi p = true) (q : Bytes) : follows n lo hi (p ++ q) = true := by
  simp only [follows, Bool.and_eq_true, decide_eq_true_eq, Bool.or_eq_true, beq_iff_eq] at h ⊢
  obtain ⟨⟨hlen, hall⟩, hfirst⟩ := h
  refine ⟨⟨by simp; omega, ?_⟩, ?_⟩
  · rw [List.take_append_of_le_length hlen]
    exact hall
  · rcases hfirst with hzero | hfirst
    · exact Or.inl hzero
    · cases p with
      | nil => simp at hfirst
      | cons b p => exact Or.inr hfirst

/-- Reading the first character of a text. -/
theorem IsRune.width_append (h : IsRune r) (p : Bytes) : runeWidth (r ++ p) = r.length := by
  obtain ⟨a, cs, lo, hi, rfl, hlead, hfol⟩ := h.cases
  simp [runeWidth, hlead, follows_append hfol]

/-- A lead byte is no continuation byte. -/
theorem lead_of_continuation (h : continuation b = true) : lead b = none := by
  simp only [continuation, Bool.and_eq_true, decide_eq_true_eq] at h
  have hlo : ¬ b < 0x80 := UInt8.not_lt.mpr h.1
  have hhi : b < 0xC2 := UInt8.lt_of_le_of_lt h.2 (by decide)
  simp [lead, hlo, hhi]

theorem runeWidth_of_continuation (h : continuation b = true) (p : Bytes) :
    runeWidth (b :: p) = 0 := by
  simp [runeWidth, lead_of_continuation h]

theorem lead_le_three {a : UInt8} {n : Nat} {lo hi : UInt8}
    (h : lead a = some (n, lo, hi)) : n ≤ 3 := by
  unfold lead at h
  repeat' split at h
  all_goals first
    | (cases h; done)
    | (cases h; decide)

/-- A character: one lead byte, then continuation bytes, four in all at
most. -/
theorem IsRune.shape (h : IsRune r) :
    ∃ a cs, r = a :: cs ∧ continuation a = false ∧ cs.all continuation = true ∧ cs.length ≤ 3 := by
  obtain ⟨a, cs, lo, hi, rfl, hlead, hfol⟩ := h.cases
  refine ⟨a, cs, rfl, ?_, ?_, lead_le_three hlead⟩
  · cases hc : continuation a with
    | false => rfl
    | true => simp [lead_of_continuation hc] at hlead
  · simp only [follows, Bool.and_eq_true, List.take_length] at hfol
    exact hfol.1.2

/-- A character that is cut off is none. -/
theorem IsRune.width_of_cut {h : Bytes} (hr : IsRune (h ++ t)) (hh : h ≠ []) (ht : t ≠ []) :
    runeWidth h = 0 := by
  obtain ⟨a, cs, lo, hi, heq, hlead, -⟩ := hr.cases
  cases h with
  | nil => exact absurd rfl hh
  | cons b h =>
    simp only [List.cons_append, List.cons.injEq] at heq
    obtain ⟨rfl, rfl⟩ := heq
    have hshort : ¬ (h ++ t).length ≤ h.length := by
      have := List.length_pos_of_ne_nil ht
      simp only [List.length_append]
      omega
    have hfol : follows (h ++ t).length lo hi h = false := by
      simp only [follows, hshort, decide_false, Bool.false_and]
    simp only [runeWidth, hlead, hfol, Bool.false_eq_true, if_false]

-- ======== repair

/-- `fill` for every maximal run of bytes that belong to no character.
`bad` says that the byte before belonged to none, and the counter how
many bytes of the current character are still to be copied. -/
def scrub (fill : Bytes) : Bool → Nat → Bytes → Bytes
  | _, _, [] => []
  | _, k + 1, b :: p => b :: scrub fill false k p
  | bad, 0, b :: p =>
    match runeWidth (b :: p) with
    | 0 => (if bad then [] else fill) ++ scrub fill true 0 p
    | w + 1 => b :: scrub fill false w p

section Scrub

variable (fill : Bytes) {b : UInt8} {p t : Bytes}

theorem scrub_of_width_zero (bad : Bool) (h : runeWidth (b :: p) = 0) :
    scrub fill bad 0 (b :: p) = (if bad then [] else fill) ++ scrub fill true 0 p := by
  simp only [scrub]
  split
  · rfl
  · next hw => rw [h] at hw; cases hw

/-- The bytes of a character are copied. -/
theorem scrub_copy (cs p : Bytes) :
    scrub fill false cs.length (cs ++ p) = cs ++ scrub fill false 0 p := by
  induction cs with
  | nil => rfl
  | cons c cs ih =>
    simp only [List.length_cons, List.cons_append, scrub]
    rw [ih]

theorem scrub_rune {r : Bytes} (h : IsRune r) (bad : Bool) (p : Bytes) :
    scrub fill bad 0 (r ++ p) = r ++ scrub fill false 0 p := by
  have hw := h.width_append p
  obtain ⟨a, cs, rfl, -⟩ := h.shape
  simp only [List.cons_append, List.length_cons] at hw ⊢
  simp only [scrub]
  split
  · next h0 => rw [hw] at h0; cases h0
  · next w hw' =>
    obtain rfl : cs.length = w := by omega
    rw [scrub_copy]

theorem scrub_runes {rs : List Bytes} (h : ∀ r ∈ rs, IsRune r) (bad : Bool) (p : Bytes) :
    scrub fill bad 0 (rs.flatten ++ p) = rs.flatten ++ scrub fill (bad && rs.isEmpty) 0 p := by
  induction rs generalizing bad with
  | nil => simp
  | cons r rs ih =>
    rw [List.flatten_cons, List.append_assoc, scrub_rune fill (h r List.mem_cons_self),
      ih fun s hs => h s (List.mem_cons_of_mem r hs)]
    simp

/-- Continuation bytes without a lead byte belong to no character. -/
theorem scrub_continuation (h : t.all continuation = true) (bad : Bool) (p : Bytes) :
    scrub fill bad 0 (t ++ p) = (if bad || t.isEmpty then [] else fill)
        ++ scrub fill (bad || !t.isEmpty) 0 p := by
  induction t generalizing bad with
  | nil => simp
  | cons b t ih =>
    simp only [List.all_cons, Bool.and_eq_true] at h
    rw [List.cons_append, scrub_of_width_zero fill bad (runeWidth_of_continuation h.1 _), ih h.2]
    simp

/-- A character cut off at the end belongs to none. -/
theorem scrub_cut {h : Bytes} (hr : IsRune (h ++ t)) (hh : h ≠ []) (ht : t ≠ []) (bad : Bool) :
    scrub fill bad 0 h = if bad then [] else fill := by
  have hw := hr.width_of_cut hh ht
  obtain ⟨a, cs, heq, -, hcs, -⟩ := hr.shape
  cases h with
  | nil => exact absurd rfl hh
  | cons b h =>
    simp only [List.cons_append, List.cons.injEq] at heq
    obtain ⟨rfl, rfl⟩ := heq
    simp only [List.all_append, Bool.and_eq_true] at hcs
    rw [scrub_of_width_zero fill bad hw]
    have hrest := scrub_continuation fill hcs.1 true []
    rw [List.append_nil] at hrest
    rw [hrest]
    simp [scrub]

/-- Valid text is left alone. -/
theorem scrub_valid (h : Valid p) : scrub fill false 0 p = p := by
  obtain ⟨rs, hrs, rfl⟩ := h
  have := scrub_runes fill hrs false []
  simpa [scrub] using this

/-- A byte below 0x80 is a character. -/
theorem runeWidth_ascii (h : b < 0x80) (p : Bytes) : runeWidth (b :: p) = 1 := by
  simp [runeWidth, lead, h, follows]

/-- ASCII characters are neither lost nor added. -/
theorem mem_scrub_ascii (h : b < 0x80) (hfill : b ∉ fill)
    (bad : Bool) (k : Nat) (p : Bytes) : b ∈ scrub fill bad k p ↔ b ∈ p := by
  induction p generalizing bad k with
  | nil => simp [scrub]
  | cons a p ih =>
    cases k with
    | succ k => rw [scrub, List.mem_cons, List.mem_cons, ih]
    | zero =>
      cases hw : runeWidth (a :: p) with
      | succ w =>
        simp only [scrub, hw]
        rw [List.mem_cons, List.mem_cons, ih]
      | zero =>
        have hne : b ≠ a := by
          rintro rfl
          rw [runeWidth_ascii h] at hw
          cases hw
        rw [scrub_of_width_zero fill bad hw, List.mem_append, ih]
        cases bad <;> simp [hne, hfill]

end Scrub

-- ======== length

/-- The bytes that belong to no character. -/
def badBytes : Nat → Bytes → Nat
  | _, [] => 0
  | k + 1, _ :: p => badBytes k p
  | 0, b :: p =>
    match runeWidth (b :: p) with
    | 0 => badBytes 0 p + 1
    | w + 1 => badBytes w p

/-- The maximal runs of them. -/
def badRuns : Bool → Nat → Bytes → Nat
  | _, _, [] => 0
  | _, k + 1, _ :: p => badRuns false k p
  | bad, 0, b :: p =>
    match runeWidth (b :: p) with
    | 0 => badRuns true 0 p + (if bad then 0 else 1)
    | w + 1 => badRuns false w p

/-- Repair takes the bad bytes out and puts a replacement in for every
run of them. -/
theorem length_scrub (fill : Bytes) (bad : Bool) (k : Nat) (p : Bytes) :
    (scrub fill bad k p).length + badBytes k p = p.length + fill.length * badRuns bad k p := by
  induction p generalizing bad k with
  | nil => simp [scrub, badBytes, badRuns]
  | cons b p ih =>
    cases k with
    | succ k =>
      simp only [scrub, badBytes, badRuns, List.length_cons]
      have := ih false k
      omega
    | zero =>
      cases hw : runeWidth (b :: p) with
      | succ w =>
        simp only [scrub, badBytes, badRuns, hw, List.length_cons]
        have := ih false w
        omega
      | zero =>
        simp only [scrub, badBytes, badRuns, hw, List.length_append, List.length_cons]
        have := ih true 0
        cases bad
        · simp only [Bool.false_eq_true, if_false, Nat.mul_add]
          omega
        · simp only [if_true, List.length_nil, Nat.add_zero]
          omega

-- ======== counting

/-- The bytes that are no continuation bytes. -/
def starts (p : Bytes) : Nat := p.countP fun b => !continuation b

@[simp] theorem starts_nil : starts [] = 0 := rfl

@[simp] theorem starts_append (p q : Bytes) :
    starts (p ++ q) = starts p + starts q := List.countP_append

theorem starts_continuation (h : t.all continuation = true) : starts t = 0 := by
  rw [starts, List.countP_eq_zero]
  intro b hb
  simp [List.all_eq_true.mp h b hb]

theorem IsRune.starts_eq (h : IsRune r) : starts r = 1 := by
  obtain ⟨a, cs, rfl, ha, hcs, -⟩ := h.shape
  have hzero := starts_continuation hcs
  unfold starts at hzero ⊢
  simp [hzero, ha]

/-- Counting the characters of valid text. -/
theorem starts_flatten {rs : List Bytes} (h : ∀ r ∈ rs, IsRune r) :
    starts rs.flatten = rs.length := by
  induction rs with
  | nil => rfl
  | cons r rs ih =>
    rw [List.flatten_cons, starts_append, (h r List.mem_cons_self).starts_eq,
      ih fun s hs => h s (List.mem_cons_of_mem r hs), List.length_cons]
    omega

end Utf8
