/-
The order of agent versions.

Both sides compare versions as texts, part by part, the longer part
being the greater. That is the order of the numbers, since a part that
is accepted is the decimal writing of a number
(`number_iff`, `compareSegments_toDigits`).  The control plane splits at
the dots and the console matches a regular expression; they accept the
same texts (`versionParts_iff`, `consoleParts_eq`).
-/
import Mathlib.Data.List.Induction
import Mathlib.Data.Nat.Digits.Lemmas
import Yunling.Upgrade.Model

namespace Yunling.Upgrade

open Nat (toDigits)

section Versions

variable {n x y z : Nat} {c : Char} {part text : List Char} {segments : List (List Char)}
  {version : String}

-- ======== numbers

/-- A part as both sides accept it: digits, no leading zero. -/
def Number (part : List Char) : Prop :=
  part ≠ [] ∧ (part.length = 1 ∨ part.head? ≠ some '0') ∧ ∀ c ∈ part, '0' ≤ c ∧ c ≤ '9'

/-- A digit is the digit of a number. -/
theorem exists_digitChar (h : '0' ≤ c ∧ c ≤ '9') : ∃ d < 10, c = d.digitChar := by
  have hlow : 48 ≤ c.toNat := h.1
  have hhigh : c.toNat ≤ 57 := h.2
  refine ⟨c.toNat - 48, by omega, ?_⟩
  have hc : c = Char.ofNat c.toNat := (Char.ofNat_toNat c).symm
  generalize c.toNat = n at hc hlow hhigh
  subst hc
  interval_cases n <;> rfl

theorem digit_of_mem_toDigits (h : c ∈ toDigits 10 n) : '0' ≤ c ∧ c ≤ '9' := by
  have hdigit := Nat.isDigit_of_mem_toDigits (by decide) (by decide) h
  simp only [Char.isDigit, Bool.and_eq_true, decide_eq_true_eq] at hdigit
  exact hdigit

/-- Only zero is written with a leading zero. -/
theorem head_toDigits (h : 0 < n) : (toDigits 10 n).head? ≠ some '0' := by
  induction n using Nat.strongRecOn with
  | _ n ih =>
    rcases Nat.lt_or_ge n 10 with hn | hn
    · rw [Nat.toDigits_of_lt_base hn]
      interval_cases n <;> decide
    · rw [Nat.toDigits_of_base_le (by decide) hn, List.head?_append_of_ne_nil _ Nat.toDigits_ne_nil]
      exact ih (n / 10) (by omega) (by omega)

/-- The parts that are accepted are the decimal writings of numbers. -/
theorem number_iff : Number part ↔ ∃ n, part = toDigits 10 n := by
  constructor
  · intro h
    induction part using List.reverseRecOn with
    | nil => exact absurd rfl h.1
    | append_singleton front c ih =>
      obtain ⟨-, hzero, hdigits⟩ := h
      obtain ⟨d, hd, rfl⟩ := exists_digitChar (hdigits c (by simp))
      rw [← Nat.toDigits_of_lt_base hd]
      rcases eq_or_ne front [] with rfl | hfront
      · exact ⟨d, rfl⟩
      -- what stands before the last digit is a number too, and not zero
      have hhead : front.head? ≠ some '0' := by
        rw [List.head?_append_of_ne_nil _ hfront] at hzero
        refine hzero.resolve_left ?_
        simpa using hfront
      obtain ⟨n, rfl⟩ := ih ⟨hfront, .inr hhead, fun c hc => hdigits c (by simp [hc])⟩
      have hn : 0 < n := by
        rcases Nat.eq_zero_or_pos n with rfl | hn
        · exact absurd rfl hhead
        · exact hn
      exact ⟨10 * n + d, Nat.toDigits_append_toDigits (by decide) hn hd⟩
  · rintro ⟨n, rfl⟩
    refine ⟨Nat.toDigits_ne_nil, ?_, fun c => digit_of_mem_toDigits⟩
    rcases Nat.lt_or_ge n 10 with hn | hn
    · left
      rw [Nat.toDigits_of_lt_base hn]
      rfl
    · exact .inr (head_toDigits (by omega))

-- ======== order

/-- Reading on from two numbers compares them first. -/
theorem compare_ofDigitChars {a b : List Char} (ha : ∀ c ∈ a, '0' ≤ c ∧ c ≤ '9')
    (hb : ∀ c ∈ b, '0' ≤ c ∧ c ≤ '9') (h : a.length = b.length) (m n : Nat) :
    compare (Nat.ofDigitChars 10 a m) (Nat.ofDigitChars 10 b n)
      = (compare m n).then (if a = b then .eq else if a < b then .lt else .gt) := by
  induction a generalizing b m n with
  | nil =>
    obtain rfl := List.length_eq_zero_iff.mp h.symm
    simp
  | cons c a ih =>
    obtain ⟨d, b, rfl⟩ := List.exists_cons_of_length_eq_add_one h.symm
    obtain ⟨hc, ha⟩ := List.forall_mem_cons.mp ha
    obtain ⟨hd, hb⟩ := List.forall_mem_cons.mp hb
    have hc : 48 ≤ c.toNat ∧ c.toNat ≤ 57 := hc
    have hd : 48 ≤ d.toNat ∧ d.toNat ≤ 57 := hd
    have hhead : compare (10 * m + (c.toNat - 48)) (10 * n + (d.toNat - 48))
        = (compare m n).then (compare c.toNat d.toNat) := by
      simp only [Nat.compare_eq_ite_lt]
      split_ifs
      all_goals first | rfl | omega
    have heq : c = d ↔ c.toNat = d.toNat := Char.toNat_inj.symm
    have hlt : c < d ↔ c.toNat < d.toNat := Iff.rfl
    rw [Nat.ofDigitChars_cons, Nat.ofDigitChars_cons, ih ha hb (Nat.succ_inj.mp h),
      show '0'.toNat = 48 from rfl, hhead, Ordering.then_assoc]
    simp only [List.cons.injEq, List.cons_lt_cons_iff, heq, hlt]
    rcases Nat.lt_trichotomy c.toNat d.toNat with h | h | h
    · simp [Nat.compare_eq_lt.mpr h, h, h.ne]
    · simp [h]
    · simp [Nat.compare_eq_gt.mpr h, h.not_gt, h.ne']

/-- Fewer digits write a smaller number. -/
theorem lt_of_length_lt {m : Nat} (h : (toDigits 10 m).length < (toDigits 10 n).length) :
    m < n := by
  by_contra! hle
  have hiff := fun k => Nat.length_toDigits_le_iff (n := k) (b := 10) (by decide)
    (Nat.length_toDigits_pos (n := m) (b := 10))
  have hm := (hiff m).mp (Nat.le_refl _)
  exact absurd ((hiff n).mpr (hle.trans_lt hm)) (Nat.not_le.mpr h)

/-- Comparing the writings is comparing the numbers. -/
theorem compareSegments_toDigits (m n : Nat) :
    compareSegments (toDigits 10 m) (toDigits 10 n) = compare m n := by
  unfold compareSegments
  rcases Nat.lt_trichotomy (toDigits 10 m).length (toDigits 10 n).length with h | h | h
  · rw [Nat.compare_eq_lt.mpr h, Nat.compare_eq_lt.mpr (lt_of_length_lt h)]
    rfl
  · have hread := compare_ofDigitChars (fun c => digit_of_mem_toDigits)
      (fun c => digit_of_mem_toDigits) h 0 0
    rw [Nat.ofDigitChars_ten_toDigits, Nat.ofDigitChars_ten_toDigits] at hread
    rw [hread, Nat.compare_eq_eq.mpr h]
    rfl
  · rw [Nat.compare_eq_gt.mpr h, Nat.compare_eq_gt.mpr (lt_of_length_lt h)]
    rfl

-- ======== the texts that are accepted

/-- Three numbers between dots. -/
def dotted (x y z : Nat) : List Char :=
  toDigits 10 x ++ '.' :: (toDigits 10 y ++ '.' :: toDigits 10 z)

/-- The text writes the three numbers: an optional `v`, then their
decimal digits between dots. -/
def Writes (text : List Char) (x y z : Nat) : Prop :=
  ∃ v ∈ [[], ['v']], text = v ++ dotted x y z

/-- The version has at most 64 bytes and writes the three numbers. -/
def Denotes (version : String) (x y z : Nat) : Prop :=
  version.utf8ByteSize ≤ 64 ∧ Writes version.toList x y z

/-- The three numbers as parts. -/
def parts (x y z : Nat) : List (List Char) := [toDigits 10 x, toDigits 10 y, toDigits 10 z]

theorem le_of_mem_dotted (h : c ∈ dotted x y z) : c ≤ '9' := by
  simp only [dotted, List.mem_append, List.mem_cons] at h
  rcases h with h | rfl | h | rfl | h
  · exact (digit_of_mem_toDigits h).2
  · decide
  · exact (digit_of_mem_toDigits h).2
  · decide
  · exact (digit_of_mem_toDigits h).2

/-- Cutting at the dots leaves three numbers when the text joins them. -/
theorem splitOn_dot_iff {digits : List Char} :
    (digits.splitOn '.' = segments ∧ segments.length = 3 ∧ ∀ s ∈ segments, Number s)
      ↔ ∃ x y z, digits = dotted x y z ∧ segments = parts x y z := by
  have hjoin : ∀ x y z, dotted x y z = ['.'].intercalate (parts x y z) := by
    simp [dotted, parts]
  constructor
  · rintro ⟨hsplit, hlen, hnumber⟩
    obtain ⟨a, b, c, rfl⟩ := List.length_eq_three.mp hlen
    obtain ⟨x, rfl⟩ := number_iff.mp (hnumber a (by simp))
    obtain ⟨y, rfl⟩ := number_iff.mp (hnumber b (by simp))
    obtain ⟨z, rfl⟩ := number_iff.mp (hnumber c (by simp))
    refine ⟨x, y, z, ?_, rfl⟩
    rw [hjoin, parts, ← hsplit]
    exact (List.intercalate_splitOn '.').symm
  · rintro ⟨x, y, z, rfl, rfl⟩
    have hdot : ∀ n, '.' ∉ toDigits 10 n := fun n h => absurd (digit_of_mem_toDigits h) (by decide)
    have hnumber : ∀ n, Number (toDigits 10 n) := fun n => number_iff.mpr ⟨n, rfl⟩
    refine ⟨?_, rfl, by simp [parts, hnumber]⟩
    rw [hjoin]
    exact List.splitOn_intercalate '.' (by simp [parts, hdot]) (by simp [parts])

/-- Only one of the two readings of the optional `v` can be right: a
number does not begin with one. -/
theorem writes_iff :
    Writes text x y z ↔ (match text with | 'v' :: rest => rest | all => all) = dotted x y z := by
  unfold Writes
  simp only [List.mem_cons, List.not_mem_nil, or_false, exists_eq_or_imp, exists_eq_left,
    List.nil_append, List.cons_append]
  split
  · next rest =>
    refine ⟨fun h => ?_, fun h => .inr (by rw [h])⟩
    rcases h with h | h
    · exact absurd (le_of_mem_dotted (h ▸ List.mem_cons_self)) (by decide)
    · exact (List.cons.inj h).2
  · next hv => exact ⟨fun h => h.resolve_right (hv _), .inl⟩

theorem Writes.ne_nil (h : Writes text x y z) : text ≠ [] := by
  obtain ⟨v, -, rfl⟩ := h
  simp [dotted]

/-- The parts of a version that the control plane orders. -/
theorem versionParts_iff : stableVersionParts version = some segments
      ↔ ∃ x y z, Denotes version x y z ∧ segments = parts x y z := by
  have hnumbers : ∀ segments : List (List Char), (segments.all fun segment =>
      !segment.isEmpty && (segment.length == 1 || segment.head? != some '0')
        && segment.all fun c => '0' ≤ c && c ≤ '9') = true ↔ ∀ s ∈ segments, Number s := by
    simp [Number, and_assoc]
  unfold stableVersionParts Denotes
  simp only [writes_iff, hnumbers, Option.ite_none_left_eq_some, not_or, Nat.not_lt,
    Option.ite_none_right_eq_some, Option.some.injEq]
  constructor
  · rintro ⟨⟨-, hsize⟩, ⟨hlen, hnumber⟩, hsplit⟩
    rw [hsplit] at hlen hnumber
    obtain ⟨x, y, z, hdigits, hsegments⟩ := splitOn_dot_iff.mp ⟨hsplit, hlen, hnumber⟩
    exact ⟨x, y, z, ⟨hsize, hdigits⟩, hsegments⟩
  · rintro ⟨x, y, z, ⟨hsize, hdigits⟩, hsegments⟩
    obtain ⟨hsplit, hlen, hnumber⟩ := splitOn_dot_iff.mpr ⟨x, y, z, hdigits, hsegments⟩
    have hne : version.toList ≠ [] := (writes_iff.mpr hdigits).ne_nil
    subst hsplit
    exact ⟨⟨by simpa using hne, hsize⟩, ⟨hlen, hnumber⟩, rfl⟩

-- ======== the console

namespace Console

/-- The matches are the ways to cut the text into the pieces. -/
theorem mem_cuts {pieces : List (List Char → Bool)} : segments ∈ cuts pieces text
      ↔ text = segments.flatten
        ∧ List.Forall₂ (fun piece part => piece part = true) pieces segments := by
  induction pieces generalizing text segments with
  | nil => cases segments <;> simp [cuts]
  | cons piece pieces ih =>
    simp only [cuts, List.mem_flatMap, List.mem_reverse, List.mem_range, List.mem_ite_nil_right,
      List.mem_map, ih, List.forall₂_cons_left_iff]
    constructor
    · rintro ⟨k, -, hpiece, rest, ⟨htext, hrest⟩, rfl⟩
      exact ⟨by rw [List.flatten_cons, ← htext, List.take_append_drop], _, _, hpiece, hrest, rfl⟩
    · rintro ⟨rfl, part, rest, hpart, hrest, rfl⟩
      refine ⟨part.length, by simp, ?_, rest, ⟨by simp, hrest⟩, by simp⟩
      simpa using hpart

theorem isNumber_iff : isNumber part = true ↔ Number part := by
  cases part with
  | nil => simp [isNumber, Number]
  | cons c rest =>
    by_cases hc : c = '0'
    · simp +contextual [isNumber, Number, hc]
    have hone : '1' ≤ c ↔ '0' ≤ c := by
      refine ⟨fun h => le_trans (by decide) h, fun h => ?_⟩
      have hlt : '0' < c := lt_of_le_of_ne h (Ne.symm hc)
      exact Nat.succ_le_of_lt hlt
    simp [isNumber, Number, hc, hone]

/-- The matches of the expression are the readings of the text. -/
theorem mem_cuts_expression : segments ∈ cuts expression text ↔ ∃ v ∈ [[], ['v']], ∃ x y z,
      segments = [v, toDigits 10 x, ['.'], toDigits 10 y, ['.'], toDigits 10 z]
        ∧ text = v ++ dotted x y z := by
  rw [mem_cuts]
  unfold expression
  simp only [List.forall₂_cons_left_iff, List.forall₂_nil_left_iff, isNumber_iff, number_iff]
  constructor
  · rintro ⟨rfl, v, _, hv, ⟨_, _, ⟨x, rfl⟩, ⟨d, _, hd, ⟨_, _, ⟨y, rfl⟩, ⟨e, _, he, ⟨_, _, ⟨z, rfl⟩,
      rfl, rfl⟩, rfl⟩, rfl⟩, rfl⟩, rfl⟩, rfl⟩
    obtain rfl := beq_iff_eq.mp hd
    obtain rfl := beq_iff_eq.mp he
    refine ⟨v, ?_, x, y, z, rfl, by simp [dotted]⟩
    simpa [or_comm] using hv
  · rintro ⟨v, hv, x, y, z, rfl, rfl⟩
    refine ⟨by simp [dotted], v, _, ?_, ⟨_, _, ⟨x, rfl⟩, ⟨_, _, rfl, ⟨_, _, ⟨y, rfl⟩,
      ⟨_, _, rfl, ⟨_, _, ⟨z, rfl⟩, rfl, rfl⟩, rfl⟩, rfl⟩, rfl⟩, rfl⟩, rfl⟩
    simpa [or_comm] using hv

/-- A text that writes numbers is plain: its bytes, its UTF-16 code units
and its characters are the same in number. -/
theorem length_of_writes (h : Writes version.toList x y z) :
    utf16Length version = version.utf8ByteSize := by
  have hplain : ∀ c ∈ version.toList, c ≤ 'v' := by
    obtain ⟨v, hv, htext⟩ := h
    have hv : ∀ c ∈ v, c ≤ 'v' := by
      revert v
      simp
    rw [htext, List.forall_mem_append]
    exact ⟨hv, fun c hc => (le_of_mem_dotted hc).trans (by decide)⟩
  unfold utf16Length
  rw [← String.utf8Len_toList]
  generalize version.toList = text at hplain
  induction text with
  | nil => rfl
  | cons c text ih =>
    have hc : c.toNat ≤ 118 := hplain c (by simp)
    have hone : c.utf8Size = 1 := by
      rw [Char.utf8Size_eq_one_iff]
      exact UInt32.le_iff_toNat_le.mpr (hc.trans (by decide))
    rw [List.map_cons, List.sum_cons, if_pos (by omega), String.utf8Len_cons, hone,
      ih fun c hc => hplain c (by simp [hc]), Nat.add_comm]

/-- The console reads the parts of a version as the control plane does. -/
theorem consoleParts_eq (version : String) :
    stableVersionParts (some version) = Upgrade.stableVersionParts version := by
  refine Option.ext fun parts => ?_
  rw [versionParts_iff]
  simp only [stableVersionParts, Option.ite_none_left_eq_some, not_or, Nat.not_lt]
  constructor
  · rintro ⟨⟨-, hsize⟩, hparts⟩
    split at hparts
    · next hhead =>
      obtain ⟨v, hv, x, y, z, hm, htext⟩ := mem_cuts_expression.mp (List.mem_of_head? hhead)
      have hwrites : Writes version.toList x y z := ⟨v, hv, htext⟩
      simp only [List.cons.injEq] at hm
      simp only [hm, Option.some.injEq] at hparts
      exact ⟨x, y, z, ⟨length_of_writes hwrites ▸ hsize, hwrites⟩, hparts.symm⟩
    · cases hparts
  · rintro ⟨x, y, z, ⟨hsize, hwrites⟩, rfl⟩
    have hne : version ≠ "" := by
      rintro rfl
      exact hwrites.ne_nil rfl
    refine ⟨⟨hne, length_of_writes hwrites ▸ hsize⟩, ?_⟩
    -- some match is found first, and there is only one reading of the text
    obtain ⟨v, hv, htext⟩ := hwrites
    have hmem := mem_cuts_expression.mpr ⟨v, hv, x, y, z, rfl, htext⟩
    obtain ⟨m, hm⟩ := Option.isSome_iff_exists.mp (List.isSome_head?.mpr (List.ne_nil_of_mem hmem))
    obtain ⟨v', hv', x', y', z', rfl, htext'⟩ := mem_cuts_expression.mp (List.mem_of_head? hm)
    rw [hm, ← versionParts_iff.mpr ⟨x, y, z, ⟨hsize, v, hv, htext⟩, rfl⟩,
      versionParts_iff.mpr ⟨x', y', z', ⟨hsize, v', hv', htext'⟩, rfl⟩]
    rfl

theorem compareParts_eq (a b : List Char) : compareParts a b = compareSegments a b := by
  unfold compareParts compareSegments
  rw [Nat.compare_eq_ite_lt]
  by_cases h : a = b
  · simp [h]
  · split_ifs
    all_goals first | rfl | omega

end Console

end Versions

/-- Both sides order the versions they accept as the numbers they write. -/
theorem version_order_numeric (left right : String) : ((compareStableVersions left right).isSome
        ↔ (∃ x y z, Denotes left x y z) ∧ ∃ x y z, Denotes right x y z)
      ∧ (∀ x y z x' y' z', Denotes left x y z → Denotes right x' y' z' →
        compareStableVersions left right
          = some ((compare x x').then ((compare y y').then (compare z z'))))
      ∧ Console.compareAgentVersions (some left) (some right)
        = compareStableVersions left right := by
  refine ⟨?_, ?_, ?_⟩
  · have hparts : ∀ version, (∃ x y z, Denotes version x y z)
        ↔ ∃ segments, stableVersionParts version = some segments := by
      intro version
      simp only [versionParts_iff]
      exact ⟨fun ⟨x, y, z, h⟩ => ⟨_, x, y, z, h, rfl⟩, fun ⟨_, x, y, z, h, _⟩ => ⟨x, y, z, h⟩⟩
    rw [hparts, hparts]
    unfold compareStableVersions
    cases stableVersionParts left <;> cases stableVersionParts right <;> simp
  · intro x y z x' y' z' hleft hright
    have hl := versionParts_iff.mpr ⟨x, y, z, hleft, rfl⟩
    have hr := versionParts_iff.mpr ⟨x', y', z', hright, rfl⟩
    rw [compareStableVersions, hl, hr]
    simp only [parts, List.zip_cons_cons, List.zip_nil_right, List.foldl_cons, List.foldl_nil,
      compareSegments_toDigits, Ordering.then_assoc]
    rfl
  · unfold Console.compareAgentVersions compareStableVersions
    simp only [Console.consoleParts_eq, Console.compareParts_eq]

end Yunling.Upgrade
