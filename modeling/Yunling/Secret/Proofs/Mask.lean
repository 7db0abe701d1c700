/-
What masking leaves of a text.

A form that has no asterisk shares no letter with the mask. So it is gone
from the result, whatever is replaced after it (`not_infix_mask`), and
what is left is text that was there before (`masked_reflects`).

# The order

The order in which two forms of one length are replaced matters when
their rounds meet in what the rounds before have left: the first one
takes the letters they share (`order_matters`), or writes the asterisks
that the other has. Where no two rounds meet, every order comes to the
same: a form is moved to the front over the forms of its length
(`mask_move`), and then the next.
-/
import Yunling.Lib.Cover
import Yunling.Lib.OrderBy
import Yunling.Secret.Redactor

namespace Yunling.Secret

open Utf8 Replace

-- ======== masking

section Mask

variable (wide : Bytes → Bytes)

theorem mask_ne_nil : mask ≠ [] := by decide

/-- A value without an asterisk shares nothing with the mask. -/
theorem avoids_mask {v : Bytes} (h : 0x2A ∉ v) : Avoids mask v := by
  intro x hx hmask
  rw [mask, List.mem_replicate] at hmask
  exact h (hmask.2 ▸ hx)

/-- The words a round replaces. -/
def words (v : Bytes) : List Bytes :=
  v :: if 0x25 ∈ v ∧ toLower wide v ≠ v then [toLower wide v] else []

/-- The text after the replacements of some words. -/
def masked (ws : List Bytes) (text : Bytes) : Bytes := replaced mask ws text

theorem maskVariant_eq (text v : Bytes) :
    maskVariant wide text v = masked (words wide v) text := by
  unfold maskVariant masked replaced words
  split_ifs <;> rfl

theorem mask_eq (ordered : List Bytes) (text : Bytes) :
    Redactor.mask wide ordered text = masked (ordered.flatMap (words wide)) text := by
  unfold Redactor.mask masked replaced
  rw [List.foldl_flatMap]
  congr 1
  funext t v
  exact maskVariant_eq wide t v

/-- What no single replacement brings about, several do not. -/
theorem masked_reflects {P : Bytes → Prop} (hP : ∀ old t, P (replaceAll old mask 0 t) → P t)
    {ws : List Bytes} {text : Bytes} (h : P (masked ws text)) : P text := by
  induction ws generalizing text with
  | nil => exact h
  | cons w ws ih => exact hP w text (ih h)

variable {v : Bytes} (hv : 0x2A ∉ v) {ordered : List Bytes} {text : Bytes}

include hv

theorem infix_of_masked {ws : List Bytes} (h : v <:+: masked ws text) : v <:+: text :=
  masked_reflects (P := fun t => v <:+: t)
    (fun _ _ => infix_of_replaceAll mask_ne_nil (avoids_mask hv)) h

/-- A result without an asterisk is the text. -/
theorem eq_of_mask (h : Redactor.mask wide ordered text = v) : text = v := by
  rw [mask_eq] at h
  refine masked_reflects (P := fun t => t = v) (fun old t ht => ?_) h
  have hself : replaceAll old mask 0 t = t := by
    refine replaceAll_eq_self mask_ne_nil ?_
    rw [ht]
    exact avoids_mask hv
  exact hself.symm.trans ht

theorem not_infix_masked {ws : List Bytes} (hmem : v ∈ ws) (hne : v ≠ []) :
    ¬ v <:+: masked ws text := by
  intro h
  obtain ⟨l₁, l₂, rfl⟩ := List.append_of_mem hmem
  rw [masked, replaced, List.foldl_append] at h
  exact not_infix_replaceAll mask_ne_nil (avoids_mask hv) hne _ (infix_of_masked hv h)

theorem not_infix_mask (hmem : v ∈ ordered) (hne : v ≠ []) :
    ¬ v <:+: Redactor.mask wide ordered text := by
  rw [mask_eq]
  exact not_infix_masked hv (List.mem_flatMap.mpr ⟨v, hmem, List.mem_cons_self⟩) hne

end Mask

-- ======== orders

/-- One of the orders `Mask` may use. -/
def someOrder (values : List Bytes) : List Bytes :=
  ((variants values).dedup.filter fun v => v ≠ [] ∧ v ≠ mask).insertionSort
    (OrderBy.Asc fun v => -(v.length : Int))

theorem someOrder_ordering (values : List Bytes) : Ordering values (someOrder values) := by
  have hmem : ∀ v, v ∈ someOrder values ↔ v ∈ variants values ∧ v ≠ [] ∧ v ≠ mask := by
    intro v
    unfold someOrder
    rw [List.mem_insertionSort, List.mem_filter, List.mem_dedup, decide_eq_true_eq]
  constructor
  · exact (List.perm_insertionSort _ _).nodup_iff.mpr ((List.nodup_dedup _).filter _)
  · exact fun v hv => (hmem v).mp hv
  · exact fun v hv hne hmask => (hmem v).mpr ⟨hv, hne, hmask⟩
  · refine (List.pairwise_insertionSort _ _).imp fun {v w} h => ?_
    have hle : -(v.length : Int) ≤ -(w.length : Int) := h
    omega

-- ======== asterisks

section Asterisks

variable {value : Bytes}

theorem base64Digit_ne (url : Bool) (n : Nat) : base64Digit url n ≠ 0x2A := by
  intro h
  unfold base64Digit at h
  split_ifs at h
  iterate 3
    · have := congrArg UInt8.toNat h
      simp at this
      omega
  all_goals cases h

theorem base64_star (url padded : Bool) (value : Bytes) : 0x2A ∉ base64 url padded value := by
  have hdigit := fun n => (base64Digit_ne url n).symm
  fun_induction base64 url padded value <;> simp_all

theorem escape_star (path : Bool) (h : 0x2A ∉ value) : 0x2A ∉ escape path value := by
  have hhex : ∀ n < 16, hexDigit n ≠ 0x2A := by decide
  intro hmem
  obtain ⟨c, hc, hstar⟩ := List.mem_flatMap.mp hmem
  have hlt := c.toNat_lt
  split_ifs at hstar
  · simp at hstar
  · simp only [List.mem_cons, List.not_mem_nil, or_false] at hstar
    rcases hstar with hstar | hstar | hstar
    · cases hstar
    · exact hhex _ (by omega) hstar.symm
    · exact hhex _ (by omega) hstar.symm
  · rw [List.mem_singleton] at hstar
    exact h (hstar ▸ hc)

/-- No form of a value without an asterisk has one. -/
theorem variants_star {values : List Bytes} (h : ∀ v ∈ values, 0x2A ∉ v) :
    ∀ v ∈ variants values, 0x2A ∉ v := by
  intro v hv
  obtain ⟨value, hvalue, hv⟩ := List.mem_flatMap.mp hv
  have hstar := h value (List.mem_filter.mp hvalue).1
  simp only [List.mem_cons, List.not_mem_nil, or_false] at hv
  rcases hv with rfl | rfl | rfl | rfl | rfl | rfl | rfl
  · exact hstar
  iterate 4 exact base64_star _ _ value
  · exact escape_star false hstar
  · exact escape_star true hstar

theorem toLower_star {wide : Bytes → Bytes} (hwide : ∀ s, 0x2A ∉ s → 0x2A ∉ wide s)
    (h : 0x2A ∉ value) : 0x2A ∉ toLower wide value := by
  unfold toLower
  split
  · intro hmem
    obtain ⟨c, hc, hlower⟩ := List.mem_map.mp hmem
    split at hlower
    · next hupper =>
      have hlow : (0x41 : UInt8).toNat ≤ c.toNat := UInt8.le_iff_toNat_le.mp hupper.1
      have hhigh : c.toNat ≤ (0x5A : UInt8).toNat := UInt8.le_iff_toNat_le.mp hupper.2
      have heq := congrArg UInt8.toNat hlower
      simp at hlow hhigh heq
      omega
    · exact h (hlower ▸ hc)
  · exact hwide value h

theorem words_star {wide : Bytes → Bytes} (hwide : ∀ s, 0x2A ∉ s → 0x2A ∉ wide s)
    {values ordered : List Bytes} (hord : Ordering values ordered) (h : ∀ v ∈ values, 0x2A ∉ v) :
    ∀ w ∈ ordered.flatMap (words wide), 0x2A ∉ w := by
  intro w hw
  obtain ⟨v, hv, hw⟩ := List.mem_flatMap.mp hw
  have hstar := variants_star h v (hord.forms v hv).1
  unfold words at hw
  split_ifs at hw
  · simp only [List.mem_cons, List.not_mem_nil, or_false] at hw
    rcases hw with rfl | rfl
    · exact hstar
    · exact toLower_star hwide hstar
  · rw [List.mem_singleton] at hw
    exact hw ▸ hstar

end Asterisks

-- ======== completeness

theorem base64_ne_nil (url padded : Bool) {value : Bytes}
    (h : value ≠ []) : base64 url padded value ≠ [] := by
  match value, h with
  | [], h => exact absurd rfl h
  | [_], _ => exact List.cons_ne_nil _ _
  | [_, _], _ => exact List.cons_ne_nil _ _
  | _ :: _ :: _ :: _, _ => exact List.cons_ne_nil _ _

theorem escape_ne_nil (path : Bool) {value : Bytes} (h : value ≠ []) : escape path value ≠ [] := by
  cases value with
  | nil => exact absurd rfl h
  | cons c value =>
    unfold escape
    rw [List.flatMap_cons]
    split_ifs <;> exact List.cons_ne_nil _ _

theorem variants_ne_nil {values : List Bytes} {v : Bytes} (h : v ∈ variants values) : v ≠ [] := by
  obtain ⟨value, hvalue, hv⟩ := List.mem_flatMap.mp h
  have hne : value ≠ [] := by simpa using (List.mem_filter.mp hvalue).2
  simp only [List.mem_cons, List.not_mem_nil, or_false] at hv
  rcases hv with rfl | rfl | rfl | rfl | rfl | rfl | rfl
  · exact hne
  iterate 4 exact base64_ne_nil _ _ hne
  · exact escape_ne_nil false hne
  · exact escape_ne_nil true hne

/-- Nothing of a value is left, in any order. -/
theorem mask_complete (wide : Bytes → Bytes) (values ordered : List Bytes)
    (text : Bytes) (hord : Ordering values ordered) (hstar : ∀ v ∈ variants values, 0x2A ∉ v) :
    ∀ value ∈ values, value ≠ [] → ∀ v ∈ [value, base64 false true value, base64 false false value,
          base64 true true value, base64 true false value, queryEscape value, pathEscape value],
        ¬ v <:+: Redactor.mask wide ordered text := by
  intro value hvalue hne v hv
  have hform : v ∈ variants values := List.mem_flatMap.mpr
      ⟨value, List.mem_filter.mpr ⟨hvalue, by simpa using hne⟩, hv⟩
  have hmask : v ≠ mask := by
    rintro rfl
    exact hstar _ hform (by decide)
  have hvne := variants_ne_nil hform
  exact not_infix_mask wide (hstar v hform) (hord.every v hform hvne hmask) hvne

/-- The secret `pw`, in the open and encoded. -/
theorem mask_complete_pw : ¬ base64 false true [0x70, 0x77] <:+: Redactor.mask id
      (someOrder [[0x70, 0x77]]) ([0x70, 0x77] ++ base64 false true [0x70, 0x77]) :=
  mask_complete id [[0x70, 0x77]] _ _ (someOrder_ordering _) (by decide)
    [0x70, 0x77] (by decide) (by decide) _ (by decide)

-- ======== one answer

section OneAnswer

variable (wide : Bytes → Bytes)

/-- The forms `Mask` goes through. -/
def listed (values : List Bytes) : List Bytes :=
  (variants values).filter fun v => v ≠ [] ∧ v ≠ mask

/-- The rounds of two forms do not meet in the text: no replacement of a
word of one meets a replacement of a word of the other, where those before
the two are done. -/
def Rounds (text v w : Bytes) : Prop :=
  ∀ as a as' bs b bs', words wide v = as ++ a :: as' → words wide w = bs ++ b :: bs' → a ≠ b →
    ¬ Meets mask a b (masked (as ++ bs) text)

/-- In whatever order the forms are masked, longer ones first, two forms
of one length that come one after the other do not meet in what the
rounds before them leave. -/
def Clear (forms : List Bytes) (text : Bytes) : Prop :=
  ∀ o, o.Perm forms → (o.Pairwise fun v w => w.length ≤ v.length) →
    ∀ before v w after, o = before ++ v :: w :: after → v.length = w.length →
      Rounds wide (Redactor.mask wide before text) v w

variable {wide} {text a v w : Bytes} {forms : List Bytes}

/-- A word is replaced before or after others it does not meet. -/
theorem replaceAll_masked {ws : List Bytes} (h : ∀ bs b bs', ws = bs ++ b :: bs' → a ≠ b →
      ¬ Meets mask a b (masked bs text)) :
    masked ws (replaceAll a mask 0 text) = replaceAll a mask 0 (masked ws text) := by
  induction ws generalizing text with
  | nil => rfl
  | cons b ws ih =>
    have hcomm : replaceAll b mask 0 (replaceAll a mask 0 text)
        = replaceAll a mask 0 (replaceAll b mask 0 text) := by
      by_cases hab : a = b
      · rw [hab]
      · exact (replaceAll_comm mask_ne_nil (h [] b ws rfl hab)).symm
    show masked ws (replaceAll b mask 0 (replaceAll a mask 0 text)) = _
    rw [hcomm]
    refine ih fun bs b' bs' hws hne => ?_
    exact h (b :: bs) b' bs' (by rw [hws, List.cons_append]) hne

theorem Rounds.comm (h : Rounds wide text v w) :
    maskVariant wide (maskVariant wide text v) w
      = maskVariant wide (maskVariant wide text w) v := by
  unfold Rounds at h
  simp only [maskVariant_eq]
  generalize words wide v = as at h ⊢
  induction as generalizing text with
  | nil => rfl
  | cons a as ih =>
    show masked (words wide w) (masked as (replaceAll a mask 0 text))
      = masked as (replaceAll a mask 0 (masked (words wide w) text))
    rw [← replaceAll_masked fun bs b bs' hbs hne => h [] a as bs b bs' rfl hbs hne]
    refine ih fun as₁ a' as₂ bs b bs' has hbs hne => ?_
    exact h (a :: as₁) a' as₂ bs b bs' (by rw [has, List.cons_append]) hbs hne

theorem Clear.tail (h : Clear wide (v :: forms) text)
    (hlongest : ∀ x ∈ forms, x.length ≤ v.length) :
    Clear wide forms (maskVariant wide text v) := by
  rintro o hperm hsorted before x y after rfl hlen
  refine h (v :: (before ++ x :: y :: after)) (hperm.cons v) ?_ (v :: before) x y after rfl hlen
  exact List.pairwise_cons.mpr ⟨fun z hz => hlongest z (hperm.mem_iff.mp hz), hsorted⟩

theorem Clear.perm {forms' : List Bytes} (h : Clear wide forms text) (hperm : forms'.Perm forms) :
    Clear wide forms' text :=
  fun o ho => h o (ho.trans hperm)

/-- A form is moved to the front over forms of its length. -/
theorem mask_move {before after : List Bytes}
    (hclear : Clear wide (before ++ v :: after) text) (hsame : ∀ w ∈ before, w.length = v.length)
    (hsorted : (before ++ v :: after).Pairwise fun v w => w.length ≤ v.length) :
    Redactor.mask wide (before ++ v :: after) text
      = Redactor.mask wide (v :: (before ++ after)) text := by
  induction before generalizing text with
  | nil => rfl
  | cons w before ih =>
    obtain ⟨hlongest, hsorted⟩ := List.pairwise_cons.mp hsorted
    obtain ⟨hw, hsame⟩ := List.forall_mem_cons.mp hsame
    have hrest : Redactor.mask wide (before ++ v :: after) (maskVariant wide text w)
        = Redactor.mask wide (v :: (before ++ after)) (maskVariant wide text w) :=
      ih (hclear.tail hlongest) hsame hsorted
    have hfront : (v :: (before ++ after)).Perm (before ++ v :: after) := List.perm_middle.symm
    have hcomm : Rounds wide text w v := by
      refine hclear (w :: v :: (before ++ after)) (hfront.cons w) ?_ [] w v _ rfl hw
      refine List.pairwise_cons.mpr ⟨fun x hx => hlongest x (hfront.mem_iff.mp hx), ?_⟩
      refine List.pairwise_cons.mpr ⟨fun x hx => ?_, hsorted.sublist ?_⟩
      · rw [← hw]
        exact hlongest x (hfront.mem_iff.mp (List.mem_cons_of_mem v hx))
      · exact (List.Sublist.refl before).append (List.sublist_cons_self v after)
    calc Redactor.mask wide (w :: before ++ v :: after) text
        = Redactor.mask wide (before ++ after)
            (maskVariant wide (maskVariant wide text w) v) := hrest
      _ = Redactor.mask wide (v :: (w :: before ++ after)) text := by rw [hcomm.comm]; rfl

/-- Two orders of the same forms, longer ones first, come to the same. -/
theorem mask_perm {o₁ o₂ : List Bytes} (hperm : o₁.Perm o₂)
    (h₁ : o₁.Pairwise fun v w => w.length ≤ v.length)
    (h₂ : o₂.Pairwise fun v w => w.length ≤ v.length) (hclear : Clear wide o₁ text) :
    Redactor.mask wide o₁ text = Redactor.mask wide o₂ text := by
  induction o₁ generalizing text o₂ with
  | nil =>
    rw [hperm.nil_eq]
  | cons v o₁ ih =>
    obtain ⟨before, after, rfl⟩ := List.append_of_mem (hperm.subset List.mem_cons_self)
    have hrest : o₁.Perm (before ++ after) := (hperm.trans List.perm_middle).cons_inv
    obtain ⟨hlongest, h₁⟩ := List.pairwise_cons.mp h₁
    -- the forms before it in the other order are as long as it is
    have hsame : ∀ w ∈ before, w.length = v.length := by
      intro w hw
      have hle := hlongest w (hrest.mem_iff.mpr (List.mem_append_left _ hw))
      have hge := (List.pairwise_append.mp h₂).2.2 w hw v List.mem_cons_self
      omega
    rw [mask_move (hclear.perm hperm.symm) hsame h₂]
    have hsub : (before ++ after).Sublist (before ++ v :: after) :=
      (List.Sublist.refl before).append (List.sublist_cons_self v after)
    exact ih hrest h₁ (h₂.sublist hsub) (hclear.tail hlongest)

end OneAnswer

/-- An order goes through the listed forms, each once. -/
theorem Ordering.perm {values ordered : List Bytes} (h : Ordering values ordered) :
    ordered.Perm (listed values).dedup := by
  refine (List.perm_ext_iff_of_nodup h.once (List.nodup_dedup _)).mpr fun v => ?_
  rw [List.mem_dedup, listed, List.mem_filter, decide_eq_true_eq]
  exact ⟨h.forms v, fun ⟨hv, hne, hmask⟩ => h.every v hv hne hmask⟩

end Yunling.Secret
