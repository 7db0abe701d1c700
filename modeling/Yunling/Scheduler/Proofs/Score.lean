/-
What scores a candidate can get.

A score is a weighted sum of what is free of each resource, in parts of
ten thousand. A part is computed in 64 bits and multiplies before it
divides, so it rises with what is free only as long as the total is small
enough. Beyond that it falls back to nothing where the product passes the
sign bit; for the last totals below `2 ^ 63` it is always nothing.
-/
import Yunling.Scheduler.Model

namespace Yunling.Scheduler

/-- What the reports of a server are within. -/
structure Candidate.Proper (c : Candidate) : Prop where
  memory : 0 ≤ c.available.memoryBytes ∧ c.available.memoryBytes ≤ c.total.memoryBytes
  cpu : 0 ≤ c.available.cpuMillicores ∧ c.available.cpuMillicores ≤ c.total.cpuMillicores
  slots : 0 ≤ c.runningTasks ∧ c.runningTasks ≤ c.maxConcurrency
  weight : 1 ≤ c.schedulingWeight ∧ c.schedulingWeight ≤ 1000

/-- The same candidate with this much free. -/
def Candidate.freed (c : Candidate) (available : Resources) (runningTasks : Int) : Candidate :=
  { c with available, runningTasks }

/-- The part of a total rises with what is free of it. -/
def Fits (total : Int) : Prop :=
  total * scoreBasis < 2 ^ 63 ∨ 2 ^ 63 - 16 < total

-- ======== parts

section Ratio

variable {a a' total x : Int}

theorem clamp_within (x : Int) : 0 ≤ clamp x 0 scoreBasis ∧ clamp x 0 scoreBasis ≤ scoreBasis := by
  unfold clamp scoreBasis
  split_ifs <;> omega

theorem ratio_within (a total : Int) : 0 ≤ ratio a total ∧ ratio a total ≤ scoreBasis := by
  unfold ratio
  split
  · decide
  · exact clamp_within _

theorem ratio_of_wrapped (ha : 0 < a) (ht : 0 < total) (hx : wrap64 (a * scoreBasis) = x) :
    ratio a total = clamp (x.tdiv total) 0 scoreBasis := by
  unfold ratio
  rw [if_neg (by omega), hx]

theorem ratio_of_lt (ha : 0 < a) (ht : 0 < total) (hlt : wrap64 (a * scoreBasis) < total) :
    ratio a total = 0 := by
  rw [ratio_of_wrapped ha ht rfl]
  have hle := Int.tdiv_le_tdiv ht (Int.le_sub_one_of_lt hlt)
  rw [Int.tdiv_eq_zero_of_lt (a := total - 1) (by omega) (by omega)] at hle
  unfold clamp scoreBasis at *
  split_ifs <;> omega

theorem Fits.ratio_mono (h : Fits total) (ht : total < 2 ^ 63) (ha : 0 ≤ a) (hle : a ≤ a')
    (ha' : a' ≤ total) : ratio a total ≤ ratio a' total := by
  obtain rfl | hpos := eq_or_lt_of_le ha
  · simpa [ratio] using (ratio_within a' total).1
  rcases h with h | h
  · have hwrap : ∀ x, 0 ≤ x → x ≤ total → wrap64 (x * scoreBasis) = x * scoreBasis := by
      intro x hx hle
      unfold wrap64 scoreBasis at *
      omega
    rw [ratio_of_wrapped hpos (by omega) (hwrap a ha (by omega)),
      ratio_of_wrapped (by omega) (by omega) (hwrap a' (by omega) ha')]
    have hdiv : (a * scoreBasis).tdiv total ≤ (a' * scoreBasis).tdiv total :=
      Int.tdiv_le_tdiv (by omega) (by unfold scoreBasis; omega)
    unfold clamp scoreBasis at *
    split_ifs <;> omega
  · -- every product is a multiple of sixteen, so none reaches the total
    rw [ratio_of_lt hpos (by omega) (by unfold wrap64 scoreBasis; omega)]
    exact (ratio_within a' total).1

theorem ratio_falls (h : ¬ Fits total) :
    ∃ a, 0 ≤ a ∧ a + 1 ≤ total ∧ 1 ≤ ratio a total ∧ ratio (a + 1) total = 0 := by
  unfold Fits scoreBasis at h
  push Not at h
  have hfalls : ∀ a x, 0 < a → a + 1 ≤ total → wrap64 (a * scoreBasis) = x → total ≤ x →
      wrap64 ((a + 1) * scoreBasis) < 0 →
      ∃ a, 0 ≤ a ∧ a + 1 ≤ total ∧ 1 ≤ ratio a total ∧ ratio (a + 1) total = 0 := by
    intro a x ha hle hx htotal hneg
    refine ⟨a, by omega, hle, ?_, ratio_of_lt (by omega) (by omega) (by omega)⟩
    rw [ratio_of_wrapped ha (by omega) hx, Int.tdiv_eq_ediv_of_nonneg (by omega)]
    have hdiv : 1 ≤ x / total := (Int.le_ediv_iff_mul_le (by omega)).mpr (by omega)
    unfold clamp scoreBasis
    split_ifs <;> omega
  by_cases hsmall : total ≤ 9223372036854770000
  · exact hfalls 922337203685477 _ (by decide) (by omega) (by decide) hsmall (by decide)
  · -- the product wraps to the greatest multiple of sixteen
    exact hfalls 393837985973698927 (2 ^ 63 - 16) (by decide) (by omega) (by decide) (by omega)
      (by decide)

end Ratio

-- ======== scores

/-- What the weight multiplies. -/
def Candidate.parts (c : Candidate) : Int :=
  ratio c.available.memoryBytes c.total.memoryBytes * 35
    + ratio c.available.cpuMillicores c.total.cpuMillicores * 25
    + ratio (c.maxConcurrency - c.runningTasks) c.maxConcurrency * 20
    + (if c.scriptCached then scoreBasis else 0) * 15 + clamp c.fairnessScore 0 scoreBasis * 5

variable {c : Candidate}

theorem Candidate.parts_within (c : Candidate) : 0 ≤ c.parts ∧ c.parts ≤ 1000000 := by
  have hm := ratio_within c.available.memoryBytes c.total.memoryBytes
  have hp := ratio_within c.available.cpuMillicores c.total.cpuMillicores
  have hn := ratio_within (c.maxConcurrency - c.runningTasks) c.maxConcurrency
  have hf := clamp_within c.fairnessScore
  unfold parts
  split_ifs <;> unfold scoreBasis at * <;> omega

/-- Outside its parts no score wraps. -/
theorem Candidate.Proper.score_eq (h : c.Proper) (hn : c.maxConcurrency < 2 ^ 63) :
    score c = c.parts / 100 * c.schedulingWeight / 100
      ∧ 0 ≤ c.parts / 100 * c.schedulingWeight
      ∧ c.parts / 100 * c.schedulingWeight ≤ 10000 * c.schedulingWeight := by
  obtain ⟨hlow, hhigh⟩ := c.parts_within
  have hweight := h.weight
  have hslots := h.slots
  have hwrap : ∀ x, 0 ≤ x → x < 2 ^ 63 → wrap64 x = x := by
    intro x hx hlt
    unfold wrap64
    omega
  have hle : c.parts / 100 * c.schedulingWeight ≤ 10000 * c.schedulingWeight :=
    Int.mul_le_mul_of_nonneg_right (by omega) (by omega)
  have hnonneg : 0 ≤ c.parts / 100 * c.schedulingWeight := Int.mul_nonneg (by omega) (by omega)
  refine ⟨?_, hnonneg, hle⟩
  unfold score
  rw [hwrap (_ - _) (by omega) (by omega)]
  show (wrap64 ((wrap64 c.parts).tdiv 100 * _)).tdiv 100 = _
  rw [hwrap c.parts hlow (by omega), Int.tdiv_eq_ediv_of_nonneg hlow, if_neg (by omega),
    hwrap _ hnonneg (by omega), Int.tdiv_eq_ediv_of_nonneg hnonneg]

/-- The scores of candidates with these totals are bounded, and rise with
what is free, whatever else is true of the candidate. -/
def ScoresRise (total : Resources) (slots : Int) : Prop :=
  ∀ (c : Candidate) (a : Resources) (running : Int), c.total = total →
    c.maxConcurrency = slots → c.Proper → (c.freed a running).Proper →
    c.available.memoryBytes ≤ a.memoryBytes → c.available.cpuMillicores ≤ a.cpuMillicores →
    running ≤ c.runningTasks →
      0 ≤ score c ∧ score c ≤ 100 * c.schedulingWeight ∧ score c ≤ score (c.freed a running)

section Rise

variable {total : Resources} {slots : Int}

/-- What rising scores mean for the parts: `fairness` is free, so that the
smallest difference between two parts can be made one of a point. -/
theorem ScoresRise.parts_le (h : ScoresRise total slots) (hn : slots < 2 ^ 63) (fairness : Int)
    {m m' p p' n n' : Int} (hmem : 0 ≤ m ∧ m ≤ m' ∧ m' ≤ total.memoryBytes)
    (hcpu : 0 ≤ p ∧ p ≤ p' ∧ p' ≤ total.cpuMillicores) (hfree : 0 ≤ n ∧ n ≤ n' ∧ n' ≤ slots) :
    (ratio m total.memoryBytes * 35 + ratio p total.cpuMillicores * 25 + ratio n slots * 20
        + clamp fairness 0 scoreBasis * 5) / 100
      ≤ (ratio m' total.memoryBytes * 35 + ratio p' total.cpuMillicores * 25
        + ratio n' slots * 20 + clamp fairness 0 scoreBasis * 5) / 100 := by
  let c : Candidate := ⟨"", total, ⟨p, m, 0⟩, slots - n, slots, false, fairness, 100⟩
  have hc : c.Proper := ⟨by simp only [c]; omega, by simp only [c]; omega,
    by simp only [c]; omega, by simp [c]⟩
  have hc' : (c.freed ⟨p', m', 0⟩ (slots - n')).Proper :=
    ⟨by simp only [c, Candidate.freed]; omega, by simp only [c, Candidate.freed]; omega,
      by simp only [c, Candidate.freed]; omega, by simp [c, Candidate.freed]⟩
  have hscore := (h c _ _ rfl rfl hc hc' hmem.2.1 hcpu.2.1 (by simp only [c]; omega)).2.2
  rw [(hc.score_eq hn).1, (hc'.score_eq hn).1] at hscore
  simp only [c, Candidate.parts, Candidate.freed, Int.sub_sub_self, Bool.false_eq_true,
    if_false] at hscore
  omega

/-- Where scores rise, no part falls. -/
theorem ScoresRise.fits (h : ScoresRise total slots) (hm : 0 ≤ total.memoryBytes)
    (hp : 0 ≤ total.cpuMillicores) (hn : 0 ≤ slots ∧ slots < 2 ^ 63) :
    Fits total.memoryBytes ∧ Fits total.cpuMillicores ∧ Fits slots := by
  have hzero : ∀ t, ratio 0 t = 0 := fun t => by simp [ratio]
  refine ⟨?_, ?_, ?_⟩ <;> by_contra hfits <;>
    obtain ⟨x, hx, hfull, hone, hnone⟩ := ratio_falls hfits
  · have hle := h.parts_le hn.2 13 ⟨hx, Int.le_add_one (Int.le_refl x), hfull⟩
      ⟨Int.le_refl 0, Int.le_refl 0, hp⟩ ⟨Int.le_refl 0, Int.le_refl 0, hn.1⟩
    simp only [hzero, hnone, show clamp 13 0 scoreBasis = 13 from rfl] at hle
    omega
  · have hle := h.parts_le hn.2 15 ⟨Int.le_refl 0, Int.le_refl 0, hm⟩
      ⟨hx, Int.le_add_one (Int.le_refl x), hfull⟩ ⟨Int.le_refl 0, Int.le_refl 0, hn.1⟩
    simp only [hzero, hnone, show clamp 15 0 scoreBasis = 15 from rfl] at hle
    omega
  · have hle := h.parts_le hn.2 16 ⟨Int.le_refl 0, Int.le_refl 0, hm⟩
      ⟨Int.le_refl 0, Int.le_refl 0, hp⟩ ⟨hx, Int.le_add_one (Int.le_refl x), hfull⟩
    simp only [hzero, hnone, show clamp 16 0 scoreBasis = 16 from rfl] at hle
    omega

theorem Fits.scoresRise (m : Fits total.memoryBytes) (p : Fits total.cpuMillicores)
    (n : Fits slots) (hm : total.memoryBytes < 2 ^ 63) (hp : total.cpuMillicores < 2 ^ 63)
    (hn : slots < 2 ^ 63) : ScoresRise total slots := by
  rintro c a running rfl rfl hc hc' hmem hcpu hfree
  obtain ⟨heq, hlow, hhigh⟩ := hc.score_eq hn
  have hweight := hc.weight
  have hslots := hc.slots
  have hrunning : 0 ≤ running := hc'.slots.1
  have hmemory := m.ratio_mono hm hc.memory.1 hmem hc'.memory.2
  have hcores := p.ratio_mono hp hc.cpu.1 hcpu hc'.cpu.2
  have hidle : ratio (c.maxConcurrency - c.runningTasks) c.maxConcurrency
      ≤ ratio (c.maxConcurrency - running) c.maxConcurrency :=
    n.ratio_mono hn (by omega) (by omega) (by omega)
  have hparts : c.parts ≤ (c.freed a running).parts := by
    refine Int.add_le_add_right (Int.add_le_add_right ?_ _) _
    simp only [Candidate.freed]
    omega
  have hle : c.parts / 100 * c.schedulingWeight
      ≤ (c.freed a running).parts / 100 * c.schedulingWeight :=
    Int.mul_le_mul_of_nonneg_right (by omega) (by omega)
  rw [heq, (hc'.score_eq hn).1]
  simp only [Candidate.freed] at hle ⊢
  omega

end Rise

/-- Scores are bounded and rise with what is free, exactly when each total
is small enough for its part. -/
theorem score_monotone_iff (total : Resources) (slots : Int)
    (hm : 0 ≤ total.memoryBytes ∧ total.memoryBytes < 2 ^ 63)
    (hp : 0 ≤ total.cpuMillicores ∧ total.cpuMillicores < 2 ^ 63)
    (hn : 0 ≤ slots ∧ slots < 2 ^ 63) : ScoresRise total slots
      ↔ Fits total.memoryBytes ∧ Fits total.cpuMillicores ∧ Fits slots := by
  constructor
  · intro h
    exact h.fits hm.1 hp.1 hn
  · intro ⟨m, p, n⟩
    exact m.scoresRise p n hm.2 hp.2 hn.2

/-- A server with this much memory, some of it free and its slots in use. -/
def Candidate.sized (total available : Int) : Candidate :=
  ⟨"", ⟨1000, total, 0⟩, ⟨0, available, 0⟩, 1, 1, false, 0, 100⟩

theorem score_monotone_gibibytes :
    Fits (2 ^ 34) ∧ Fits 1000 ∧ Fits 1 ∧ score (.sized (2 ^ 34) (2 ^ 33))
      ≤ score ((Candidate.sized (2 ^ 34) (2 ^ 33)).freed ⟨0, 2 ^ 33 + 1, 0⟩ 0) := by
  have hm : Fits (2 ^ 34) := Or.inl (by decide)
  have hp : Fits 1000 := Or.inl (by decide)
  have hn : Fits 1 := Or.inl (by decide)
  have hrise := (score_monotone_iff ⟨1000, 2 ^ 34, 0⟩ 1 (by decide) (by decide) (by decide)).mpr
    ⟨hm, hp, hn⟩
  refine ⟨hm, hp, hn, (hrise _ _ _ rfl rfl ?_ ?_ (by decide) (by decide) (by decide)).2.2⟩
  · exact ⟨by decide, by decide, by decide, by decide⟩
  · exact ⟨by decide, by decide, by decide, by decide⟩

/-- One more free byte of nearly a pebibyte takes all of the score away. -/
theorem score_falls :
    (Candidate.sized 922337203685478 922337203685477).Proper
      ∧ (Candidate.sized 922337203685478 922337203685478).Proper
      ∧ score (.sized 922337203685478 922337203685477) = 3499
      ∧ score (.sized 922337203685478 922337203685478) = 0 :=
  ⟨⟨by decide, by decide, by decide, by decide⟩, ⟨by decide, by decide, by decide, by decide⟩,
    by decide, by decide⟩

end Yunling.Scheduler
