/-
# `AutoDev.Evals.Percentile` — the percentiles of a run's metrics

`_percentile` of `backend/evals/runner.py`, in exact arithmetic.

Its docstring says NEAREST RANK: the smallest sample that at least the given
fraction of the samples does not exceed, which stands at position `⌈f n⌉ - 1`
of the sorted list.  The code takes position `round (f (n - 1))`, which is that
one, the one before or the one behind.  Which of them depends on how far `f n`
lies above the position of the nearest rank (`slack`): within a half of `f` the
code is right; otherwise it is only right on a tie of neighbouring samples.
-/
import AutoDev.Quotas.Store
import Mathlib.Algebra.Order.Floor.Semiring
import Mathlib.Data.List.Sort

namespace AutoDev.Evals

open List
open AutoDev.Quotas (roundHalfEven roundHalfEven_mono)

variable (values : List ℚ) (fraction : ℚ)

def ordered : List ℚ := values.insertionSort (· ≤ ·)

def percentileIndex : ℕ :=
  let last : ℤ := (ordered values).length - 1
  (max 0 (min last (roundHalfEven (fraction * last)))).toNat

def percentile : ℚ :=
  if values = [] then 0 else (ordered values)[percentileIndex values fraction]?.getD 0

/-- `x` is the smallest sample that at least the fraction of the samples does not exceed. -/
def NearestRank (x : ℚ) : Prop :=
  IsLeast { y | y ∈ values ∧ fraction * values.length ≤ values.countP (· ≤ y) } x

def nearestIndex : ℕ := ⌈fraction * values.length⌉₊ - 1

/-- How far `f n` lies above it. -/
def slack : ℚ := fraction * values.length - nearestIndex values fraction

/-- The samples at two positions of the sorted list are the same. -/
def Tied (i j : ℕ) : Prop := (ordered values)[i]? = (ordered values)[j]?

def WithinHalf : Prop :=
  |slack values fraction - fraction| < 1 / 2 ∨
    |slack values fraction - fraction| = 1 / 2 ∧ Even (nearestIndex values fraction)

variable {values values' : List ℚ} {f f' y : ℚ} {i : ℕ}

theorem ordered_perm (values : List ℚ) : ordered values ~ values := perm_insertionSort _ values

theorem ordered_pairwise (values : List ℚ) : (ordered values).Pairwise (· ≤ ·) :=
  pairwise_insertionSort _ values

theorem ordered_congr (h : values' ~ values) : ordered values' = ordered values :=
  ((ordered_perm values').trans (h.trans (ordered_perm values).symm)).eq_of_pairwise'
    (ordered_pairwise values') (ordered_pairwise values)

theorem lt_countP_iff {l : List ℚ} (h : l.Pairwise (· ≤ ·)) (hi : i < l.length) :
    i < l.countP (· ≤ y) ↔ l[i] ≤ y := by
  induction l generalizing i with
  | nil => cases hi
  | cons a l ih =>
    obtain ⟨ha, hl⟩ := pairwise_cons.mp h
    by_cases hay : a ≤ y
    · cases i with
      | zero => simp [hay]
      | succ i => simpa [hay] using ih hl (Nat.lt_of_succ_lt_succ hi)
    -- nothing behind `a` is smaller
    have hle : ∀ b ∈ a :: l, a ≤ b := forall_mem_cons.mpr ⟨le_rfl, ha⟩
    have hnone : (a :: l).countP (· ≤ y) = 0 :=
      countP_eq_zero.mpr fun b hb => by simpa using (not_le.mp hay).trans_le (hle b hb)
    rw [hnone]
    exact iff_of_false (Nat.not_lt_zero i) fun h => hay ((hle _ (getElem_mem hi)).trans h)

theorem percentileIndex_lt (hne : values ≠ []) (f : ℚ) :
    percentileIndex values f < (ordered values).length := by
  have hpos : 0 < (ordered values).length := by
    rw [(ordered_perm values).length_eq]
    exact length_pos_iff.mpr hne
  simp only [percentileIndex]
  omega

theorem getElem_percentileIndex (hne : values ≠ []) (f : ℚ) :
    (ordered values)[percentileIndex values f]? = some (percentile values f) := by
  have hlt := percentileIndex_lt hne f
  rw [percentile, if_neg hne, getElem?_eq_getElem hlt, Option.getD_some]

theorem exists_nearest (hne : values ≠ []) (hf : 0 < f) (hf' : f ≤ 1) :
    ∃ x, (ordered values)[nearestIndex values f]? = some x ∧ NearestRank values f x := by
  have hn : (0 : ℚ) < values.length := by
    exact_mod_cast length_pos_iff.mpr hne
  have hpos : 0 < ⌈f * values.length⌉₊ := Nat.ceil_pos.mpr (mul_pos hf hn)
  have hle : ⌈f * values.length⌉₊ ≤ values.length :=
    Nat.ceil_le.mpr (mul_le_of_le_one_left hn.le hf')
  have hperm := ordered_perm values
  have hlt : nearestIndex values f < (ordered values).length := by
    rw [hperm.length_eq, nearestIndex]
    omega
  -- enough samples do not exceed `y` exactly if the one at this position does not
  have hrank (y : ℚ) : f * values.length ≤ values.countP (· ≤ y) ↔
      (ordered values)[nearestIndex values f] ≤ y := by
    rw [← lt_countP_iff (ordered_pairwise values) hlt, hperm.countP_eq, ← Nat.ceil_le,
      nearestIndex]
    omega
  refine ⟨_, getElem?_eq_getElem hlt, ⟨hperm.mem_iff.mp (getElem_mem hlt), ?_⟩, ?_⟩
  · exact (hrank _).mpr le_rfl
  · exact fun y hy => (hrank y).mp hy.2

theorem percentile_mono (hne : values ≠ []) (h : f ≤ f') :
    percentile values f ≤ percentile values f' := by
  have hlt := percentileIndex_lt hne f'
  have hlast : (0 : ℤ) ≤ (ordered values).length - 1 := by omega
  have hround := roundHalfEven_mono (mul_le_mul_of_nonneg_right h (Int.cast_nonneg hlast))
  have hle : percentileIndex values f ≤ percentileIndex values f' := by
    simp only [percentileIndex]
    omega
  have hx := getElem_percentileIndex hne f
  have hy := getElem_percentileIndex hne f'
  rw [getElem?_eq_getElem hlt] at hy
  rw [getElem?_eq_getElem (hle.trans_lt hlt)] at hx
  rw [← Option.some.inj hx, ← Option.some.inj hy]
  exact (ordered_pairwise values).sortedLE.getElem_le_getElem_of_le hle

theorem percentile_mem (hne : values ≠ []) (f : ℚ) : percentile values f ∈ values :=
  (ordered_perm values).mem_iff.mp (mem_of_getElem? (getElem_percentileIndex hne f))

theorem percentile_congr (h : values' ~ values) (f : ℚ) :
    percentile values' f = percentile values f := by
  have hnil : values' = [] ↔ values = [] := by
    rw [← length_eq_zero_iff, h.length_eq, length_eq_zero_iff]
  simp only [percentile, percentileIndex, hnil, ordered_congr h]

theorem nearestRank_iff (hne : values ≠ []) (hf : 0 < f) (hf' : f ≤ 1) :
    NearestRank values f (percentile values f) ↔
      Tied values (percentileIndex values f) (nearestIndex values f) := by
  obtain ⟨x, hx, hnear⟩ := exists_nearest hne hf hf'
  rw [Tied, getElem_percentileIndex hne, hx, Option.some_inj]
  refine ⟨fun h => h.unique hnear, ?_⟩
  rintro rfl
  exact hnear

/-! ## The position that is read -/

section Rounding

variable {x : ℚ} {k : ℤ}

theorem roundHalfEven_eq (hlo : k - 1 / 2 < x) (hhi : x < k + 1 / 2) : roundHalfEven x = k := by
  unfold roundHalfEven
  rcases lt_or_ge x k with hlt | hge
  · have hfloor : ⌊x⌋ = k - 1 := Int.floor_eq_iff.mpr ⟨by push_cast; linarith, by push_cast; linarith⟩
    rw [hfloor, if_neg (by push_cast; linarith), if_pos (by push_cast; linarith)]
    omega
  · have hfloor : ⌊x⌋ = k := Int.floor_eq_iff.mpr ⟨hge, by linarith⟩
    rw [hfloor, if_pos (by linarith)]

theorem roundHalfEven_half (hx : x = k + 1 / 2) :
    roundHalfEven x = if Even k then k else k + 1 := by
  have hfloor : ⌊x⌋ = k := Int.floor_eq_iff.mpr ⟨by linarith, by linarith⟩
  unfold roundHalfEven
  rw [hfloor, if_neg (by rw [hx]; linarith), if_neg (by rw [hx]; linarith)]
  simp only [Int.even_iff]

end Rounding

theorem slack_bounds (hne : values ≠ []) (hf : 0 < f) : 0 < slack values f ∧ slack values f ≤ 1 := by
  have hn : (0 : ℚ) < values.length := by exact_mod_cast length_pos_iff.mpr hne
  have hpos : 0 < ⌈f * values.length⌉₊ := Nat.ceil_pos.mpr (mul_pos hf hn)
  have hcast : (nearestIndex values f : ℚ) = ⌈f * values.length⌉₊ - 1 := by
    rw [nearestIndex, Nat.cast_sub hpos, Nat.cast_one]
  have hle := Nat.le_ceil (f * values.length)
  have hlt := Nat.ceil_lt_add_one (mul_pos hf hn).le
  unfold slack
  constructor <;> linarith

theorem percentileIndex_cases (hne : values ≠ []) (hf : 0 < f) (hf' : f ≤ 1) :
    (WithinHalf values f ∧ percentileIndex values f = nearestIndex values f) ∨
    (¬ WithinHalf values f ∧ slack values f < f ∧
      percentileIndex values f + 1 = nearestIndex values f) ∨
    (¬ WithinHalf values f ∧ f < slack values f ∧
      percentileIndex values f = nearestIndex values f + 1) := by
  obtain ⟨hd, hd'⟩ := slack_bounds hne hf
  have hlen : 1 ≤ values.length := length_pos_iff.mpr hne
  have hlenq : (1 : ℚ) ≤ values.length := by exact_mod_cast hlen
  set k := nearestIndex values f with hk
  have hslack : f * values.length = k + slack values f := by rw [slack]; ring
  -- what is rounded lies `slack - f` above the position
  have hread : percentileIndex values f =
      (max 0 (min ((values.length : ℤ) - 1)
        (roundHalfEven (k + (slack values f - f))))).toNat := by
    simp only [percentileIndex, (ordered_perm values).length_eq]
    congr 4
    push_cast
    linarith
  have hlast : (k : ℤ) ≤ values.length - 1 := by
    have : (k : ℚ) < values.length := by nlinarith
    have : k < values.length := by exact_mod_cast this
    omega
  have hbehind : 1 / 2 ≤ slack values f - f → (k : ℤ) + 1 ≤ values.length - 1 := fun h => by
    have : (k : ℚ) + 1 < values.length := by nlinarith
    have : k + 1 < values.length := by exact_mod_cast this
    omega
  have hbefore : 1 / 2 ≤ f - slack values f → 0 < k := fun h => by
    have : (0 : ℚ) < k := by nlinarith
    exact_mod_cast this
  have heven : Even (k : ℤ) ↔ Even k := Int.even_coe_nat k
  rcases lt_trichotomy (|slack values f - f|) (1 / 2) with hlt | heq | hgt
  · obtain ⟨hlo, hhi⟩ := abs_lt.mp hlt
    refine .inl ⟨.inl hlt, ?_⟩
    rw [hread, roundHalfEven_eq (k := k) (by push_cast; linarith) (by push_cast; linarith)]
    omega
  · by_cases hev : Even k
    · refine .inl ⟨.inr ⟨heq, hev⟩, ?_⟩
      rcases (abs_eq (by norm_num)).mp heq with h | h
      · rw [hread, roundHalfEven_half (k := k) (by push_cast; linarith), if_pos (heven.mpr hev)]
        omega
      · rw [hread, roundHalfEven_half (k := (k : ℤ) - 1) (by push_cast; linarith),
          if_neg (by simpa [Int.even_sub_one] using hev)]
        omega
    have hnot : ¬ WithinHalf values f := by
      rintro (h | ⟨-, h⟩)
      · exact absurd heq h.ne
      · exact hev h
    rcases (abs_eq (by norm_num)).mp heq with h | h
    · refine .inr (.inr ⟨hnot, by linarith, ?_⟩)
      have hroom := hbehind (by linarith)
      rw [hread, roundHalfEven_half (k := k) (by push_cast; linarith), if_neg (heven.not.mpr hev)]
      omega
    · refine .inr (.inl ⟨hnot, by linarith, ?_⟩)
      have hpos := hbefore (by linarith)
      rw [hread, roundHalfEven_half (k := (k : ℤ) - 1) (by push_cast; linarith),
        if_pos (by simpa [Int.even_sub_one] using hev)]
      omega
  · have hnot : ¬ WithinHalf values f := by
      rintro (h | ⟨h, -⟩)
      · exact absurd h hgt.not_gt
      · exact absurd h hgt.ne'
    rcases lt_abs.mp hgt with h | h
    · refine .inr (.inr ⟨hnot, by linarith, ?_⟩)
      have hroom := hbehind (by linarith)
      rw [hread, roundHalfEven_eq (k := (k : ℤ) + 1) (by push_cast; linarith)
        (by push_cast; linarith)]
      omega
    · refine .inr (.inl ⟨hnot, by linarith, ?_⟩)
      have hpos := hbefore (by linarith)
      rw [hread, roundHalfEven_eq (k := (k : ℤ) - 1) (by push_cast; linarith)
        (by push_cast; linarith)]
      omega

/-- For any fraction of a list that is not empty, what `_percentile` returns is a sample, monotone
in the fraction and independent of the order of the list.  It is the nearest-rank percentile exactly
if the slack is within a half of the fraction, or the sample of the nearest rank is tied with the
one before it (if the slack is the smaller) or behind it (if it is the larger). -/
theorem percentile_iff (hne : values ≠ []) (hf : 0 < f) (hf' : f ≤ 1) :
    (NearestRank values f (percentile values f) ↔
      WithinHalf values f ∨
      slack values f < f ∧ Tied values (nearestIndex values f - 1) (nearestIndex values f) ∨
      f < slack values f ∧ Tied values (nearestIndex values f + 1) (nearestIndex values f)) ∧
    percentile values f ∈ values ∧
    (∀ f₁ f₂, f₁ ≤ f₂ → percentile values f₁ ≤ percentile values f₂) ∧
    ∀ values', values' ~ values → percentile values' f = percentile values f := by
  refine ⟨?_, percentile_mem hne f, fun _ _ h => percentile_mono hne h,
    fun _ h => percentile_congr h f⟩
  rw [nearestRank_iff hne hf hf']
  rcases percentileIndex_cases hne hf hf' with ⟨hw, hi⟩ | ⟨hw, hs, hi⟩ | ⟨hw, hs, hi⟩
  · rw [hi]
    exact iff_of_true rfl (.inl hw)
  · have hbefore : nearestIndex values f - 1 = percentileIndex values f := by omega
    simp [hw, hs, hs.not_gt, hbefore]
  · simp [hw, hs, hs.not_gt, hi]

theorem percentile_tied : NearestRank [4, 2, 1, 2] (1 / 2) (percentile [4, 2, 1, 2] (1 / 2)) :=
  (percentile_iff (by decide) (by norm_num) (by norm_num)).1.mpr
    (.inr (.inr ⟨by decide +kernel, by unfold Tied; decide +kernel⟩))

/-- Of four samples the code takes the third where the second is the median of nearest rank. -/
theorem upper_median_taken :
    ¬ NearestRank [1, 2, 3, 4] (1 / 2) (percentile [1, 2, 3, 4] (1 / 2)) := by
  have h : percentile [1, 2, 3, 4] (1 / 2) = 3 := by decide +kernel
  rw [h]
  intro hn
  have h2 : (3 : ℚ) ≤ 2 := hn.2 ⟨by simp, by norm_num⟩
  norm_num at h2

end AutoDev.Evals
