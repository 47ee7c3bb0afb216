import QuantNet.Proofs.BreakPoints

/-!
# The hard sigmoid

The hard sigmoid has three branches with their own constants: zero up to the lower break point, one from the upper
break point on, and a line with a rounded slope through a rounded half between them. In every format the line stays
between zero and one (`sloped_bounds`), so the branches meet without a step down and nothing is left for the final
clamp to do.

Six times the rounded slope exceeds the unit by two at most (`Activation.slope_bounds`). An integer between the break
points is less than three units away from zero, and on this way the surplus is worth less than one step of the output,
which the division toward zero cuts off (`mul_slope_lt`). Where one is outside the format the upper break point is the
end of the range; the line has only a third of its way to go and ends far below it (`mul_slope_lt_of_narrow`).

The largest unit is no signed word and becomes negative. There the products that are words are smaller than the unit,
so the line is flat (`sloped_of_widest`).
-/

namespace QuantNet

/-! ### Division toward zero -/

theorem tdiv_le_of_lt {n u w : Int} (hu : 0 < u) (hw : 0 ≤ w) (h : n < (w + 1) * u) : n.tdiv u ≤ w := by
  rcases le_total 0 n with hn | hn
  · rw [Int.tdiv_eq_ediv_of_nonneg hn]
    exact Int.lt_add_one_iff.mp (Int.ediv_lt_of_lt_mul hu h)
  · have hle := Int.tdiv_le_tdiv hu hn
    rw [Int.zero_tdiv] at hle
    exact hle.trans hw

theorem neg_le_tdiv_of_lt {n u w : Int} (hu : 0 < u) (hw : 0 ≤ w) (h : -n < (w + 1) * u) : -w ≤ n.tdiv u := by
  have hle := tdiv_le_of_lt hu hw h
  rw [Int.neg_tdiv] at hle
  exact neg_le.mp hle

theorem tdiv_bounds_of_nonneg {n u : Int} (hu : 0 < u) (hn : 0 ≤ n) :
    n.tdiv u * u ≤ n ∧ n < n.tdiv u * u + u := by
  rw [Int.tdiv_eq_ediv_of_nonneg hn]
  refine ⟨Int.ediv_mul_le n hu.ne', ?_⟩
  have hlt := Int.lt_ediv_add_one_mul_self n hu
  rwa [add_mul, one_mul] at hlt

theorem tdiv_bounds_of_nonpos {n u : Int} (hu : 0 < u) (hn : n ≤ 0) :
    n ≤ n.tdiv u * u ∧ n.tdiv u * u < n + u := by
  have hbounds := tdiv_bounds_of_nonneg hu (neg_nonneg.mpr hn)
  rw [Int.neg_tdiv, Int.neg_mul] at hbounds
  omega

/-- A proper fraction of an integer lies between zero and the integer. -/
theorem tdiv_mul_bounds {q s u : Int} (hs : 0 ≤ s) (hsu : s < u) :
    min q 0 ≤ (q * s).tdiv u ∧ (q * s).tdiv u ≤ max q 0 := by
  have hu : 0 < u := hs.trans_lt hsu
  rcases le_total 0 q with hq | hq
  · rw [min_eq_right hq, max_eq_left hq]
    refine ⟨Int.tdiv_nonneg (mul_nonneg hq hs) hu.le, tdiv_le_of_lt hu hq ?_⟩
    nlinarith
  · rw [min_eq_left hq, max_eq_right hq]
    refine ⟨?_, tdiv_le_of_lt hu le_rfl (by nlinarith)⟩
    have hle := neg_le_tdiv_of_lt (n := q * s) hu (neg_nonneg.mpr hq) (by nlinarith)
    rwa [neg_neg] at hle

namespace Activation

variable {f : QFormat}

/-- The unit is a signed word in all formats but the one with the largest unit. -/
theorem signedUnit_eq (h : f.fracBits < 63) : signedUnit f = f.unit := by
  have hunit : f.unit ≤ 2 ^ 62 := Nat.pow_le_pow_right Nat.two_pos (by omega)
  refine Int.bmod_eq_of_le_mul_two ?_ ?_
  · rw [twoPow_eq]
    omega
  · rw [twoPow_eq]
    omega

/-- There is only one format with the largest unit. -/
theorem eq_of_fracBits_eq (h : f.fracBits = 63) : f = ⟨64, 63, by decide, by decide, by decide⟩ := by
  obtain ⟨total, frac, hpos, hle, hlt⟩ := f
  obtain rfl : frac = 63 := h
  obtain rfl : total = 64 := by omega
  rfl

end Activation

namespace HardSigmoid

open Activation

variable {f : QFormat} {q q' y y' : Int}

/-! ### Branches -/

/-- The line between the break points. -/
def sloped (f : QFormat) (q : Int) : Int := (q * slope f).tdiv (signedUnit f) + half f

/-- The three branches of the activation. -/
theorem apply_cases (h : apply f q = .ok y) :
    (q ≤ minusThree f ∧ y = 0) ∨ (minusThree f < q ∧ three f ≤ q ∧ y = one f) ∨
      (minusThree f < q ∧ q < three f ∧ Checked.FitsSigned 64 (q * slope f) ∧ y = sloped f q) := by
  unfold apply at h
  split_ifs at h with hlow hhigh
  · exact .inl ⟨hlow, (Except.ok.inj h).symm⟩
  · exact .inr (.inl ⟨not_le.mp hlow, hhigh, (Except.ok.inj h).symm⟩)
  · obtain ⟨product, hproduct, hsum⟩ := Outcome.bind_eq_ok_iff.mp h
    rw [Checked.signedMul, Outcome.ite_eq_ok_iff] at hproduct
    rw [Checked.signedAdd, Outcome.ite_eq_ok_iff] at hsum
    obtain ⟨hfits, rfl⟩ := hproduct
    exact .inr (.inr ⟨not_le.mp hlow, not_le.mp hhigh, hfits, hsum.2.symm⟩)

/-! ### The line -/

/-- The line over a unit of `2 * w`: at most `6 * w` away from zero it rises by less than `w + 1` units. -/
theorem mul_slope_lt {s w : Int} (hs : 0 ≤ s) (hslope : 3 * s ≤ w + 1) (hw : 0 < w) (hq : q < 6 * w) :
    q * s < (w + 1) * (2 * w) := by
  have hle : q * s ≤ (6 * w - 1) * s := mul_le_mul_of_nonneg_right (by omega) hs
  have hmul : (6 * w - 1) * (3 * s) ≤ (6 * w - 1) * (w + 1) := mul_le_mul_of_nonneg_left hslope (by omega)
  linarith

/-- Up to the end of a range without one, the line rises by less than `w` units. -/
theorem mul_slope_lt_of_narrow {s w : Int} (hs : 0 ≤ s) (hslope : 3 * s ≤ w + 1) (hw : 0 < w) (hq : q < 2 * w - 1) :
    q * s < w * (2 * w) := by
  have hle : q * s ≤ (2 * w - 2) * s := mul_le_mul_of_nonneg_right (by omega) hs
  have hmul : (2 * w - 2) * (3 * s) ≤ (2 * w - 2) * (w + 1) := mul_le_mul_of_nonneg_left hslope (by omega)
  nlinarith

/-- Between the break points the line stays between zero and one. -/
theorem sloped_bounds (hfrac : f.fracBits < 63) (hlow : minusThree f < q) (hhigh : q < three f) :
    0 ≤ sloped f q ∧ sloped f q ≤ one f := by
  have hmin := f.minInt_eq
  have hrange := f.unit_cases
  obtain ⟨hs, hslope⟩ := slope_bounds f
  rw [minusThree_eq] at hlow
  rw [three_eq] at hhigh
  rw [sloped, signedUnit_eq hfrac, half_eq, one_eq]
  rcases Nat.eq_zero_or_pos f.fracBits with hzero | hpos
  · -- the unit is one, and the slope is rounded to zero
    have hunit : f.unit = 1 := by rw [QFormat.unit, hzero]; rfl
    have hflat : slope f = 0 := by omega
    rw [hflat, Int.mul_zero, Int.zero_tdiv, hunit]
    omega
  · obtain ⟨w, hw⟩ := QFormat.exists_half_unit hpos
    have hunit := f.unit_pos
    rw [hw] at hslope hlow hhigh hrange ⊢
    have hlower : -w ≤ (q * slope f).tdiv (2 * w) := by
      refine neg_le_tdiv_of_lt (by omega) (by omega) ?_
      rw [← Int.neg_mul]
      exact mul_slope_lt hs (by omega) (by omega) (by omega)
    rcases hrange with hnarrow | hwide
    · -- one is outside the format
      have hupper : (q * slope f).tdiv (2 * w) ≤ w - 1 := by
        refine tdiv_le_of_lt (by omega) (by omega) ?_
        rw [Int.sub_add_cancel]
        exact mul_slope_lt_of_narrow hs (by omega) (by omega) (by omega)
      omega
    · have hupper : (q * slope f).tdiv (2 * w) ≤ w :=
        tdiv_le_of_lt (by omega) (by omega) (mul_slope_lt hs (by omega) (by omega) (by omega))
      omega

/-- With the largest unit the line is flat, wherever its products are signed words. -/
theorem sloped_of_widest (hfrac : f.fracBits = 63) (hfits : Checked.FitsSigned 64 (q * slope f)) :
    sloped f q = half f := by
  have hunit : signedUnit f = -2 ^ 63 := by
    rw [eq_of_fracBits_eq hfrac]
    decide
  have hslope : slope f = 1537228672809129216 := by
    rw [eq_of_fracBits_eq hfrac]
    decide +kernel
  rw [Checked.FitsSigned, twoPow_eq, hslope] at hfits
  have hflat : (q * 1537228672809129216).tdiv (2 ^ 63) = 0 := by
    refine le_antisymm (tdiv_le_of_lt (by decide) le_rfl (by omega)) ?_
    -- no product is the least word, which alone is not smaller than the unit
    exact neg_le_tdiv_of_lt (w := 0) (by decide) le_rfl (by omega)
  rw [sloped, hunit, hslope, Int.tdiv_neg, hflat, Int.neg_zero, Int.zero_add]

theorem half_bounds (f : QFormat) : 0 ≤ half f ∧ half f ≤ one f := by
  have hmax := f.maxInt_nonneg
  have hunit := f.unit_pos
  rw [half_eq, one_eq]
  omega

/-! ### The activation -/

/-- In every format the line stays between zero and one, where its products are signed words. -/
theorem sloped_bounds_of_fits (hlow : minusThree f < q) (hhigh : q < three f)
    (hfits : Checked.FitsSigned 64 (q * slope f)) : 0 ≤ sloped f q ∧ sloped f q ≤ one f := by
  rcases f.fracBits_lt_or_eq with hfrac | hfrac
  · exact sloped_bounds hfrac hlow hhigh
  · rw [sloped_of_widest hfrac hfits]
    exact half_bounds f

/-- The activation lies between zero and one. -/
theorem apply_bounds (h : apply f q = .ok y) : 0 ≤ y ∧ y ≤ one f := by
  have hone := half_bounds f
  rcases apply_cases h with ⟨-, rfl⟩ | ⟨-, -, rfl⟩ | ⟨hlow, hhigh, hfits, rfl⟩
  · exact ⟨le_rfl, hone.1.trans hone.2⟩
  · exact ⟨hone.1.trans hone.2, le_rfl⟩
  · exact sloped_bounds_of_fits hlow hhigh hfits

theorem sloped_monotone (hle : q ≤ q') (hfits : Checked.FitsSigned 64 (q * slope f))
    (hfits' : Checked.FitsSigned 64 (q' * slope f)) : sloped f q ≤ sloped f q' := by
  rcases f.fracBits_lt_or_eq with hfrac | hfrac
  · have hunit : (0 : Int) < f.unit := by exact_mod_cast f.unit_pos
    rw [sloped, sloped, signedUnit_eq hfrac]
    exact Int.add_le_add_right (Int.tdiv_le_tdiv hunit (mul_le_mul_of_nonneg_right hle (slope_bounds f).1)) _
  · rw [sloped_of_widest hfrac hfits, sloped_of_widest hfrac hfits']

/-- A larger stored integer has a larger activation, or the same. -/
theorem apply_monotone (hle : q ≤ q') (h : apply f q = .ok y) (h' : apply f q' = .ok y') : y ≤ y' := by
  obtain ⟨hnonneg', hle_one'⟩ := apply_bounds h'
  obtain ⟨-, hle_one⟩ := apply_bounds h
  rcases apply_cases h with ⟨-, rfl⟩ | ⟨hlow, hhigh, rfl⟩ | ⟨hlow, -, hfits, rfl⟩
  · exact hnonneg'
  · rcases apply_cases h' with ⟨hlow', -⟩ | ⟨-, -, rfl⟩ | ⟨-, hhigh', -, -⟩
    · omega
    · exact le_rfl
    · omega
  · rcases apply_cases h' with ⟨hlow', -⟩ | ⟨-, -, rfl⟩ | ⟨-, -, hfits', rfl⟩
    · omega
    · exact hle_one
    · exact sloped_monotone hle hfits hfits'

section Forward

variable {l : HardSigmoid} {x x' v v' : Binary64}

/-- The stored integer of the activation of a number, before it is clamped. -/
def Yields (l : HardSigmoid) (x : Binary64) (y : Int) : Prop :=
  ∃ q, l.format.quantize x = .ok q ∧ apply l.format q = .ok y

theorem forward_eq_ok_iff : l.forward x = .ok v ↔ ∃ y, l.Yields x y ∧ v = l.format.toRational (l.format.clamp y) := by
  simp only [forward, Yields, Outcome.bind_eq_ok_iff, Outcome.lift_eq_ok_iff, Outcome.pure_eq_ok, Except.ok.injEq]
  constructor
  · rintro ⟨q, hq, y, hy, rfl⟩
    exact ⟨y, ⟨q, hq, hy⟩, rfl⟩
  · rintro ⟨y, ⟨q, hq, hy⟩, rfl⟩
    exact ⟨q, hq, y, hy, rfl⟩

/-- The activation of a number needs no clamp. -/
theorem clamp_eq_self_of_yields {y : Int} (h : l.Yields x y) : l.format.clamp y = y := by
  obtain ⟨q, -, hy⟩ := h
  obtain ⟨hnonneg, hle_one⟩ := apply_bounds hy
  rw [one_eq] at hle_one
  exact QFormat.clamp_eq_self (l.format.minInt_nonpos.trans hnonneg) (hle_one.trans (min_le_right _ _))

/-- **The hard sigmoid is bounded and monotone.** In every format, if the activations of two finite numbers are defined,
the stored integers of the activations lie between zero and what one is stored as, in the order of the numbers, and
the final clamp changes none of them. -/
theorem forward_monotone {r r' : ℚ} (hr : x.value? = some r) (hr' : x'.value? = some r') (hle : r ≤ r')
    (h : l.forward x = .ok v) (h' : l.forward x' = .ok v') :
    ∃ y y', l.Yields x y ∧ l.Yields x' y' ∧ v = l.format.toRational y ∧ v' = l.format.toRational y' ∧
      0 ≤ y ∧ y ≤ y' ∧ y' ≤ l.format.quantizeSaturating (.ofInt 1) ∧
      l.format.clamp y = y ∧ l.format.clamp y' = y' := by
  obtain ⟨y, hy, rfl⟩ := forward_eq_ok_iff.mp h
  obtain ⟨y', hy', rfl⟩ := forward_eq_ok_iff.mp h'
  have hclamp := clamp_eq_self_of_yields hy
  have hclamp' := clamp_eq_self_of_yields hy'
  obtain ⟨q, hq, happly⟩ := id hy
  obtain ⟨q', hq', happly'⟩ := id hy'
  have hqq' := QFormat.quantize_monotone hr hr' hle hq hq'
  exact ⟨y, y', hy, hy', by rw [hclamp], by rw [hclamp'], (apply_bounds happly).1, apply_monotone hqq' happly happly',
    (apply_bounds happly').2, hclamp, hclamp'⟩

/-- Below the upper break point the rounded slope gives one already. -/
theorem forward_belowThree :
    let l : HardSigmoid := ⟨"gate", { totalBits := 8, fracBits := 4 }⟩
    l.forward (.ofInt (-2)) = .ok (.ofQuotient 1 8) ∧ l.forward (.ofQuotient 47 16) = .ok (.ofInt 1) ∧
      ∃ y y', l.Yields (.ofInt (-2)) y ∧ l.Yields (.ofQuotient 47 16) y' ∧ 0 ≤ y ∧ y ≤ y' ∧ y' ≤ 16 := by
  intro l
  have hleft : l.forward (.ofInt (-2)) = .ok (.ofQuotient 1 8) := by decide +kernel
  have hright : l.forward (.ofQuotient 47 16) = .ok (.ofInt 1) := by decide +kernel
  have hminusTwo : (Binary64.ofInt (-2)).value? = some (-2) := by
    exact_mod_cast Binary64.value?_ofInt (n := -2) (by decide)
  have hbelow : (Binary64.ofQuotient 47 16).value? = some (47 / 16) := by
    have hfinite : Binary64.ofQuotient 47 16 = .finite false (47 * 2 ^ 47) (-51) (by decide) := by decide +kernel
    rw [hfinite, Binary64.value?_finite]
    norm_num [signed]
  obtain ⟨y, y', hy, hy', -, -, hnonneg, hmono, hone, -⟩ :=
    forward_monotone hminusTwo hbelow (by norm_num) hleft hright
  exact ⟨hleft, hright, y, y', hy, hy', hnonneg, hmono, hone.trans (by decide +kernel)⟩

end Forward

end HardSigmoid

end QuantNet
