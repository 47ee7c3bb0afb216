import QuantNet.Layer.Activation
import QuantNet.Proofs.Saturation

/-!
# Constants stored with saturation

The break points and the coefficients of the activations are stored with saturation. In exact arithmetic this
is rounding, as for any number, and then the end of the range instead of a refusal
(`QFormat.quantizeSaturating_of_value?`).

A format has no bit before the point besides the sign, or one, or more (`QFormat.unit_cases`). In the first case one
is not stored, and in the first two three and minus three are not. The constants of all formats are given by the unit
and the ends of the range (`Activation.three_eq` and the lemmas behind it), and for the slope, which no format stores
exactly, by bounds that do not depend on how one sixth was rounded to a floating-point number
(`Activation.slope_bounds`).
-/

namespace QuantNet

namespace Binary64

theorem value?_half : (ofQuotient 1 2).value? = some (1 / 2) := by
  have hhalf : ofQuotient 1 2 = finite false (2 ^ 52) (-53) (by decide) := by decide +kernel
  rw [hhalf, value?_finite]
  norm_num [signed]

/-- One sixth is rounded down to a number of the floating-point format. -/
theorem value?_sixth : (ofQuotient 1 6).value? = some ((1 - (2 ^ 54)⁻¹) / 6) := by
  have hsixth : ofQuotient 1 6 = finite false 6004799503160661 (-55) (by decide) := by decide +kernel
  rw [hsixth, value?_finite]
  norm_num [signed]

end Binary64

namespace QFormat

variable {f : QFormat} {v v' : Binary64} {x x' : ℚ} {q q' : Int}

/-! ### Ranges -/

/-- One lies just outside the range, or three does, or both lie inside. -/
theorem unit_cases (f : QFormat) :
    f.maxInt + 1 = f.unit ∨ f.maxInt + 1 = 2 * f.unit ∨ 4 * (f.unit : Int) ≤ f.maxInt + 1 := by
  have hfrac := f.frac_lt
  obtain ⟨j, hj⟩ : ∃ j, f.totalBits - 1 = f.fracBits + j := ⟨f.totalBits - 1 - f.fracBits, by omega⟩
  have hrange : f.maxInt + 1 = f.unit * 2 ^ j := by
    rw [maxInt, unit, twoPow_eq, twoPow_eq, hj, pow_add]
    push_cast
    ring
  rcases j with _ | _ | j
  · exact .inl (by rw [hrange, pow_zero, mul_one])
  · exact .inr (.inl (by rw [hrange, zero_add, pow_one, mul_comm]))
  · have hpos : (1 : Int) ≤ 2 ^ j := one_le_pow₀ (by decide)
    refine .inr (.inr ?_)
    rw [hrange, pow_succ, pow_succ]
    nlinarith [f.unit.zero_le]

theorem unit_pos (f : QFormat) : 0 < f.unit := Nat.two_pow_pos _

/-- Every unit but the smallest one has a half. -/
theorem exists_half_unit (h : 0 < f.fracBits) : ∃ w : Int, (f.unit : Int) = 2 * w := by
  obtain ⟨k, hk⟩ := Nat.exists_eq_add_one.mpr h
  refine ⟨2 ^ k, ?_⟩
  rw [unit, twoPow_eq, hk, pow_succ']
  push_cast
  rfl

theorem fracBits_lt_or_eq (f : QFormat) : f.fracBits < 63 ∨ f.fracBits = 63 := by
  have hfrac := f.frac_lt
  have htotal := f.total_le
  omega

/-! ### Rounded numbers -/

/-- A larger number has a larger stored integer, or the same. -/
theorem quantize_monotone (hv : v.value? = some x) (hv' : v'.value? = some x') (hle : x ≤ x')
    (hq : f.quantize v = .ok q) (hq' : f.quantize v' = .ok q') : q ≤ q' := by
  rw [← roundAway_of_quantize hv hq, ← roundAway_of_quantize hv' hq']
  exact roundAway_mono (mul_le_mul_of_nonneg_right hle (by positivity))

/-- A short integer is stored with saturation as its multiple of the unit. -/
theorem quantizeSaturating_ofInt {n : ℤ} (h : n.natAbs ≤ 2 ^ 53) :
    f.quantizeSaturating (.ofInt n) = f.clamp (n * f.unit) := by
  have hproduct : (n : ℚ) * 2 ^ f.fracBits = ((n * f.unit : ℤ) : ℚ) := by
    rw [← f.cast_unit]
    push_cast
    rfl
  rw [quantizeSaturating_of_value? (Binary64.value?_ofInt h), hproduct, roundAway_intCast]

end QFormat

namespace Activation

variable {f : QFormat}

/-! ### Constants -/

theorem three_eq (f : QFormat) : three f = min (3 * (f.unit : Int)) f.maxInt := by
  have hmin := f.minInt_nonpos
  have hmax := f.maxInt_nonneg
  rw [three, QFormat.quantizeSaturating_ofInt (by decide), QFormat.clamp]
  omega

theorem minusThree_eq (f : QFormat) : minusThree f = max (-3 * (f.unit : Int)) f.minInt := by
  have hmax := f.maxInt_nonneg
  rw [minusThree, QFormat.quantizeSaturating_ofInt (by decide), QFormat.clamp]
  omega

theorem one_eq (f : QFormat) : one f = min (f.unit : Int) f.maxInt := by
  have hmin := f.minInt_nonpos
  have hmax := f.maxInt_nonneg
  rw [one, QFormat.quantizeSaturating_ofInt (by decide), QFormat.clamp]
  omega

/-- Half of the unit is stored exactly, unless the unit is one: then it is rounded up. -/
theorem half_eq (f : QFormat) : half f = min (((f.unit : Int) + 1) / 2) f.maxInt := by
  have hmin := f.minInt_nonpos
  have hmax := f.maxInt_nonneg
  have hround : roundAway (1 / 2 * 2 ^ f.fracBits) = ((f.unit + 1) / 2 : ℕ) := by
    have hsum : (1 : ℚ) / 2 * 2 ^ f.fracBits + 1 / 2 = ((f.unit + 1 : ℕ) : ℚ) / (2 : ℕ) := by
      rw [← f.cast_unit]
      push_cast
      ring
    rw [roundAway_of_nonneg (by positivity), hsum, Rat.floor_natCast_div_natCast, Int.natCast_div]
  rw [half, QFormat.quantizeSaturating_of_value? Binary64.value?_half, hround, QFormat.clamp]
  omega

/-- One sixth in units of the format is rounded by half a unit at most, and was rounded down before by its
`2 ^ 54`-th part. -/
theorem roundAway_sixth_bounds (f : QFormat) :
    0 ≤ roundAway ((1 - (2 ^ 54)⁻¹) / 6 * 2 ^ f.fracBits) ∧
      6 * roundAway ((1 - (2 ^ 54)⁻¹) / 6 * 2 ^ f.fracBits) ≤ f.unit + 2 ∧
      2 ^ 54 * (f.unit - 3 - 6 * roundAway ((1 - (2 ^ 54)⁻¹) / 6 * 2 ^ f.fracBits)) ≤ (f.unit : Int) := by
  have hunit : (0 : ℚ) < 2 ^ f.fracBits := by positivity
  have hnonneg := roundAway_mono (show (0 : ℚ) ≤ (1 - (2 ^ 54)⁻¹) / 6 * 2 ^ f.fracBits by positivity)
  have hnear := abs_le.mp (abs_sub_roundAway_le ((1 - (2 ^ 54)⁻¹) / 6 * 2 ^ f.fracBits))
  generalize roundAway ((1 - (2 ^ 54)⁻¹) / 6 * 2 ^ f.fracBits) = r at *
  rw [roundAway_zero] at hnonneg
  have hupper : 6 * r < f.unit + 3 := by
    have hcast : ((6 * r : ℤ) : ℚ) < ((f.unit + 3 : ℤ) : ℚ) := by
      push_cast
      rw [f.cast_unit]
      linarith [hnear.1]
    exact_mod_cast hcast
  refine ⟨hnonneg, by omega, ?_⟩
  have hcast : ((2 ^ 54 * (f.unit - 3 - 6 * r) : ℤ) : ℚ) ≤ ((f.unit : ℤ) : ℚ) := by
    push_cast
    rw [f.cast_unit]
    linarith [hnear.2]
  exact_mod_cast hcast

/-- Every format holds the rounded slope. -/
theorem slope_eq (f : QFormat) : slope f = roundAway ((1 - (2 ^ 54)⁻¹) / 6 * 2 ^ f.fracBits) := by
  have hmin := f.minInt_nonpos
  have hrange := f.unit_cases
  have hunit := f.unit_pos
  obtain ⟨hnonneg, hupper, -⟩ := roundAway_sixth_bounds f
  rw [slope, QFormat.quantizeSaturating_of_value? Binary64.value?_sixth]
  exact QFormat.clamp_eq_self (by omega) (by omega)

/-- The slope is at most a sixth of the unit, rounded up. -/
theorem slope_bounds (f : QFormat) : 0 ≤ slope f ∧ 6 * slope f ≤ f.unit + 2 := by
  rw [slope_eq]
  exact ⟨(roundAway_sixth_bounds f).1, (roundAway_sixth_bounds f).2.1⟩

/-- The slope is hardly less than a sixth of the unit, rounded down. -/
theorem unit_le_slope (f : QFormat) : 2 ^ 54 * (f.unit - 3 - 6 * slope f) ≤ (f.unit : Int) := by
  rw [slope_eq]
  exact (roundAway_sixth_bounds f).2.2

end Activation

end QuantNet
