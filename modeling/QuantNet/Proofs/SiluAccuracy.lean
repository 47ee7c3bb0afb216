import QuantNet.Proofs.ActivationOverflow
import QuantNet.Proofs.Convolution

/-!
# The sigmoid-weighted unit and the hard sigmoid

The sigmoid-weighted unit is a number times its hard sigmoid, but the two are computed from different formulas. The
unit divides the product of the number and its sum with three by six units, once, toward zero. The hard sigmoid
multiplies with a rounded slope and divides by the unit, toward zero too, and its result is then worth a factor: the
number, less than three units of the format.

With `u` for the unit, `s` for the slope, `e` and `e'` for what the divisions cut off, six times the difference of the
two is `q ^ 2 * (u - 6 * s) / u + e' - 6 * q * e / u`. The slope is off by half a place at most, the first term is
therefore less than `27 * u`, and the others are less than `6 * u` and `18 * u`: the difference is less than nine units
(`near_product`).
-/

namespace QuantNet

open Activation

variable {f : QFormat} {q : Int}

/-- A format with three bits before the point or more ends at four or beyond. -/
theorem QFormat.four_mul_unit_le (h : f.fracBits + 3 ≤ f.totalBits) : 4 * (f.unit : Int) ≤ f.maxInt + 1 := by
  have hpow : 2 ^ (f.fracBits + 2) ≤ 2 ^ (f.totalBits - 1) := Nat.pow_le_pow_right Nat.two_pos (by omega)
  rw [pow_succ, pow_succ] at hpow
  rw [unit, maxInt, twoPow_eq, twoPow_eq]
  omega

/-- The quotient toward zero misses the dividend by less than the divisor. -/
theorem abs_tdiv_mul_sub_lt (n : Int) {u : Int} (hu : 0 < u) : |n.tdiv u * u - n| < u := by
  rw [abs_lt]
  rcases le_total 0 n with hn | hn
  · have hbounds := tdiv_bounds_of_nonneg hu hn
    omega
  · have hbounds := tdiv_bounds_of_nonpos hu hn
    omega

/-- The error of two quotients, one of them taken `q` times. -/
theorem near_product {u s t y h : Int} (hhalf : 2 * h = u) (hslope : |u - 6 * s| ≤ 3) (hq : |q| < 3 * u)
    (ht : |t * u - q * s| < u) (hy : |y * (6 * u) - q * (q + 3 * u)| < 6 * u) : |y * u - q * (t + h)| < 9 * u := by
  have hu : 0 < u := (abs_nonneg _).trans_lt ht
  have hsquare : |q * q * (u - 6 * s)| ≤ 3 * u * (3 * u) * 3 := by
    rw [abs_mul, abs_mul]
    exact mul_le_mul (mul_le_mul hq.le hq.le (abs_nonneg q) (by omega)) hslope (abs_nonneg _) (by positivity)
  have hcut : |u * (y * (6 * u) - q * (q + 3 * u))| < u * (6 * u) := by
    rw [abs_mul, abs_of_pos hu]
    exact mul_lt_mul_of_pos_left hy hu
  have hcut' : |6 * q * (t * u - q * s)| ≤ 6 * (3 * u) * u := by
    rw [abs_mul, abs_mul]
    exact mul_le_mul (mul_le_mul_of_nonneg_left hq.le (by decide)) ht.le (abs_nonneg _) (by positivity)
  have hsum : 6 * u * (y * u - q * (t + h)) =
      q * q * (u - 6 * s) + u * (y * (6 * u) - q * (q + 3 * u)) - 6 * q * (t * u - q * s) := by
    rw [← hhalf]
    ring
  have htotal : |6 * u * (y * u - q * (t + h))| < 6 * u * (9 * u) := by
    rw [hsum]
    calc |q * q * (u - 6 * s) + u * (y * (6 * u) - q * (q + 3 * u)) - 6 * q * (t * u - q * s)|
        ≤ |q * q * (u - 6 * s)| + |u * (y * (6 * u) - q * (q + 3 * u))| + |6 * q * (t * u - q * s)| :=
          (abs_sub _ _).trans (add_le_add_left (abs_add_le _ _) _)
      _ < 6 * u * (9 * u) := by linarith [mul_pos hu hu]
  rw [abs_mul, abs_of_pos (by omega)] at htotal
  exact lt_of_mul_lt_mul_left htotal (by omega)

namespace Activation

/-! ### Formats that hold four -/

theorem three_of_wide (h : f.fracBits + 3 ≤ f.totalBits) : three f = 3 * f.unit := by
  have hunit := f.unit_pos
  have hrange := QFormat.four_mul_unit_le h
  rw [three_eq]
  omega

theorem minusThree_of_wide (h : f.fracBits + 3 ≤ f.totalBits) : minusThree f = -3 * f.unit := by
  have hrange := QFormat.four_mul_unit_le h
  have hmin := f.minInt_eq
  rw [minusThree_eq]
  omega

end Activation

namespace Silu

/-- The curve is lowest half-way between zero and the lower break point. -/
theorem neg_three_mul_unit_le {u : Int} (hu : 0 < u) : -3 * u ≤ 8 * (q * (q + 3 * u)).tdiv (6 * u) := by
  have hsix : 0 < 6 * u := by omega
  rcases le_total 0 (q * (q + 3 * u)) with hn | hn
  · have hnonneg := Int.tdiv_nonneg hn hsix.le
    omega
  · have hcut := (tdiv_bounds_of_nonpos hsix hn).1
    have hlowest : 0 ≤ (2 * q + 3 * u) * (2 * q + 3 * u) := mul_self_nonneg _
    refine le_of_mul_le_mul_right ?_ hsix
    linarith

/-- The activation is near the product of its argument with the hard sigmoid. -/
theorem stored_near_product (hwide : f.fracBits + 3 ≤ f.totalBits) (hbits : f.totalBits ≤ 32) :
    |stored f q * f.unit - q * HardSigmoid.stored f q| < 9 * f.unit := by
  have hrange := QFormat.four_mul_unit_le hwide
  have hthree := three_of_wide hwide
  have hminus := minusThree_of_wide hwide
  have hunit : (0 : Int) < f.unit := by exact_mod_cast f.unit_pos
  rcases le_or_gt q (minusThree f) with hlow | hlow
  · rw [stored_of_le hlow, HardSigmoid.stored_of_le hlow, zero_mul, mul_zero, sub_zero, abs_zero]
    omega
  rcases le_or_gt (three f) q with hhigh | hhigh
  · have hone : one f = f.unit := by
      rw [one_eq]
      omega
    rw [stored_of_ge hlow hhigh, HardSigmoid.stored_of_ge hlow hhigh, hone, sub_self, abs_zero]
    omega
  rw [stored_between hlow hhigh, HardSigmoid.stored_between hlow hhigh, HardSigmoid.sloped,
    signedUnit_eq (by omega), half_eq]
  obtain ⟨hs, hslope⟩ := slope_bounds f
  have hmagnitude : |q| < 3 * (f.unit : Int) := abs_lt.mpr ⟨by omega, by omega⟩
  rcases Nat.eq_zero_or_pos f.fracBits with hzero | hpos
  · -- the unit is one, and half of it is rounded up to one: the hard sigmoid is flat
    have hone : (f.unit : Int) = 1 := by rw [QFormat.unit, hzero]; rfl
    have hflat : slope f = 0 := by omega
    have hhalf : min (((f.unit : Int) + 1) / 2) f.maxInt = 1 := by omega
    have hbounds := stored_bounds f q
    rw [stored_between hlow hhigh] at hbounds
    rw [hflat, hhalf, mul_zero, Int.zero_tdiv, hone, abs_lt]
    rw [hone] at hmagnitude
    have hq := abs_lt.mp hmagnitude
    omega
  · obtain ⟨w, hw⟩ := QFormat.exists_half_unit hpos
    have hsteep := unit_le_slope f
    have hshort : f.unit ≤ 2 ^ 29 := Nat.pow_le_pow_right Nat.two_pos (by omega)
    have hhalf : min (((f.unit : Int) + 1) / 2) f.maxInt = w := by omega
    rw [hhalf]
    refine near_product hw.symm (abs_le.mpr ⟨by omega, by omega⟩) hmagnitude (abs_tdiv_mul_sub_lt _ hunit) ?_
    rw [curved, hthree]
    exact abs_tdiv_mul_sub_lt _ (by omega)

theorem neg_three_mul_unit_le_stored (hwide : f.fracBits + 3 ≤ f.totalBits) : -3 * (f.unit : Int) ≤ 8 * stored f q := by
  have hunit : (0 : Int) < f.unit := by exact_mod_cast f.unit_pos
  rcases le_or_gt q (minusThree f) with hlow | hlow
  · rw [stored_of_le hlow]
    omega
  rcases le_or_gt (three f) q with hhigh | hhigh
  · rw [stored_of_ge hlow hhigh]
    have hthree := three_of_wide hwide
    omega
  · rw [stored_between hlow hhigh, curved, three_of_wide hwide]
    exact neg_three_mul_unit_le hunit

/-- **The sigmoid-weighted unit is the number times its hard sigmoid**, to within nine units of the last place. In a
format of 32 bits or less with three or more before the point both activations of a stored number have values; the
stored integer of the unit times the unit of the format differs from the number times its hard sigmoid by less than
nine units of the format, it is not less than minus three eighths, and not more than the number or zero, so that the
final clamp does not change it. -/
theorem forward_near_product {f : QFormat} (hwide : f.fracBits + 3 ≤ f.totalBits) (hbits : f.totalBits ≤ 32)
    (name name' : String) {x : Binary64} {q : Int} (hq : f.quantize x = .ok q) :
    ∃ y z : Int, apply f q = .ok y ∧ forward ⟨name, f⟩ x = .ok (f.toRational y) ∧
      f.quantize (f.toRational y) = .ok y ∧
      HardSigmoid.apply f q = .ok z ∧ HardSigmoid.forward ⟨name', f⟩ x = .ok (f.toRational z) ∧
      f.quantize (f.toRational z) = .ok z ∧
      |y * f.unit - q * z| < 9 * f.unit ∧ -3 * (f.unit : Int) ≤ 8 * y ∧ y ≤ max q 0 ∧ f.clamp y = y := by
  have hcontains := QFormat.contains_of_quantize hq
  have hunit := not_overflows (f := f) (q := q) (.inr (by omega))
  have hhard := (HardSigmoid.forall_not_overflows_iff f).mpr (.inl (by omega)) x q hq
  have hclamp := clamp_stored hcontains
  have hclamp' := HardSigmoid.clamp_eq_self_of_yields (l := ⟨name', f⟩)
    ⟨q, hq, HardSigmoid.apply_of_not_overflows hhard⟩
  refine ⟨stored f q, HardSigmoid.stored f q, ?_, ?_, ?_, HardSigmoid.apply_of_not_overflows hhard, ?_, ?_,
    stored_near_product hwide hbits, neg_three_mul_unit_le_stored hwide, (stored_bounds f q).2, hclamp⟩
  · rw [apply_eq hcontains, if_neg hunit]
  · rw [forward_of_quantize (l := ⟨name, f⟩) hq, if_neg hunit]
  · exact QFormat.quantize_toRational (by omega) (hclamp ▸ f.contains_clamp _)
  · rw [HardSigmoid.forward_of_quantize (l := ⟨name', f⟩) hq, if_neg hhard]
  · exact QFormat.quantize_toRational (by omega) (hclamp' ▸ f.contains_clamp _)

/-- At minus three halves the unit is as small as it gets. -/
theorem forward_near_product_lowest :
    let f : QFormat := { totalBits := 8, fracBits := 4 }
    f.fracBits + 3 ≤ f.totalBits ∧ f.totalBits ≤ 32 ∧ f.quantize (.ofQuotient (-3) 2) = .ok (-24) ∧
      ∃ y z : Int, y = -6 ∧ z = 4 ∧ forward ⟨"unit", f⟩ (.ofQuotient (-3) 2) = .ok (f.toRational y) ∧
        HardSigmoid.forward ⟨"gate", f⟩ (.ofQuotient (-3) 2) = .ok (f.toRational z) ∧
        |y * f.unit - -24 * z| < 9 * f.unit ∧ -3 * (f.unit : Int) ≤ 8 * y := by
  intro f
  have hq : f.quantize (.ofQuotient (-3) 2) = .ok (-24) := by decide +kernel
  obtain ⟨y, z, hy, hforward, -, hz, hforward', -, hnear, hlowest, -, -⟩ :=
    forward_near_product (f := f) (by decide) (by decide) "unit" "gate" hq
  have hy' : apply f (-24) = .ok (-6) := by decide +kernel
  have hz' : HardSigmoid.apply f (-24) = .ok 4 := by decide +kernel
  exact ⟨by decide, by decide, hq, y, z, Except.ok.inj (hy.symm.trans hy'), Except.ok.inj (hz.symm.trans hz'), hforward,
    hforward', hnear, hlowest⟩

end Silu

end QuantNet
