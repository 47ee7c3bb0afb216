import QuantNet.Proofs.ActivationOverflow

/-!
# Activations in narrow formats

A break point outside the format is stored at the end of the range, and is meant to be out of reach there: between the
break points the hard sigmoid is a line and the sigmoid-weighted unit a curve, and in a format that holds neither three
nor minus three they should go on to both ends of the range (`HardSigmoid.unbroken`, `Silu.unbroken`). But the ends of
the range are stored integers like the others, and the branches are taken at them. The hard sigmoid follows its line
everywhere else. The sigmoid-weighted unit has the break point in its formula too, where the end of the range stands in
for three, and it leaves its curve everywhere but near zero: by more than a sixth of the stored integer, less one
(`Silu.far_from_unbroken`).
-/

namespace QuantNet

open Activation

variable {f : QFormat} {q : Int}

namespace QFormat

/-- A format with two bits before the point or less ends at one or at two. -/
theorem unit_cases_of_narrow (h : f.totalBits ≤ f.fracBits + 2) :
    f.maxInt + 1 = f.unit ∨ f.maxInt + 1 = 2 * f.unit := by
  have hpow : 2 ^ (f.totalBits - 1) ≤ 2 ^ (f.fracBits + 1) := Nat.pow_le_pow_right Nat.two_pos (by omega)
  have hunit := f.unit_pos
  have hrange := f.unit_cases
  rw [pow_succ] at hpow
  simp only [unit, maxInt, twoPow_eq] at *
  omega

end QFormat

namespace Activation

theorem three_of_narrow (h : f.totalBits ≤ f.fracBits + 2) : three f = f.maxInt := by
  have hrange := QFormat.unit_cases_of_narrow h
  rw [three_eq]
  omega

theorem minusThree_of_narrow (h : f.totalBits ≤ f.fracBits + 2) : minusThree f = f.minInt := by
  have hrange := QFormat.unit_cases_of_narrow h
  have hmin := f.minInt_eq
  rw [minusThree_eq]
  omega

/-- In a narrow format the branches are taken at the ends of the range, and only there. -/
theorem cases_of_narrow (h : f.totalBits ≤ f.fracBits + 2) (hq : f.contains q = true) :
    (q = f.minInt ∧ q ≤ minusThree f) ∨ (q ≠ f.minInt ∧ q = f.maxInt ∧ minusThree f < q ∧ three f ≤ q) ∨
      (q ≠ f.minInt ∧ q ≠ f.maxInt ∧ minusThree f < q ∧ q < three f) := by
  have hmin := f.minInt_eq
  have hmax := f.maxInt_nonneg
  have hrange := QFormat.contains_iff.mp hq
  rw [three_of_narrow h, minusThree_of_narrow h]
  omega

end Activation

/-! ### Hard sigmoid -/

namespace HardSigmoid

/-- The line between the break points, taken everywhere. -/
def unbroken (f : QFormat) (q : Int) : Int := f.clamp ((q * slope f).tdiv f.unit + half f)

/-- Between the break points the activation follows the line. -/
theorem sloped_eq_unbroken (hlow : minusThree f < q) (hhigh : q < three f)
    (hfits : Checked.FitsSigned 64 (q * slope f)) : sloped f q = unbroken f q := by
  have hbounds := sloped_bounds_of_fits hlow hhigh hfits
  have hline : sloped f q = (q * slope f).tdiv f.unit + half f := by
    rcases f.fracBits_lt_or_eq with hfrac | hfrac
    · rw [sloped, signedUnit_eq hfrac]
    · -- the line is flat for the positive unit as for the negative one
      have hflat := sloped_of_widest hfrac hfits
      have hunit : signedUnit f = -f.unit := by
        rw [eq_of_fracBits_eq hfrac]
        decide
      rw [sloped, hunit, Int.tdiv_neg] at hflat
      rw [sloped, hunit, Int.tdiv_neg]
      omega
  have hmin := f.minInt_nonpos
  rw [one_eq] at hbounds
  rw [unbroken, ← hline, QFormat.clamp_eq_self (by omega) (by omega)]

/-- At the ends of a range of five bits or more the line has neither reached zero nor one. -/
theorem unbroken_ends (hnarrow : f.totalBits ≤ f.fracBits + 2) (hbits : 5 ≤ f.totalBits) :
    0 < unbroken f f.minInt ∧ unbroken f f.maxInt < one f := by
  have hmin := f.minInt_eq
  have hrange := QFormat.unit_cases_of_narrow hnarrow
  have hunit : 2 ^ 3 ≤ f.unit := Nat.pow_le_pow_right Nat.two_pos (by omega)
  obtain ⟨hs, hslope⟩ := slope_bounds f
  obtain ⟨w, hw⟩ := QFormat.exists_half_unit (f := f) (by omega)
  have hpos : (0 : Int) < f.unit := by omega
  constructor
  · have hfall : -(2 * slope f) ≤ (f.minInt * slope f).tdiv f.unit := by
      have hreach : -f.minInt * slope f ≤ 2 * f.unit * slope f := mul_le_mul_of_nonneg_right (by omega) hs
      exact neg_le_tdiv_of_lt hpos (by omega) (by linarith)
    rw [unbroken, half_eq, QFormat.clamp]
    omega
  · rw [unbroken, half_eq, one_eq, QFormat.clamp]
    rcases hrange with hone | htwo
    · have hrise : (f.maxInt * slope f).tdiv f.unit ≤ slope f := tdiv_le_of_lt hpos hs (by nlinarith)
      omega
    · have hrise : (f.maxInt * slope f).tdiv f.unit ≤ 2 * slope f := tdiv_le_of_lt hpos (by omega) (by nlinarith)
      omega

/-- The activation in a narrow format. -/
theorem forward_eq_of_narrow {l : HardSigmoid} (hnarrow : l.format.totalBits ≤ l.format.fracBits + 2) {x : Binary64}
    (hq : l.format.quantize x = .ok q) :
    l.forward x =
      if q = l.format.minInt then .ok (l.format.toRational 0)
      else if q = l.format.maxInt then .ok (l.format.toRational (one l.format))
      else if Checked.FitsSigned 64 (q * slope l.format) then .ok (l.format.toRational (unbroken l.format q))
      else .error (.overflow .multiply) := by
  rw [forward_of_quantize hq]
  rcases cases_of_narrow hnarrow (QFormat.contains_of_quantize hq) with
    ⟨hlow, hle⟩ | ⟨hlow, hhigh, hgt, hge⟩ | ⟨hlow, hhigh, hgt, hlt⟩
  · rw [if_pos hlow, if_neg (not_overflows_of_le hle), stored_of_le hle]
  · rw [if_neg hlow, if_pos hhigh, if_neg (not_overflows_of_ge hge), stored_of_ge hgt hge]
  rw [if_neg hlow, if_neg hhigh, stored_between hgt hlt]
  by_cases hfits : Checked.FitsSigned 64 (q * slope l.format)
  · rw [if_pos hfits, if_neg fun hover => hover.2.2 hfits, sloped_eq_unbroken hgt hlt hfits]
  · rw [if_neg hfits, if_pos ⟨hgt, hlt, hfits⟩]

end HardSigmoid

/-! ### Sigmoid-weighted unit -/

namespace Silu

/-- The curve between the break points with three itself, taken everywhere. -/
def unbroken (f : QFormat) (q : Int) : Int := f.clamp ((q * (q + 3 * f.unit)).tdiv (6 * f.unit))

/-- In a narrow format the curve needs no clamp. -/
theorem unbroken_of_narrow (hnarrow : f.totalBits ≤ f.fracBits + 2) (hq : f.contains q = true) :
    unbroken f q = (q * (q + 3 * f.unit)).tdiv (6 * f.unit) := by
  have hmin := f.minInt_eq
  have hmax := f.maxInt_nonneg
  have hrange := QFormat.unit_cases_of_narrow hnarrow
  have hq' := QFormat.contains_iff.mp hq
  have hbounds := tdiv_mul_bounds (q := q) (s := q + 3 * f.unit) (u := 6 * f.unit) (by omega) (by omega)
  exact QFormat.clamp_eq_self (by omega) (by omega)

section Distance

variable {u m : Int}

/-- Above zero, a smaller number than three in the formula lowers the curve. -/
theorem curve_lowered (hu : 0 < u) (hq : 0 ≤ q) (hshift : 0 ≤ q + m) (hm : m ≤ 2 * u) :
    q < 6 * ((q * (q + 3 * u)).tdiv (6 * u) - (q * (q + m)).tdiv (6 * u)) + 6 := by
  have hfull := (tdiv_bounds_of_nonneg (show 0 < 6 * u by omega) (mul_nonneg hq (show 0 ≤ q + 3 * u by omega))).2
  have hless := (tdiv_bounds_of_nonneg (show 0 < 6 * u by omega) (mul_nonneg hq hshift)).1
  have hgap : q * u ≤ q * (3 * u - m) := mul_le_mul_of_nonneg_left (by omega) hq
  refine lt_of_mul_lt_mul_right ?_ hu.le
  linarith

/-- Below zero, it raises the curve. -/
theorem curve_raised (hu : 0 < u) (hq : q ≤ 0) (hshift : 0 ≤ q + m) (hm : m ≤ 2 * u) :
    -q < 6 * ((q * (q + m)).tdiv (6 * u) - (q * (q + 3 * u)).tdiv (6 * u)) + 6 := by
  have hfull := (tdiv_bounds_of_nonpos (show 0 < 6 * u by omega)
    (mul_nonpos_of_nonpos_of_nonneg hq (show 0 ≤ q + 3 * u by omega))).2
  have hless := (tdiv_bounds_of_nonpos (show 0 < 6 * u by omega) (mul_nonpos_of_nonpos_of_nonneg hq hshift)).1
  have hgap : q * (3 * u - m) ≤ q * u := mul_le_mul_of_nonpos_left (by omega) hq
  refine lt_of_mul_lt_mul_right ?_ hu.le
  linarith

/-- At two units and below, the argument itself lies above the curve. -/
theorem curve_below_argument (hu : 0 < u) (hq : 0 ≤ q) (hle : q ≤ 2 * u) :
    q ≤ 6 * (q - (q * (q + 3 * u)).tdiv (6 * u)) := by
  have hfull := (tdiv_bounds_of_nonneg (show 0 < 6 * u by omega) (mul_nonneg hq (show 0 ≤ q + 3 * u by omega))).1
  have hgap : q * u ≤ q * (3 * u - q) := mul_le_mul_of_nonneg_left (by omega) hq
  refine le_of_mul_le_mul_right ?_ hu
  linarith

end Distance

/-- In a narrow format the activation is far from the curve, unless its argument is near zero. -/
theorem far_from_unbroken (hnarrow : f.totalBits ≤ f.fracBits + 2) (hq : f.contains q = true) :
    |q| < 6 * |unbroken f q - stored f q| + 6 := by
  have hmin := f.minInt_eq
  have hmax := f.maxInt_nonneg
  have hrange := QFormat.unit_cases_of_narrow hnarrow
  have hunit : (0 : Int) < f.unit := by exact_mod_cast f.unit_pos
  have hq' := QFormat.contains_iff.mp hq
  rw [unbroken_of_narrow hnarrow hq, stored, minusThree_of_narrow hnarrow, three_of_narrow hnarrow, curved,
    three_of_narrow hnarrow]
  split_ifs with hlow hhigh
  · -- at the least stored integer the shift that makes the curve zero is its magnitude
    have hbelow := curve_raised (q := q) (m := -q) hunit (by omega) (by omega) (by omega)
    rw [add_neg_cancel, mul_zero, Int.zero_tdiv] at hbelow
    rw [abs_of_nonpos (by omega : q ≤ 0), abs_sub_comm]
    exact hbelow.trans_le (by linarith [le_abs_self (0 - (q * (q + 3 * f.unit)).tdiv (6 * f.unit))])
  · have habove := curve_below_argument (q := q) hunit (by omega) (by omega)
    rw [abs_of_nonneg (by omega : 0 ≤ q), abs_sub_comm]
    linarith [le_abs_self (q - (q * (q + 3 * f.unit)).tdiv (6 * f.unit))]
  · rcases le_total 0 q with hnonneg | hnonpos
    · rw [abs_of_nonneg hnonneg]
      have habove := curve_lowered (q := q) (m := f.maxInt) hunit hnonneg (by omega) (by omega)
      linarith [le_abs_self ((q * (q + 3 * f.unit)).tdiv (6 * f.unit) - (q * (q + f.maxInt)).tdiv (6 * f.unit))]
    · rw [abs_of_nonpos hnonpos, abs_sub_comm]
      have hbelow := curve_raised (q := q) (m := f.maxInt) hunit hnonpos (by omega) (by omega)
      linarith [le_abs_self ((q * (q + f.maxInt)).tdiv (6 * f.unit) - (q * (q + 3 * f.unit)).tdiv (6 * f.unit))]

/-- The activation in a narrow format. -/
theorem forward_eq_of_narrow {l : Silu} (hnarrow : l.format.totalBits ≤ l.format.fracBits + 2) {x : Binary64}
    (hq : l.format.quantize x = .ok q) :
    l.forward x =
      if q = l.format.minInt then .ok (l.format.toRational 0)
      else if q = l.format.maxInt then .ok (l.format.toRational q)
      else if Checked.FitsSigned 64 (q + l.format.maxInt) then
        .ok (l.format.toRational ((q * (q + l.format.maxInt)).tdiv (6 * l.format.unit)))
      else .error (.overflow .add) := by
  have hmax := three_of_narrow hnarrow
  rw [forward_of_quantize hq]
  rcases cases_of_narrow hnarrow (QFormat.contains_of_quantize hq) with
    ⟨hlow, hle⟩ | ⟨hlow, hhigh, hgt, hge⟩ | ⟨hlow, hhigh, hgt, hlt⟩
  · rw [if_pos hlow, if_neg (not_overflows_of_le hle), stored_of_le hle]
  · rw [if_neg hlow, if_pos hhigh, if_neg (not_overflows_of_ge hge), stored_of_ge hgt hge]
  rw [if_neg hlow, if_neg hhigh, stored_between hgt hlt, curved, hmax]
  by_cases hfits : Checked.FitsSigned 64 (q + l.format.maxInt)
  · rw [if_pos hfits, if_neg fun hover => hover.2.2 (hmax ▸ hfits)]
  · rw [if_neg hfits, if_pos ⟨hgt, hlt, hmax ▸ hfits⟩]

end Silu

/-! ### Both activations -/

namespace Activation

/-- **Activations that do not hold three.** In a format with two bits before the point or less, the break points are
the ends of the range, and their branches are taken there. Between the ends the hard sigmoid follows its line, or
overflows; at the ends of a format of five bits or more the line has another value. The sigmoid-weighted unit is
computed with the end of the range in place of three, or overflows, and differs from the curve by more than a sixth of
the stored integer, less one. -/
theorem forward_of_narrow {f : QFormat} (hnarrow : f.totalBits ≤ f.fracBits + 2) (name : String) {x : Binary64}
    {q : Int} (hq : f.quantize x = .ok q) :
    (minusThree f = f.minInt ∧ three f = f.maxInt) ∧
    (HardSigmoid.forward ⟨name, f⟩ x =
      if q = f.minInt then .ok (f.toRational 0)
      else if q = f.maxInt then .ok (f.toRational (one f))
      else if Checked.FitsSigned 64 (q * slope f) then .ok (f.toRational (HardSigmoid.unbroken f q))
      else .error (.overflow .multiply)) ∧
    (5 ≤ f.totalBits → 0 < HardSigmoid.unbroken f f.minInt ∧ HardSigmoid.unbroken f f.maxInt < one f) ∧
    (Silu.forward ⟨name, f⟩ x =
      if q = f.minInt then .ok (f.toRational 0)
      else if q = f.maxInt then .ok (f.toRational q)
      else if Checked.FitsSigned 64 (q + f.maxInt) then
        .ok (f.toRational ((q * (q + f.maxInt)).tdiv (6 * f.unit)))
      else .error (.overflow .add)) ∧
    |q| < 6 * |Silu.unbroken f q - Silu.stored f q| + 6 := by
  exact ⟨⟨minusThree_of_narrow hnarrow, three_of_narrow hnarrow⟩,
    HardSigmoid.forward_eq_of_narrow (l := ⟨name, f⟩) hnarrow hq, HardSigmoid.unbroken_ends hnarrow,
    Silu.forward_eq_of_narrow (l := ⟨name, f⟩) hnarrow hq,
    Silu.far_from_unbroken hnarrow (QFormat.contains_of_quantize hq)⟩

/-- Of numbers between minus two and two with six bits after the point, the hard sigmoid is right at one, and has zero
and one at the ends, where the line has 10 and 53 units of the last place; the sigmoid-weighted unit of one is 31 units
instead of 42. -/
theorem forward_of_narrow_sixBits :
    let f : QFormat := { totalBits := 8, fracBits := 6 }
    f.totalBits ≤ f.fracBits + 2 ∧ f.quantize (.ofInt 1) = .ok 64 ∧ f.quantize (.ofQuotient 127 64) = .ok 127 ∧
      HardSigmoid.forward ⟨"gate", f⟩ (.ofInt 1) = .ok (f.toRational (HardSigmoid.unbroken f 64)) ∧
      HardSigmoid.forward ⟨"gate", f⟩ (.ofQuotient 127 64) = .ok (.ofInt 1) ∧
      HardSigmoid.unbroken f (-128) = 10 ∧ HardSigmoid.unbroken f 127 = 53 ∧
      Silu.forward ⟨"gate", f⟩ (.ofInt 1) = .ok (f.toRational 31) ∧ Silu.unbroken f 64 = 42 := by
  intro f
  have hone : f.quantize (.ofInt 1) = .ok 64 := by decide +kernel
  have hend : f.quantize (.ofQuotient 127 64) = .ok 127 := by decide +kernel
  have hforward := forward_of_narrow (f := f) (by decide) "gate" hone
  have hforward' := forward_of_narrow (f := f) (by decide) "gate" hend
  refine ⟨by decide, hone, hend, ?_, ?_, by decide +kernel, by decide +kernel, ?_, by decide +kernel⟩
  · exact hforward.2.1.trans (by decide +kernel)
  · exact hforward'.2.1.trans (by decide +kernel)
  · exact hforward.2.2.2.1.trans (by decide +kernel)

/-- Neither activation of a format without three goes on as it does between the break points. -/
theorem not_forall_forward_unbroken :
    (¬ ∀ (l : HardSigmoid) (x : Binary64) (q : Int), l.format.totalBits ≤ l.format.fracBits + 2 →
      l.format.quantize x = .ok q → ¬ HardSigmoid.Overflows l.format q →
      l.forward x = .ok (l.format.toRational (HardSigmoid.unbroken l.format q))) ∧
    ¬ ∀ (l : Silu) (x : Binary64) (q : Int), l.format.totalBits ≤ l.format.fracBits + 2 →
      l.format.quantize x = .ok q → ¬ Silu.Overflows l.format q →
      l.forward x = .ok (l.format.toRational (Silu.unbroken l.format q)) := by
  constructor
  · intro hall
    have hline := hall ⟨"gate", { totalBits := 8, fracBits := 6 }⟩ (.ofQuotient 127 64) 127 (by decide)
      (by decide +kernel) (by decide +kernel)
    have hbroken : HardSigmoid.forward ⟨"gate", { totalBits := 8, fracBits := 6 }⟩ (.ofQuotient 127 64) =
        .ok (.ofInt 1) := by decide +kernel
    rw [hbroken] at hline
    exact absurd hline (by decide +kernel)
  · intro hall
    have hcurve := hall ⟨"gate", { totalBits := 8, fracBits := 6 }⟩ (.ofInt 1) 64 (by decide) (by decide +kernel)
      (by decide +kernel)
    have hbroken : Silu.forward ⟨"gate", { totalBits := 8, fracBits := 6 }⟩ (.ofInt 1) =
        .ok (.ofQuotient 31 64) := by decide +kernel
    rw [hbroken] at hcurve
    exact absurd hcurve (by decide +kernel)

end Activation

end QuantNet
