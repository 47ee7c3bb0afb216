import QuantNet.Proofs.HardSigmoid
import QuantNet.Proofs.MultiplyAccumulate

/-!
# Overflow in the activations

The activations are computed in signed words of 64 bits, and only the product of the sigmoid-weighted unit in 128.
In a wide format two of the operations leave their word: the product with the slope in the hard sigmoid, and the sum
with the upper break point in the sigmoid-weighted unit (`HardSigmoid.Overflows`, `Silu.Overflows`). No other
operation does, and where they do not, the result is what the branches say (`HardSigmoid.stored`, `Silu.stored`), with
nothing left for the final clamp.

An integer between the break points is less than three units away from zero, and the slope is about a sixth of the
unit, so the product is less than about half the square of the unit: this is `2 ^ 63` at 32 bits after the point. There
the surplus of the rounded slope makes the format unsafe, unless three is outside the format. The sum reaches `2 ^ 63`
only in words of 64 bits with three bits before the point or less.
-/

namespace QuantNet

open Activation

variable {f : QFormat} {q : Int}

namespace Activation

theorem minusThree_nonpos (f : QFormat) : minusThree f ≤ 0 := by
  have hmin := f.minInt_nonpos
  rw [minusThree_eq]
  omega

/-- Between the break points the sum with the upper one is not negative, and smaller than six units. -/
theorem shift_bounds (hlow : minusThree f < q) (hhigh : q < three f) : 0 ≤ q + three f ∧ q + three f < 6 * f.unit := by
  have hmin := f.minInt_eq
  have hrange := f.unit_cases
  rw [minusThree_eq] at hlow
  rw [three_eq] at hhigh ⊢
  omega

/-- A stored integer of few bits between the break points is the one of a number. -/
theorem exists_quantize {n j : Nat} (hn : n ≤ 2 ^ 53) (hq : q = n * 2 ^ j) (hlow : minusThree f < q)
    (hhigh : q < three f) : ∃ x, f.quantize x = .ok q := by
  refine ⟨f.toRational q, QFormat.quantize_toRational_of_isShort ⟨n, j, hn, ?_⟩ (QFormat.contains_iff.mpr ?_)⟩
  · rw [hq, Int.natAbs_mul, Int.natAbs_pow]
    rfl
  · rw [minusThree_eq] at hlow
    rw [three_eq] at hhigh
    omega

end Activation

/-! ### Hard sigmoid -/

namespace HardSigmoid

/-- The product with the slope is taken, and it is no signed word. -/
def Overflows (f : QFormat) (q : Int) : Prop :=
  minusThree f < q ∧ q < three f ∧ ¬ Checked.FitsSigned 64 (q * slope f)

instance (f : QFormat) (q : Int) : Decidable (Overflows f q) := inferInstanceAs (Decidable (_ ∧ _ ∧ _))

/-- The stored integer of the activation in words of any size. -/
def stored (f : QFormat) (q : Int) : Int :=
  if q ≤ minusThree f then 0 else if three f ≤ q then one f else sloped f q

theorem stored_of_le (h : q ≤ minusThree f) : stored f q = 0 := if_pos h

theorem stored_of_ge (hlow : minusThree f < q) (hhigh : three f ≤ q) : stored f q = one f := by
  rw [stored, if_neg (not_le.mpr hlow), if_pos hhigh]

theorem stored_between (hlow : minusThree f < q) (hhigh : q < three f) : stored f q = sloped f q := by
  rw [stored, if_neg (not_le.mpr hlow), if_neg (not_le.mpr hhigh)]

theorem not_overflows_of_le (h : q ≤ minusThree f) : ¬ Overflows f q := fun hover => absurd hover.1 (not_lt.mpr h)

theorem not_overflows_of_ge (h : three f ≤ q) : ¬ Overflows f q := fun hover => absurd hover.2.1 (not_lt.mpr h)

/-- The product with the slope is the only operation that leaves its word. -/
theorem apply_eq (f : QFormat) (q : Int) :
    apply f q = if Overflows f q then .error (.overflow .multiply) else .ok (stored f q) := by
  unfold apply
  rcases le_or_gt q (minusThree f) with hlow | hlow
  · rw [if_pos hlow, if_neg (not_overflows_of_le hlow), stored_of_le hlow]
  rcases le_or_gt (three f) q with hhigh | hhigh
  · rw [if_neg (not_le.mpr hlow), if_pos hhigh, if_neg (not_overflows_of_ge hhigh), stored_of_ge hlow hhigh]
  rw [if_neg (not_le.mpr hlow), if_neg (not_le.mpr hhigh), stored_between hlow hhigh, Checked.signedMul]
  by_cases hfits : Checked.FitsSigned 64 (q * slope f)
  · have hbounds := sloped_bounds_of_fits hlow hhigh hfits
    have hword := f.maxInt_lt_word
    have hsum : Checked.FitsSigned 64 (sloped f q) := by
      rw [one_eq] at hbounds
      rw [Checked.FitsSigned, twoPow_eq]
      omega
    rw [if_pos hfits, Outcome.ok_bind, if_neg fun hover => hover.2.2 hfits, Checked.signedAdd]
    exact if_pos hsum
  · rw [if_neg hfits, Outcome.error_bind, if_pos ⟨hlow, hhigh, hfits⟩]

theorem apply_of_not_overflows (h : ¬ Overflows f q) : apply f q = .ok (stored f q) := by rw [apply_eq, if_neg h]

/-- The activation of a number is the stored one, or an overflow of the product. -/
theorem forward_of_quantize {l : HardSigmoid} {x : Binary64} (hq : l.format.quantize x = .ok q) :
    l.forward x = if Overflows l.format q then .error (.overflow .multiply)
      else .ok (l.format.toRational (stored l.format q)) := by
  rw [forward, hq, Outcome.lift_ok, Outcome.ok_bind, apply_eq]
  split_ifs with hover
  · rfl
  · rw [Outcome.ok_bind, clamp_eq_self_of_yields ⟨q, hq, apply_of_not_overflows hover⟩, Outcome.pure_eq_ok]

/-- The activation of a stored number has a value, unless it overflows. -/
theorem exists_forward_iff {l : HardSigmoid} {x : Binary64} (hq : l.format.quantize x = .ok q) :
    (∃ v, l.forward x = .ok v) ↔ ¬ Overflows l.format q := by
  rw [forward_of_quantize hq]
  by_cases hover : Overflows l.format q <;> simp [hover]

/-- The product is a signed word if the unit is small enough for the way to the break points. -/
theorem not_overflows {b : Int} (hlow : -b ≤ minusThree f + 1) (hhigh : three f ≤ b + 1)
    (hroom : b * (f.unit + 2) < 6 * 2 ^ 63) : ¬ Overflows f q := by
  rintro ⟨hlow', hhigh', hfits⟩
  obtain ⟨hs, hslope⟩ := slope_bounds f
  have hupper : q * slope f ≤ b * slope f := mul_le_mul_of_nonneg_right (by omega) hs
  have hlower : -b * slope f ≤ q * slope f := mul_le_mul_of_nonneg_right (by omega) hs
  have hb : b * (6 * slope f) ≤ b * (f.unit + 2) := mul_le_mul_of_nonneg_left hslope (by omega)
  refine hfits ⟨?_, ?_⟩
  · rw [twoPow_eq]
    push_cast
    linarith
  · rw [twoPow_eq]
    push_cast
    linarith

/-- A stored integer at which the product overflows, in a format with 33 bits after the point or more. -/
theorem overflows_of_long (h : 33 ≤ f.fracBits) : Overflows f (7 * 2 ^ (f.fracBits - 3)) := by
  have hunit : (f.unit : Int) = 8 * 2 ^ (f.fracBits - 3) := by
    rw [QFormat.unit, twoPow_eq, ← Nat.sub_add_cancel (show 3 ≤ f.fracBits by omega), pow_add]
    push_cast
    ring
  have hlarge : (2 : Int) ^ 30 ≤ 2 ^ (f.fracBits - 3) := pow_le_pow_right₀ one_le_two (by omega)
  have hslope := unit_le_slope f
  have hrange := f.unit_cases
  have hlow := minusThree_nonpos f
  generalize (2 : Int) ^ (f.fracBits - 3) = v at hunit hlarge ⊢
  have hsteep : 7 * v ≤ 6 * slope f := by omega
  refine ⟨by omega, ?_, fun hfits => ?_⟩
  · rw [three_eq]
    omega
  · have hproduct := hfits.2
    rw [twoPow_eq] at hproduct
    push_cast at hproduct
    nlinarith

/-- The last stored integer below three units overflows with 32 bits after the point. -/
theorem overflows_below_three (hfrac : f.fracBits = 32) (htotal : 35 ≤ f.totalBits) : Overflows f (3 * 2 ^ 32 - 1) := by
  have hunit : f.unit = 2 ^ 32 := by rw [QFormat.unit, hfrac, twoPow_eq]
  have hpow : 2 ^ 34 ≤ 2 ^ (f.totalBits - 1) := Nat.pow_le_pow_right Nat.two_pos (by omega)
  have hmax : 2 ^ 34 - 1 ≤ f.maxInt := by
    rw [QFormat.maxInt, twoPow_eq]
    omega
  have hslope := unit_le_slope f
  have hslope' := slope_bounds f
  have hlow := minusThree_nonpos f
  rw [hunit] at hslope hslope'
  have hvalue : slope f = 715827883 := by omega
  refine ⟨by omega, ?_, ?_⟩
  · rw [three_eq, hunit]
    omega
  · rw [hvalue]
    decide

/-- The formats in which the product never leaves its word. -/
theorem forall_not_overflows_iff (f : QFormat) :
    (∀ x q, f.quantize x = .ok q → ¬ Overflows f q) ↔ f.fracBits < 32 ∨ f.fracBits = 32 ∧ f.totalBits < 35 := by
  have hmin := f.minInt_eq
  constructor
  · intro hall
    by_contra hunsafe
    have hover : ∃ n j : Nat, n ≤ 2 ^ 53 ∧ Overflows f (n * 2 ^ j) := by
      by_cases hlong : 33 ≤ f.fracBits
      · exact ⟨7, f.fracBits - 3, by decide, overflows_of_long hlong⟩
      · exact ⟨3 * 2 ^ 32 - 1, 0, by decide, overflows_below_three (by omega) (by omega)⟩
    obtain ⟨n, j, hn, hover⟩ := hover
    obtain ⟨x, hx⟩ := exists_quantize hn rfl hover.1 hover.2.1
    exact hall x _ hx hover
  · rintro (hfrac | ⟨hfrac, htotal⟩) x q -
    · have hunit : f.unit ≤ 2 ^ 31 := Nat.pow_le_pow_right Nat.two_pos (by omega)
      refine not_overflows (b := 3 * f.unit - 1) (by rw [minusThree_eq]; omega) (by rw [three_eq]; omega) ?_
      nlinarith
    · -- three is outside the format, which ends at two units or one
      have hunit : f.unit = 2 ^ 32 := by rw [QFormat.unit, hfrac, twoPow_eq]
      have hpow : 2 ^ (f.totalBits - 1) ≤ 2 ^ 33 := Nat.pow_le_pow_right Nat.two_pos (by omega)
      have hmax : f.maxInt ≤ 2 ^ 33 - 1 := by
        rw [QFormat.maxInt, twoPow_eq]
        omega
      refine not_overflows (b := 2 ^ 33 - 1) (by rw [minusThree_eq]; omega) (by rw [three_eq]; omega) ?_
      rw [hunit]
      decide

end HardSigmoid

/-! ### Sigmoid-weighted unit -/

namespace Silu

/-- The sum with the upper break point is taken, and it is no signed word. -/
def Overflows (f : QFormat) (q : Int) : Prop :=
  minusThree f < q ∧ q < three f ∧ ¬ Checked.FitsSigned 64 (q + three f)

instance (f : QFormat) (q : Int) : Decidable (Overflows f q) := inferInstanceAs (Decidable (_ ∧ _ ∧ _))

/-- The curve between the break points. -/
def curved (f : QFormat) (q : Int) : Int := (q * (q + three f)).tdiv (6 * f.unit)

/-- The stored integer of the activation in words of any size. -/
def stored (f : QFormat) (q : Int) : Int :=
  if q ≤ minusThree f then 0 else if three f ≤ q then q else curved f q

theorem stored_of_le (h : q ≤ minusThree f) : stored f q = 0 := if_pos h

theorem stored_of_ge (hlow : minusThree f < q) (hhigh : three f ≤ q) : stored f q = q := by
  rw [stored, if_neg (not_le.mpr hlow), if_pos hhigh]

theorem stored_between (hlow : minusThree f < q) (hhigh : q < three f) : stored f q = curved f q := by
  rw [stored, if_neg (not_le.mpr hlow), if_neg (not_le.mpr hhigh)]

theorem not_overflows_of_le (h : q ≤ minusThree f) : ¬ Overflows f q := fun hover => absurd hover.1 (not_lt.mpr h)

theorem not_overflows_of_ge (h : three f ≤ q) : ¬ Overflows f q := fun hover => absurd hover.2.1 (not_lt.mpr h)

/-- The activation lies between zero and the stored integer it is taken of. -/
theorem stored_bounds (f : QFormat) (q : Int) : min q 0 ≤ stored f q ∧ stored f q ≤ max q 0 := by
  rcases le_or_gt q (minusThree f) with hlow | hlow
  · rw [stored_of_le hlow]
    exact ⟨min_le_right q 0, le_max_right q 0⟩
  rcases le_or_gt (three f) q with hhigh | hhigh
  · rw [stored_of_ge hlow hhigh]
    exact ⟨min_le_left q 0, le_max_left q 0⟩
  · rw [stored_between hlow hhigh]
    obtain ⟨hshift, hsmall⟩ := shift_bounds hlow hhigh
    exact tdiv_mul_bounds hshift hsmall

theorem clamp_stored (hq : f.contains q = true) : f.clamp (stored f q) = stored f q := by
  have hmin := f.minInt_nonpos
  have hmax := f.maxInt_nonneg
  have hrange := QFormat.contains_iff.mp hq
  have hbounds := stored_bounds f q
  exact QFormat.clamp_eq_self (by omega) (by omega)

/-- The sum with the upper break point is the only operation that leaves its word. -/
theorem apply_eq (hq : f.contains q = true) :
    apply f q = if Overflows f q then .error (.overflow .add) else .ok (stored f q) := by
  unfold apply
  rcases le_or_gt q (minusThree f) with hlow | hlow
  · rw [if_pos hlow, if_neg (not_overflows_of_le hlow), stored_of_le hlow]
  rcases le_or_gt (three f) q with hhigh | hhigh
  · rw [if_neg (not_le.mpr hlow), if_pos hhigh, if_neg (not_overflows_of_ge hhigh), stored_of_ge hlow hhigh]
  rw [if_neg (not_le.mpr hlow), if_neg (not_le.mpr hhigh), stored_between hlow hhigh, Checked.signedAdd]
  by_cases hfits : Checked.FitsSigned 64 (q + three f)
  · have hword := QFormat.natAbs_le_word hq
    have hproduct : Checked.FitsSigned 128 (q * (q + three f)) := by
      have hshift : (q + three f).natAbs ≤ 2 ^ 63 := by
        rw [Checked.FitsSigned, twoPow_eq] at hfits
        omega
      refine QFormat.fitsSigned_of_natAbs_lt ?_
      rw [Int.natAbs_mul]
      calc q.natAbs * (q + three f).natAbs ≤ 2 ^ 63 * 2 ^ 63 := Nat.mul_le_mul hword hshift
        _ < 2 ^ 127 := by decide
    rw [if_pos hfits, Outcome.ok_bind, if_neg fun hover => hover.2.2 hfits, Checked.signedMul, if_pos hproduct,
      Outcome.ok_bind, Outcome.pure_eq_ok, curved]
  · rw [if_neg hfits, Outcome.error_bind, if_pos ⟨hlow, hhigh, hfits⟩]

/-- The activation of a number is the stored one, or an overflow of the sum. -/
theorem forward_of_quantize {l : Silu} {x : Binary64} (hq : l.format.quantize x = .ok q) :
    l.forward x = if Overflows l.format q then .error (.overflow .add)
      else .ok (l.format.toRational (stored l.format q)) := by
  have hcontains := QFormat.contains_of_quantize hq
  rw [forward, hq, Outcome.lift_ok, Outcome.ok_bind, apply_eq hcontains]
  split_ifs with hover
  · rfl
  · rw [Outcome.ok_bind, clamp_stored hcontains, Outcome.pure_eq_ok]

/-- The activation of a stored number has a value, unless it overflows. -/
theorem exists_forward_iff {l : Silu} {x : Binary64} (hq : l.format.quantize x = .ok q) :
    (∃ v, l.forward x = .ok v) ↔ ¬ Overflows l.format q := by
  rw [forward_of_quantize hq]
  by_cases hover : Overflows l.format q <;> simp [hover]

theorem not_overflows (h : f.fracBits < 61 ∨ f.totalBits < 64) : ¬ Overflows f q := by
  rintro ⟨hlow, hhigh, hfits⟩
  have hshift := shift_bounds hlow hhigh
  refine hfits ⟨by rw [twoPow_eq]; omega, ?_⟩
  rw [twoPow_eq]
  rcases h with hfrac | htotal
  · have hunit : f.unit ≤ 2 ^ 60 := Nat.pow_le_pow_right Nat.two_pos (by omega)
    omega
  · have hpow : 2 ^ (f.totalBits - 1) ≤ 2 ^ 62 := Nat.pow_le_pow_right Nat.two_pos (by omega)
    have hthree : three f ≤ f.maxInt := by
      rw [three_eq]
      exact min_le_right _ _
    rw [QFormat.maxInt, twoPow_eq] at hthree
    omega

/-- A stored integer at which the sum overflows, in a format of 64 bits with 61 of them after the point or more. -/
theorem overflows_of_widest (htotal : f.totalBits = 64) (hfrac : 61 ≤ f.fracBits) : Overflows f (2 ^ 62) := by
  have hunit : 2 ^ 61 ≤ f.unit := Nat.pow_le_pow_right Nat.two_pos hfrac
  have hmax : f.maxInt = 2 ^ 63 - 1 := by rw [QFormat.maxInt, htotal, twoPow_eq]; rfl
  have hlow := minusThree_nonpos f
  have hthree : 3 * 2 ^ 61 ≤ three f := by
    rw [three_eq, hmax]
    omega
  refine ⟨by omega, by omega, fun hfits => ?_⟩
  have hsum := hfits.2
  rw [twoPow_eq] at hsum
  omega

/-- The formats in which the sum never leaves its word. -/
theorem forall_not_overflows_iff (f : QFormat) :
    (∀ x q, f.quantize x = .ok q → ¬ Overflows f q) ↔ f.fracBits < 61 ∨ f.totalBits < 64 := by
  constructor
  · intro hall
    by_contra hunsafe
    have htotal := f.total_le
    have hover := overflows_of_widest (f := f) (by omega) (by omega)
    obtain ⟨x, hx⟩ := exists_quantize (n := 1) (j := 62) (by decide) (by norm_num) hover.1 hover.2.1
    exact hall x _ hx hover
  · exact fun h _ _ _ => not_overflows h

end Silu

/-! ### Both activations -/

namespace Activation

/-- **Where the activations have values.** The hard sigmoid of a stored number is an overflow exactly if the number lies
between the break points and its product with the slope is no signed word of 64 bits, and the sigmoid-weighted unit
exactly if its sum with the upper break point is none; no other operation overflows, and otherwise the activations are
what their branches say. All stored numbers have a hard sigmoid in the formats with less than 32 bits after the point,
and in those with 32 that do not hold three; and a sigmoid-weighted unit unless the format has 64 bits with 61 or more
after the point. -/
theorem forward_defined_iff (f : QFormat) (name : String) :
    ((∀ x q, f.quantize x = .ok q → ∃ v, HardSigmoid.forward ⟨name, f⟩ x = .ok v) ↔
      f.fracBits < 32 ∨ f.fracBits = 32 ∧ f.totalBits < 35) ∧
    ((∀ x q, f.quantize x = .ok q → ∃ v, Silu.forward ⟨name, f⟩ x = .ok v) ↔
      f.fracBits < 61 ∨ f.totalBits < 64) ∧
    ∀ x q, f.quantize x = .ok q →
      HardSigmoid.forward ⟨name, f⟩ x = (if HardSigmoid.Overflows f q then .error (.overflow .multiply)
        else .ok (f.toRational (HardSigmoid.stored f q))) ∧
      Silu.forward ⟨name, f⟩ x = (if Silu.Overflows f q then .error (.overflow .add)
        else .ok (f.toRational (Silu.stored f q))) := by
  refine ⟨?_, ?_, fun x q hq => ⟨HardSigmoid.forward_of_quantize hq, Silu.forward_of_quantize hq⟩⟩
  · rw [← HardSigmoid.forall_not_overflows_iff]
    exact forall₃_congr fun x q hq => HardSigmoid.exists_forward_iff (l := ⟨name, f⟩) hq
  · rw [← Silu.forall_not_overflows_iff]
    exact forall₃_congr fun x q hq => Silu.exists_forward_iff (l := ⟨name, f⟩) hq

/-- With 40 bits after the point the hard sigmoid of a small number has a value, and that of two has none. -/
theorem forward_defined_longFraction :
    let f : QFormat := { totalBits := 64, fracBits := 40 }
    f.quantize (.ofQuotient 1 32768) = .ok (2 ^ 25) ∧ f.quantize (.ofInt 2) = .ok (2 ^ 41) ∧
      HardSigmoid.forward ⟨"gate", f⟩ (.ofQuotient 1 32768) = .ok (f.toRational 549761406293) ∧
      HardSigmoid.forward ⟨"gate", f⟩ (.ofInt 2) = .error (.overflow .multiply) ∧
      Silu.forward ⟨"gate", f⟩ (.ofInt 2) = .ok (f.toRational 1832519379626) := by
  intro f
  have hsmall : f.quantize (.ofQuotient 1 32768) = .ok (2 ^ 25) := by decide +kernel
  have htwo : f.quantize (.ofInt 2) = .ok (2 ^ 41) := by decide +kernel
  have hforward := (forward_defined_iff f "gate").2.2
  refine ⟨hsmall, htwo, ?_, ?_, ?_⟩
  · rw [(hforward _ _ hsmall).1, if_neg (by decide +kernel)]
    decide +kernel
  · rw [(hforward _ _ htwo).1, if_pos (by decide +kernel)]
  · rw [(hforward _ _ htwo).2, if_neg (by decide +kernel)]
    decide +kernel

/-- Neither activation has values for all stored numbers of all formats. -/
theorem not_forall_forward_defined :
    (¬ ∀ (l : HardSigmoid) (x : Binary64) (q : Int), l.format.quantize x = .ok q → ∃ v, l.forward x = .ok v) ∧
      ¬ ∀ (l : Silu) (x : Binary64) (q : Int), l.format.quantize x = .ok q → ∃ v, l.forward x = .ok v := by
  constructor
  · intro hall
    obtain ⟨v, hv⟩ := hall ⟨"gate", { totalBits := 64, fracBits := 40 }⟩ (.ofInt 2) (2 ^ 41) (by decide +kernel)
    have hover : HardSigmoid.forward ⟨"gate", { totalBits := 64, fracBits := 40 }⟩ (.ofInt 2) =
        .error (.overflow .multiply) := by decide +kernel
    rw [hover] at hv
    cases hv
  · intro hall
    obtain ⟨v, hv⟩ := hall ⟨"gate", { totalBits := 64, fracBits := 61 }⟩ (.ofInt 2) (2 ^ 62) (by decide +kernel)
    have hover : Silu.forward ⟨"gate", { totalBits := 64, fracBits := 61 }⟩ (.ofInt 2) = .error (.overflow .add) := by
      decide +kernel
    rw [hover] at hv
    cases hv

end Activation

end QuantNet
