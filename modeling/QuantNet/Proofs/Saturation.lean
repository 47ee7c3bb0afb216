import QuantNet.Proofs.ExactQuantization
import QuantNet.Proofs.RoundingUp

/-!
# Saturation

Saturation compares the rounded number with the two ends of the range as floating-point numbers. Comparison is that of
the rational values (`Binary64.le_iff_of_value?`), and the lower end is a power of two, which is a floating-point number.
The upper end is one for at most 54 bits. In a wider format it is rounded up to the next power of two, which the format
does not hold (`QFormat.value?_maxInt_of_wide`).

The rounded number is then compared with one more than the upper end. Nothing is lost by this: it has at most 53
significant bits and the upper end has more, so it is never equal to the upper end (`QFormat.maxInt_le_iff`). Hence
saturation is rounding in exact arithmetic and then the end of the range that was passed
(`QFormat.quantizeSaturating_of_value?`), and it agrees with quantization, which compares with the power of two to begin
with (`QFormat.quantize_eq_compared`).
-/

namespace QuantNet

namespace Binary64

section Finite

variable {x y : Binary64} {a b : ℚ} {negative : Bool} {m : Nat} {e least : Int}

/-! ### Comparison -/

/-- The value of a number of units is that of the number. -/
theorem aligned_mul (negative : Bool) (m : Nat) (h : least ≤ e) :
    (aligned negative m e least : ℚ) * 2 ^ least = signed negative (m * 2 ^ e) := by
  have hunits : ((m * twoPow (e - least).toNat : Nat) : ℚ) * 2 ^ least = m * 2 ^ e := by
    rw [twoPow_eq, Nat.cast_mul, Nat.cast_pow, Nat.cast_ofNat, mul_assoc, ← zpow_natCast (2 : ℚ),
      ← zpow_add₀ two_ne_zero, Int.toNat_of_nonneg (sub_nonneg.mpr h), sub_add_cancel]
  rw [aligned, ← signed_intCast, signed_mul, Int.cast_natCast, hunits]

/-- Finite numbers are compared by their values. -/
theorem le_iff_of_value? (hx : x.value? = some a) (hy : y.value? = some b) : x.le y = true ↔ a ≤ b := by
  cases x with
  | nan => cases hx
  | infinite negative => cases hx
  | finite negative m e hc =>
    cases y with
    | nan => cases hy
    | infinite negative' => cases hy
    | finite negative' m' e' hc' =>
      rw [value?_finite, Option.some.injEq] at hx hy
      have hunit : (0 : ℚ) < 2 ^ min e e' := by positivity
      rw [le, decide_eq_true_iff, ← hx, ← hy, ← aligned_mul negative m (min_le_left e e'),
        ← aligned_mul negative' m' (min_le_right e e'), mul_le_mul_iff_of_pos_right hunit, Int.cast_le]

theorem infinite_le_of_value? (negative : Bool) (hx : x.value? = some a) : (infinite negative).le x = negative := by
  cases x with
  | nan => cases hx
  | infinite negative => cases hx
  | finite => cases negative <;> rfl

theorem le_infinite_of_value? (negative : Bool) (hx : x.value? = some a) : x.le (infinite negative) = !negative := by
  cases x with
  | nan => cases hx
  | infinite negative => cases hx
  | finite => rfl

/-! ### Words -/

/-- A number that is a signed word is turned into this word. -/
theorem toWord_of_value? {q : ℤ} (hx : x.value? = some (q : ℚ)) (hlow : -2 ^ 63 ≤ q) (hhigh : q < 2 ^ 63) :
    x.toWord = q := by
  cases x with
  | nan => cases hx
  | infinite negative => cases hx
  | finite negative m e hc =>
    rw [value?_finite, Option.some.injEq] at hx
    have hmagnitude : (m : ℚ) * 2 ^ e = q.natAbs := by
      rw [Nat.cast_natAbs, Int.cast_abs, ← hx, abs_signed, abs_of_nonneg (by positivity)]
    have hsign : (if negative then -(q.natAbs : ℤ) else q.natAbs) = q := by
      rw [hmagnitude, ← Int.cast_natCast, signed_intCast] at hx
      exact_mod_cast hx
    have hparts : (scaleRatio m 1 (-e)).1 = q.natAbs * (scaleRatio m 1 (-e)).2 :=
      scaleRatio_fst_eq m Nat.one_pos (by rw [Nat.cast_one, div_one, neg_neg, hmagnitude])
    have hpos : 0 < (scaleRatio m 1 (-e)).2 := (scaleRatio_eq m Nat.one_pos (-e)).1
    simp only [toWord, hparts, Nat.mul_div_cancel _ hpos, hsign, twoPow_eq, Nat.cast_pow, Nat.cast_ofNat]
    omega

/-! ### Integers -/

/-- An integer of at most 53 significant bits is a number of the floating-point format. -/
theorem value?_ofInt_of_short {n : ℤ} {j : Nat} (hm : m ≤ 2 ^ 53) (hj : j ≤ 900) (h : n.natAbs = m * 2 ^ j) :
    (ofInt n).value? = some (n : ℚ) := by
  rcases Nat.eq_zero_or_pos n.natAbs with hzero | hpos
  · rw [Int.natAbs_eq_zero.mp hzero, Int.cast_zero]
    have hvalue : ofInt 0 = finite false 0 (-1074) (by decide) := by decide +kernel
    rw [hvalue, value?_finite, Nat.cast_zero, zero_mul]
    rfl
  · have hm0 : 0 < m := Nat.pos_of_mul_pos_right (h ▸ hpos)
    obtain ⟨m', e, hc, -, hvalue⟩ := exists_canonical hm0 hm (k := j) (by omega) (by omega)
    have hnumber : (m' : ℚ) * 2 ^ e = n.natAbs := by
      rw [hvalue, h]
      push_cast
      rfl
    rw [ofInt, nearest_eq_finite _ hpos Nat.one_pos hc (by rw [hnumber, Nat.cast_one, div_one]), value?_finite,
      hnumber]
    by_cases hneg : n < 0
    · rw [decide_eq_true hneg, signed, if_pos rfl, Nat.cast_natAbs, abs_of_neg hneg, Int.cast_neg, neg_neg]
    · rw [decide_eq_false hneg, signed, if_neg Bool.false_ne_true, Nat.cast_natAbs, abs_of_nonneg (not_lt.mp hneg)]

/-- An integer of at most 53 bits is a number of the floating-point format. -/
theorem value?_ofInt {n : ℤ} (h : n.natAbs ≤ 2 ^ 53) : (ofInt n).value? = some (n : ℚ) :=
  value?_ofInt_of_short h (Nat.zero_le _) (by rw [Nat.pow_zero, Nat.mul_one])

/-- The sign that a number is written with. -/
def isNegative : Binary64 → Bool
  | nan => false
  | infinite negative => negative
  | finite negative _ _ _ => negative

theorem isNegative_of_value? (hx : x.value? = some a) (ha : a ≠ 0) : x.isNegative = decide (a < 0) := by
  cases x with
  | nan => cases hx
  | infinite negative => cases hx
  | finite negative m e hc =>
    rw [value?_finite, Option.some.injEq] at hx
    have hnonneg : (0 : ℚ) ≤ m * 2 ^ e := by positivity
    cases negative with
    | false =>
      rw [← hx]
      exact (decide_eq_false (not_lt.mpr hnonneg)).symm
    | true =>
      have hneg : a < 0 := lt_of_le_of_ne (by rw [← hx]; exact neg_nonpos.mpr hnonneg) ha
      exact (decide_eq_true hneg).symm

end Finite

end Binary64

namespace QFormat

variable {f : QFormat} {v : Binary64} {x : ℚ} {q : ℤ} {negative : Bool}

/-! ### Ends of the range -/

theorem minInt_nonpos (f : QFormat) : f.minInt ≤ 0 := by
  have hpos : 0 < 2 ^ (f.totalBits - 1) := Nat.two_pow_pos _
  rw [minInt, twoPow_eq]
  omega

theorem maxInt_nonneg (f : QFormat) : 0 ≤ f.maxInt := by
  have hpos : 0 < 2 ^ (f.totalBits - 1) := Nat.two_pow_pos _
  rw [maxInt, twoPow_eq]
  omega

/-- The range has one code more below zero than above it. -/
theorem minInt_eq (f : QFormat) : f.minInt = -(f.maxInt + 1) := by
  rw [minInt, maxInt]
  omega

theorem natAbs_maxInt_succ (f : QFormat) : (f.maxInt + 1).natAbs = 2 ^ (f.totalBits - 1) := by
  rw [maxInt, sub_add_cancel, Int.natAbs_natCast, twoPow_eq]

/-- No format reaches beyond a signed word. -/
theorem maxInt_lt_word (f : QFormat) : f.maxInt < 2 ^ 63 := by
  have htotal := f.total_le
  have hpow : 2 ^ (f.totalBits - 1) ≤ 2 ^ 63 := Nat.pow_le_pow_right Nat.two_pos (by omega)
  rw [maxInt, twoPow_eq]
  omega

theorem clamp_eq_self (hlow : f.minInt ≤ q) (hhigh : q ≤ f.maxInt) : f.clamp q = q := by
  rw [clamp]
  omega

/-- The end of the range that a rounded number passes is on the side of its sign. -/
theorem clamp_of_not_contains (h : f.contains (roundAway (x * 2 ^ f.fracBits)) = false) :
    f.clamp (roundAway (x * 2 ^ f.fracBits)) = if x < 0 then f.minInt else f.maxInt := by
  have hmin := f.minInt_nonpos
  have hmax := f.maxInt_nonneg
  have hunit : (0 : ℚ) ≤ 2 ^ f.fracBits := by positivity
  have houtside : ¬ (f.minInt ≤ roundAway (x * 2 ^ f.fracBits) ∧ roundAway (x * 2 ^ f.fracBits) ≤ f.maxInt) := by
    rw [← contains_iff, h]
    exact Bool.false_ne_true
  rw [clamp]
  split_ifs with hneg
  · have hround := roundAway_mono (mul_nonpos_of_nonpos_of_nonneg hneg.le hunit)
    rw [roundAway_zero] at hround
    omega
  · have hround := roundAway_mono (mul_nonneg (not_lt.mp hneg) hunit)
    rw [roundAway_zero] at hround
    omega

/-- One more than the upper end is a floating-point number, a power of two. -/
theorem value?_maxInt_succ (f : QFormat) : (Binary64.ofInt (f.maxInt + 1)).value? = some ((f.maxInt + 1 : ℤ) : ℚ) := by
  have hle := f.total_le
  refine Binary64.value?_ofInt_of_short (m := 1) (j := f.totalBits - 1) (by decide) (by omega) ?_
  rw [natAbs_maxInt_succ, Nat.one_mul]

/-- The lower end is a floating-point number. -/
theorem value?_minInt (f : QFormat) : (Binary64.ofInt f.minInt).value? = some (f.minInt : ℚ) := by
  have hle := f.total_le
  refine Binary64.value?_ofInt_of_short (m := 1) (j := f.totalBits - 1) (by decide) (by omega) ?_
  rw [minInt_eq, Int.natAbs_neg, natAbs_maxInt_succ, Nat.one_mul]

/-- The upper end is a floating-point number in a format of at most 54 bits. -/
theorem value?_maxInt (h : f.totalBits ≤ 54) : (Binary64.ofInt f.maxInt).value? = some (f.maxInt : ℚ) := by
  have hpow : 2 ^ (f.totalBits - 1) ≤ 2 ^ 53 := Nat.pow_le_pow_right Nat.two_pos (by omega)
  have habs := f.natAbs_maxInt_succ
  have hnonneg := f.maxInt_nonneg
  exact Binary64.value?_ofInt (by omega)

/-- The upper end of a wider format is rounded up by one. -/
theorem value?_maxInt_of_wide (h : 54 < f.totalBits) :
    (Binary64.ofInt f.maxInt).value? = some ((f.maxInt + 1 : ℤ) : ℚ) := by
  have hle := f.total_le
  have habs := f.natAbs_maxInt_succ
  have hnonneg := f.maxInt_nonneg
  have hpred : f.maxInt.natAbs = 2 ^ (f.totalBits - 1) - 1 := by omega
  have hpower : f.maxInt + 1 = (2 ^ (f.totalBits - 1) : ℕ) := by omega
  have hnearest := Binary64.nearest_pred_two_pow false (k := f.totalBits - 1) (by omega) (by omega) (Nat.zero_le 63)
  rw [Nat.pow_zero] at hnearest
  rw [Binary64.ofInt, hpred, decide_eq_false (by omega), hnearest, Binary64.value?_finite, hpower, signed,
    if_neg Bool.false_ne_true, Int.cast_natCast, Nat.cast_pow, Nat.cast_pow, Nat.cast_ofNat,
    ← zpow_natCast, ← zpow_natCast, ← zpow_add₀ two_ne_zero]
  congr 2
  omega

/-! ### Comparison with the range -/

/-- The rounded number is the exact product rounded, an integer of at most 53 significant bits, unless the product is
at least `2 ^ 1024`: then it is the infinity of its sign. -/
theorem value?_scaled (f : QFormat) (h : v.value? = some x) :
    ((f.scaled v).value? = some ((roundAway (x * 2 ^ f.fracBits) : ℤ) : ℚ) ∧
        Binary64.IsShort (roundAway (x * 2 ^ f.fracBits)).natAbs) ∨
      (f.scaled v = .infinite (decide (x < 0)) ∧ (2 : ℚ) ^ (1024 : ℤ) ≤ |x * 2 ^ f.fracBits|) := by
  rcases Binary64.scale_of_value? h f.fracBits with hscaled | ⟨hinfinite, hhuge⟩
  · exact .inl ⟨Binary64.value?_round hscaled, Binary64.isShort_of_roundInt? (Binary64.roundInt?_of_value? hscaled)⟩
  · exact .inr ⟨by rw [scaled, hinfinite, Binary64.round], hhuge⟩

/-- Comparing a rounded number with the rounded upper end is comparing it with the upper end. -/
theorem maxInt_le_iff {y : Binary64} (hvalue : y.value? = some (q : ℚ)) (hshort : Binary64.IsShort q.natAbs) :
    (Binary64.ofInt f.maxInt).le y = true ↔ f.maxInt ≤ q := by
  rcases Nat.lt_or_ge 54 f.totalBits with hwide | hnarrow
  · rw [Binary64.le_iff_of_value? (value?_maxInt_of_wide hwide) hvalue, Int.cast_le]
    have hne : q ≠ f.maxInt := by
      rintro rfl
      have habs := f.natAbs_maxInt_succ
      have hnonneg := f.maxInt_nonneg
      rw [show f.maxInt.natAbs = 2 ^ (f.totalBits - 1) - 1 by omega] at hshort
      exact Binary64.not_isShort_pred_two_pow (by omega) hshort
    omega
  · rw [Binary64.le_iff_of_value? (value?_maxInt hnarrow) hvalue, Int.cast_le]

theorem le_minInt_iff {y : Binary64} (hvalue : y.value? = some (q : ℚ)) :
    y.le (Binary64.ofInt f.minInt) = true ↔ q ≤ f.minInt := by
  rw [Binary64.le_iff_of_value? hvalue f.value?_minInt, Int.cast_le]

/-! ### Saturation -/

/-- The stored integer of a number is its value in units of the format, rounded. -/
theorem roundAway_of_quantize (hvalue : v.value? = some x) (h : f.quantize v = .ok q) :
    roundAway (x * 2 ^ f.fracBits) = q := by
  rw [quantize_of_value? hvalue] at h
  split at h
  · exact Except.ok.inj h
  · cases h

theorem quantizeSaturating_of_infinite (h : f.scaled v = .infinite negative) :
    f.quantizeSaturating v = if negative then f.minInt else f.maxInt := by
  have hmin := Binary64.infinite_le_of_value? negative f.value?_minInt
  cases negative with
  | true => rw [quantizeSaturating, h, hmin, if_pos rfl, if_pos rfl]
  | false =>
    have hmax : (Binary64.ofInt f.maxInt).le (.infinite false) = true := by
      rcases Nat.lt_or_ge 54 f.totalBits with hwide | hnarrow
      · exact Binary64.le_infinite_of_value? false (value?_maxInt_of_wide hwide)
      · exact Binary64.le_infinite_of_value? false (value?_maxInt hnarrow)
    rw [quantizeSaturating, h, hmin, hmax, if_neg Bool.false_ne_true, if_pos rfl, if_neg Bool.false_ne_true]

/-- A number is stored with saturation as it is rounded, or as the end of the range that is nearest to this. -/
theorem quantizeSaturating_of_value? (h : v.value? = some x) :
    f.quantizeSaturating v = f.clamp (roundAway (x * 2 ^ f.fracBits)) := by
  rcases f.value?_scaled h with ⟨hvalue, hshort⟩ | ⟨hinfinite, hhuge⟩
  · have hword := f.maxInt_lt_word
    have hends := f.minInt_eq
    have hnonneg := f.maxInt_nonneg
    rw [quantizeSaturating, clamp]
    by_cases hlow : roundAway (x * 2 ^ f.fracBits) ≤ f.minInt
    · rw [if_pos ((le_minInt_iff hvalue).mpr hlow)]
      omega
    · rw [if_neg fun hle => hlow ((le_minInt_iff hvalue).mp hle)]
      by_cases hhigh : f.maxInt ≤ roundAway (x * 2 ^ f.fracBits)
      · rw [if_pos ((maxInt_le_iff hvalue hshort).mpr hhigh)]
        omega
      · rw [if_neg fun hle => hhigh ((maxInt_le_iff hvalue hshort).mp hle),
          Binary64.toWord_of_value? hvalue (by omega) (by omega)]
        omega
  · rw [quantizeSaturating_of_infinite hinfinite, clamp_of_not_contains (not_contains_roundAway_of_huge hhuge)]
    simp only [decide_eq_true_eq]

/-- A stored number is stored with saturation as the same integer. -/
theorem quantizeSaturating_of_quantize (h : f.quantize v = .ok q) : f.quantizeSaturating v = q := by
  have hcontains := contains_iff.mp (contains_of_quantize h)
  cases v with
  | nan => cases (quantize_eq_ok_iff.mp h).1
  | infinite negative => cases (quantize_eq_ok_iff.mp h).1
  | finite negative m e hc =>
    rw [quantizeSaturating_of_value? rfl, roundAway_of_quantize rfl h]
    exact clamp_eq_self hcontains.1 hcontains.2

/-- A number that is out of range is stored with saturation as the end of the range on the side of its sign. -/
theorem quantizeSaturating_of_error {cause : QError} (hne : v ≠ .nan) (h : f.quantize v = .error cause) :
    f.quantizeSaturating v = if v.isNegative then f.minInt else f.maxInt := by
  cases hvalue : v.value? with
  | none =>
    cases v with
    | nan => exact absurd rfl hne
    | infinite negative => exact quantizeSaturating_of_infinite rfl
    | finite negative m e hc => cases hvalue
  | some x =>
    rw [quantize_of_value? hvalue] at h
    split at h
    case isTrue hcontains => cases h
    case isFalse hcontains =>
      have hx : x ≠ 0 := by
        rintro rfl
        rw [zero_mul, roundAway_zero, contains_iff] at hcontains
        exact hcontains ⟨f.minInt_nonpos, f.maxInt_nonneg⟩
      rw [quantizeSaturating_of_value? hvalue, clamp_of_not_contains (Bool.eq_false_iff.mpr hcontains),
        Binary64.isNegative_of_value? hvalue hx]
      simp only [decide_eq_true_eq]

/-! ### Quantization by comparison -/

/-- Whether a number lies from the lower end up to one more than the upper end, as floating-point numbers. -/
def admits (f : QFormat) (y : Binary64) : Bool :=
  (Binary64.ofInt f.minInt).le y && !(Binary64.ofInt (f.maxInt + 1)).le y

theorem admits_of_value? {y : Binary64} (hvalue : y.value? = some (q : ℚ)) : f.admits y = f.contains q := by
  have hlow : (Binary64.ofInt f.minInt).le y = true ↔ f.minInt ≤ q := by
    rw [Binary64.le_iff_of_value? f.value?_minInt hvalue, Int.cast_le]
  have hhigh : (Binary64.ofInt (f.maxInt + 1)).le y = true ↔ f.maxInt + 1 ≤ q := by
    rw [Binary64.le_iff_of_value? f.value?_maxInt_succ hvalue, Int.cast_le]
  rw [Bool.eq_iff_iff, admits, Bool.and_eq_true, Bool.not_eq_true', ← Bool.not_eq_true, hlow, hhigh, contains_iff]
  omega

theorem admits_infinite (f : QFormat) (negative : Bool) : f.admits (.infinite negative) = false := by
  rw [admits, Binary64.le_infinite_of_value? negative f.value?_minInt,
    Binary64.le_infinite_of_value? negative f.value?_maxInt_succ, Bool.not_not, Bool.not_and_self]

theorem admits_nan (f : QFormat) : f.admits .nan = false := by
  cases hend : Binary64.ofInt f.minInt <;> rw [admits, hend] <;> rfl

/-- Quantization compares the rounded number with the powers of two at the two ends of the range. -/
theorem quantize_eq_compared (f : QFormat) (v : Binary64) :
    f.quantize v = if f.admits (f.scaled v) then .ok (f.scaled v).toWord
      else .error (.outOfRange v (f.scaled v) f.minInt f.maxInt) := by
  cases hvalue : v.value? with
  | none =>
    cases v with
    | nan => exact (if_neg (Bool.eq_false_iff.mp f.admits_nan)).symm
    | infinite negative => exact (if_neg (Bool.eq_false_iff.mp (f.admits_infinite negative))).symm
    | finite negative m e hc => cases hvalue
  | some x =>
    rw [quantize_of_value? hvalue]
    rcases f.value?_scaled hvalue with ⟨hscaled, -⟩ | ⟨hinfinite, hhuge⟩
    · rw [admits_of_value? hscaled]
      split
      case isTrue hcontains =>
        obtain ⟨hlow, hhigh⟩ := contains_iff.mp hcontains
        have hword := f.maxInt_lt_word
        have hends := f.minInt_eq
        rw [Binary64.toWord_of_value? hscaled (by omega) (by omega)]
      case isFalse => rfl
    · rw [hinfinite, admits_infinite, not_contains_roundAway_of_huge hhuge, if_neg Bool.false_ne_true,
        if_neg Bool.false_ne_true]

/-! ### Main result -/

/-- **Saturation is exact.** A finite number is stored with saturation as its rational value times the unit of the
format, rounded to the nearest integer, ties away from zero, and moved into the range; an infinity as the end of the
range on its side. Quantization looks at the same rounded number, but compares it with other floating-point numbers.
Still both agree: what quantization stores is stored with saturation as the same integer, and what it refuses as the
end of the range on the side of its sign. -/
theorem quantizeSaturating_eq_roundAway (f : QFormat) (v : Binary64) :
    (∀ x, v.value? = some x →
      f.quantizeSaturating v =
        max (-2 ^ (f.totalBits - 1)) (min (roundAway (x * 2 ^ f.fracBits)) (2 ^ (f.totalBits - 1) - 1))) ∧
    (∀ negative, v = .infinite negative →
      f.quantizeSaturating v = if negative then -2 ^ (f.totalBits - 1) else 2 ^ (f.totalBits - 1) - 1) ∧
    (f.quantize v = if f.admits (f.scaled v) then .ok (f.scaled v).toWord
      else .error (.outOfRange v (f.scaled v) f.minInt f.maxInt)) ∧
    (∀ q, f.quantize v = .ok q → f.quantizeSaturating v = q) ∧
    ∀ cause, v ≠ .nan → f.quantize v = .error cause →
      f.quantizeSaturating v = if v.isNegative then f.minInt else f.maxInt := by
  have hmin : f.minInt = -2 ^ (f.totalBits - 1) := by
    rw [minInt, twoPow_eq, Nat.cast_pow, Nat.cast_ofNat]
  have hmax : f.maxInt = 2 ^ (f.totalBits - 1) - 1 := by
    rw [maxInt, twoPow_eq, Nat.cast_pow, Nat.cast_ofNat]
  refine ⟨fun x hx => ?_, ?_, f.quantize_eq_compared v, fun q hq => quantizeSaturating_of_quantize hq,
    fun cause hne herror => quantizeSaturating_of_error hne herror⟩
  · rw [quantizeSaturating_of_value? hx, clamp, hmin, hmax]
  · rintro negative rfl
    rw [quantizeSaturating_of_infinite rfl, hmin, hmax]

/-- In a format of 55 bits, whose upper end is no floating-point number: a tie, the last number below the upper end,
the next one after it, which is above the upper end by one, and an infinity. -/
theorem quantizeSaturating_upperEnd :
    (QFormat.mk 55 0).quantizeSaturating (.finite true (2 ^ 52) (-53) (by decide)) = -1 ∧
      (QFormat.mk 55 0).quantizeSaturating (.finite false (2 ^ 53 - 1) 1 (by decide)) = 2 ^ 54 - 2 ∧
      (QFormat.mk 55 0).quantizeSaturating (.finite false (2 ^ 52) 2 (by decide)) = 2 ^ 54 - 1 ∧
      (QFormat.mk 55 0).quantizeSaturating (.infinite true) = -2 ^ 54 := by
  have htie : roundAway (signed true ((2 ^ 52 : ℕ) * 2 ^ (-53 : ℤ)) * 2 ^ 0) = -1 := by
    rw [roundAway_eq_iff]
    norm_num [signed]
  have hstored : (QFormat.mk 55 0).quantize (.finite false (2 ^ 53 - 1) 1 (by decide)) = .ok (2 ^ 54 - 2) := rfl
  have hrefused : (QFormat.mk 55 0).quantize (.finite false (2 ^ 52) 2 (by decide)) = .error _ := rfl
  refine ⟨?_, (quantizeSaturating_eq_roundAway _ _).2.2.2.1 _ hstored,
    (quantizeSaturating_eq_roundAway _ _).2.2.2.2 _ (by decide) hrefused,
    (quantizeSaturating_eq_roundAway _ _).2.1 _ rfl⟩
  rw [(quantizeSaturating_eq_roundAway _ _).1 _ rfl, htie]
  rfl

end QFormat

end QuantNet
