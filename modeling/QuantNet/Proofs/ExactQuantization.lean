import Mathlib.Algebra.Order.Floor.Ring
import Mathlib.Data.Rat.Floor
import QuantNet.Proofs.ExactRounding

/-!
# Quantization in exact arithmetic

A finite number is a rational number (`Binary64.value?`), and quantization can be said in rational
arithmetic alone: multiply by the unit of the format, round to the nearest integer, ties away from zero
(`roundAway`), and compare with the range.

No step of the computation loses a bit. The multiplication moves the significand up or raises the
exponent, and both leave a canonical form unless the product is at least `2 ^ 1024`
(`Binary64.exists_canonical_or_huge`); an infinite product is therefore one that no format stores. The
rounded number has no more significant bits than the number before it, so it is an integer that the
floating-point format holds (`Binary64.value?_round`).
-/

namespace QuantNet

/-! ### Rounding away from zero -/

/-- A rational number rounded to the nearest integer, ties away from zero: half a unit is added to the magnitude,
and the fraction is cut off. -/
def roundAway (x : ℚ) : ℤ := if 0 ≤ x then ⌊x + 1 / 2⌋ else -⌊-x + 1 / 2⌋

theorem roundAway_of_nonneg {x : ℚ} (hx : 0 ≤ x) : roundAway x = ⌊x + 1 / 2⌋ := if_pos hx

theorem roundAway_neg (x : ℚ) : roundAway (-x) = -roundAway x := by
  rcases lt_trichotomy x 0 with hx | rfl | hx
  · rw [roundAway, if_pos (by linarith), roundAway, if_neg (by linarith), neg_neg]
  · rw [neg_zero, roundAway_of_nonneg le_rfl]
    norm_num
  · rw [roundAway, if_neg (by linarith), neg_neg, roundAway_of_nonneg hx.le]

/-- The rounded magnitude is the only integer that is nearest to it, or above it if two are. -/
theorem roundAway_eq_iff_of_nonneg {x : ℚ} (hx : 0 ≤ x) {r : ℤ} :
    roundAway x = r ↔ |x - r| ≤ 1 / 2 ∧ (|x - r| = 1 / 2 → |x| < |(r : ℚ)|) := by
  rw [roundAway_of_nonneg hx, Int.floor_eq_iff, abs_of_nonneg hx]
  constructor
  · rintro ⟨hlow, hhigh⟩
    refine ⟨abs_le.mpr ⟨by linarith, by linarith⟩, fun htie => ?_⟩
    rcases (abs_eq (by norm_num)).mp htie with h | h
    · linarith
    · exact lt_of_lt_of_le (by linarith) (le_abs_self _)
  · rintro ⟨hnear, htie⟩
    obtain ⟨hlow, hhigh⟩ := abs_le.mp hnear
    refine ⟨by linarith, lt_of_le_of_ne (by linarith) fun hhalf => ?_⟩
    -- half a unit above an integer that is not negative: this integer is nearer to zero
    have hr : (0 : ℚ) ≤ r := by
      have hlt : (-1 : ℤ) < r := by exact_mod_cast (by linarith : (-1 : ℚ) < r)
      exact_mod_cast Int.add_one_le_iff.mpr hlt
    have haway := htie (by rw [abs_of_nonneg] <;> linarith)
    rw [abs_of_nonneg hr] at haway
    linarith

/-- Rounding gives the only integer that is nearest, and of two that are equally near the one farther from zero. -/
theorem roundAway_eq_iff {x : ℚ} {r : ℤ} :
    roundAway x = r ↔ |x - r| ≤ 1 / 2 ∧ (|x - r| = 1 / 2 → |x| < |(r : ℚ)|) := by
  rcases le_total 0 x with hx | hx
  · exact roundAway_eq_iff_of_nonneg hx
  · have hsymm : |-x - ((-r : ℤ) : ℚ)| = |x - r| := by rw [Int.cast_neg, ← neg_sub', abs_neg]
    have hmirror := roundAway_eq_iff_of_nonneg (neg_nonneg.mpr hx) (r := -r)
    rwa [roundAway_neg, neg_inj, hsymm, abs_neg, Int.cast_neg, abs_neg] at hmirror

theorem abs_sub_roundAway_le (x : ℚ) : |x - roundAway x| ≤ 1 / 2 := (roundAway_eq_iff.mp rfl).1

theorem roundAway_mono {x y : ℚ} (hxy : x ≤ y) : roundAway x ≤ roundAway y := by
  rcases le_or_gt 0 x with hx | hx
  · rw [roundAway_of_nonneg hx, roundAway_of_nonneg (hx.trans hxy)]
    exact Int.floor_mono (by linarith)
  · have hx' : roundAway x = -⌊-x + 1 / 2⌋ := if_neg (not_le.mpr hx)
    rcases le_or_gt 0 y with hy | hy
    · -- the magnitudes are rounded to opposite sides of zero
      have hleft : 0 ≤ ⌊-x + 1 / 2⌋ := Int.floor_nonneg.mpr (by linarith)
      have hright : 0 ≤ ⌊y + 1 / 2⌋ := Int.floor_nonneg.mpr (by linarith)
      rw [hx', roundAway_of_nonneg hy]
      omega
    · have hy' : roundAway y = -⌊-y + 1 / 2⌋ := if_neg (not_le.mpr hy)
      rw [hx', hy']
      exact neg_le_neg (Int.floor_mono (by linarith))

theorem roundAway_intCast (n : ℤ) : roundAway n = n := by
  rw [roundAway_eq_iff, sub_self, abs_zero]
  norm_num

theorem roundAway_zero : roundAway 0 = 0 := by exact_mod_cast roundAway_intCast 0

/-- A magnitude with a sign. -/
def signed (negative : Bool) (x : ℚ) : ℚ := if negative then -x else x

theorem abs_signed (negative : Bool) (x : ℚ) : |signed negative x| = |x| := by
  cases negative with
  | false => rfl
  | true => exact abs_neg x

theorem signed_mul (negative : Bool) (x y : ℚ) : signed negative x * y = signed negative (x * y) := by
  cases negative with
  | false => rfl
  | true => exact neg_mul x y

theorem roundAway_signed (negative : Bool) (x : ℚ) :
    roundAway (signed negative x) = if negative then -roundAway x else roundAway x := by
  cases negative with
  | false => rfl
  | true => exact roundAway_neg x

theorem signed_intCast (negative : Bool) (n : ℤ) :
    signed negative n = ((if negative then -n else n : ℤ) : ℚ) := by
  cases negative with
  | false => rfl
  | true => exact (Int.cast_neg n).symm

namespace Binary64

/-! ### Numbers as rational numbers -/

/-- The rational number that a finite number is. -/
def value? : Binary64 → Option ℚ
  | nan => none
  | infinite _ => none
  | finite negative m e _ => some (signed negative (m * 2 ^ e))

section Finite

variable {negative : Bool} {m : Nat} {e : Int} {v : ℚ}

theorem value?_finite (hc : Canonical m e) : (finite negative m e hc).value? = some (signed negative (m * 2 ^ e)) :=
  rfl

theorem divNearestAway_eq_roundAway (n : Nat) {d : Nat} (hd : 0 < d) :
    (divNearestAway n d : ℤ) = roundAway ((n : ℚ) / d) := by
  have hd' : (d : ℚ) ≠ 0 := by exact_mod_cast hd.ne'
  have hsum : (n : ℚ) / d + 1 / 2 = ((2 * n + d : ℕ) : ℚ) / (2 * d : ℕ) := by
    push_cast
    field_simp
  rw [roundAway_of_nonneg (by positivity), hsum, Rat.floor_natCast_div_natCast, divNearestAway, Int.natCast_div]

/-- The rounded magnitude of a finite number. -/
theorem divNearestAway_magnitude (m : Nat) (e : Int) :
    (divNearestAway (scaleRatio m 1 (-e)).1 (scaleRatio m 1 (-e)).2 : ℤ) = roundAway (m * 2 ^ e) := by
  obtain ⟨hpos, hvalue⟩ := scaleRatio_eq m Nat.one_pos (-e)
  rw [divNearestAway_eq_roundAway _ hpos, hvalue, neg_neg, Nat.cast_one, div_one]

/-- The integer of a finite number is its value rounded. -/
theorem roundInt?_of_value? {x : Binary64} (h : x.value? = some v) : x.roundInt? = some (roundAway v) := by
  cases x with
  | nan => cases h
  | infinite negative => cases h
  | finite negative m e hc =>
    rw [value?_finite, Option.some.injEq] at h
    rw [← h, roundAway_signed, ← divNearestAway_magnitude, roundInt?]

/-! ### Scaling -/

theorem pack_of_large (negative : Bool) (m : Nat) (he : 971 < e) : pack negative m e = infinite negative :=
  dif_neg fun hc => absurd hc.2.2.1 (not_le.mpr he)

/-- A quotient from `2 ^ 1024` on rounds to an infinity. -/
theorem nearest_of_huge (negative : Bool) {n d : Nat} (hn : 0 < n) (hd : 0 < d) (h : (2 : ℚ) ^ (1024 : ℤ) ≤ n / d) :
    nearest negative n d = infinite negative := by
  obtain ⟨-, hhigh⟩ := binade_bounds hn hd
  have hbinade : 1024 < binade n d + 1 := (zpow_lt_zpow_iff_right₀ one_lt_two).mp (h.trans_lt hhigh)
  simp only [nearest, hn.ne', if_false]
  split
  · exact pack_of_large negative _ (by omega)
  · exact pack_of_large negative _ (by omega)

/-- A canonical form times a power of two has a canonical form again, or is too large for one. -/
theorem exists_canonical_or_huge (hc : Canonical m e) (hm : 0 < m) (k : Nat) :
    (∃ m' e', Canonical m' e' ∧ (m : ℚ) * 2 ^ (e + k) = m' * 2 ^ e') ∨ (2 : ℚ) ^ (1024 : ℤ) ≤ m * 2 ^ (e + k) := by
  obtain ⟨hlt, hmin, hmax, hnormal⟩ := hc
  have hlog : m.log2 < 53 := (Nat.log2_lt hm.ne').mpr hlt
  -- as many places as there is room for go to the significand, the others to the exponent
  obtain ⟨j, hj⟩ : ∃ j, j = min k (52 - m.log2) := ⟨_, rfl⟩
  have hvalue : (m : ℚ) * 2 ^ (e + k) = (m * 2 ^ j : ℕ) * 2 ^ (e + (k - j : ℕ)) := by
    have hexponent : e + k = j + (e + (k - j : ℕ)) := by omega
    push_cast
    rw [hexponent, zpow_add₀ two_ne_zero, zpow_natCast, mul_assoc]
  obtain ⟨hlow, hhigh⟩ := mul_two_pow_bounds hm j
  have hshort : m * 2 ^ j < 2 ^ 53 := hhigh.trans_le (Nat.pow_le_pow_right Nat.two_pos (by omega))
  by_cases hroom : e + (k - j : ℕ) ≤ 971
  · refine Or.inl ⟨m * 2 ^ j, e + (k - j : ℕ), ⟨hshort, by omega, hroom, ?_⟩, hvalue⟩
    by_cases hj' : m.log2 + j = 52
    · rw [hj'] at hlow
      exact Or.inl hlow
    · -- a significand with room to spare is that of a subnormal number, and stays one
      have hsubnormal : e = -1074 := by
        refine hnormal.resolve_left fun hle => ?_
        have := (Nat.le_log2 hm.ne').mpr hle
        omega
      exact Or.inr (by omega)
  · right
    have hfull : m.log2 + j = 52 := by omega
    rw [hfull] at hlow
    have hlow' : (2 : ℚ) ^ (52 : ℤ) ≤ (m * 2 ^ j : ℕ) := by exact_mod_cast hlow
    calc (2 : ℚ) ^ (1024 : ℤ) = 2 ^ (52 : ℤ) * 2 ^ (972 : ℤ) := by rw [← zpow_add₀ two_ne_zero]; rfl
      _ ≤ (m * 2 ^ j : ℕ) * 2 ^ (e + (k - j : ℕ)) :=
        mul_le_mul hlow' (zpow_le_zpow_right₀ one_le_two (by omega)) (by positivity) (by positivity)
      _ = m * 2 ^ (e + k) := hvalue.symm

/-- Scaling is exact, unless the product is at least `2 ^ 1024`: then it is the infinity of its sign. -/
theorem scale_of_value? {x : Binary64} (h : x.value? = some v) (k : Nat) :
    (x.scale k).value? = some (v * 2 ^ k) ∨
      (x.scale k = infinite (decide (v < 0)) ∧ (2 : ℚ) ^ (1024 : ℤ) ≤ |v * 2 ^ k|) := by
  cases x with
  | nan => cases h
  | infinite negative => cases h
  | finite negative m e hc =>
    rw [value?_finite, Option.some.injEq] at h
    subst h
    have hpow : signed negative (m * 2 ^ e) * 2 ^ k = signed negative (m * 2 ^ (e + k)) := by
      rw [signed_mul, mul_assoc, ← zpow_natCast (2 : ℚ) k, ← zpow_add₀ two_ne_zero]
    rw [hpow]
    rcases Nat.eq_zero_or_pos m with rfl | hm
    · left
      obtain rfl : e = -1074 := hc.2.2.2.resolve_left (by decide)
      have hzero := scale_zero negative k
      rw [zero] at hzero
      rw [hzero, value?_finite, Nat.cast_zero, zero_mul, zero_mul]
    · rcases exists_canonical_or_huge hc hm k with ⟨m', e', hc', hvalue⟩ | hhuge
      · left
        rw [scale_finite negative hc hc' k hm hvalue, value?_finite, hvalue]
      · right
        have hpositive : (0 : ℚ) < m * 2 ^ e := by positivity
        obtain ⟨hd, hvalue⟩ := scaleRatio_eq m Nat.one_pos (-(e + k))
        rw [neg_neg, Nat.cast_one, div_one] at hvalue
        have hn : 0 < (scaleRatio m 1 (-(e + k))).1 := by
          refine Nat.pos_of_ne_zero fun hzero => ?_
          rw [hzero, Nat.cast_zero, zero_div] at hvalue
          exact absurd (hvalue ▸ hhuge) (not_le.mpr (by positivity))
        have hsign : decide (signed negative (m * 2 ^ e) < 0) = negative := by
          cases negative with
          | false => exact decide_eq_false (not_lt.mpr hpositive.le)
          | true => exact decide_eq_true (neg_lt_zero.mpr hpositive)
        rw [hsign, abs_signed, abs_of_nonneg (by positivity)]
        exact ⟨nearest_of_huge negative hn hd (hvalue ▸ hhuge), hhuge⟩

/-! ### Rounding -/

/-- The rounded magnitude of a finite number has a canonical form. -/
theorem exists_canonical_roundAway (hc : Canonical m e) {n : Nat} (hn : 0 < n)
    (hround : (n : ℤ) = roundAway (m * 2 ^ e)) : ∃ m' e', Canonical m' e' ∧ (m' : ℚ) * 2 ^ e' = n := by
  rcases le_or_gt 0 e with he | he
  · -- an integer is its own rounded value
    have hinteger : (m : ℚ) * 2 ^ e = ((m * 2 ^ e.toNat : ℤ) : ℚ) := by
      push_cast
      rw [← zpow_natCast, Int.toNat_of_nonneg he]
    rw [hinteger, roundAway_intCast] at hround
    exact ⟨m, e, hc, by rw [hinteger, ← hround, Int.cast_natCast]⟩
  · -- a number with places behind the point is not made larger than its significand
    have hless : (m : ℚ) * 2 ^ e ≤ m :=
      mul_le_of_le_one_right (Nat.cast_nonneg m) (zpow_le_one_of_nonpos₀ one_le_two he.le)
    have hnear := (abs_le.mp (abs_sub_roundAway_le ((m : ℚ) * 2 ^ e))).1
    rw [← hround, Int.cast_natCast] at hnear
    have hlt : n < m + 1 := by exact_mod_cast (by linarith : (n : ℚ) < m + 1)
    obtain ⟨m', e', hc', -, hvalue⟩ :=
      exists_canonical hn ((Nat.le_of_lt_succ hlt).trans hc.1.le) (k := 0) (by decide) (by decide)
    exact ⟨m', e', hc', by rw [hvalue, zpow_zero, mul_one]⟩

/-- The number nearest to the rounded magnitude of a finite number is this integer. -/
theorem nearest_magnitude (negative : Bool) (hc : Canonical m e) :
    (nearest negative (divNearestAway (scaleRatio m 1 (-e)).1 (scaleRatio m 1 (-e)).2) 1).value? =
      some (signed negative (roundAway (m * 2 ^ e))) := by
  have hround := divNearestAway_magnitude m e
  rw [← hround, Int.cast_natCast]
  generalize divNearestAway (scaleRatio m 1 (-e)).1 (scaleRatio m 1 (-e)).2 = n at hround ⊢
  rcases Nat.eq_zero_or_pos n with rfl | hn
  · rw [nearest, if_pos rfl, zero, value?_finite, Nat.cast_zero, zero_mul]
  · obtain ⟨m', e', hc', hvalue⟩ := exists_canonical_roundAway hc hn hround
    rw [nearest_eq_finite negative hn Nat.one_pos hc' (by rw [hvalue, Nat.cast_one, div_one]), value?_finite, hvalue]

/-- Rounding to an integer is exact. -/
theorem value?_round {x : Binary64} (h : x.value? = some v) : x.round.value? = some (roundAway v : ℚ) := by
  cases x with
  | nan => cases h
  | infinite negative => cases h
  | finite negative m e hc =>
    rw [value?_finite, Option.some.injEq] at h
    rw [← h, roundAway_signed, ← signed_intCast]
    exact nearest_magnitude negative hc

end Finite

end Binary64

namespace QFormat

variable {f : QFormat} {v : Binary64} {x : ℚ}

/-- The range of a format in numbers. -/
theorem contains_iff_pow {q : Int} :
    f.contains q = true ↔ -2 ^ (f.totalBits - 1) ≤ q ∧ q ≤ 2 ^ (f.totalBits - 1) - 1 := by
  rw [contains_iff, minInt, maxInt, twoPow_eq]
  push_cast
  rfl

/-- No format stores an integer near a number of `2 ^ 1024` or more. -/
theorem not_contains_roundAway_of_huge (h : (2 : ℚ) ^ (1024 : ℤ) ≤ |x|) : f.contains (roundAway x) = false := by
  refine Bool.eq_false_iff.mpr fun hcontains => ?_
  have hword : |(roundAway x : ℚ)| ≤ 2 ^ 63 := by
    have hle := natAbs_le_word hcontains
    have hcast : ((roundAway x).natAbs : ℚ) ≤ 2 ^ 63 := by exact_mod_cast hle
    rwa [Nat.cast_natAbs, Int.cast_abs] at hcast
  have hsmall : |x| < 2 ^ (64 : ℤ) := by
    calc |x| ≤ |x - roundAway x| + |(roundAway x : ℚ)| := by
          have := abs_sub_abs_le_abs_sub x (roundAway x)
          linarith
      _ ≤ 1 / 2 + 2 ^ 63 := add_le_add (abs_sub_roundAway_le x) hword
      _ < 2 ^ (64 : ℤ) := by norm_num
  exact absurd (h.trans_lt hsmall) (not_lt.mpr (zpow_le_zpow_right₀ one_le_two (by decide)))

/-- The stored integer of a number, in exact arithmetic. -/
theorem quantize_of_value? (h : v.value? = some x) :
    f.quantize v = if f.contains (roundAway (x * 2 ^ f.fracBits)) then .ok (roundAway (x * 2 ^ f.fracBits))
      else .error (.outOfRange v (f.scaled v) f.minInt f.maxInt) := by
  rcases Binary64.scale_of_value? h f.fracBits with hscaled | ⟨hinfinite, hhuge⟩
  · rw [quantize, Binary64.roundInt?_of_value? hscaled]
  · rw [quantize, hinfinite, not_contains_roundAway_of_huge hhuge, Binary64.roundInt?]
    rfl

/-- The rounded number of a stored one is its stored integer. -/
theorem value?_scaled_of_quantize {q : Int} (h : f.quantize v = .ok q) : (f.scaled v).value? = some (q : ℚ) := by
  have hround := (quantize_eq_ok_iff.mp h).1
  cases hvalue : (v.scale f.fracBits).value? with
  | none =>
    cases hscaled : v.scale f.fracBits with
    | nan => rw [hscaled] at hround; cases hround
    | infinite negative => rw [hscaled] at hround; cases hround
    | finite negative m e hc => rw [hscaled] at hvalue; cases hvalue
  | some y =>
    rw [Binary64.roundInt?_of_value? hvalue, Option.some.injEq] at hround
    rw [scaled, Binary64.value?_round hvalue, hround]

/-- **Quantization is exact.** A finite number is stored as its rational value times the unit of the format, rounded
to the nearest integer, ties away from zero, if this integer is in the range of the format; it is out of range
otherwise, and so is what is no finite number. The number that was compared with the range is that integer. -/
theorem quantize_eq_roundAway (f : QFormat) (v : Binary64) :
    (∀ x, v.value? = some x →
      f.quantize v =
        if -2 ^ (f.totalBits - 1) ≤ roundAway (x * 2 ^ f.fracBits) ∧
            roundAway (x * 2 ^ f.fracBits) ≤ 2 ^ (f.totalBits - 1) - 1 then
          .ok (roundAway (x * 2 ^ f.fracBits))
        else .error (.outOfRange v (f.scaled v) f.minInt f.maxInt)) ∧
    (v.value? = none → f.quantize v = .error (.outOfRange v (f.scaled v) f.minInt f.maxInt)) ∧
    ∀ q, f.quantize v = .ok q → (f.scaled v).value? = some (q : ℚ) := by
  refine ⟨fun x hx => ?_, fun hnone => ?_, fun q hq => value?_scaled_of_quantize hq⟩
  · rw [quantize_of_value? hx]
    simp only [contains_iff_pow]
  · cases v with
    | nan => rfl
    | infinite negative => rfl
    | finite negative m e hc => cases hnone

/-- The greatest number below a half is stored as zero: no half is added to it in floating-point arithmetic. -/
theorem quantize_below_half :
    (QFormat.mk 8 0 (by decide) (by decide) (by decide)).quantize
      (.finite false (2 ^ 53 - 1) (-54) (by decide)) = .ok 0 := by
  have hround : roundAway (signed false ((2 ^ 53 - 1 : ℕ) * 2 ^ (-54 : ℤ)) * 2 ^ 0) = 0 := by
    rw [roundAway_eq_iff]
    norm_num [signed, abs_of_nonneg]
  rw [(quantize_eq_roundAway _ _).1 _ rfl, hround, if_pos (by decide)]

end QFormat

end QuantNet
