import Mathlib.Algebra.Order.Field.Power
import Mathlib.Data.Nat.Log
import Mathlib.Tactic.FieldSimp
import Mathlib.Tactic.Linarith
import Mathlib.Tactic.NormNum
import Mathlib.Tactic.Positivity
import Mathlib.Tactic.Ring
import QuantNet.Proofs.Quantization

/-!
# Numbers that are not rounded

Rounding a quotient that the format holds gives exactly this quotient. The exponent that `nearest`
chooses is the only one with which a quotient has a canonical significand, because a binade is
determined by any number in it (`binade_eq`); with this exponent the division leaves no remainder
(`nearest_eq_finite`).

An integer of at most 53 significant bits keeps such a significand under every moderate power of two
(`exists_canonical`), so it comes back unchanged from the number it means (`quantize_toRational_of_isShort`).
All stored integers of a format with at most 54 bits are of this kind (`quantize_toRational`), and so is
in every format the integer that a number is rounded to (`isShort_of_roundInt?`). The other integers of a
wide format are rounded when they are turned into numbers, but only once: the number is that of an
integer again (`toRational_of_quantize`).
-/

namespace QuantNet

namespace Binary64

/-! ### Scaled quotients -/

/-- The quotient that `scaleRatio` gives. -/
theorem scaleRatio_eq (n : Nat) {d : Nat} (hd : 0 < d) (e : Int) :
    0 < (scaleRatio n d e).2 ∧
      ((scaleRatio n d e).1 : ℚ) / (scaleRatio n d e).2 = (n : ℚ) / d * 2 ^ (-e) := by
  unfold scaleRatio
  split
  case isTrue hneg =>
    have hpow : (2 : ℚ) ^ (-e) = 2 ^ (-e).toNat := by
      rw [← zpow_natCast, Int.toNat_of_nonneg (by omega)]
    refine ⟨hd, ?_⟩
    rw [hpow, twoPow_eq]
    push_cast
    ring
  case isFalse hnonneg =>
    have hpow : (2 : ℚ) ^ (-e) = (2 ^ e.toNat)⁻¹ := by
      rw [zpow_neg, ← zpow_natCast, Int.toNat_of_nonneg (by omega)]
    refine ⟨Nat.mul_pos hd (Nat.two_pow_pos _), ?_⟩
    rw [hpow, twoPow_eq]
    push_cast
    rw [div_mul_eq_div_div, div_eq_mul_inv (_ / _)]

/-- A quotient that is an integer has this integer as numerator, up to the denominator. -/
theorem scaleRatio_fst_eq (n : Nat) {d : Nat} (hd : 0 < d) {e : Int} {m : Nat}
    (h : (n : ℚ) / d * 2 ^ (-e) = m) : (scaleRatio n d e).1 = m * (scaleRatio n d e).2 := by
  obtain ⟨hpos, heq⟩ := scaleRatio_eq n hd e
  rw [h, div_eq_iff (by exact_mod_cast hpos.ne')] at heq
  exact_mod_cast heq

theorem divNearestEven_mul (m : Nat) {d : Nat} (hd : 0 < d) : divNearestEven (m * d) d = m := by
  simp [divNearestEven, Nat.mul_div_cancel m hd, hd]

theorem divNearestAway_mul (m : Nat) {d : Nat} (hd : 0 < d) : divNearestAway (m * d) d = m := by
  have hsum : 2 * (m * d) + d = d + m * (2 * d) := by ring
  rw [divNearestAway, hsum, Nat.add_mul_div_right _ _ (by omega), Nat.div_eq_of_lt (by omega), Nat.zero_add]

/-! ### Binades -/

/-- A power of two and its double enclose a positive natural number. -/
theorem two_zpow_log2_le {n : Nat} (hn : 0 < n) :
    (2 : ℚ) ^ (n.log2 : Int) ≤ n ∧ (n : ℚ) < 2 ^ ((n.log2 : Int) + 1) := by
  refine ⟨?_, ?_⟩
  · exact_mod_cast Nat.log2_self_le hn.ne'
  · exact_mod_cast Nat.lt_log2_self (n := n)

/-- The first guess of the binade is right or one too large. -/
theorem guess_bounds {n d : Nat} (hn : 0 < n) (hd : 0 < d) :
    (2 : ℚ) ^ ((n.log2 : Int) - d.log2 - 1) < (n : ℚ) / d ∧
      (n : ℚ) / d < 2 ^ ((n.log2 : Int) - d.log2 + 1) := by
  obtain ⟨hnlow, hnhigh⟩ := two_zpow_log2_le hn
  obtain ⟨hdlow, hdhigh⟩ := two_zpow_log2_le hd
  have hd' : (0 : ℚ) < d := by exact_mod_cast hd
  refine ⟨?_, ?_⟩
  · rw [lt_div_iff₀ hd']
    calc (2 : ℚ) ^ ((n.log2 : Int) - d.log2 - 1) * d
        < 2 ^ ((n.log2 : Int) - d.log2 - 1) * 2 ^ ((d.log2 : Int) + 1) :=
          mul_lt_mul_of_pos_left hdhigh (by positivity)
      _ = 2 ^ (n.log2 : Int) := by
          rw [← zpow_add₀ two_ne_zero]
          congr 1
          ring
      _ ≤ n := hnlow
  · rw [div_lt_iff₀ hd']
    calc (n : ℚ) < 2 ^ ((n.log2 : Int) + 1) := hnhigh
      _ = 2 ^ ((n.log2 : Int) - d.log2 + 1) * 2 ^ (d.log2 : Int) := by
          rw [← zpow_add₀ two_ne_zero]
          congr 1
          ring
      _ ≤ 2 ^ ((n.log2 : Int) - d.log2 + 1) * d := mul_le_mul_of_nonneg_left hdlow (by positivity)

/-- The binade of a quotient holds the quotient. -/
theorem binade_bounds {n d : Nat} (hn : 0 < n) (hd : 0 < d) :
    (2 : ℚ) ^ binade n d ≤ (n : ℚ) / d ∧ (n : ℚ) / d < 2 ^ (binade n d + 1) := by
  obtain ⟨hlow, hhigh⟩ := guess_bounds hn hd
  obtain ⟨hpos, heq⟩ := scaleRatio_eq n hd ((n.log2 : Int) - d.log2)
  have hpos' : (0 : ℚ) < (scaleRatio n d ((n.log2 : Int) - d.log2)).2 := by exact_mod_cast hpos
  -- the comparison of the parts is that of the quotient with the guessed power
  have hcompare : (scaleRatio n d ((n.log2 : Int) - d.log2)).2 ≤ (scaleRatio n d ((n.log2 : Int) - d.log2)).1 ↔
      (2 : ℚ) ^ ((n.log2 : Int) - d.log2) ≤ (n : ℚ) / d := by
    rw [← Nat.cast_le (α := ℚ), ← one_le_div hpos', heq, zpow_neg, ← div_eq_mul_inv, one_le_div (by positivity)]
  unfold binade
  simp only
  split
  case isTrue h => exact ⟨hcompare.mp h, hhigh⟩
  case isFalse h =>
    refine ⟨hlow.le, ?_⟩
    rw [sub_add_cancel]
    exact not_le.mp fun hle => h (hcompare.mpr hle)

/-- A number lies in one binade only. -/
theorem binade_eq {n d : Nat} (hn : 0 < n) (hd : 0 < d) {e : Int} (hlow : (2 : ℚ) ^ e ≤ (n : ℚ) / d)
    (hhigh : (n : ℚ) / d < 2 ^ (e + 1)) : binade n d = e := by
  obtain ⟨hlow', hhigh'⟩ := binade_bounds hn hd
  have hle : binade n d < e + 1 := (zpow_lt_zpow_iff_right₀ one_lt_two).mp (hlow'.trans_lt hhigh)
  have hge : e < binade n d + 1 := (zpow_lt_zpow_iff_right₀ one_lt_two).mp (hlow.trans_lt hhigh')
  omega

/-! ### Exact results -/

section Exact

variable {m : Nat} {e : Int}

/-- The exponent of a canonical form is the one that rounding chooses. -/
theorem max_binade_eq {n d : Nat} (hn : 0 < n) (hd : 0 < d) (hc : Canonical m e)
    (h : (n : ℚ) / d = m * 2 ^ e) : max (-1074) (binade n d - 52) = e := by
  obtain ⟨hlt, hmin, -, hnormal⟩ := hc
  have hpow : (0 : ℚ) < 2 ^ e := by positivity
  have hlt' : (m : ℚ) < 2 ^ (53 : Int) := by exact_mod_cast hlt
  rcases hnormal with hnormal | hsubnormal
  · -- a significand with all 53 bits fixes the binade
    have hnormal' : (2 : ℚ) ^ (52 : Int) ≤ m := by exact_mod_cast hnormal
    have hbinade : binade n d = 52 + e := by
      refine binade_eq hn hd ?_ ?_
      · rw [h, zpow_add₀ two_ne_zero]
        exact mul_le_mul_of_nonneg_right hnormal' hpow.le
      · rw [h, show 52 + e + 1 = 53 + e by ring, zpow_add₀ two_ne_zero]
        exact mul_lt_mul_of_pos_right hlt' hpow
    omega
  · -- fewer bits lie below the smallest normal binade
    obtain ⟨hlow, -⟩ := binade_bounds hn hd
    have hbinade : binade n d < 53 + e := by
      refine (zpow_lt_zpow_iff_right₀ (one_lt_two (α := ℚ))).mp (hlow.trans_lt ?_)
      rw [h, zpow_add₀ two_ne_zero]
      exact mul_lt_mul_of_pos_right hlt' hpow
    omega

/-- A quotient that the format holds is not rounded. -/
theorem nearest_eq_finite (negative : Bool) {n d : Nat} (hn : 0 < n) (hd : 0 < d) (hc : Canonical m e)
    (h : (n : ℚ) / d = m * 2 ^ e) : nearest negative n d = finite negative m e hc := by
  have hexact : (n : ℚ) / d * 2 ^ (-e) = m := by
    rw [h, mul_assoc, ← zpow_add₀ two_ne_zero, add_neg_cancel, zpow_zero, mul_one]
  have hparts : (scaleRatio n d e).1 = m * (scaleRatio n d e).2 := scaleRatio_fst_eq n hd hexact
  have hpos : 0 < (scaleRatio n d e).2 := (scaleRatio_eq n hd e).1
  have hne : m ≠ twoPow 53 := hc.1.ne
  unfold nearest
  simp only [hn.ne', if_false, max_binade_eq hn hd hc h, hparts, divNearestEven_mul m hpos, if_neg hne]
  exact dif_pos hc

/-- A number that is a natural number rounds to it. -/
theorem roundInt?_finite (negative : Bool) (hc : Canonical m e) {n : Nat} (h : (m : ℚ) * 2 ^ e = n) :
    (finite negative m e hc).roundInt? = some (if negative then -(n : Int) else n) := by
  have hexact : (m : ℚ) / (1 : Nat) * 2 ^ (-(-e)) = n := by simpa using h
  have hparts := scaleRatio_fst_eq m Nat.one_pos hexact
  have hpos : 0 < (scaleRatio m 1 (-e)).2 := (scaleRatio_eq m Nat.one_pos (-e)).1
  simp only [roundInt?, hparts, divNearestAway_mul n hpos]

/-- A scaled number that the format holds is not rounded. -/
theorem scale_finite (negative : Bool) (hc : Canonical m e) {m' : Nat} {e' : Int} (hc' : Canonical m' e') (k : Nat)
    (hm : 0 < m) (h : (m : ℚ) * 2 ^ (e + k) = m' * 2 ^ e') :
    (finite negative m e hc).scale k = finite negative m' e' hc' := by
  obtain ⟨hpos, heq⟩ := scaleRatio_eq m Nat.one_pos (-(e + k))
  rw [neg_neg, Nat.cast_one, div_one, h] at heq
  have hn : 0 < (scaleRatio m 1 (-(e + k))).1 := by
    rw [Nat.pos_iff_ne_zero]
    intro hzero
    rw [hzero, Nat.cast_zero, zero_div, ← h] at heq
    have : (0 : ℚ) < m * 2 ^ (e + k) := by positivity
    exact this.ne heq
  exact nearest_eq_finite negative hn hpos hc' heq

theorem scale_zero (negative : Bool) (k : Nat) : (zero negative).scale k = zero negative := by
  have hzero : (scaleRatio 0 1 (-(-1074 + (k : Int)))).1 = 0 := by
    unfold scaleRatio
    split
    · exact Nat.zero_mul _
    · rfl
  simp only [zero, scale, nearest, hzero, if_true]

theorem roundInt?_zero (negative : Bool) : (zero negative).roundInt? = some 0 := by
  rw [zero, roundInt?_finite negative _ (n := 0) (by simp)]
  simp

/-- The bits of a number that was moved up. -/
theorem mul_two_pow_bounds {n : Nat} (hn : 0 < n) (j : Nat) :
    2 ^ (n.log2 + j) ≤ n * 2 ^ j ∧ n * 2 ^ j < 2 ^ (n.log2 + 1 + j) := by
  rw [Nat.pow_add, Nat.pow_add _ (n.log2 + 1)]
  exact ⟨Nat.mul_le_mul_right _ (Nat.log2_self_le hn.ne'),
    Nat.mul_lt_mul_of_pos_right Nat.lt_log2_self (Nat.two_pow_pos _)⟩

/-- A natural number of at most 53 bits, or the next one, has a canonical form under a moderate power of two. -/
theorem exists_canonical {n : Nat} (hn : 0 < n) (hle : n ≤ 2 ^ 53) {k : Int} (hlow : -1022 ≤ k) (hhigh : k ≤ 900) :
    ∃ m e, Canonical m e ∧ 0 < m ∧ (m : ℚ) * 2 ^ e = n * 2 ^ k := by
  rcases Nat.lt_or_eq_of_le hle with hlt | rfl
  · -- shift the highest bit to its place
    have hlog : n.log2 < 53 := (Nat.log2_lt hn.ne').mpr hlt
    obtain ⟨hmlow, hmhigh⟩ := mul_two_pow_bounds hn (52 - n.log2)
    rw [show n.log2 + (52 - n.log2) = 52 by omega] at hmlow
    rw [show n.log2 + 1 + (52 - n.log2) = 53 by omega] at hmhigh
    refine ⟨n * 2 ^ (52 - n.log2), k - (52 - n.log2 : Nat), ⟨hmhigh, by omega, by omega, Or.inl hmlow⟩, by omega, ?_⟩
    push_cast
    rw [mul_assoc, ← zpow_natCast (2 : ℚ), ← zpow_add₀ two_ne_zero, add_sub_cancel]
  · refine ⟨2 ^ 52, k + 1, ⟨by decide, by omega, by omega, Or.inl (by decide)⟩, by decide, ?_⟩
    push_cast
    rw [zpow_add₀ two_ne_zero, zpow_one]
    ring

end Exact

/-! ### Short numbers -/

theorem natAbs_withSign (negative : Bool) (n : Nat) : (if negative then -(n : Int) else n).natAbs = n := by
  cases negative <;> simp

/-- A natural number with at most 53 significant bits. -/
def IsShort (n : Nat) : Prop := ∃ m j, m ≤ 2 ^ 53 ∧ n = m * 2 ^ j

/-- The integer that a number is rounded to has no more significant bits than the number. -/
theorem isShort_of_roundInt? {x : Binary64} {q : Int} (h : x.roundInt? = some q) : IsShort q.natAbs := by
  cases x with
  | nan => cases h
  | infinite negative => cases h
  | finite negative m e hc =>
    have hm : m ≤ 2 ^ 53 := hc.1.le
    have hnatAbs : q.natAbs = divNearestAway (scaleRatio m 1 (-e)).1 (scaleRatio m 1 (-e)).2 := by
      rw [← Option.some.inj h]
      exact natAbs_withSign negative _
    rw [hnatAbs]
    by_cases he : -e < 0
    · -- a number without places behind the point is an integer already
      have hexact := divNearestAway_mul (m * 2 ^ e.toNat) Nat.one_pos
      rw [Nat.mul_one] at hexact
      refine ⟨m, e.toNat, hm, ?_⟩
      rw [scaleRatio, if_pos he, neg_neg]
      exact hexact
    · -- a number with places behind the point is not made larger than its significand
      have hplaces : 0 < twoPow (-e).toNat := Nat.two_pow_pos _
      have hlt : divNearestAway m (1 * twoPow (-e).toNat) < m + 1 := by
        rw [divNearestAway, Nat.one_mul, Nat.div_lt_iff_lt_mul (by omega)]
        nlinarith
      rw [scaleRatio, if_neg he]
      exact ⟨_, 0, (Nat.le_of_lt_succ hlt).trans hm, (Nat.mul_one _).symm⟩

/-- The exponent of a rounded quotient is that of its binade, or the next one. -/
theorem of_nearest_eq_finite {negative negative' : Bool} {n d m : Nat} {e : Int} {hc : Canonical m e} (hn : 0 < n)
    (h : nearest negative n d = finite negative' m e hc) :
    negative' = negative ∧ binade n d - 52 ≤ e ∧ e ≤ max (-1074) (binade n d - 52) + 1 := by
  unfold nearest at h
  simp only [hn.ne', if_false] at h
  have hpack : ∀ {m' : Nat} {e' : Int}, pack negative m' e' = finite negative' m e hc →
      negative' = negative ∧ e = e' := by
    intro m' e' hpack
    unfold pack at hpack
    split at hpack
    · cases hpack
      exact ⟨rfl, rfl⟩
    · cases hpack
  split at h
  · obtain ⟨hsign, rfl⟩ := hpack h
    exact ⟨hsign, by omega, by omega⟩
  · obtain ⟨hsign, rfl⟩ := hpack h
    exact ⟨hsign, by omega, by omega⟩

end Binary64

namespace QFormat

variable {f : QFormat} {q : Int}

theorem cast_unit (f : QFormat) : ((f.unit : ℕ) : ℚ) = 2 ^ f.fracBits := by simp [unit, twoPow_eq]

/-- The number that a stored integer of at most 53 significant bits means has this stored integer. -/
theorem quantize_toRational_of_isShort (hshort : Binary64.IsShort q.natAbs) (hq : f.contains q = true) :
    f.quantize (f.toRational q) = .ok q := by
  refine quantize_eq_ok_iff.mpr ⟨?_, hq⟩
  obtain ⟨n, j, hn, hnatAbs⟩ := hshort
  have hfrac : f.fracBits < 64 := f.frac_lt.trans_le f.total_le
  rcases Nat.eq_zero_or_pos q.natAbs with hzero | hpos
  · obtain rfl : q = 0 := Int.natAbs_eq_zero.mp hzero
    have hvalue : f.toRational 0 = .zero false := rfl
    rw [hvalue, Binary64.scale_zero, Binary64.roundInt?_zero]
  · have hn0 : 0 < n := Nat.pos_of_mul_pos_right (hnatAbs ▸ hpos)
    have hj : j ≤ 63 := by
      have hle : 2 ^ j ≤ 2 ^ 63 := by
        calc 2 ^ j ≤ n * 2 ^ j := Nat.le_mul_of_pos_left _ hn0
          _ = q.natAbs := hnatAbs.symm
          _ ≤ 2 ^ 63 := natAbs_le_word hq
      exact (Nat.pow_le_pow_iff_right (by decide)).mp hle
    obtain ⟨m, e, hc, hm, hvalue⟩ := Binary64.exists_canonical hn0 hn (k := j - f.fracBits) (by omega) (by omega)
    obtain ⟨m', e', hc', -, hvalue'⟩ := Binary64.exists_canonical hn0 hn (k := j) (by omega) (by omega)
    have hnumber : ((q.natAbs : ℕ) : ℚ) = n * 2 ^ (j : Int) := by
      rw [hnatAbs]
      push_cast
      rfl
    have hnearest : f.toRational q = .finite (decide (q < 0)) m e hc := by
      refine Binary64.nearest_eq_finite _ hpos (d := f.unit) (Nat.two_pow_pos _) hc ?_
      rw [hvalue, hnumber, f.cast_unit, zpow_sub₀ two_ne_zero, mul_div_assoc, zpow_natCast 2 f.fracBits]
    have hscale : (f.toRational q).scale f.fracBits = .finite (decide (q < 0)) m' e' hc' := by
      rw [hnearest]
      refine Binary64.scale_finite _ hc hc' _ hm ?_
      rw [zpow_add₀ two_ne_zero, ← mul_assoc, hvalue, hvalue', mul_assoc, ← zpow_add₀ two_ne_zero, sub_add_cancel]
    rw [hscale, Binary64.roundInt?_finite _ hc' (n := q.natAbs) (by rw [hvalue', hnumber])]
    congr 1
    by_cases hneg : q < 0
    · simp only [hneg, decide_true, if_true]
      omega
    · simp only [hneg, decide_false, Bool.false_eq_true, if_false]
      omega

/-- The number that a stored integer means has this stored integer, if 54 bits are enough. -/
theorem quantize_toRational (hbits : f.totalBits ≤ 54) (hq : f.contains q = true) :
    f.quantize (f.toRational q) = .ok q := by
  have hrange : q.natAbs ≤ 2 ^ 53 := by
    have hpow : 2 ^ (f.totalBits - 1) ≤ 2 ^ 53 := Nat.pow_le_pow_right Nat.two_pos (by omega)
    have hrange := contains_iff.mp hq
    simp only [minInt, maxInt, twoPow_eq] at hrange
    omega
  exact quantize_toRational_of_isShort ⟨q.natAbs, 0, hrange, by rw [Nat.pow_zero, Nat.mul_one]⟩ hq

/-- A stored integer of more than 53 bits means a number whose last place is worth a unit of the format or more. -/
theorem binade_bounds_of_wide (f : QFormat) {n : Nat} (hlow : ¬ n ≤ 2 ^ 53) (hhigh : n ≤ 2 ^ 63) :
    53 - (f.fracBits : Int) ≤ Binary64.binade n f.unit ∧ Binary64.binade n f.unit ≤ 63 := by
  have hunit : 0 < f.unit := Nat.two_pow_pos _
  obtain ⟨hbelow, habove⟩ := Binary64.binade_bounds (by omega : 0 < n) hunit
  have hunit' : (0 : ℚ) < f.unit := by exact_mod_cast hunit
  refine ⟨?_, ?_⟩
  · have hlarge : (2 : ℚ) ^ (53 - (f.fracBits : Int)) < 2 ^ (Binary64.binade n f.unit + 1) := by
      refine lt_trans ?_ habove
      rw [lt_div_iff₀ hunit', f.cast_unit, ← zpow_natCast, ← zpow_add₀ two_ne_zero, sub_add_cancel]
      exact_mod_cast not_le.mp hlow
    have := (zpow_lt_zpow_iff_right₀ one_lt_two).mp hlarge
    omega
  · have hsmall : (2 : ℚ) ^ Binary64.binade n f.unit ≤ 2 ^ (63 : Int) := by
      refine hbelow.trans ((div_le_self (Nat.cast_nonneg n) ?_).trans ?_)
      · exact_mod_cast hunit
      · exact_mod_cast hhigh
    exact (zpow_le_zpow_iff_right₀ one_lt_two).mp hsmall

/-- The number that a stored integer means is that of its own stored integer, if it has one. -/
theorem toRational_of_quantize {r : Int} (hq : f.contains q = true) (h : f.quantize (f.toRational q) = .ok r) :
    f.toRational r = f.toRational q := by
  have hfrac : f.fracBits < 64 := f.frac_lt.trans_le f.total_le
  have hmax := natAbs_le_word hq
  by_cases hsmall : q.natAbs ≤ 2 ^ 53
  · rw [quantize_toRational_of_isShort ⟨q.natAbs, 0, hsmall, by rw [Nat.pow_zero, Nat.mul_one]⟩ hq] at h
    rw [Except.ok.inj h]
  · -- the last place of the number is worth at least one unit of the format, so the number is an integer
    have hround := (quantize_eq_ok_iff.mp h).1
    have hpos : 0 < q.natAbs := by omega
    have hunit : 0 < f.unit := Nat.two_pow_pos _
    obtain ⟨hlow, hhigh⟩ := f.binade_bounds_of_wide hsmall hmax
    cases hvalue : f.toRational q with
    | nan => rw [hvalue] at hround; cases hround
    | infinite negative => rw [hvalue] at hround; cases hround
    | finite negative m e hc =>
      obtain ⟨rfl, he, he'⟩ := Binary64.of_nearest_eq_finite hpos hvalue
      have hm : 0 < m := by
        have hnormal := hc.2.2.2.resolve_right (by omega)
        exact Nat.lt_of_lt_of_le (Nat.two_pow_pos 52) hnormal
      have hinteger : (m : ℚ) * 2 ^ (e + f.fracBits) = (m * 2 ^ (e + f.fracBits).toNat : ℕ) := by
        push_cast
        rw [← zpow_natCast, Int.toNat_of_nonneg (by omega)]
      obtain ⟨m', e', hc', -, hvalue'⟩ :=
        Binary64.exists_canonical hm hc.1.le (k := e + f.fracBits) (by omega) (by omega)
      rw [hvalue, Binary64.scale_finite _ hc hc' _ hm hvalue'.symm,
        Binary64.roundInt?_finite _ hc' (hvalue'.trans hinteger), Option.some.injEq] at hround
      have hnatAbs : r.natAbs = m * 2 ^ (e + f.fracBits).toNat := by
        rw [← hround, Binary64.natAbs_withSign]
      have hsign : decide (r < 0) = decide (q < 0) := by
        have hnumber : 0 < m * 2 ^ (e + f.fracBits).toNat := Nat.mul_pos hm (Nat.two_pow_pos _)
        rw [← hround]
        by_cases hneg : q < 0
        · simp only [hneg, decide_true, if_true, decide_eq_true_eq]
          omega
        · simp only [hneg, decide_false, Bool.false_eq_true, if_false, decide_eq_false_iff_not]
          omega
      rw [toRational, Binary64.ofQuotient, hsign, hnatAbs]
      refine Binary64.nearest_eq_finite _ (Nat.mul_pos hm (Nat.two_pow_pos _)) hunit hc ?_
      rw [← hinteger, f.cast_unit, zpow_add₀ two_ne_zero, zpow_natCast, ← mul_assoc, mul_div_assoc,
        div_self (by positivity), mul_one]

end QFormat

end QuantNet
