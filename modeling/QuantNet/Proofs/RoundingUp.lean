import QuantNet.Proofs.ExactRounding

/-!
# Rounding up to a power of two

A number of `k` ones, `2 ^ k - 1`, is a floating-point number if `k` is 53 at most. With more ones it has no
significand that is short enough (`Binary64.not_isShort_pred_two_pow`): it lies in the upper half of the last gap below
`2 ^ k`, or right in the middle, and is rounded to `2 ^ k`, under every power of two as scale
(`Binary64.nearest_pred_two_pow`).
-/

namespace QuantNet

namespace Binary64

/-- A quotient within half a unit of an even number is rounded to it, ties included. -/
theorem divNearestEven_eq_of_even {a b m : Nat} (hb : 0 < b) (heven : m % 2 = 0)
    (hlow : 2 * (m * b) ≤ 2 * a + b) (hhigh : 2 * a ≤ 2 * (m * b) + b) : divNearestEven a b = m := by
  have hsplit : a / b * b + a % b = a := Nat.div_add_mod' a b
  have hrest : a % b < b := Nat.mod_lt a hb
  have hle : a / b ≤ m := by
    have hlt : a < (m + 1) * b := by
      rw [Nat.add_mul]
      omega
    exact Nat.le_of_lt_succ ((Nat.div_lt_iff_lt_mul hb).mpr hlt)
  have hge : m ≤ a / b + 1 := by
    by_contra hfar
    have hmul : (a / b + 2) * b ≤ m * b := Nat.mul_le_mul_right b (by omega)
    rw [Nat.add_mul] at hmul
    omega
  simp only [divNearestEven]
  rcases Nat.lt_or_eq_of_le hle with hlt | heq
  · -- the quotient was rounded down to the odd number below
    have hm : m = a / b + 1 := by omega
    have hhalf : b ≤ 2 * (a % b) := by
      rw [hm, Nat.add_mul] at hlow
      omega
    rw [if_neg (by omega)]
    split <;> omega
  · have hhalf : 2 * (a % b) ≤ b := by
      rw [← heq] at hhigh
      omega
    rw [if_neg (show ¬ b < 2 * (a % b) by omega)]
    split <;> omega

/-- The power of two itself is a canonical number. -/
theorem canonical_two_pow {k j : Nat} (hk : k ≤ 63) (hj : j ≤ 63) : Canonical (2 ^ 52) ((k : Int) - j - 52) :=
  ⟨by decide, by omega, by omega, Or.inl (by decide)⟩

section Ones

variable {k : Nat} (j : Nat)

theorem pred_two_pow_pos (hlow : 54 ≤ k) : 0 < 2 ^ k - 1 := by
  have hone : 2 ^ 1 ≤ 2 ^ k := Nat.pow_le_pow_right Nat.two_pos (by omega)
  omega

theorem pred_two_pow_div : ((2 ^ k - 1 : Nat) : ℚ) / (2 ^ j : Nat) = (2 ^ (k : Int) - 1) * 2 ^ (-(j : Int)) := by
  rw [Nat.cast_sub (Nat.one_le_two_pow), zpow_neg, ← div_eq_mul_inv]
  push_cast
  rfl

/-- A number of `k` ones lies in the binade of its highest bit. -/
theorem binade_pred_two_pow (hlow : 54 ≤ k) : binade (2 ^ k - 1) (2 ^ j) = (k : Int) - j - 1 := by
  refine binade_eq (pred_two_pow_pos hlow) (Nat.two_pow_pos j) ?_ ?_
  · have hhalf : (2 : ℚ) ^ ((k : Int) - 1) ≤ 2 ^ (k : Int) - 1 := by
      have hdouble : (2 : ℚ) ^ (k : Int) = 2 ^ ((k : Int) - 1) * 2 := by
        rw [← zpow_add_one₀ two_ne_zero, sub_add_cancel]
      have hbig : (1 : ℚ) ≤ 2 ^ ((k : Int) - 1) := one_le_zpow₀ one_le_two (by omega)
      linarith
    rw [pred_two_pow_div, show (k : Int) - j - 1 = ((k : Int) - 1) + -(j : Int) by ring, zpow_add₀ two_ne_zero]
    exact mul_le_mul_of_nonneg_right hhalf (by positivity)
  · rw [pred_two_pow_div, show (k : Int) - j - 1 + 1 = (k : Int) + -(j : Int) by ring, zpow_add₀ two_ne_zero]
    exact mul_lt_mul_of_pos_right (by linarith) (by positivity)

/-- In units of the last place a number of 54 ones or more is `2 ^ 53`, less half a unit at most. -/
theorem divNearestEven_pred_two_pow (hlow : 54 ≤ k) {a b : Nat} (hb : 0 < b)
    (h : (a : ℚ) / b = ((2 ^ k - 1 : Nat) : ℚ) / (2 ^ j : Nat) * 2 ^ (-((k : Int) - j - 53))) :
    divNearestEven a b = twoPow 53 := by
  have hgap : (0 : ℚ) < 2 ^ (53 - (k : Int)) := by positivity
  have hsmall : (2 : ℚ) ^ (53 - (k : Int)) ≤ 1 / 2 := by
    calc (2 : ℚ) ^ (53 - (k : Int)) ≤ 2 ^ (-1 : Int) := zpow_le_zpow_right₀ one_le_two (by omega)
      _ = 1 / 2 := by norm_num
  have hb' : (0 : ℚ) < b := by exact_mod_cast hb
  have hunits : (a : ℚ) / b = 2 ^ (53 : Int) - 2 ^ (53 - (k : Int)) := by
    rw [h, pred_two_pow_div, mul_assoc, ← zpow_add₀ two_ne_zero, sub_mul, ← zpow_add₀ two_ne_zero, one_mul]
    congr 2 <;> ring
  rw [div_eq_iff hb'.ne'] at hunits
  refine divNearestEven_eq_of_even hb (by decide) ?_ ?_
  · rw [twoPow_eq, ← Nat.cast_le (α := ℚ)]
    push_cast
    norm_num at hunits
    nlinarith
  · rw [twoPow_eq, ← Nat.cast_le (α := ℚ)]
    push_cast
    norm_num at hunits
    nlinarith

/-- A number of 54 ones or more, under any moderate power of two, is rounded up to the next power of two. -/
theorem nearest_pred_two_pow (negative : Bool) (hlow : 54 ≤ k) (hhigh : k ≤ 63) {j : Nat} (hj : j ≤ 63) :
    nearest negative (2 ^ k - 1) (2 ^ j) =
      finite negative (2 ^ 52) ((k : Int) - j - 52) (canonical_two_pow hhigh hj) := by
  have hexponent : max (-1074) (binade (2 ^ k - 1) (2 ^ j) - 52) = (k : Int) - j - 53 := by
    rw [binade_pred_two_pow j hlow]
    omega
  obtain ⟨hpos, heq⟩ := scaleRatio_eq (2 ^ k - 1) (Nat.two_pow_pos j) ((k : Int) - j - 53)
  have hround := divNearestEven_pred_two_pow j hlow hpos heq
  unfold nearest
  simp only [(pred_two_pow_pos hlow).ne', if_false, hexponent, hround, if_true]
  rw [show (k : Int) - j - 53 + 1 = (k : Int) - j - 52 by ring]
  exact dif_pos (canonical_two_pow hhigh hj)

end Ones

/-- A number of 54 ones or more has no significand of 53 bits. -/
theorem not_isShort_pred_two_pow {k : Nat} (hlow : 54 ≤ k) : ¬ IsShort (2 ^ k - 1) := by
  rintro ⟨n, j, hn, heq⟩
  have hlarge : 2 ^ 54 ≤ 2 ^ k := Nat.pow_le_pow_right Nat.two_pos hlow
  have heven : 2 ^ k % 2 = 0 := by
    obtain ⟨i, rfl⟩ := Nat.exists_eq_add_of_le hlow
    rw [Nat.pow_add]
    omega
  cases j with
  | zero => omega
  | succ j =>
    rw [Nat.pow_succ, ← Nat.mul_assoc] at heq
    omega

end Binary64

end QuantNet
