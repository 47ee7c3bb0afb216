import Mathlib.Algebra.Order.Floor.Ring
import Mathlib.Data.Int.ConditionallyCompleteOrder
import Mathlib.Data.Rat.Floor
import Mathlib.Tactic.Linarith
import QuantNet.Proofs.Quantization

/-!
# The reference multiply-accumulate

The specification rescales the exact sum as a rational number, clamps the rational number to the
format and rounds the clamped number toward zero. The library divides integers toward zero and
clamps afterwards. Both give the same integer, because rounding toward zero is monotone and leaves
the bounds of the format alone (`truncate_monotone`, `truncate_intCast`).

The sum itself is kept in a signed word of 128 bits. It stays inside as long as the number of
products times the largest product does (`accumulate_eq_ok`), and until then the first operand that
the format does not hold decides the outcome (`accumulate_eq_error`).
-/

namespace QuantNet

/-! ### Rounding toward zero -/

/-- A rational number rounded to an integer toward zero. -/
def truncate (r : ℚ) : ℤ := if 0 ≤ r then ⌊r⌋ else ⌈r⌉

theorem truncate_intCast (n : ℤ) : truncate n = n := by
  unfold truncate
  split
  · exact Int.floor_intCast n
  · exact Int.ceil_intCast n

theorem truncate_monotone : Monotone truncate := by
  intro r s hrs
  unfold truncate
  split_ifs with hr hs hs
  · exact Int.floor_mono hrs
  · exact absurd (hr.trans hrs) hs
  · -- a number below zero is rounded up to zero at most, the other one down to zero at least
    have hup : ⌈r⌉ ≤ 0 := Int.ceil_le.mpr (by exact_mod_cast (not_le.mp hr).le)
    exact hup.trans (Int.floor_nonneg.mpr hs)
  · exact Int.ceil_mono hrs

/-- Division of integers toward zero is the quotient rounded toward zero. -/
theorem truncate_div (n : ℤ) {d : ℕ} (hd : 0 < d) : truncate ((n : ℚ) / d) = n.tdiv d := by
  have hsign : 0 ≤ (n : ℚ) / d ↔ 0 ≤ n := by
    rw [le_div_iff₀ (by exact_mod_cast hd), zero_mul, Int.cast_nonneg_iff]
  unfold truncate
  split_ifs with h
  · rw [Rat.floor_intCast_div_natCast, Int.tdiv_eq_ediv_of_nonneg (hsign.mp h)]
  · have hn : 0 ≤ -n := by
      have := mt hsign.mpr h
      omega
    rw [Rat.ceil_intCast_div_natCast, ← Int.tdiv_eq_ediv_of_nonneg hn, Int.neg_tdiv, neg_neg]

namespace QFormat

variable {f : QFormat}

/-! ### The accumulator -/

theorem fitsSigned_of_natAbs_lt {n : Int} (h : n.natAbs < 2 ^ 127) : Checked.FitsSigned 128 n := by
  simp only [Checked.FitsSigned, twoPow_eq]
  omega

/-- One step of the accumulation, if both operands are stored and there is room for their product. -/
theorem accumulate_cons {sum q r : Int} {a b : Binary64} {rest : List (Binary64 × Binary64)}
    (hq : f.quantize a = .ok q) (hr : f.quantize b = .ok r)
    (hroom : sum.natAbs + 4 ^ (f.totalBits - 1) < 2 ^ 127) :
    f.accumulate sum ((a, b) :: rest) = f.accumulate (sum + q * r) rest := by
  have hproduct := natAbs_mul_le_of_quantize hq hr
  have hmul : Checked.FitsSigned 128 (q * r) := fitsSigned_of_natAbs_lt (by omega)
  have hadd : Checked.FitsSigned 128 (sum + q * r) := fitsSigned_of_natAbs_lt (by omega)
  simp only [accumulate, hq, hr, Outcome.lift_ok, Outcome.ok_bind, Checked.signedMul, Checked.signedAdd,
    if_pos hmul, if_pos hadd]

/-- The room for further products after one was added. -/
theorem room_of_room {sum q r : Int} {a b : Binary64} {n : Nat} (hq : f.quantize a = .ok q)
    (hr : f.quantize b = .ok r) (hroom : sum.natAbs + (n + 1) * 4 ^ (f.totalBits - 1) < 2 ^ 127) :
    (sum + q * r).natAbs + n * 4 ^ (f.totalBits - 1) < 2 ^ 127 ∧
      sum.natAbs + 4 ^ (f.totalBits - 1) < 2 ^ 127 := by
  have hproduct := natAbs_mul_le_of_quantize hq hr
  rw [Nat.add_mul, Nat.one_mul] at hroom
  exact ⟨by omega, by omega⟩

/-- The accumulation of stored operands is the exact sum of their products. -/
theorem accumulate_eq_ok {a b : List Binary64} {qa qb : List Int} {sum : Int}
    (ha : f.Stores a qa) (hb : f.Stores b qb)
    (hroom : sum.natAbs + a.length * 4 ^ (f.totalBits - 1) < 2 ^ 127) :
    f.accumulate sum (a.zip b) = .ok (sum + (List.zipWith (· * ·) qa qb).sum) := by
  induction ha generalizing b qb sum with
  | nil => simp [accumulate]
  | @cons v q a qa hv _ ih =>
    cases hb with
    | nil => simp [accumulate]
    | cons hw hb =>
      obtain ⟨hnext, hnow⟩ := room_of_room hv hw hroom
      rw [List.zip_cons_cons, accumulate_cons hv hw hnow, ih hb hnext, List.zipWith_cons_cons,
        List.sum_cons, Int.add_assoc]

/-- The operands in the order in which they are quantized. -/
def operands (a b : List Binary64) : List Binary64 := (a.zip b).flatMap fun p => [p.1, p.2]

/-- The first operand that is not stored decides the outcome of an accumulation. -/
theorem accumulate_eq_error {pairs : List (Binary64 × Binary64)} {before after : List Binary64} {v : Binary64}
    {sum : Int} (hsplit : (pairs.flatMap fun p => [p.1, p.2]) = before ++ v :: after)
    (hbefore : ∀ u ∈ before, ∃ q, f.quantize u = .ok q) (hv : ∀ q, f.quantize v ≠ .ok q)
    (hroom : sum.natAbs + pairs.length * 4 ^ (f.totalBits - 1) < 2 ^ 127) :
    f.accumulate sum pairs = .error (.refused (.outOfRange v (f.scaled v) f.minInt f.maxInt)) := by
  induction pairs generalizing before sum with
  | nil => simp at hsplit
  | cons p rest ih =>
    obtain ⟨a, b⟩ := p
    simp only [List.flatMap_cons, List.cons_append, List.nil_append] at hsplit
    match before, hsplit, hbefore with
    | [], hsplit, _ =>
      -- the left operand of this pair
      obtain rfl : a = v := by simpa using (List.cons.inj hsplit).1
      simp [accumulate, quantize_eq_error hv]
    | [u], hsplit, hbefore =>
      -- the right operand of this pair
      simp only [List.singleton_append, List.cons.injEq] at hsplit
      obtain ⟨rfl, rfl, -⟩ := hsplit
      obtain ⟨q, hq⟩ := hbefore a (by simp)
      simp [accumulate, hq, quantize_eq_error hv]
    | u :: w :: before, hsplit, hbefore =>
      -- an operand of a later pair
      simp only [List.cons_append, List.cons.injEq] at hsplit
      obtain ⟨rfl, rfl, hsplit⟩ := hsplit
      obtain ⟨q, hq⟩ := hbefore a (by simp)
      obtain ⟨r, hr⟩ := hbefore b (by simp)
      obtain ⟨hnext, hnow⟩ := room_of_room hq hr hroom
      rw [accumulate_cons hq hr hnow]
      exact ih hsplit (fun x hx => hbefore x (by simp [hx])) hnext

/-! ### The result -/

/-- The result of the specification for a sum of products: rescale, clamp, and round toward zero,
all on rational numbers. -/
def specifiedMac (f : QFormat) (sum : Int) : Int :=
  truncate (max (-2 ^ (f.totalBits - 1)) (min ((sum : ℚ) / 2 ^ f.fracBits) (2 ^ (f.totalBits - 1) - 1)))

/-- Dividing toward zero before clamping gives what the specification says. -/
theorem clamp_tdiv_eq_specifiedMac (f : QFormat) (sum : Int) :
    f.clamp (sum.tdiv f.unit) = f.specifiedMac sum := by
  have hunit : 0 < f.unit := Nat.two_pow_pos f.fracBits
  have hmin : ((f.minInt : ℤ) : ℚ) = -2 ^ (f.totalBits - 1) := by simp [minInt, twoPow_eq]
  have hmax : ((f.maxInt : ℤ) : ℚ) = 2 ^ (f.totalBits - 1) - 1 := by simp [maxInt, twoPow_eq]
  have hscale : ((f.unit : ℕ) : ℚ) = 2 ^ f.fracBits := by simp [unit, twoPow_eq]
  rw [specifiedMac, ← hmin, ← hmax, ← hscale, truncate_monotone.map_max, truncate_monotone.map_min,
    truncate_intCast, truncate_intCast, truncate_div sum hunit, clamp]

/-- **The reference multiply-accumulate follows the specification's order of steps.** Lists of
different lengths are refused whatever they hold. For lists of one length whose products cannot
leave the accumulator, the outcome is the specified integer if every operand is stored, and else
the refusal of the first operand that is not, the operands taken in pairs. -/
theorem macInt_eq_specified (f : QFormat) (a b : List Binary64) :
    (a.length ≠ b.length → f.macInt a b = .error (.refused (.lengthMismatch a.length b.length))) ∧
    (a.length = b.length → a.length * 4 ^ (f.totalBits - 1) < 2 ^ 127 →
      (∀ qa qb, f.Stores a qa → f.Stores b qb →
        f.macInt a b = .ok (f.specifiedMac (List.zipWith (· * ·) qa qb).sum)) ∧
      (∀ before v after, operands a b = before ++ v :: after →
        (∀ u ∈ before, ∃ q, f.quantize u = .ok q) → (∀ q, f.quantize v ≠ .ok q) →
        f.macInt a b = .error (.refused (.outOfRange v (f.scaled v) f.minInt f.maxInt)))) := by
  refine ⟨fun hlength => ?_, fun hlength hroom => ⟨fun qa qb ha hb => ?_, ?_⟩⟩
  · simp [macInt, hlength, Checked.refuse]
  · have hsum : f.accumulate 0 (a.zip b) = .ok (0 + (List.zipWith (· * ·) qa qb).sum) :=
      accumulate_eq_ok ha hb (by simpa using hroom)
    simp [macInt, hlength, hsum, clamp_tdiv_eq_specifiedMac]
  · intro before v after hsplit hbefore hv
    have hpairs : (0 : Int).natAbs + (a.zip b).length * 4 ^ (f.totalBits - 1) < 2 ^ 127 := by
      simpa [List.length_zip, hlength] using hlength ▸ hroom
    have hsum := accumulate_eq_error hsplit hbefore hv hpairs
    simp [macInt, hlength, hsum]

/-- A sum between two results below zero goes to the one nearer to zero. -/
theorem macInt_below_zero :
    (QFormat.mk 5 2 (by decide) (by decide) (by decide)).macInt [.ofQuotient (-1) 4, .ofInt (-1)]
      [.ofQuotient 1 2, .ofQuotient 1 2] = .ok (-2) := by
  have h := ((macInt_eq_specified ⟨5, 2, by decide, by decide, by decide⟩ [.ofQuotient (-1) 4, .ofInt (-1)]
    [.ofQuotient 1 2, .ofQuotient 1 2]).2 rfl (by decide)).1 [-1, -4] [2, 2]
    (.cons (by decide +kernel) (.cons (by decide +kernel) .nil))
    (.cons (by decide +kernel) (.cons (by decide +kernel) .nil))
  rw [h]
  decide +kernel

end QFormat

end QuantNet
