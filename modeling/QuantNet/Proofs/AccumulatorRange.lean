import QuantNet.Proofs.ExactRounding
import QuantNet.Proofs.MultiplyAccumulate

/-!
# The range of the accumulator

How far the signed word of 128 bits reaches in which a sum of products is kept. A product of two stored
integers always fits. The sum is checked after every product, so what decides is not the final sum but
every sum on the way (`QFormat.PrefixesFit`): as long as they fit, the result is the exact sum, rescaled
and clamped, and the first one that does not fit ends the computation with an overflow.

The bound on the number of products is sharp. Operands that are all the least integer of the format add
`4 ^ (totalBits - 1)` at every step (`macInt_minValue`), so all lists of length `n` have a result exactly
if `n` such products are less than `2 ^ 127`. A format of 32 bits needs `2 ^ 65` products to get there, one
of 64 bits needs two.
-/

namespace QuantNet.QFormat

variable {f : QFormat} {a b : List Binary64} {qa qb : List Int} {sum : Int}

/-- All sums on the way fit a signed word of 128 bits. -/
def PrefixesFit (sum : Int) (products : List Int) : Prop :=
  ∀ k ≤ products.length, Checked.FitsSigned 128 (sum + (products.take k).sum)

theorem prefixesFit_nil : PrefixesFit sum [] ↔ Checked.FitsSigned 128 sum := by simp [PrefixesFit]

/-- The sums on the way are the one at the start, and those on the way from the next one. -/
theorem prefixesFit_cons {product : Int} {products : List Int} :
    PrefixesFit sum (product :: products) ↔ Checked.FitsSigned 128 sum ∧ PrefixesFit (sum + product) products := by
  constructor
  · intro h
    refine ⟨by simpa using h 0 (Nat.zero_le _), fun k hk => ?_⟩
    have hnext := h (k + 1) (Nat.succ_le_succ hk)
    rwa [List.take_succ_cons, List.sum_cons, ← Int.add_assoc] at hnext
  · rintro ⟨hnow, hrest⟩ k hk
    cases k with
    | zero => simpa using hnow
    | succ k =>
      rw [List.take_succ_cons, List.sum_cons, ← Int.add_assoc]
      exact hrest k (Nat.le_of_succ_le_succ hk)

/-- The product of two stored integers fits. -/
theorem fitsSigned_mul {v w : Binary64} {q r : Int} (hq : f.quantize v = .ok q) (hr : f.quantize w = .ok r) :
    Checked.FitsSigned 128 (q * r) := by
  refine fitsSigned_of_natAbs_lt ?_
  calc (q * r).natAbs ≤ 4 ^ (f.totalBits - 1) := natAbs_mul_le_of_quantize hq hr
    _ ≤ 4 ^ 63 := by
      have := f.total_le
      exact Nat.pow_le_pow_right (by decide) (by omega)
    _ < 2 ^ 127 := by decide

theorem fitsSigned_of_mem_products (ha : f.Stores a qa) (hb : f.Stores b qb) :
    ∀ product ∈ List.zipWith (· * ·) qa qb, Checked.FitsSigned 128 product := by
  induction ha generalizing b qb with
  | nil => simp
  | cons hv _ ih =>
    cases hb with
    | nil => simp
    | cons hw hb =>
      rw [List.zipWith_cons_cons, List.forall_mem_cons]
      exact ⟨fitsSigned_mul hv hw, ih hb⟩

/-- One step of the accumulation of stored operands. -/
theorem accumulate_step {v w : Binary64} {q r : Int} {rest : List (Binary64 × Binary64)}
    (hq : f.quantize v = .ok q) (hr : f.quantize w = .ok r) :
    f.accumulate sum ((v, w) :: rest) =
      if Checked.FitsSigned 128 (sum + q * r) then f.accumulate (sum + q * r) rest else .error (.overflow .add) := by
  simp only [accumulate, hq, hr, Outcome.lift_ok, Outcome.ok_bind, Checked.signedMul, Checked.signedAdd,
    if_pos (fitsSigned_mul hq hr)]
  by_cases hfits : Checked.FitsSigned 128 (sum + q * r)
  · rw [if_pos hfits, if_pos hfits, Outcome.ok_bind]
  · rw [if_neg hfits, if_neg hfits, Outcome.error_bind]

/-- At the end of a list the sum that was reached is the result. -/
theorem accumulate_at_end (hsum : Checked.FitsSigned 128 sum) :
    (PrefixesFit sum [] → f.accumulate sum [] = .ok (sum + ([] : List Int).sum)) ∧
    (¬ PrefixesFit sum [] → f.accumulate sum [] = .error (.overflow .add)) :=
  ⟨fun _ => by simp [accumulate], fun h => absurd (prefixesFit_nil.mpr hsum) h⟩

/-- The accumulation of stored operands is their exact sum if all sums on the way fit, and an overflow if not. -/
theorem accumulate_of_stores (ha : f.Stores a qa) (hb : f.Stores b qb) (hsum : Checked.FitsSigned 128 sum) :
    (PrefixesFit sum (List.zipWith (· * ·) qa qb) →
      f.accumulate sum (a.zip b) = .ok (sum + (List.zipWith (· * ·) qa qb).sum)) ∧
    (¬ PrefixesFit sum (List.zipWith (· * ·) qa qb) → f.accumulate sum (a.zip b) = .error (.overflow .add)) := by
  -- what goes from step to step is that the sum reached so far fits
  induction ha generalizing b qb sum with
  | nil => simpa using accumulate_at_end hsum
  | @cons v q a qa hv _ ih =>
    cases hb with
    | nil => simpa using accumulate_at_end hsum
    | @cons w r b qb hw hb =>
      rw [List.zip_cons_cons, List.zipWith_cons_cons, accumulate_step hv hw, List.sum_cons, prefixesFit_cons,
        and_iff_right hsum, ← Int.add_assoc]
      by_cases hfits : Checked.FitsSigned 128 (sum + q * r)
      · rw [if_pos hfits]
        exact ih hb hfits
      · -- the overflow is here: the next sum is the first one on the way
        rw [if_neg hfits]
        refine ⟨fun h => absurd ?_ hfits, fun _ => rfl⟩
        simpa using h 0 (Nat.zero_le _)

/-- Lists of one length are accumulated; the sum is rescaled and clamped. -/
theorem macInt_eq_map (hlength : a.length = b.length) :
    f.macInt a b = (f.accumulate 0 (a.zip b)).map fun sum => f.clamp (sum.tdiv f.unit) := by
  rw [macInt, if_neg (not_not_intro hlength)]
  cases f.accumulate 0 (a.zip b) with
  | ok sum => rfl
  | error failure => rfl

/-- Stored lists have a result if all their products could be the largest one. -/
theorem exists_macInt (hlength : a.length = b.length) (ha : ∀ v ∈ a, ∃ q, f.quantize v = .ok q)
    (hb : ∀ v ∈ b, ∃ q, f.quantize v = .ok q) (hroom : a.length * 4 ^ (f.totalBits - 1) < 2 ^ 127) :
    ∃ q, f.macInt a b = .ok q := by
  obtain ⟨qa, hqa⟩ := Outcome.exists_forall₂ ha
  obtain ⟨qb, hqb⟩ := Outcome.exists_forall₂ hb
  have hsum : f.accumulate 0 (a.zip b) = .ok (0 + (List.zipWith (· * ·) qa qb).sum) :=
    accumulate_eq_ok hqa hqb (by rwa [Int.natAbs_zero, Nat.zero_add])
  exact ⟨_, by rw [macInt_eq_map hlength, hsum, Outcome.map_ok_eq]⟩

/-! ### The longest lists -/

/-- The least number of a format is stored as the least integer. -/
theorem quantize_minValue (f : QFormat) : f.quantize f.minValue = .ok f.minInt := by
  refine quantize_toRational_of_isShort ⟨1, f.totalBits - 1, by decide, ?_⟩ (contains_iff.mpr ⟨le_rfl, ?_⟩)
  · rw [minInt, twoPow_eq, Int.natAbs_neg, Int.natAbs_natCast, Nat.one_mul]
  · have hpos := Nat.two_pow_pos (f.totalBits - 1)
    simp only [minInt, maxInt, twoPow_eq]
    omega

/-- The sum of the largest products. -/
theorem sum_products_minInt (f : QFormat) (n : Nat) :
    (List.zipWith (· * ·) (List.replicate n f.minInt) (List.replicate n f.minInt)).sum =
      ((n * 4 ^ (f.totalBits - 1) : ℕ) : ℤ) := by
  have hsquare : f.minInt * f.minInt = ((4 ^ (f.totalBits - 1) : ℕ) : ℤ) := by
    rw [minInt, twoPow_eq, neg_mul_neg, ← Nat.cast_mul, ← Nat.mul_pow]
  rw [List.zipWith_replicate, Nat.min_self, List.sum_replicate, hsquare, nsmul_eq_mul, ← Nat.cast_mul]

/-- Lists of the least number overflow as soon as the sum of their products is too large. -/
theorem macInt_minValue (f : QFormat) {n : Nat} (h : 2 ^ 127 ≤ n * 4 ^ (f.totalBits - 1)) :
    f.macInt (List.replicate n f.minValue) (List.replicate n f.minValue) = .error (.overflow .add) := by
  have hstores : f.Stores (List.replicate n f.minValue) (List.replicate n f.minInt) := by
    rw [Stores, List.forall₂_iff_get]
    refine ⟨by simp, fun i _ _ => ?_⟩
    simpa using quantize_minValue f
  have hlong : ¬ PrefixesFit 0 (List.zipWith (· * ·) (List.replicate n f.minInt) (List.replicate n f.minInt)) := by
    intro hfits
    have hlast := (hfits _ le_rfl).2
    rw [List.take_length, sum_products_minInt, Int.zero_add, twoPow_eq] at hlast
    omega
  rw [macInt_eq_map rfl, (accumulate_of_stores hstores hstores (by decide)).2 hlong, Outcome.map_error_eq]

/-- **What the accumulator holds.** For stored operands in lists of one length no product leaves the signed word of
128 bits; if no sum on the way does either, the result is the exact sum, rescaled and clamped, and if one does, the
result is an overflow of the addition. All stored lists of length `n` have a result exactly if `n` times the
largest product fits. -/
theorem macInt_of_stores (f : QFormat) :
    (∀ a b qa qb, f.Stores a qa → f.Stores b qb → a.length = b.length →
      (∀ product ∈ List.zipWith (· * ·) qa qb, Checked.FitsSigned 128 product) ∧
      (PrefixesFit 0 (List.zipWith (· * ·) qa qb) →
        f.macInt a b = .ok (f.clamp ((List.zipWith (· * ·) qa qb).sum.tdiv f.unit))) ∧
      (¬ PrefixesFit 0 (List.zipWith (· * ·) qa qb) → f.macInt a b = .error (.overflow .add))) ∧
    ∀ n, (∀ a b, a.length = n → b.length = n → (∀ v ∈ a, ∃ q, f.quantize v = .ok q) →
        (∀ v ∈ b, ∃ q, f.quantize v = .ok q) → ∃ q, f.macInt a b = .ok q) ↔
      n * 4 ^ (f.totalBits - 1) < 2 ^ 127 := by
  refine ⟨fun a b qa qb ha hb hlength => ⟨fitsSigned_of_mem_products ha hb, fun hfits => ?_, fun hfits => ?_⟩,
    fun n => ⟨fun hall => ?_, fun hroom a b ha hb hqa hqb => ?_⟩⟩
  · rw [macInt_eq_map hlength, (accumulate_of_stores ha hb (by decide)).1 hfits, Outcome.map_ok_eq, Int.zero_add]
  · rw [macInt_eq_map hlength, (accumulate_of_stores ha hb (by decide)).2 hfits, Outcome.map_error_eq]
  · by_contra hlarge
    have hleast : ∀ v ∈ List.replicate n f.minValue, ∃ q, f.quantize v = .ok q := by
      intro v hv
      rw [List.eq_of_mem_replicate hv]
      exact ⟨_, quantize_minValue f⟩
    obtain ⟨q, hq⟩ := hall _ _ List.length_replicate List.length_replicate hleast hleast
    rw [macInt_minValue f (not_lt.mp hlarge)] at hq
    cases hq
  · exact exists_macInt (ha.trans hb.symm) hqa hqb (ha ▸ hroom)

/-- The largest product of the widest format and a small one leave the sum inside, and the result is clamped. -/
theorem macInt_widest :
    (QFormat.mk 64 0 (by decide) (by decide) (by decide)).macInt [.ofInt (-2 ^ 63), .ofInt 3]
      [.ofInt (-2 ^ 63), .ofInt (-1)] = .ok (2 ^ 63 - 1) := by
  have hstored := (macInt_of_stores ⟨64, 0, by decide, by decide, by decide⟩).1 [.ofInt (-2 ^ 63), .ofInt 3]
    [.ofInt (-2 ^ 63), .ofInt (-1)] [-2 ^ 63, 3] [-2 ^ 63, -1]
    (.cons (by decide +kernel) (.cons (by decide +kernel) .nil))
    (.cons (by decide +kernel) (.cons (by decide +kernel) .nil)) rfl
  rw [hstored.2.1 (by unfold PrefixesFit; decide)]
  decide

/-- Two stored operands are enough for an overflow in the widest format. -/
theorem not_forall_macInt_eq_ok :
    ¬ ∀ (f : QFormat) (a b : List Binary64), a.length = b.length → (∀ v ∈ a, ∃ q, f.quantize v = .ok q) →
      (∀ v ∈ b, ∃ q, f.quantize v = .ok q) → ∃ q, f.macInt a b = .ok q := by
  intro hall
  have hstored : ∀ v ∈ [Binary64.ofInt (-2 ^ 63), .ofInt (-2 ^ 63)],
      ∃ q, (QFormat.mk 64 0 (by decide) (by decide) (by decide)).quantize v = .ok q := by
    simp only [List.forall_mem_cons, List.not_mem_nil, false_implies, implies_true, and_true]
    exact ⟨⟨-2 ^ 63, by decide +kernel⟩, ⟨-2 ^ 63, by decide +kernel⟩⟩
  obtain ⟨q, hq⟩ := hall _ _ _ rfl hstored hstored
  have hoverflow : (QFormat.mk 64 0 (by decide) (by decide) (by decide)).macInt
      [.ofInt (-2 ^ 63), .ofInt (-2 ^ 63)] [.ofInt (-2 ^ 63), .ofInt (-2 ^ 63)] = .error (.overflow .add) := by
    decide +kernel
  rw [hoverflow] at hq
  cases hq

end QuantNet.QFormat
