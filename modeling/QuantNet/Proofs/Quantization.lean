import QuantNet.Proofs.Outcome
import QuantNet.QFormat

/-!
# Stored integers

What it means that a format stores a number: there is one integer for it, and it lies in the range of
the format. A number that the format does not store is refused with the same error whatever the
reason.
-/

namespace QuantNet.QFormat

variable {f : QFormat}

/-- The integers are those that the format stores for a list of numbers, entry by entry. -/
abbrev Stores (f : QFormat) : List Binary64 → List Int → Prop := List.Forall₂ fun v q => f.quantize v = .ok q

theorem quantizeAll_eq_mapM (vs : List Binary64) : f.quantizeAll vs = vs.mapM f.quantize := by
  induction vs with
  | nil => rfl
  | cons v vs ih => rw [quantizeAll, List.mapM_cons, ih]

theorem quantizeAll_eq_ok_iff {vs : List Binary64} {qs : List Int} :
    f.quantizeAll vs = .ok qs ↔ f.Stores vs qs := by
  rw [quantizeAll_eq_mapM, Outcome.mapM_eq_ok_iff]

theorem contains_iff {q : Int} : f.contains q = true ↔ f.minInt ≤ q ∧ q ≤ f.maxInt := by
  simp [contains]

/-- When a number is stored, and as which integer. -/
theorem quantize_eq_ok_iff {v : Binary64} {q : Int} :
    f.quantize v = .ok q ↔ (v.scale f.fracBits).roundInt? = some q ∧ f.contains q = true := by
  unfold quantize
  cases (v.scale f.fracBits).roundInt? with
  | none => simp
  | some r =>
    by_cases hr : f.contains r = true
    · simp only [hr, if_true, Except.ok.injEq, Option.some.injEq]
      exact ⟨fun h => ⟨h, h ▸ hr⟩, fun h => h.1⟩
    · simp only [hr, if_false, reduceCtorEq, Option.some.injEq, false_iff, not_and]
      rintro rfl
      exact hr

theorem contains_of_quantize {v : Binary64} {q : Int} (h : f.quantize v = .ok q) : f.contains q = true :=
  (quantize_eq_ok_iff.mp h).2

/-- A number that is not stored is out of range. -/
theorem quantize_eq_error {v : Binary64} (h : ∀ q, f.quantize v ≠ .ok q) :
    f.quantize v = .error (.outOfRange v (f.scaled v) f.minInt f.maxInt) := by
  unfold quantize at h ⊢
  cases hround : (v.scale f.fracBits).roundInt? with
  | none => rfl
  | some q =>
    by_cases hcontains : f.contains q
    · simp [hround, hcontains] at h
    · simp [hcontains]

/-- A stored integer is at most half the number of codes away from zero. -/
theorem natAbs_le_of_contains {q : Int} (h : f.contains q = true) : q.natAbs ≤ 2 ^ (f.totalBits - 1) := by
  have hrange := contains_iff.mp h
  simp only [minInt, maxInt, twoPow_eq] at hrange
  omega

/-- Every stored integer is a signed word of 64 bits. -/
theorem natAbs_le_word {q : Int} (h : f.contains q = true) : q.natAbs ≤ 2 ^ 63 := by
  have hle := f.total_le
  exact Nat.le_trans (natAbs_le_of_contains h) (Nat.pow_le_pow_right Nat.two_pos (by omega))

/-- The product of two stored integers is at most a quarter of the square of the number of codes. -/
theorem natAbs_mul_le_of_quantize {v w : Binary64} {q r : Int} (hq : f.quantize v = .ok q)
    (hr : f.quantize w = .ok r) : (q * r).natAbs ≤ 4 ^ (f.totalBits - 1) := by
  calc (q * r).natAbs = q.natAbs * r.natAbs := Int.natAbs_mul q r
    _ ≤ 2 ^ (f.totalBits - 1) * 2 ^ (f.totalBits - 1) :=
      Nat.mul_le_mul (natAbs_le_of_contains (contains_of_quantize hq)) (natAbs_le_of_contains (contains_of_quantize hr))
    _ = 4 ^ (f.totalBits - 1) := by rw [← Nat.mul_pow]

end QuantNet.QFormat
