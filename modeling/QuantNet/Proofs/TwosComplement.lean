import Mathlib.Data.Int.Bitwise
import Mathlib.Data.Int.ModEq
import QuantNet.Proofs.Bits

/-!
# Two's complement without exceptions

Coding an integer and reading a bit string back are inverse to each other, at every width that a
machine word has and for every logic value that has a level.

Both directions go through the number that the levels of a bit string make, which tells bit strings
of one width apart (`natOfLevels_injective`). Reading takes its balanced remainder modulo the number of
codes, and coding keeps the remainder, so what is read back is the one integer of the half-open range
that is congruent to what was coded (`represents_iff`). A weak value has the level of the strong one,
so coding what was read gives the strong values in place of the weak ones (`ofInt_toInt`).

Widths are words of 32 bits, and a bit string of a width has as many values (`HasWidth`). One with
`2 ^ 32` values or more has no width in this sense; it is measured by the remainder, and whether it is
read depends on the levels beyond it (`exists_toInt_iff_of_width`).
-/

namespace QuantNet

/-! ### Values with a level -/

namespace Logic

/-- The strong value in place of a weak one; the other values stay. -/
def strengthened : Logic → Logic
  | weakZero => zero
  | weakOne => one
  | v => v

/-- A value that is low or high, strongly or weakly. -/
def HasLevel (v : Logic) : Prop := v = zero ∨ v = one ∨ v = weakZero ∨ v = weakOne

instance (v : Logic) : Decidable v.HasLevel := inferInstanceAs (Decidable (_ ∨ _ ∨ _ ∨ _))

theorem hasLevel_iff {v : Logic} : v.HasLevel ↔ ∃ l, v.level? = some l := by
  cases v <;> simp [HasLevel, level?]

theorem strengthened_of_level? {v : Logic} {l : Bool} (h : v.level? = some l) : v.strengthened = ofBool l := by
  cases v <;> cases h <;> rfl

end Logic

namespace Bits

/-- The bit string with strong values in place of the weak ones. -/
def strengthened (b : Bits) : Bits := ⟨b.values.map Logic.strengthened⟩

/-- A bit string has levels exactly if every value has one. -/
theorem exists_levels_iff {b : Bits} : (∃ ls, b.levels? = some ls) ↔ ∀ v ∈ b.values, v.HasLevel := by
  simp only [levels?_eq_some_iff, Logic.hasLevel_iff]
  constructor
  · rintro ⟨ls, h⟩ v hv
    obtain ⟨l, -, hl⟩ := Outcome.exists_right_of_mem h hv
    exact ⟨l, hl⟩
  · exact Outcome.exists_forall₂

/-- The strong values are those of the levels. -/
theorem strengthened_eq {b : Bits} {ls : List Bool} (h : b.levels? = some ls) :
    b.strengthened = ⟨ls.map Logic.ofBool⟩ := by
  have hvalues : List.Forall₂ (fun v l => Logic.strengthened v = Logic.ofBool l) b.values ls :=
    (levels?_eq_some_iff.mp h).imp fun _ _ => Logic.strengthened_of_level?
  rw [strengthened, mk.injEq, ← List.forall₂_eq_eq_eq, List.forall₂_map_left_iff, List.forall₂_map_right_iff]
  exact hvalues

/-! ### The number of a list of levels -/

/-- Lists of levels of one length are told apart by their numbers. -/
theorem natOfLevels_injective {ls ms : List Bool} (hlength : ls.length = ms.length)
    (h : natOfLevels ls = natOfLevels ms) : ls = ms := by
  induction ls generalizing ms with
  | nil => exact (List.eq_nil_of_length_eq_zero hlength.symm).symm
  | cons l ls ih =>
    cases ms with
    | nil => cases hlength
    | cons m ms =>
      simp only [natOfLevels] at h
      have hl : l.toNat < 2 := Bool.toNat_lt l
      have hm : m.toNat < 2 := Bool.toNat_lt m
      have hbit : l.toNat = m.toNat := by omega
      have hfirst : l = m := by
        revert hbit
        cases l <;> cases m <;> decide
      have hrest : ls = ms := ih (Nat.succ.inj hlength) (by omega)
      rw [hfirst, hrest]

/-- An integer is coded by the levels whose number is congruent to it. -/
theorem ofInt_eq_of_modEq {n : Int} {ls : List Bool} (h : n ≡ natOfLevels ls [ZMOD 2 ^ ls.length]) :
    ofInt n ls.length = ⟨ls.map Logic.ofBool⟩ := by
  have hnumber : (natOfLevels ((List.range ls.length).map (bitOfInt n)) : Int) = natOfLevels ls := by
    have hlt : (natOfLevels ls : Int) < 2 ^ ls.length := by exact_mod_cast natOfLevels_lt ls
    rw [natOfLevels_bits, h, Int.emod_eq_of_lt (Int.natCast_nonneg _) hlt]
  have hbits := natOfLevels_injective (by simp) (Int.natCast_inj.mp hnumber)
  rw [ofInt, mk.injEq, ← congrArg (List.map Logic.ofBool) hbits, List.map_map]
  rfl

/-! ### Single bits -/

/-- A bit string that is measured as a machine word is read exactly if it has levels whose number is one. -/
theorem exists_toInt_iff_of_width {b : Bits} (hwidth : b.width ≤ 64) :
    (∃ k, b.toInt = .ok k) ↔ ∃ ls, b.levels? = some ls ∧ natOfLevels ls < 2 ^ 64 := by
  simp only [toInt, Outcome.map_eq_ok_iff, toNat_eq_ok_iff hwidth]
  constructor
  · rintro ⟨_, _, ⟨ls, hls, rfl, hlt⟩, -⟩
    exact ⟨ls, hls, hlt⟩
  · rintro ⟨ls, hls, hlt⟩
    exact ⟨_, _, ⟨ls, hls, rfl, hlt⟩, rfl⟩

/-- A bit string of a machine word is read exactly if every value has a level. -/
theorem exists_toInt_iff {b : Bits} (hlength : b.values.length ≤ 64) :
    (∃ k, b.toInt = .ok k) ↔ ∀ v ∈ b.values, v.HasLevel := by
  rw [exists_toInt_iff_of_width (b.width_le_length.trans hlength), ← exists_levels_iff]
  exact exists_congr fun ls => and_iff_left_of_imp (natOfLevels_lt_of_length hlength)

/-- Coding what was read gives the strong values. -/
theorem ofInt_toInt {b : Bits} {k : Int} (hpos : 0 < b.values.length) (hlength : b.values.length ≤ 64)
    (h : b.toInt = .ok k) : ofInt k b.values.length = b.strengthened := by
  obtain ⟨ls, hls⟩ := exists_levels_iff.mpr ((exists_toInt_iff hlength).mp ⟨k, h⟩)
  rw [toInt_of_levels hpos hlength hls, Except.ok.injEq] at h
  have hmod : k ≡ natOfLevels ls [ZMOD 2 ^ ls.length] := by
    rw [Int.ModEq, ← h, length_of_levels? hls]
    exact_mod_cast Int.bmod_emod
  rw [strengthened_eq hls, ← length_of_levels? hls, ofInt_eq_of_modEq hmod]

/-- The integer `k` is congruent to `n` and lies in the range of the signed numbers of a width. -/
def Represents (width : Nat) (n k : Int) : Prop :=
  k ≡ n [ZMOD 2 ^ width] ∧ -2 ^ (width - 1) ≤ k ∧ k < 2 ^ (width - 1)

theorem represents_iff {width : Nat} (hpos : 0 < width) {n k : Int} :
    Represents width n k ↔ k = n.bmod (2 ^ width) := by
  obtain ⟨hup, hdown⟩ := half_codes hpos
  have hcodes : 0 < 2 ^ width := Nat.two_pow_pos width
  have hpow : (2 : Int) ^ width = (2 ^ width : Nat) := by push_cast; rfl
  constructor
  · rintro ⟨hmod, hlow, hhigh⟩
    have hself : k.bmod (2 ^ width) = k := Int.bmod_eq_of_le (by omega) (by omega)
    rw [Int.ModEq, hpow] at hmod
    rw [← hself, Int.bmod_def, Int.bmod_def, hmod]
  · rintro rfl
    have hlow := Int.le_bmod (x := n) hcodes
    have hhigh := Int.bmod_lt (x := n) hcodes
    refine ⟨?_, by omega, by omega⟩
    rw [Int.ModEq, hpow, Int.bmod_emod]

end Bits

/-! ### Formats -/

namespace QFormat

variable {f : QFormat}

/-- What is read from a bit string of the format's width lies in the format. -/
theorem contains_of_toInt {b : Bits} {k : Int} (hlength : b.values.length = f.totalBits) (h : b.toInt = .ok k) :
    f.contains k = true := by
  have hpos : 0 < b.values.length := hlength ▸ f.total_pos
  have hle : b.values.length ≤ 64 := hlength ▸ f.total_le
  obtain ⟨ls, hls⟩ := Bits.exists_levels_iff.mpr ((Bits.exists_toInt_iff hle).mp ⟨k, h⟩)
  rw [Bits.toInt_of_levels hpos hle hls, Except.ok.injEq] at h
  obtain ⟨-, hlow, hhigh⟩ := (Bits.represents_iff hpos).mpr h.symm
  rw [hlength] at hlow hhigh
  rw [contains_iff, minInt, maxInt, twoPow_eq]
  push_cast
  exact ⟨hlow, by omega⟩

end QFormat

end QuantNet
