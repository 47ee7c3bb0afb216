import Mathlib.Algebra.Group.Nat.Defs
import Mathlib.Order.Bounds.Basic
import QuantNet.Port

/-!
# Address widths

A width is enough for the addresses of a memory exactly if it is not less than the address width
(`addressWidth_le_iff`), so the address width is the least one that is enough, and it grows with the memory.

In a machine word the width is what the zeros in front of the last address leave of the word
(`addressWidth_eq_sub_clz`). One and two words of memory are no case of this: the last address is zero or one, and
their address has one bit in any case.
-/

namespace QuantNet

variable {count width : Nat}

theorem addressWidth_of_le (h : count ≤ 2) : addressWidth count = 1 := if_pos h

theorem addressWidth_of_lt (h : 2 < count) : addressWidth count = (count - 1).log2 + 1 := if_neg (Nat.not_le.mpr h)

/-- The widths that reach every word are those from the address width on. -/
theorem addressWidth_le_iff : addressWidth count ≤ width ↔ 1 ≤ width ∧ count ≤ 2 ^ width := by
  rcases Nat.lt_or_ge 2 count with h | h
  · -- the last address has as many bits as its logarithm says
    have hlast : (count - 1).log2 < width ↔ count - 1 < 2 ^ width := Nat.log2_lt (by omega)
    rw [addressWidth_of_lt h, Nat.succ_le_iff, hlast]
    refine ⟨fun hreach => ⟨?_, by omega⟩, fun hreach => by omega⟩
    have := hlast.mpr hreach
    omega
  · rw [addressWidth_of_le h]
    refine ⟨fun hwidth => ⟨hwidth, h.trans ?_⟩, And.left⟩
    exact Nat.pow_le_pow_right Nat.two_pos hwidth

theorem addressWidth_pos (count : Nat) : 0 < addressWidth count := (addressWidth_le_iff.mp le_rfl).1

/-- Every word of a memory has an address. -/
theorem le_two_pow_addressWidth (count : Nat) : count ≤ 2 ^ addressWidth count := (addressWidth_le_iff.mp le_rfl).2

/-- A larger memory has addresses of the same width or of more bits. -/
theorem addressWidth_mono : Monotone addressWidth := fun _ larger hle =>
  addressWidth_le_iff.mpr ⟨addressWidth_pos larger, hle.trans (le_two_pow_addressWidth larger)⟩

/-- With one bit fewer the last word of a memory of three words or more has no address. -/
theorem two_pow_pred_addressWidth_lt (h : 2 < count) : 2 ^ (addressWidth count - 1) < count := by
  by_contra hreach
  have hwide : addressWidth 3 ≤ addressWidth count := addressWidth_mono h
  have hthree : addressWidth 3 = 2 := by decide
  have hless := addressWidth_le_iff.mpr ⟨by omega, Nat.not_lt.mp hreach⟩
  omega

/-- The width of an address is that of a machine word without the zeros in front of the last address. -/
theorem addressWidth_eq_sub_clz {bits : Nat} (h : 2 < count) (hword : count ≤ 2 ^ bits) :
    addressWidth count = bits - (BitVec.ofNat bits (count - 1)).clz.toNat := by
  have hlast : (BitVec.ofNat bits (count - 1)).toNat = count - 1 := by
    rw [BitVec.toNat_ofNat, Nat.mod_eq_of_lt (by omega)]
  have hbits : 0 < bits := Nat.pos_of_ne_zero fun hzero => by
    rw [hzero, Nat.pow_zero] at hword
    omega
  have hne : BitVec.ofNat bits (count - 1) ≠ BitVec.ofNat bits 0 := fun hzero => by
    rw [hzero, BitVec.toNat_ofNat, Nat.zero_mod] at hlast
    omega
  have hlow := BitVec.two_pow_sub_clz_le_toNat_of_ne_zero hbits hne
  have hhigh := BitVec.toNat_lt_two_pow_sub_clz (x := BitVec.ofNat bits (count - 1))
  rw [hlast] at hlow hhigh
  generalize (BitVec.ofNat bits (count - 1)).clz.toNat = zeros at hlow hhigh ⊢
  have hzeros : zeros < bits := by
    by_contra hge
    rw [Nat.sub_eq_zero_of_le (Nat.not_lt.mp hge), Nat.pow_zero] at hhigh
    omega
  have hlog : (count - 1).log2 = bits - 1 - zeros :=
    (Nat.log2_eq_iff (by omega)).mpr ⟨hlow, by rwa [show bits - 1 - zeros + 1 = bits - zeros by omega]⟩
  rw [addressWidth_of_lt h, hlog]
  omega

/-- The addresses of a buffered component are as wide as the numbers of its values need. -/
theorem Port.widthOf_ofCounts (xWidth yWidth xCount yCount : Nat) :
    (ofCounts xWidth yWidth xCount yCount).widthOf "x_address" = addressWidth xCount ∧
      (ofCounts xWidth yWidth xCount yCount).widthOf "y_address" = addressWidth yCount := ⟨rfl, rfl⟩

/-- **Addresses are as narrow as they can be.** The address width is the least width, one at the least, that reaches
every word. It grows with the number of words, every index is below the number of addresses, and from three words
on this fails with one bit fewer. A number of words that a machine word holds has as its address width what the zeros
in front of the last index leave of the 64 bits, and the ports of a component with buffers have these widths. -/
theorem isLeast_addressWidth (count : Nat) :
    IsLeast {width | 1 ≤ width ∧ count ≤ 2 ^ width} (addressWidth count) ∧
    (∀ fewer ≤ count, addressWidth fewer ≤ addressWidth count) ∧
    (∀ index < count, index < 2 ^ addressWidth count) ∧
    (2 < count → 2 ^ (addressWidth count - 1) < count) ∧
    (2 < count → count < 2 ^ 64 →
      addressWidth count = 64 - (BitVec.ofNat 64 (count - 1)).clz.toNat) ∧
    ∀ xWidth yWidth other, (Port.ofCounts xWidth yWidth count other).widthOf "x_address" = addressWidth count ∧
      (Port.ofCounts xWidth yWidth other count).widthOf "y_address" = addressWidth count := by
  refine ⟨⟨addressWidth_le_iff.mp le_rfl, fun width hwidth => addressWidth_le_iff.mpr hwidth⟩,
    fun fewer hle => addressWidth_mono hle, fun index hlt => hlt.trans_le (le_two_pow_addressWidth count),
    two_pow_pred_addressWidth_lt, fun h hword => addressWidth_eq_sub_clz h hword.le, fun xWidth yWidth other => ?_⟩
  exact ⟨(Port.widthOf_ofCounts xWidth yWidth count other).1, (Port.widthOf_ofCounts xWidth yWidth other count).2⟩

/-- One word more than half of what a machine word counts needs all 64 bits, where half of it needs 63. -/
theorem isLeast_addressWidth_aboveHalf :
    addressWidth (2 ^ 63) = 63 ∧ addressWidth (2 ^ 63 + 1) = 64 ∧
      addressWidth (2 ^ 63) ≤ addressWidth (2 ^ 63 + 1) ∧ 2 ^ 63 < 2 ^ addressWidth (2 ^ 63 + 1) ∧
      2 ^ (addressWidth (2 ^ 63 + 1) - 1) < 2 ^ 63 + 1 ∧
      addressWidth (2 ^ 63 + 1) = 64 - (BitVec.ofNat 64 (2 ^ 63)).clz.toNat := by
  obtain ⟨-, hgrows, hreaches, hnarrow, hword, -⟩ := isLeast_addressWidth (2 ^ 63 + 1)
  exact ⟨by decide, by decide, hgrows _ (by decide), hreaches _ (by decide), hnarrow (by decide),
    hword (by decide) (by decide)⟩

end QuantNet
