import QuantNet.Proofs.RoundingUp
import QuantNet.Proofs.TwosComplement

/-!
# Bit strings that come back from their numbers

A bit string of a format means a number, and the number has a bit string. With at most 54 bits it is
the same one again, because the stored integer is not rounded on its way (`quantize_toRational`). With
55 bits or more the greatest stored integer, `2 ^ k - 1`, has no double of its own and goes to `2 ^ k`
(`Binary64.nearest_pred_two_pow`). This number is one too large for the format, so it has no bit string
at all. The boundary is sharp whatever the number of bits after the point, because a power of two as
scale does not touch the significand.

The bit strings that numbers were coded as do not meet this boundary. A number is stored as an integer of
at most 53 significant bits, and such an integer is not rounded in any format, so quantizing again what
was quantized once changes nothing (`encode_of_encode`).
-/

namespace QuantNet

namespace QFormat

variable {f : QFormat}

/-! ### The greatest number of a wide format -/

/-- The greatest number of a format with 55 bits or more is outside the format. -/
theorem quantize_maxValue (hbits : 55 ≤ f.totalBits) :
    f.quantize f.maxValue = .error (.outOfRange f.maxValue (f.scaled f.maxValue) f.minInt f.maxInt) := by
  have hle := f.total_le
  have hfrac := f.frac_lt
  have hpow : 0 < 2 ^ (f.totalBits - 1) := Nat.two_pow_pos _
  have hmax : f.maxInt = ((2 ^ (f.totalBits - 1) - 1 : Nat) : Int) := by
    rw [maxInt, twoPow_eq, Nat.cast_sub hpow]
    rfl
  have hvalue : f.maxValue = .finite false (2 ^ 52) (((f.totalBits - 1 : Nat) : Int) - f.fracBits - 52)
      (Binary64.canonical_two_pow (by omega) (by omega)) := by
    rw [maxValue, toRational, Binary64.ofQuotient, hmax, Int.natAbs_natCast, unit, twoPow_eq]
    exact Binary64.nearest_pred_two_pow _ (by omega) (by omega) (by omega)
  have hscale : f.maxValue.scale f.fracBits =
      .finite false (2 ^ 52) (((f.totalBits - 1 : Nat) : Int) - (0 : Nat) - 52)
        (Binary64.canonical_two_pow (by omega) (by omega)) := by
    rw [hvalue]
    refine Binary64.scale_finite _ _ _ _ (Nat.two_pow_pos _) ?_
    congr 2
    push_cast
    ring
  have hround : (f.maxValue.scale f.fracBits).roundInt? = some (2 ^ (f.totalBits - 1) : Nat) := by
    rw [hscale, Binary64.roundInt?_finite false _ (n := 2 ^ (f.totalBits - 1))]
    · rfl
    · rw [Nat.cast_pow, Nat.cast_pow, Nat.cast_ofNat, ← zpow_natCast, ← zpow_natCast, ← zpow_add₀ two_ne_zero]
      congr 1
      push_cast
      ring
  have hout : ¬ f.contains (2 ^ (f.totalBits - 1) : Nat) = true := by
    rw [contains_iff, maxInt, twoPow_eq]
    omega
  rw [quantize, hround]
  exact if_neg hout

/-! ### The law -/

/-- A bit string with as many values as the format has bits, all of them strong levels. -/
def IsWord (f : QFormat) (b : Bits) : Prop :=
  b.values.length = f.totalBits ∧ ∀ v ∈ b.values, v = .zero ∨ v = .one

theorem isWord_ofInt (q : Int) : f.IsWord (.ofInt q f.totalBits) := by
  refine ⟨Bits.length_ofInt q f.totalBits, fun v hv => ?_⟩
  obtain ⟨i, -, rfl⟩ := List.mem_map.mp hv
  cases Bits.bitOfInt q i
  · exact Or.inl rfl
  · exact Or.inr rfl

/-- A word is the code of an integer of the format. -/
theorem IsWord.exists_eq_ofInt {b : Bits} (h : f.IsWord b) :
    ∃ q, f.contains q = true ∧ b = .ofInt q f.totalBits := by
  obtain ⟨hlength, hstrong⟩ := h
  have hpos : 0 < b.values.length := hlength ▸ f.total_pos
  have hle : b.values.length ≤ 64 := hlength ▸ f.total_le
  have hlevels : ∀ v ∈ b.values, v.HasLevel := by
    intro v hv
    rcases hstrong v hv with rfl | rfl <;> decide
  obtain ⟨q, hq⟩ := (Bits.exists_toInt_iff hle).mpr hlevels
  have hsame : b.values.map Logic.strengthened = b.values := by
    refine (List.map_congr_left fun v hv => ?_).trans (List.map_id b.values)
    rcases hstrong v hv with rfl | rfl <;> rfl
  refine ⟨q, contains_of_toInt hlength hq, ?_⟩
  rw [← hlength, Bits.ofInt_toInt hpos hle hq, Bits.strengthened, hsame]

/-- **Which formats give every bit string back.** Coding the number that a bit string means gives the
bit string, for every bit string of the format's width, exactly if the format has at most 54 bits,
whatever the number of them after the binary point. -/
theorem encode_decode_iff (f : QFormat) :
    (∀ b, f.IsWord b → (f.decode b >>= f.encode) = .ok b) ↔ f.totalBits ≤ 54 := by
  constructor
  · intro hlaw
    by_contra hwide
    -- the code of the greatest integer is a word whose number has no code
    have hcontains : f.contains f.maxInt = true := by
      have hpow : 0 < twoPow (f.totalBits - 1) := Nat.two_pow_pos _
      rw [contains_iff, minInt, maxInt]
      omega
    have hback := hlaw _ (isWord_ofInt f.maxInt)
    rw [decode_ofInt hcontains, Outcome.ok_bind, encode, ← maxValue, quantize_maxValue (by omega),
      Outcome.map_error_eq] at hback
    cases hback
  · intro hbits b hword
    obtain ⟨q, hcontains, rfl⟩ := hword.exists_eq_ofInt
    rw [decode_ofInt hcontains, Outcome.ok_bind, encode_eq_ok (quantize_toRational hbits hcontains)]

/-! ### Numbers that were stored once -/

/-- The integer that a number is stored as is stored for the number it means, however wide the format is. -/
theorem quantize_toRational_of_quantize {v : Binary64} {q : Int} (h : f.quantize v = .ok q) :
    f.quantize (f.toRational q) = .ok q := by
  obtain ⟨hround, hcontains⟩ := quantize_eq_ok_iff.mp h
  exact quantize_toRational_of_isShort (Binary64.isShort_of_roundInt? hround) hcontains

/-- **Quantizing again changes nothing.** In every format, the text of the bit string that a number is
coded as means the number that the stored integer stands for, and this number is coded as the same bit
string; the stored integer of a number is also that of the number it means. -/
theorem encode_of_encode (f : QFormat) :
    (∀ v b, f.encode v = .ok b →
      ∃ x, f.roundTrip v = .ok x ∧ f.decodeText b.text = .ok x ∧ f.encode x = .ok b) ∧
    ∀ v q, f.quantize v = .ok q → f.quantize (f.toRational q) = .ok q := by
  refine ⟨fun v b h => ?_, fun v q => quantize_toRational_of_quantize⟩
  obtain ⟨q, hq, rfl⟩ := Outcome.map_eq_ok_iff.mp h
  refine ⟨f.toRational q, ?_, decodeText_ofInt (contains_of_quantize hq), ?_⟩
  · rw [roundTrip, hq, Outcome.map_ok_eq]
  · exact encode_eq_ok (quantize_toRational_of_quantize hq)

/-- A third of `10 ^ 17` lies between two doubles that are four apart. In a format of 64 bits, three of
them after the point, it is coded as the nearer one, and this one is coded in the same way. -/
theorem encode_of_encode_wide :
    ∃ x, (QFormat.mk 64 3 (by decide) (by decide) (by decide)).decodeText
        (Bits.ofInt 266666666666666656 64).text = .ok x ∧
      (QFormat.mk 64 3 (by decide) (by decide) (by decide)).encode x = .ok (.ofInt 266666666666666656 64) := by
  obtain ⟨x, -, hdecode, hencode⟩ := (encode_of_encode ⟨64, 3, by decide, by decide, by decide⟩).1
    (.ofQuotient (10 ^ 17) 3) (.ofInt 266666666666666656 64) (by decide +kernel)
  exact ⟨x, hdecode, hencode⟩

end QFormat

end QuantNet
