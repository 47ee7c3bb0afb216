import Mathlib.Data.Int.Basic
import Mathlib.Data.Nat.Bitwise
import QuantNet.Proofs.ExactRounding
import QuantNet.Proofs.Text
import QuantNet.UnsignedCode

/-!
# Bit strings that read back

The text of a bit string is read back, and so is the number that was coded, if the width is large
enough for it. The bits of an integer are those of its remainder modulo a power of two
(`natOfLevels_bits`); setting the bits of a word one after the other makes the number of the levels
(`setBits_of_levels`), and two's complement reads its balanced remainder (`toInt_of_levels`), which is
the integer itself if it fits.
-/

namespace QuantNet

namespace Bits

/-! ### Text -/

/-- Reading the characters of values gives the values. -/
theorem readChars_map_toChar (whole : String) (position : Nat) (values : List Logic) :
    readChars whole position (values.map Logic.toChar) = .ok values := by
  induction values generalizing position with
  | nil => rfl
  | cons v values ih =>
    rw [List.map_cons, readChars, Logic.ofChar?_toChar, ih]
    rfl

theorem toList_text (b : Bits) : b.text.toList = b.values.reverse.map Logic.toChar := String.toList_ofList

/-- The text of a bit string stands for the bit string. -/
theorem parse_text (b : Bits) : parse b.text = .ok b := by
  rw [parse, toList_text, readChars_map_toChar, Outcome.map_ok_eq, List.reverse_reverse]

/-- The characters of bit strings are neither blanks nor separators. -/
theorem plain_of_mem_text {b : Bits} {c : Char} (h : c ∈ b.text.toList) :
    Text.isBlank c = false ∧ c ≠ ',' ∧ c ≠ '\n' ∧ c ≠ '\r' := by
  rw [toList_text] at h
  obtain ⟨v, -, rfl⟩ := List.mem_map.mp h
  cases v <;> decide

theorem trim_text (b : Bits) : Text.trim b.text = b.text :=
  Text.trim_eq_self (fun _ hc => (plain_of_mem_text (List.mem_of_mem_head? hc)).1)
    fun _ hc => (plain_of_mem_text (List.mem_of_mem_getLast? hc)).1

/-! ### Numbers -/

/-- The width is the number of values, unless there are too many to be counted. -/
theorem width_eq_length {b : Bits} (h : b.values.length < 2 ^ 32) : b.width = b.values.length :=
  Nat.mod_eq_of_lt (by rwa [twoPow_eq])

/-- The natural number with the given levels as bits, least significant first. -/
def natOfLevels : List Bool → Nat
  | [] => 0
  | b :: bs => b.toNat + 2 * natOfLevels bs

/-- The levels of a bit string, if every value has one. -/
def levels? (b : Bits) : Option (List Bool) := b.values.mapM Logic.level?

theorem bitOfInt_succ (n : Int) (i : Nat) : bitOfInt n (i + 1) = bitOfInt (n / 2) i := by
  have hpow : ((twoPow (i + 1) : Nat) : Int) = 2 * (twoPow i : Nat) := by
    simp only [twoPow_eq, Nat.pow_succ]
    push_cast
    ring
  rw [bitOfInt, bitOfInt, hpow, ← Int.ediv_ediv_of_nonneg (by decide)]

/-- The lowest bits of an integer make its remainder. -/
theorem natOfLevels_bits (n : Int) (width : Nat) :
    (natOfLevels ((List.range width).map (bitOfInt n)) : Int) = n % 2 ^ width := by
  induction width generalizing n with
  | zero => simp [natOfLevels]
  | succ width ih =>
    have hfirst : ((bitOfInt n 0).toNat : Int) = n % 2 := by
      simp only [bitOfInt, twoPow_eq, Nat.pow_zero, Nat.cast_one, Int.ediv_one]
      rcases Int.emod_two_eq n with h | h <;> simp [h]
    have hrest : (bitOfInt n ∘ Nat.succ) = bitOfInt (n / 2) := funext fun i => bitOfInt_succ n i
    have hsplit : n % 2 ^ (width + 1) = n % 2 + 2 * (n / 2 % 2 ^ width) := by
      have hpos : (0 : Int) < 2 ^ width := by positivity
      have hhalf := Int.emod_add_mul_ediv (n / 2) (2 ^ width)
      have hlow := Int.emod_nonneg (n / 2) hpos.ne'
      have hhigh := Int.emod_lt_of_pos (n / 2) hpos
      rw [pow_succ']
      refine ((Int.ediv_emod_unique (q := n / 2 / 2 ^ width) (by omega)).mpr ⟨?_, by omega, by omega⟩).2
      rw [mul_assoc]
      omega
    rw [List.range_succ_eq_map, List.map_cons, List.map_map, natOfLevels, hrest, Nat.cast_add, Nat.cast_mul, ih,
      hfirst, hsplit]
    rfl

theorem levels?_eq_some_iff {b : Bits} {ls : List Bool} :
    b.levels? = some ls ↔ List.Forall₂ (fun v l => Logic.level? v = some l) b.values ls := by
  rw [levels?]
  induction b.values generalizing ls with
  | nil => simp [eq_comm]
  | cons v vs ih =>
    simp only [List.mapM_cons, Option.bind_eq_bind, Option.bind_eq_some_iff, Option.pure_def, Option.some.injEq, ih]
    constructor
    · rintro ⟨l, hl, rest, hrest, rfl⟩
      exact .cons hl hrest
    · intro h
      cases h with
      | cons hl hrest => exact ⟨_, hl, _, hrest, rfl⟩

theorem length_of_levels? {b : Bits} {ls : List Bool} (h : b.levels? = some ls) : ls.length = b.values.length :=
  (levels?_eq_some_iff.mp h).length_eq.symm

theorem natOfLevels_lt (ls : List Bool) : natOfLevels ls < 2 ^ ls.length := by
  induction ls with
  | nil => decide
  | cons l ls ih =>
    have hbit : l.toNat < 2 := Bool.toNat_lt l
    rw [natOfLevels, List.length_cons, Nat.pow_succ]
    omega

/-- Setting the bits of levels in a word that ends below them adds their number, unless one of the high ones lies
beyond the end of a machine word. -/
theorem setBits_of_levels (whole : Bits) {values : List Logic} {ls : List Bool}
    (h : List.Forall₂ (fun v l => Logic.level? v = some l) values ls) {index word : Nat} (hword : word < 2 ^ index) :
    setBits whole index word values =
      if 2 ^ index * natOfLevels ls < 2 ^ 64 then .ok (word + 2 ^ index * natOfLevels ls)
      else .error .shiftOverflow := by
  induction h generalizing index word with
  | nil => simp [setBits, natOfLevels]
  | @cons v l values ls hl _ ih =>
    have hpos : 0 < 2 ^ index := Nat.two_pow_pos index
    have hdouble : 2 ^ (index + 1) = 2 * 2 ^ index := Nat.pow_succ'
    have hsplit : 2 ^ index * natOfLevels (l :: ls) = 2 ^ index * l.toNat + 2 ^ (index + 1) * natOfLevels ls := by
      rw [natOfLevels, hdouble]
      ring
    rw [hsplit]
    cases l with
    | false =>
      simp only [setBits, hl, Bool.toNat_false, Nat.mul_zero, Nat.zero_add]
      exact ih (by omega)
    | true =>
      simp only [setBits, hl, Bool.toNat_true, Nat.mul_one]
      by_cases hindex : index < 64
      · have hset : word ||| twoPow index = word + 2 ^ index := by
          have hor := Nat.two_pow_add_eq_or_of_lt hword 1
          rw [Nat.mul_one] at hor
          rw [twoPow_eq, Nat.or_comm, ← hor, Nat.add_comm]
        -- a word has room for the bit if it has room for those above
        have hroom : 2 ^ (index + 1) * natOfLevels ls < 2 ^ 64 ↔
            2 ^ index + 2 ^ (index + 1) * natOfLevels ls < 2 ^ 64 := by
          have hend : 2 ^ 64 = 2 ^ (index + 1) * 2 ^ (63 - index) := by
            rw [← Nat.pow_add]
            congr 1
            omega
          rw [hend]
          refine ⟨fun hlt => ?_, fun hlt => by omega⟩
          have hnext := Nat.mul_le_mul_left (2 ^ (index + 1)) (Nat.lt_of_mul_lt_mul_left hlt)
          rw [Nat.mul_succ] at hnext
          omega
        rw [if_pos hindex, hset, ih (by omega), Nat.add_assoc]
        simp only [hroom]
      · have hbeyond : 2 ^ 64 ≤ 2 ^ index := Nat.pow_le_pow_right (by decide) (by omega)
        rw [if_neg hindex, if_neg (by omega)]

/-- Reading is finished only if every value has a level. -/
theorem exists_levels_of_setBits {whole : Bits} {values : List Logic} {index word n : Nat}
    (h : setBits whole index word values = .ok n) :
    ∃ ls, List.Forall₂ (fun v l => Logic.level? v = some l) values ls := by
  induction values generalizing index word with
  | nil => exact ⟨[], .nil⟩
  | cons v values ih =>
    cases hv : v.level? with
    | none => simp [setBits, hv] at h
    | some l =>
      have hrest : ∃ next word', setBits whole next word' values = .ok n := by
        cases l with
        | false =>
          simp only [setBits, hv] at h
          exact ⟨_, _, h⟩
        | true =>
          simp only [setBits, hv] at h
          split at h
          · exact ⟨_, _, h⟩
          · cases h
      obtain ⟨_, _, hrest⟩ := hrest
      obtain ⟨ls, hls⟩ := ih hrest
      exact ⟨l :: ls, .cons hv hls⟩

/-- The levels of a bit string that is measured as a machine word are its number, if the word holds it. -/
theorem toNat_of_width {b : Bits} {ls : List Bool} (hwidth : b.width ≤ 64) (h : b.levels? = some ls) :
    b.toNat = if natOfLevels ls < 2 ^ 64 then .ok (natOfLevels ls) else .error .shiftOverflow := by
  have hset := setBits_of_levels b (levels?_eq_some_iff.mp h) (show 0 < 2 ^ 0 from Nat.one_pos)
  simp only [Nat.pow_zero, Nat.one_mul, Nat.zero_add] at hset
  rw [toNat, if_neg (Nat.not_lt.mpr hwidth), hset]

/-- A bit string is an unsigned number exactly if it has levels and their number is a machine word. -/
theorem toNat_eq_ok_iff {b : Bits} (hwidth : b.width ≤ 64) {n : Nat} :
    b.toNat = .ok n ↔ ∃ ls, b.levels? = some ls ∧ natOfLevels ls = n ∧ n < 2 ^ 64 := by
  constructor
  · intro h
    have hset := h
    rw [toNat, if_neg (Nat.not_lt.mpr hwidth)] at hset
    obtain ⟨ls, hls⟩ := exists_levels_of_setBits hset
    rw [toNat_of_width hwidth (levels?_eq_some_iff.mpr hls), Outcome.ite_eq_ok_iff] at h
    exact ⟨ls, levels?_eq_some_iff.mpr hls, h.2, h.2 ▸ h.1⟩
  · rintro ⟨ls, hls, rfl, hlt⟩
    rw [toNat_of_width hwidth hls, if_pos hlt]

/-- The number of the levels of a machine word is a machine word. -/
theorem natOfLevels_lt_of_length {b : Bits} {ls : List Bool} (hlength : b.values.length ≤ 64)
    (h : b.levels? = some ls) : natOfLevels ls < 2 ^ 64 :=
  Nat.lt_of_lt_of_le (natOfLevels_lt ls) (Nat.pow_le_pow_right (by decide) (length_of_levels? h ▸ hlength))

theorem toNat_of_levels {b : Bits} {ls : List Bool} (hlength : b.values.length ≤ 64) (h : b.levels? = some ls) :
    b.toNat = .ok (natOfLevels ls) := by
  rw [toNat_of_width (b.width_le_length.trans hlength) h, if_pos (natOfLevels_lt_of_length hlength h)]

/-- Half the number of codes, as the balanced remainder rounds it. -/
theorem half_codes {width : Nat} (hpos : 0 < width) :
    (((2 ^ width : Nat) : Int) + 1) / 2 = 2 ^ (width - 1) ∧ ((2 ^ width : Nat) : Int) / 2 = 2 ^ (width - 1) := by
  have hpow : ((2 ^ width : Nat) : Int) = 2 * 2 ^ (width - 1) := by
    rw [Nat.cast_pow, ← pow_succ', Nat.sub_add_cancel hpos]
    rfl
  omega

theorem signedWord_eq_self {n : Int} (hlow : -2 ^ 63 ≤ n) (hhigh : n < 2 ^ 63) : signedWord n = n := by
  rw [signedWord, twoPow_eq]
  exact Int.bmod_eq_of_le (by omega) (by omega)

/-- The highest bit of a number is set exactly if the number reaches it. -/
theorem and_two_pow_ne_zero_iff {n i : Nat} (h : n < 2 ^ (i + 1)) : n &&& 2 ^ i ≠ 0 ↔ 2 ^ i ≤ n := by
  have hpos : 0 < 2 ^ i := Nat.two_pow_pos i
  rw [Nat.pow_succ'] at h
  rw [Nat.and_two_pow, Nat.testBit_eq_decide_div_mod_eq]
  by_cases hreach : 2 ^ i ≤ n
  · have hdiv : n / 2 ^ i = 1 := Nat.div_eq_of_lt_le (by omega) (by omega)
    simp [hdiv, hreach]
  · simp [Nat.div_eq_of_lt (Nat.lt_of_not_le hreach), hreach]

/-- A bit string with levels is read as the balanced remainder of their number. -/
theorem toInt_of_levels {b : Bits} {ls : List Bool} (hpos : 0 < b.values.length) (hlength : b.values.length ≤ 64)
    (h : b.levels? = some ls) : b.toInt = .ok ((natOfLevels ls : Int).bmod (2 ^ b.values.length)) := by
  have hwidth : b.width = b.values.length := width_eq_length (by omega)
  have hlt : natOfLevels ls < 2 ^ b.values.length := length_of_levels? h ▸ natOfLevels_lt ls
  rw [toInt, toNat_of_levels hlength h, Outcome.map_ok_eq, hwidth]
  by_cases hword : b.values.length = 64
  · rw [if_pos (Or.inr hword), hword]
    rfl
  · have hsign : 2 ^ b.values.length = 2 * 2 ^ (b.values.length - 1) := by
      rw [← Nat.pow_succ', Nat.succ_eq_add_one, Nat.sub_add_cancel hpos]
    have hfits : 2 ^ (b.values.length - 1) ≤ 2 ^ 62 := Nat.pow_le_pow_right (by decide) (by omega)
    have hhalf := half_codes hpos
    have hmod : (natOfLevels ls : Int) % (2 ^ b.values.length : Nat) = natOfLevels ls :=
      Int.emod_eq_of_lt (Int.natCast_nonneg _) (by exact_mod_cast hlt)
    have hset := and_two_pow_ne_zero_iff (i := b.values.length - 1) (by rwa [Nat.sub_add_cancel hpos])
    rw [if_neg (by omega), twoPow_eq, twoPow_eq, Int.bmod_def, hmod, hhalf.1]
    by_cases hhigh : 2 ^ (b.values.length - 1) ≤ natOfLevels ls
    · rw [if_pos (hset.mpr hhigh), signedWord_eq_self (by omega) (by omega), if_neg (by omega)]
    · rw [if_neg fun hne => hhigh (hset.mp hne), signedWord_eq_self (by omega) (by omega), if_pos (by omega)]

section Coded

variable (n : Int) (width : Nat)

@[simp]
theorem length_ofInt : (ofInt n width).values.length = width := by simp [ofInt]

variable {width} in
theorem width_ofInt (h : width < 2 ^ 32) : (ofInt n width).width = width := by
  rw [width_eq_length (by rwa [length_ofInt]), length_ofInt]

theorem levels?_ofInt : (ofInt n width).levels? = some ((List.range width).map (bitOfInt n)) := by
  rw [levels?, ofInt]
  induction List.range width with
  | nil => rfl
  | cons i is ih => simp [List.mapM_cons, ih]

/-- Every bit of a coded integer has a level. -/
theorem isDefined_ofInt : (ofInt n width).isDefined = true := by
  simp [isDefined, ofInt]

end Coded

theorem toNat_ofInt (n : Int) {width : Nat} (hwidth : width ≤ 64) :
    (ofInt n width).toNat = .ok (n % 2 ^ width).toNat := by
  rw [toNat_of_levels (by rwa [length_ofInt]) (levels?_ofInt n width)]
  simp only [← natOfLevels_bits, Int.toNat_natCast]

/-- What is read back is the balanced remainder of what was coded. -/
theorem toInt_ofInt_eq_bmod (n : Int) {width : Nat} (hpos : 0 < width) (hwidth : width ≤ 64) :
    (ofInt n width).toInt = .ok (n.bmod (2 ^ width)) := by
  have hpow : (2 : Int) ^ width = (2 ^ width : Nat) := by push_cast; rfl
  rw [toInt_of_levels (by rwa [length_ofInt]) (by rwa [length_ofInt]) (levels?_ofInt n width), natOfLevels_bits,
    length_ofInt, hpow, Int.emod_bmod]

/-- A coded integer is read back, if it fits the width. -/
theorem toInt_ofInt {n : Int} {width : Nat} (hpos : 0 < width) (hwidth : width ≤ 64)
    (hlow : -2 ^ (width - 1) ≤ n) (hhigh : n < 2 ^ (width - 1)) : (ofInt n width).toInt = .ok n := by
  obtain ⟨hup, hdown⟩ := half_codes hpos
  rw [toInt_ofInt_eq_bmod n hpos hwidth, Int.bmod_eq_of_le (by omega) (by omega)]

theorem testBit_eq_bitOfInt (n i : Nat) : n.testBit i = bitOfInt n i := by
  rw [bitOfInt, Nat.testBit_eq_decide_div_mod_eq, twoPow_eq, Bool.beq_eq_decide_eq]
  congr 1
  rw [eq_iff_iff]
  omega

/-- The bits of a natural number are those of the integer. -/
theorem ofNat_eq_ofInt (n width : Nat) : ofNat n width = ofInt n width := by
  simp only [ofNat, ofInt, testBit_eq_bitOfInt]

end Bits

/-! ### Codes -/

namespace UnsignedCode

variable {code : UnsignedCode} {n : Nat} {bits : Bits}

/-- The numbers that have a code are those with as many bits at most. -/
theorem encode_eq_ok_iff (hwidth : code.width ≤ 64) :
    code.encode n = .ok bits ↔ n < 2 ^ code.width ∧ bits = .ofNat n code.width := by
  have hmax : n ≤ code.maxNat ↔ n < 2 ^ code.width := by
    have hpos : 0 < 2 ^ code.width := Nat.two_pow_pos _
    rw [maxNat, Nat.min_eq_left hwidth, twoPow_eq]
    omega
  rw [encode, Outcome.ite_eq_ok_iff, hmax, eq_comm]

/-- A number that has a code is read back from the text of its code. -/
theorem decodeText_encode (hwidth : code.width ≤ 64) (h : code.encode n = .ok bits) :
    code.decodeText bits.text = .ok n := by
  obtain ⟨hlt, rfl⟩ := (encode_eq_ok_iff hwidth).mp h
  have hmod : ((n : Int) % 2 ^ code.width).toNat = n := by
    rw [Int.emod_eq_of_lt (Int.natCast_nonneg n) (by exact_mod_cast hlt), Int.toNat_natCast]
  rw [decodeText, Bits.trim_text, Bits.parse_text]
  simp only [Outcome.mapError_ok_eq, Outcome.ok_bind, decode, Bits.ofNat_eq_ofInt,
    Bits.width_ofInt (n : Int) (by omega : code.width < 2 ^ 32), if_true, Bits.toNat_ofInt n hwidth, hmod]

end UnsignedCode

namespace QFormat

variable {f : QFormat} {q : Int}

theorem encode_eq_ok {v : Binary64} (h : f.quantize v = .ok q) : f.encode v = .ok (.ofInt q f.totalBits) := by
  rw [encode, h, Outcome.map_ok_eq]

/-- A stored integer is read back from its bit string. -/
theorem decodeInt_ofInt (h : f.contains q = true) : f.decodeInt (.ofInt q f.totalBits) = .ok q := by
  obtain ⟨hlow, hhigh⟩ := contains_iff.mp h
  simp only [minInt, maxInt, twoPow_eq] at hlow hhigh
  push_cast at hlow hhigh
  have hint : (Bits.ofInt q f.totalBits).toInt = .ok q :=
    Bits.toInt_ofInt f.total_pos f.total_le hlow (by omega)
  have hwidth : f.totalBits < 2 ^ 32 := Nat.lt_of_le_of_lt f.total_le (by decide)
  rw [decodeInt, Bits.width_ofInt q hwidth, if_pos rfl, hint, Outcome.mapError_ok_eq]

theorem decode_ofInt (h : f.contains q = true) : f.decode (.ofInt q f.totalBits) = .ok (f.toRational q) := by
  rw [decode, decodeInt_ofInt h, Outcome.map_ok_eq]

/-- The text of the bit string of a stored integer means what the stored integer means. -/
theorem decodeText_ofInt (h : f.contains q = true) :
    f.decodeText (Bits.ofInt q f.totalBits).text = .ok (f.toRational q) := by
  rw [decodeText, Bits.trim_text, Bits.parse_text, Outcome.mapError_ok_eq, Outcome.ok_bind, decode_ofInt h]

end QFormat

end QuantNet
