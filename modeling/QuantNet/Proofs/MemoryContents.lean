import QuantNet.Proofs.ParameterMemories
import QuantNet.Proofs.TwosComplement

/-!
# Contents of memories

How a memory is laid out for any values, whether they fit its words or not. The width of the address decides how many
words there are, the values come first and zeros behind them, and each word is written as a literal of its own. A word
that does not fit is cut to its lowest bits, so its literal is read as the one congruent integer that does
(`Bits.standsFor_literal`). How the address is typed changes the interface of the memory and the packages it needs, but
not the width of the address and not what is stored (`Rom.contents_of_values`).
-/

namespace QuantNet

/-! ### Literals -/

/-- The quoted text of a bit string with as many values as the width says, read as a signed number that is congruent
to the integer, and as the integer itself if it fits. -/
def Bits.StandsFor (width : Nat) (n : Int) (literal : String) : Prop :=
  ∃ text bits k, literal = "\"" ++ text ++ "\"" ∧ parse text = .ok bits ∧ bits.values.length = width ∧
    bits.toInt = .ok k ∧ k ≡ n [ZMOD 2 ^ width] ∧ (-2 ^ (width - 1) ≤ n → n < 2 ^ (width - 1) → k = n)

theorem Bits.standsFor_literal {width : Nat} (hpos : 1 ≤ width) (hwidth : width ≤ 64) (n : Int) :
    StandsFor width n (literal n width) := by
  obtain ⟨hmod, -, -⟩ : Represents width n (n.bmod (2 ^ width)) := (represents_iff hpos).mpr rfl
  refine ⟨_, _, _, rfl, parse_text _, length_ofInt n width, toInt_ofInt_eq_bmod n hpos hwidth, hmod, ?_⟩
  intro hlow hhigh
  exact ((represents_iff hpos).mp ⟨Int.ModEq.rfl, hlow, hhigh⟩).symm

namespace Rom

/-! ### Words -/

theorem take_words (r : Rom) : r.words.take r.values.length = r.values := by
  rw [words, List.take_left]

/-- The words behind the values are zeros. -/
theorem eq_zero_of_mem_drop_words {r : Rom} {w : Int} (h : w ∈ r.words.drop r.values.length) : w = 0 := by
  rw [words, List.drop_left] at h
  exact List.eq_of_mem_replicate h

theorem standsFor_literals {r : Rom} (hpos : 1 ≤ r.dataWidth) (hwidth : r.dataWidth ≤ 64) :
    List.Forall₂ (Bits.StandsFor r.dataWidth) r.words r.literals := by
  rw [literals, List.forall₂_map_right_iff, List.forall₂_same]
  exact fun w _ => Bits.standsFor_literal hpos hwidth w

/-! ### Addresses -/

/-- The interface of the memory has one address port, of the given width, and the source file declares it so. -/
structure DeclaresAddress (r : Rom) (width : Nat) : Prop where
  port : r.entity.signals.filter (·.name = "addr") = [⟨"addr", .input, .vector r.addressing.typeName width⟩]
  line : "        addr : in " ++ r.addressing.typeName ++ "(" ++ Text.ofNat width ++ "-1 downto 0);" ∈ r.render

theorem declaresAddress (r : Rom) : r.DeclaresAddress r.addressBits where
  port := by simp [entity]
  line := by
    convert r.mem_render_address using 1
    rw [← String.toList_inj]
    simp [Vhdl.PortSignal.text, Vhdl.SignalType.text, Direction.text]

end Rom

/-- **What a memory holds.** A memory of words of 1 to 64 bits, made for any values, has as many words as its address
port reaches: first the values in order, then zeros. The literal of every word is a bit string of the width of a word
and stands for the word modulo the number of codes, and for the word itself if it fits. All of this is the same for
both ways to type the address. -/
theorem Rom.contents_of_values (name typeName style : String) {width : Nat} (hpos : 1 ≤ width) (hwidth : width ≤ 64)
    (values : List Int) :
    ∃ addressBits words literals,
      (∀ addressing : Addressing,
        let r : Rom := ⟨name, .vector typeName width, addressing, values, style⟩
        r.addressBits = addressBits ∧ r.DeclaresAddress addressBits ∧ r.words = words ∧ r.literals = literals) ∧
      words.length = 2 ^ addressBits ∧ words.take values.length = values ∧
      (∀ w ∈ words.drop values.length, w = 0) ∧
      List.Forall₂ (Bits.StandsFor width) words literals := by
  let r : Rom := ⟨name, .vector typeName width, .stdLogic, values, style⟩
  refine ⟨r.addressBits, r.words, r.literals, fun addressing => ⟨rfl, declaresAddress _, rfl, rfl⟩, r.length_words,
    r.take_words, fun w => eq_zero_of_mem_drop_words (r := r), ?_⟩
  exact standsFor_literals (r := r) hpos hwidth

/-- Three values take a memory of four words, and a value that does not fit four bits is cut to its lowest ones. -/
theorem Rom.contents_of_cut :
    let r : Rom := ⟨"w_rom", .vector "signed" 4, .unsigned, [-1, 2, 9], "auto"⟩
    r.DeclaresAddress 2 ∧ r.words = [-1, 2, 9, 0] ∧ Bits.StandsFor 4 9 "\"1001\"" := by
  intro r
  obtain ⟨addressBits, words, literals, hsame, -, -, -, hliterals⟩ :=
    contents_of_values "w_rom" "signed" "auto" (show 1 ≤ 4 by decide) (by decide) [-1, 2, 9]
  obtain ⟨hbits, haddress, hwords, hlits⟩ := hsame .unsigned
  have hr : r.words = [-1, 2, 9, 0] ∧ r.literals = ["\"1111\"", "\"0010\"", "\"1001\"", "\"0000\""] := by decide
  rw [← hwords, ← hlits, hr.1, hr.2] at hliterals
  refine ⟨?_, hr.1, ?_⟩
  · rw [← hbits] at haddress
    exact haddress
  · simp only [List.forall₂_cons] at hliterals
    exact hliterals.2.2.1

end QuantNet
