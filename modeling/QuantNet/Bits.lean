import QuantNet.Logic
import QuantNet.Text

/-!
# Bit strings

Fixed-width strings of logic values, as they pass between generated circuits and simulation
reports, and the integers they stand for.

## The model

A bit string is a list of logic values with the least significant first, so that the value at
index `i` has weight `2 ^ i`. Its text is read and written the other way round, as a bit-string
literal is. Integers are mathematical: coding a number keeps its lowest bits, as many as the
width asks for.

Widths and indices are words of 32 bits. A text can be longer than that, so the width of a bit
string is the number of its values modulo `2 ^ 32`, and every check of a width compares this
remainder. A number is read by setting bits in a word of 64 bits, one value after the other; a bit
beyond its end can only be met where the width has wrapped.
-/

namespace QuantNet

/-- A bit string, least significant value first. -/
structure Bits where
  /-- The values, from index zero up. -/
  values : List Logic
deriving DecidableEq

/-- Why a text or a bit string has no meaning. -/
inductive BitsError where
  /-- A character stands for no logic value; the position counts from the left. -/
  | invalidChar (text : String) (char : Char) (position : Nat)
  /-- A value has no level. -/
  | undefined (bits : String)
  /-- More than 64 bits do not make a machine word. -/
  | tooWide (width : Nat)
  /-- A bit beyond the end of a machine word was to be set: a fault of the arithmetic. -/
  | shiftOverflow
deriving DecidableEq

/-- The text of a bit-string error. -/
def BitsError.message : BitsError → String
  | invalidChar text char position =>
    "invalid std_logic character '" ++ char.toString ++ "' at position " ++ Text.ofNat position ++
      " in \"" ++ text ++ "\""
  | undefined bits => "bit string " ++ bits ++ " contains undefined values"
  | tooWide width => "bit string of width " ++ Text.ofNat width ++ " exceeds 64 bits"
  | shiftOverflow => "attempt to shift left with overflow"

/-- An index that lies outside a bit string. -/
structure OutOfBounds where
  /-- The index asked for. -/
  index : Nat
  /-- The width of the bit string. -/
  width : Nat
deriving DecidableEq

/-- The text of an index error. -/
def OutOfBounds.message (e : OutOfBounds) : String :=
  "index " ++ Text.ofNat e.index ++ " out of bounds for width " ++ Text.ofNat e.width

namespace Bits

/-- The number of bits, counted in a word of 32 bits. -/
def width (b : Bits) : Nat := b.values.length % twoPow 32

theorem width_le_length (b : Bits) : b.width ≤ b.values.length := Nat.mod_le _ _

/-- The bit string of a width that is zero throughout. -/
def zeros (width : Nat) : Bits := ⟨List.replicate width .zero⟩

/-! ### Single values -/

/-- The value at an index. -/
def get (b : Bits) (index : Nat) : Except OutOfBounds Logic :=
  if h : index < b.width then .ok (b.values.get ⟨index, Nat.lt_of_lt_of_le h b.width_le_length⟩)
  else .error ⟨index, b.width⟩

/-- The bit string with the value at an index replaced. -/
def set (b : Bits) (index : Nat) (v : Logic) : Except OutOfBounds Bits :=
  if index < b.width then .ok ⟨b.values.set index v⟩ else .error ⟨index, b.width⟩

/-! ### Coding -/

/-- Bit `i` of the two's-complement expansion of an integer, which never ends. -/
def bitOfInt (n : Int) (i : Nat) : Bool := n / (twoPow i : Int) % 2 == 1

/-- The lowest `width` bits of an integer in two's complement; a number that does not fit wraps. -/
def ofInt (n : Int) (width : Nat) : Bits :=
  ⟨(List.range width).map fun i => .ofBool (bitOfInt n i)⟩

/-- The lowest `width` bits of a natural number. -/
def ofNat (n : Nat) (width : Nat) : Bits :=
  ⟨(List.range width).map fun i => .ofBool (n.testBit i)⟩

/-! ### Text -/

/-- The text of a bit string, most significant value first. -/
def text (b : Bits) : String := String.ofList (b.values.reverse.map Logic.toChar)

/-- The text of a bit string in a trace. -/
def trace (b : Bits) : String := "Bits(" ++ b.text ++ ")"

/-- The values a list of characters stands for, in the same order; `position` counts the
characters already read of the whole text. -/
def readChars (whole : String) : (position : Nat) → List Char → Except BitsError (List Logic)
  | _, [] => .ok []
  | position, c :: cs =>
    match Logic.ofChar? c with
    | none => .error (.invalidChar whole c position)
    | some v => (readChars whole (position + 1) cs).map (v :: ·)

/-- The bit string a text stands for. -/
def parse (s : String) : Except BitsError Bits :=
  (readChars s 0 s.toList).map fun values => ⟨values.reverse⟩

/-! ### Integers -/

/-- Whether every value has a level. -/
def isDefined (b : Bits) : Bool := b.values.all fun v => v.level?.isSome

/-- The word with the bit of every high value set in addition, the first value at `index`. -/
def setBits (whole : Bits) : (index word : Nat) → List Logic → Except BitsError Nat
  | _, word, [] => .ok word
  | index, word, v :: vs =>
    match v.level? with
    | none => .error (.undefined whole.text)
    | some false => setBits whole (index + 1) word vs
    | some true =>
      if index < 64 then setBits whole (index + 1) (word ||| twoPow index) vs else .error .shiftOverflow

/-- The bit string as an unsigned number. -/
def toNat (b : Bits) : Except BitsError Nat :=
  if 64 < b.width then .error (.tooWide b.width) else setBits b 0 0 b.values

/-- The integer that the lowest 64 bits of an integer are as a signed word. -/
def signedWord (n : Int) : Int := n.bmod (twoPow 64)

/-- The bit string as a two's-complement number; the empty one is zero. -/
def toInt (b : Bits) : Except BitsError Int :=
  b.toNat.map fun (raw : Nat) =>
    if b.width = 0 ∨ b.width = 64 then signedWord raw
    else if raw &&& twoPow (b.width - 1) ≠ 0 then signedWord (raw - twoPow b.width)
    else signedWord raw

/-- The quoted binary literal of an integer. -/
def literal (n : Int) (width : Nat) : String := "\"" ++ (ofInt n width).text ++ "\""

end Bits

end QuantNet
