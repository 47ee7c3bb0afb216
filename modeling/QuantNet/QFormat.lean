import QuantNet.Failure
import QuantNet.Bits
import QuantNet.Binary64.Shortest

/-!
# Fixed-point formats

Numbers stored as scaled integers of a fixed width, and their conversion to and from
floating-point numbers and bit strings.

## The model

A format has `totalBits` bits, two's complement, of which `fracBits` stand after the binary
point: the stored integer `q` means `q / 2 ^ fracBits`. Quantization rounds to the nearest
stored integer, ties away from zero, and refuses a number outside the format; it never wraps or
clamps. The reference multiply-accumulate quantizes its operands so, but truncates the rescaled
sum toward zero and clamps it, as the hardware does.
-/

namespace QuantNet

/-- A fixed-point format. -/
structure QFormat where
  /-- The width of the stored integer. -/
  totalBits : Nat
  /-- How many of the bits stand after the binary point. -/
  fracBits : Nat
  total_pos : 1 ≤ totalBits := by decide
  total_le : totalBits ≤ 64 := by decide
  frac_lt : fracBits < totalBits := by decide
deriving DecidableEq

/-- Why two numbers are no fixed-point format. -/
inductive FormatDefect where
  /-- There is no bit at all. -/
  | tooNarrow
  /-- There are more bits than a machine word has. -/
  | tooWide
  /-- The point lies right of the last bit. -/
  | negativeFraction
  /-- No bit is left for the sign. -/
  | noSign
deriving DecidableEq

/-- The text of a defect. -/
def FormatDefect.reason : FormatDefect → String
  | tooNarrow => "total_bits must be at least 1"
  | tooWide => "total_bits must not exceed 64"
  | negativeFraction => "frac_bits must not be negative"
  | noSign => "frac_bits must be smaller than total_bits"

/-- Why a conversion in a fixed-point format is refused. -/
inductive QError where
  /-- The numbers make no format. -/
  | invalidFormat (totalBits fracBits : Int) (defect : FormatDefect)
  /-- The number lies outside the format. -/
  | outOfRange (value scaled : Binary64) (min max : Int)
  /-- The bit string has another width than the format. -/
  | widthMismatch (expected actual : Nat) (bits : String)
  /-- The text or bit string has no meaning. -/
  | invalidBits (cause : BitsError)
  /-- Two operands differ in length. -/
  | lengthMismatch (left right : Nat)
deriving DecidableEq

/-- The text of a conversion error. -/
def QError.message : QError → String
  | invalidFormat totalBits fracBits defect =>
    "invalid fixed-point format (total_bits=" ++ Text.ofInt totalBits ++ ", frac_bits=" ++
      Text.ofInt fracBits ++ "): " ++ defect.reason
  | outOfRange value scaled min max =>
    "value " ++ value.text ++ " scales to " ++ scaled.text ++
      ", outside the representable range [" ++ Text.ofInt min ++ ", " ++ Text.ofInt max ++ "]"
  | widthMismatch expected actual bits =>
    "expected " ++ Text.ofNat expected ++ " bits, got " ++ Text.ofNat actual ++ " in \"" ++ bits ++ "\""
  | invalidBits cause => "invalid bit string: " ++ cause.message
  | lengthMismatch left right =>
    "operand length mismatch: " ++ Text.ofNat left ++ " vs " ++ Text.ofNat right

namespace QFormat

/-- The format with the given numbers of bits. -/
def ofInts (totalBits fracBits : Int) : Except QError QFormat :=
  if h1 : totalBits < 1 then .error (.invalidFormat totalBits fracBits .tooNarrow)
  else if h2 : 64 < totalBits then .error (.invalidFormat totalBits fracBits .tooWide)
  else if h3 : fracBits < 0 then .error (.invalidFormat totalBits fracBits .negativeFraction)
  else if h4 : totalBits ≤ fracBits then .error (.invalidFormat totalBits fracBits .noSign)
  else .ok
    { totalBits := totalBits.toNat, fracBits := fracBits.toNat
      total_pos := by omega, total_le := by omega, frac_lt := by omega }

/-- The text of a format. -/
def text (f : QFormat) : String :=
  "fxp(total_bits=" ++ Text.ofNat f.totalBits ++ ", frac_bits=" ++ Text.ofNat f.fracBits ++ ")"

/-! ### Range -/

/-- The least stored integer. -/
def minInt (f : QFormat) : Int := -(twoPow (f.totalBits - 1) : Int)

/-- The greatest stored integer. -/
def maxInt (f : QFormat) : Int := (twoPow (f.totalBits - 1) : Int) - 1

/-- Whether the format holds an integer. -/
def contains (f : QFormat) (q : Int) : Bool := f.minInt ≤ q && q ≤ f.maxInt

/-- The integer of the format nearest to a given one. -/
def clamp (f : QFormat) (q : Int) : Int := max f.minInt (min q f.maxInt)

/-- The factor between a number and its stored integer. -/
def unit (f : QFormat) : Nat := twoPow f.fracBits

/-- The factor as a floating-point number. -/
def scale (f : QFormat) : Binary64 := .ofInt f.unit

/-- The number a stored integer means, rounded to a floating-point number. -/
def toRational (f : QFormat) (q : Int) : Binary64 := .ofQuotient q f.unit

/-- The least number of the format. -/
def minValue (f : QFormat) : Binary64 := f.toRational f.minInt

/-- The greatest number of the format. -/
def maxValue (f : QFormat) : Binary64 := f.toRational f.maxInt

/-- The distance between neighbouring numbers of the format. -/
def resolution (f : QFormat) : Binary64 := .ofQuotient 1 f.unit

/-! ### Quantization -/

/-- A number in units of the format, rounded to an integer, ties away from zero. -/
def scaled (f : QFormat) (v : Binary64) : Binary64 := (v.scale f.fracBits).round

/-- The stored integer of a number. -/
def quantize (f : QFormat) (v : Binary64) : Except QError Int :=
  match (v.scale f.fracBits).roundInt? with
  | some q => if f.contains q then .ok q else .error (.outOfRange v (f.scaled v) f.minInt f.maxInt)
  | none => .error (.outOfRange v (f.scaled v) f.minInt f.maxInt)

/-- The stored integer nearest to a number; from where the rounded number reaches an end of the range, this end. The
ends are rounded to floating-point numbers before they are compared; what is no number is stored as zero. -/
def quantizeSaturating (f : QFormat) (v : Binary64) : Int :=
  if (f.scaled v).le (.ofInt f.minInt) then f.minInt
  else if (Binary64.ofInt f.maxInt).le (f.scaled v) then f.maxInt
  else (f.scaled v).toWord

/-- The stored integers of a list of numbers, or the first refusal. -/
def quantizeAll (f : QFormat) : List Binary64 → Except QError (List Int)
  | [] => .ok []
  | v :: vs => do return (← f.quantize v) :: (← f.quantizeAll vs)

/-- The number a quantized number means. -/
def roundTrip (f : QFormat) (v : Binary64) : Except QError Binary64 :=
  (f.quantize v).map f.toRational

/-! ### Bit strings -/

/-- The bit string of a stored integer. -/
def encodeInt (f : QFormat) (q : Int) : Except QError Bits :=
  if f.contains q then .ok (.ofInt q f.totalBits)
  else .error (.outOfRange (f.toRational q) (.ofInt q) f.minInt f.maxInt)

/-- The bit string of a number. -/
def encode (f : QFormat) (v : Binary64) : Except QError Bits :=
  (f.quantize v).map (Bits.ofInt · f.totalBits)

/-- The stored integer of a bit string. -/
def decodeInt (f : QFormat) (b : Bits) : Except QError Int :=
  if b.width = f.totalBits then b.toInt.mapError .invalidBits
  else .error (.widthMismatch f.totalBits b.width b.text)

/-- The number a bit string means. -/
def decode (f : QFormat) (b : Bits) : Except QError Binary64 := (f.decodeInt b).map f.toRational

/-- The number a text of a bit string means; blanks around it do not count. -/
def decodeText (f : QFormat) (s : String) : Except QError Binary64 := do
  f.decode (← (Bits.parse (Text.trim s)).mapError .invalidBits)

/-! ### Multiply-accumulate -/

/-- The sum of products of two equally long lists, added to a 128-bit accumulator in order. -/
def accumulate (f : QFormat) : (sum : Int) → List (Binary64 × Binary64) → Checked QError Int
  | sum, [] => .ok sum
  | sum, (a, b) :: rest => do
    let x ← Checked.lift id (f.quantize a)
    let y ← Checked.lift id (f.quantize b)
    let product ← Checked.signedMul 128 x y
    let sum ← Checked.signedAdd 128 sum product
    f.accumulate sum rest

/-- The stored integer the hardware computes for the inner product of two lists. -/
def macInt (f : QFormat) (a b : List Binary64) : Checked QError Int := do
  if a.length ≠ b.length then Checked.refuse (.lengthMismatch a.length b.length)
  let sum ← f.accumulate 0 (a.zip b)
  return f.clamp (sum.tdiv f.unit)

/-- The number the hardware computes for the inner product of two lists. -/
def mac (f : QFormat) (a b : List Binary64) : Checked QError Binary64 :=
  (f.macInt a b).map f.toRational

end QFormat

end QuantNet
