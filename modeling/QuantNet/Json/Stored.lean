import QuantNet.Bits
import QuantNet.Json.Basic
import QuantNet.QFormat

/-!
# Stored numbers

Bit strings and formats as data. A value read from data satisfies the same conditions as one that
is made directly: a format with impossible numbers of bits is not read.
-/

namespace QuantNet

namespace Logic

/-- The value of a name. -/
def ofName? (name : String) : Option Logic := all.find? fun v => v.name = name

/-- The value as data. -/
def toJson (v : Logic) : Json := .string v.name

/-- The value stored in data. -/
def ofJson? (v : Json) : Option Logic := v.alternative?.bind ofName?

end Logic

namespace Bits

/-- The bit string as data. -/
def toJson (b : Bits) : Json := .object [("values", .array (b.values.map Logic.toJson))]

/-- The bit string stored in data. -/
def ofJson? (v : Json) : Option Bits := do
  match ← v.fields? ["values"] with
  | [values] => return ⟨← values.items? Logic.ofJson?⟩
  | _ => none

end Bits

namespace QFormat

/-- The format as data. -/
def toJson (f : QFormat) : Json :=
  .object [("total_bits", .integer f.totalBits), ("frac_bits", .integer f.fracBits)]

/-- The format stored in data: two 64-bit integers that make a format. -/
def ofJson? (v : Json) : Option QFormat := do
  match ← v.fields? ["total_bits", "frac_bits"] with
  | [totalBits, fracBits] =>
    let total ← totalBits.integer? (-(twoPow 63 : Int)) (twoPow 63 - 1 : Int)
    let frac ← fracBits.integer? (-(twoPow 63 : Int)) (twoPow 63 - 1 : Int)
    match ofInts total frac with
    | .ok f => some f
    | .error _ => none
  | _ => none

end QFormat

end QuantNet
