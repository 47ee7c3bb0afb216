import QuantNet.Json.Basic
import QuantNet.Testbench.Error
import QuantNet.UnsignedCode

/-!
# Reports

The values that a simulation prints.

## The model

A report is a list of lines. A line that starts with the result mark, blanks apart, holds results;
all others are ignored. There are two conventions. Either every field between the commas is a
value, and all values make one group; or a line holds a batch index, one value and possibly a
status, and the values of each batch make a group, the groups in the order in which their batches
first appear. A value with a status, or with a bit that is not defined, is kept as it is written.
-/

namespace QuantNet

/-- How the results of a report are laid out. -/
inductive ReportConvention where
  /-- Every field is a value. -/
  | perLine
  /-- Every line holds a batch index and a value. -/
  | batched
deriving DecidableEq

/-- A value of a report. -/
inductive ReportedValue where
  /-- A number. -/
  | number (value : Binary64)
  /-- A value without a number, as it is written. -/
  | raw (text : String)
deriving DecidableEq

namespace ReportedValue

/-- The number of a value. -/
def number? : ReportedValue → Option Binary64
  | number x => some x
  | raw _ => none

/-- The text of a value. -/
def text : ReportedValue → String
  | number x => x.text
  | raw s => s

/-- The value as data: a numeral, or the text of a value without a number. -/
def toJson : ReportedValue → Json
  | number (.finite negative m e h) => .real (Binary64.finite negative m e h).dataText
  | number _ => .null
  | raw s => .string s

end ReportedValue

namespace Report

/-- What a line with results starts with. -/
def mark : String := "result: "

/-- What follows the mark in every line with results. -/
def results (lines : List String) : List String :=
  lines.filterMap fun line => Text.dropStart? mark (Text.trim line)

/-- The value of a field. -/
def decodeValue (f : QFormat) (field : String) : Except QError ReportedValue := do
  let bits ← (Bits.parse (Text.trim field)).mapError .invalidBits
  if bits.isDefined then return .number (← f.decode bits) else return .raw (Text.trim field)

/-! ### Values in one group -/

/-- The values of all fields in order. -/
def decodeFields (f : QFormat) (results : List String) : Except TestbenchError (List ReportedValue) :=
  ((results.flatMap (Text.fields ',')).mapM (decodeValue f)).mapError .quantization

/-! ### Values by batch -/

/-- The batch index and the value of a line. -/
def decodeEntry (f : QFormat) (result : String) : Except TestbenchError (Nat × ReportedValue) :=
  match Text.fields ',' result with
  | [batch, value] => do
    let index ← (UnsignedCode.batchIndex.decodeText batch).mapError .quantization
    return (index, ← (decodeValue f value).mapError .quantization)
  | [batch, value, _] => do
    let index ← (UnsignedCode.batchIndex.decodeText batch).mapError .quantization
    return (index, .raw (Text.trim value))
  | _ => .error (.malformedLine (mark ++ result))

/-- The groups with a value added at the end of its group; a new group comes last. -/
def addTo (index : Nat) (value : ReportedValue) :
    List (Nat × List ReportedValue) → List (Nat × List ReportedValue)
  | [] => [(index, [value])]
  | (i, values) :: rest =>
    if i = index then (i, values ++ [value]) :: rest else (i, values) :: addTo index value rest

/-- The groups of values with a batch index. -/
def groups (entries : List (Nat × ReportedValue)) : List (Nat × List ReportedValue) :=
  entries.foldl (fun gs e => addTo e.1 e.2 gs) []

/-! ### Decoding -/

/-- The groups of values of a report. -/
def decode (f : QFormat) (convention : ReportConvention) (lines : List String) :
    Except TestbenchError (List (List ReportedValue)) :=
  let found := results lines
  if found.isEmpty then .error (.noResults lines)
  else match convention with
    | .perLine => (decodeFields f found).map fun group => [group]
    | .batched => (found.mapM (decodeEntry f)).map fun entries => (groups entries).map (·.2)

end Report

end QuantNet
