import QuantNet.Binary64.Basic
import QuantNet.Text

/-!
# Settings values

The values of the settings format, and what the parts of a program read off them.

## The model

A table maps names to values in no particular order. A date or time is recognized, but no setting
is one, so its content is not kept. A record is a fixed list of named fields: it is read from a
table by name, names that are no fields being ignored, or from a list by position. A date or time
counts as a record in which every field is left out.
-/

namespace QuantNet.Toml

/-- A value of the settings format. -/
inductive Value where
  /-- A text. -/
  | string (text : String)
  /-- An integer. -/
  | integer (value : Int)
  /-- A floating-point number. -/
  | float (value : Binary64)
  /-- A truth value. -/
  | boolean (value : Bool)
  /-- A date, a time of day, or both. -/
  | moment
  /-- A list. -/
  | array (items : List Value)
  /-- A table. -/
  | table (entries : List (String × Value))

namespace Value

/-- The text, if the value is one. -/
def string? : Value → Option String
  | string s => some s
  | _ => none

/-- The integer, if the value is one. -/
def integer? : Value → Option Int
  | integer n => some n
  | _ => none

/-- The natural number, if the value is an integer that is not negative. -/
def natural? : Value → Option Nat
  | integer (.ofNat n) => some n
  | _ => none

/-- The byte, if the value is an integer in its range. -/
def byte? (v : Value) : Option UInt8 :=
  v.natural?.bind fun n => if n < 256 then some (UInt8.ofNat n) else none

/-- The number, if the value is one; an integer counts as the nearest floating-point number. -/
def number? : Value → Option Binary64
  | float x => some x
  | integer n => some (.ofInt n)
  | _ => none

/-- The truth value, if the value is one. -/
def boolean? : Value → Option Bool
  | boolean b => some b
  | _ => none

/-- The elements of a list, each read by `f`. -/
def list? {α : Type} (f : Value → Option α) : Value → Option (List α)
  | array vs => vs.mapM f
  | _ => none

/-- The fields of a record, each missing or present. -/
def record? (names : List String) : Value → Option (List (Option Value))
  | table entries => some (names.map fun name => entries.lookup name)
  | array items => some ((List.range names.length).map fun i => items[i]?)
  | moment => some (names.map fun _ => none)
  | _ => none

end Value

/-! ### Fields of records -/

/-- A field that must be present. -/
def required {α : Type} (f : Value → Option α) (field : Option Value) : Option α := field.bind f

/-- A field that counts as `default` when it is left out. -/
def optional {α : Type} (default : α) (f : Value → Option α) : Option Value → Option α
  | some v => f v
  | none => some default

end QuantNet.Toml
