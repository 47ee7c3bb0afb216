/-!
# Nine-valued logic

The values a wire can show in a simulation, with the characters that stand for them. A
generated circuit drives only `0` and `1`, but a report may hold any of the nine, most often
`U` for a register that was never written.
-/

namespace QuantNet

/-- A value on a wire. -/
inductive Logic where
  /-- Never driven, `U`. -/
  | uninitialized
  /-- Driven to both levels at once, `X`. -/
  | unknown
  /-- Low, `0`. -/
  | zero
  /-- High, `1`. -/
  | one
  /-- Not driven, `Z`. -/
  | highImpedance
  /-- Weakly driven to both levels, `W`. -/
  | weakUnknown
  /-- Weakly low, `L`. -/
  | weakZero
  /-- Weakly high, `H`. -/
  | weakOne
  /-- Of no interest, `-`. -/
  | dontCare
deriving DecidableEq

namespace Logic

/-- The character of a value. -/
def toChar : Logic → Char
  | uninitialized => 'U'
  | unknown => 'X'
  | zero => '0'
  | one => '1'
  | highImpedance => 'Z'
  | weakUnknown => 'W'
  | weakZero => 'L'
  | weakOne => 'H'
  | dontCare => '-'

/-- The value a character stands for; letters count in either case. -/
def ofChar? : Char → Option Logic
  | 'U' | 'u' => some uninitialized
  | 'X' | 'x' => some unknown
  | '0' => some zero
  | '1' => some one
  | 'Z' | 'z' => some highImpedance
  | 'W' | 'w' => some weakUnknown
  | 'L' | 'l' => some weakZero
  | 'H' | 'h' => some weakOne
  | '-' => some dontCare
  | _ => none

/-- The level of a value, strong or weak; the other values have none. -/
def level? : Logic → Option Bool
  | zero | weakZero => some false
  | one | weakOne => some true
  | _ => none

/-- The strong value of a level. -/
def ofBool (b : Bool) : Logic := if b then one else zero

/-- All values, in the order of the standard. -/
def all : List Logic :=
  [uninitialized, unknown, zero, one, highImpedance, weakUnknown, weakZero, weakOne, dontCare]

/-- The name a value is stored under. -/
def name : Logic → String
  | uninitialized => "Uninitialized"
  | unknown => "X"
  | zero => "Zero"
  | one => "One"
  | highImpedance => "Z"
  | weakUnknown => "WeakUnknown"
  | weakZero => "WeakZero"
  | weakOne => "WeakOne"
  | dontCare => "DontCare"

@[simp] theorem ofChar?_toChar (v : Logic) : ofChar? v.toChar = some v := by
  cases v <;> rfl

@[simp] theorem level?_ofBool (b : Bool) : (ofBool b).level? = some b := by
  cases b <;> rfl

end Logic

end QuantNet
