import QuantNet.Json.Basic
import QuantNet.Output.Error

/-!
# Ports

The signals on the boundary of a component, and the errors of composing components.

## The model

A port lists the signals a component takes in and the signals it gives out, each group in
declaration order and without repeated names. A signal of width zero is declared but absent: it
takes no part in wiring. Seven names are known to the wiring: `x` and `y` for data, `x_address`
and `y_address` for the buffers, `enable`, `done` and `clock` for control. An address has as many
wires as it takes to reach every word of its memory.
-/

namespace QuantNet

/-- The address bits of a memory with `count` words: the least width, one at the least, that
reaches every word. -/
def addressWidth (count : Nat) : Nat := if count ≤ 2 then 1 else (count - 1).log2 + 1

/-- Which way a signal goes. -/
inductive Direction where
  /-- Into the component. -/
  | input
  /-- Out of the component. -/
  | output
deriving DecidableEq

namespace Direction

/-- The word for a direction. -/
def text : Direction → String
  | input => "in"
  | output => "out"

/-- The direction a word stands for. -/
def ofText? : String → Option Direction
  | "in" => some input
  | "out" => some output
  | _ => none

/-- The direction as data. -/
def toJson (d : Direction) : Json := .string d.text

/-- The direction stored in data. -/
def ofJson? (v : Json) : Option Direction := v.alternative?.bind ofText?

end Direction

/-- A named signal of some width. -/
structure Signal where
  /-- The name. -/
  name : String
  /-- The number of wires; none means that the signal is absent. -/
  width : Nat
  /-- Which way it goes. -/
  direction : Direction
deriving DecidableEq

namespace Signal

/-- A signal into a component. -/
def input (name : String) (width : Nat) : Signal := ⟨name, width, .input⟩

/-- A signal out of a component. -/
def output (name : String) (width : Nat) : Signal := ⟨name, width, .output⟩

/-- Whether the signal has any wire. -/
def isPresent (s : Signal) : Bool := 0 < s.width

/-- The signal as data. -/
def toJson (s : Signal) : Json :=
  .object [("name", .string s.name), ("width", .integer s.width), ("direction", s.direction.toJson)]

/-- The signal stored in data. -/
def ofJson? (v : Json) : Option Signal := do
  match ← v.fields? ["name", "width", "direction"] with
  | [name, width, direction] =>
    return ⟨← name.string?, ← width.natural? (twoPow 32), ← Direction.ofJson? direction⟩
  | _ => none

end Signal

/-- Why components cannot be composed or stored. -/
inductive DesignError where
  /-- A group of a port has a name twice. -/
  | duplicateSignal (name : String) (direction : Direction)
  /-- A signal stands in the group of the other direction. -/
  | directionMismatch (name : String) (declared expected : Direction)
  /-- A signal and its source differ in width. -/
  | widthMismatch (sink source : String) (sinkWidth sourceWidth : Nat)
  /-- Two components of a composition have one name. -/
  | duplicateInstance (name : String)
  /-- The identifier of a skeleton has the wrong length. -/
  | invalidSkeletonId (version : String) (expected actual : Nat)
  /-- There is no such version of the skeleton. -/
  | unknownSkeletonVersion (version : String)
  /-- The output was refused. -/
  | output (cause : OutputError)
deriving DecidableEq

/-- The text of a composition error. -/
def DesignError.message : DesignError → String
  | duplicateSignal name direction => "duplicate " ++ direction.text ++ " signal '" ++ name ++ "'"
  | directionMismatch name declared expected =>
    "signal '" ++ name ++ "' declared " ++ declared.text ++ " but listed as " ++ expected.text
  | widthMismatch sink source sinkWidth sourceWidth =>
    "width mismatch wiring '" ++ sink ++ "' (" ++ Text.ofNat sinkWidth ++ " bits) <= '" ++ source ++
      "' (" ++ Text.ofNat sourceWidth ++ " bits)"
  | duplicateInstance name => "duplicate design name '" ++ name ++ "' in composition"
  | invalidSkeletonId version expected actual =>
    "skeleton " ++ version ++ " requires an id of " ++ Text.ofNat expected ++ " byte(s), got " ++
      Text.ofNat actual
  | unknownSkeletonVersion version => "skeleton version '" ++ version ++ "' does not exist"
  | output cause => cause.message

/-- The signals on the boundary of a component. -/
structure Port where
  /-- The signals into the component. -/
  incoming : List Signal
  /-- The signals out of the component. -/
  outgoing : List Signal
deriving DecidableEq

namespace Port

/-- The first signal of a group that has the other direction or a name already seen. -/
def checkGroup (expected : Direction) : (seen : List String) → List Signal → Except DesignError Unit
  | _, [] => .ok ()
  | seen, s :: rest =>
    if s.direction ≠ expected then .error (.directionMismatch s.name s.direction expected)
    else if s.name ∈ seen then .error (.duplicateSignal s.name expected)
    else checkGroup expected (s.name :: seen) rest

/-- The port with the given signals. -/
def ofSignals (incoming outgoing : List Signal) : Except DesignError Port := do
  checkGroup .input [] incoming
  checkGroup .output [] outgoing
  return ⟨incoming, outgoing⟩

/-- The port without signals. -/
def null : Port := ⟨[], []⟩

/-- The port of a component that the wiring understands. -/
def standard (xWidth yWidth xAddressWidth yAddressWidth : Nat) : Port where
  incoming := [.input "x" xWidth, .input "y_address" yAddressWidth, .input "clock" 1, .input "enable" 1]
  outgoing := [.output "y" yWidth, .output "x_address" xAddressWidth, .output "done" 1]

/-- The port of a component that reads `xCount` values and offers `yCount`. -/
def ofCounts (xWidth yWidth xCount yCount : Nat) : Port :=
  standard xWidth yWidth (addressWidth xCount) (addressWidth yCount)

/-- All signals, the incoming first. -/
def signals (p : Port) : List Signal := p.incoming ++ p.outgoing

/-- The signals with any wire. -/
def present (p : Port) : List Signal := p.signals.filter Signal.isPresent

/-- The first signal of a name. -/
def signal? (p : Port) (name : String) : Option Signal := p.signals.find? fun s => s.name = name

/-- The width of the first signal of a name, zero if there is none. -/
def widthOf (p : Port) (name : String) : Nat := ((p.signal? name).map Signal.width).getD 0

/-- Whether the port has no signals at all. -/
def isNull (p : Port) : Bool := p.incoming.isEmpty && p.outgoing.isEmpty

/-- The port as data. -/
def toJson (p : Port) : Json :=
  .object [("incoming", .array (p.incoming.map Signal.toJson)),
    ("outgoing", .array (p.outgoing.map Signal.toJson))]

/-- The port stored in data; the groups are taken as they are. -/
def ofJson? (v : Json) : Option Port := do
  match ← v.fields? ["incoming", "outgoing"] with
  | [incoming, outgoing] =>
    return ⟨← incoming.items? Signal.ofJson?, ← outgoing.items? Signal.ofJson?⟩
  | _ => none

end Port

end QuantNet
