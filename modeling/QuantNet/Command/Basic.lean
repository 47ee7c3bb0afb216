import QuantNet.Command.Arguments
import QuantNet.Testbench.Report

/-!
# Commands

What the program can be asked to do, and the command line that asks for it.

## The model

A command line holds options that all commands know, the name of a command, and its own options
and operands. A command whose required parts are missing is a misuse, like any other defect of the
arguments. Instead of a command one can ask for help, on one command or on all of them.
-/

namespace QuantNet

open Arguments

/-- The declared numbers of bits of a format. -/
structure FormatArguments where
  /-- The width. -/
  totalBits : Int
  /-- The number of bits after the binary point. -/
  fracBits : Int
deriving DecidableEq

/-- How a report is printed. -/
inductive ReportLayout where
  /-- One line per group. -/
  | text
  /-- As data. -/
  | json
deriving DecidableEq

/-- What the program can be asked to do. -/
inductive Command where
  /-- Generate the files of a network. -/
  | build (config out : Option String)
  /-- Encode numbers. -/
  | encode (format : FormatArguments) (values : List Binary64)
  /-- Decode bit strings. -/
  | decode (format : FormatArguments) (bits : List String)
  /-- Multiply and accumulate. -/
  | mac (format : FormatArguments) (a b : List Binary64)
  /-- Decode the report of a simulation. -/
  | report (format : FormatArguments) (file : String) (convention : ReportConvention)
      (layout : ReportLayout)
deriving DecidableEq

/-- A command with the options that all commands know. -/
structure Invocation where
  /-- Whether only errors are shown. -/
  quiet : Bool
  /-- Whether more than usual is shown. -/
  verbose : Bool
  /-- The command. -/
  command : Command
deriving DecidableEq

namespace Command

/-! ### Rules -/

/-- The options that every command line may have. -/
def common : List Declaration :=
  [⟨"quiet", some 'q', .flag, false, false⟩, ⟨"verbose", some 'v', .flag, false, false⟩,
    ⟨"help", some 'h', .help, false, false⟩]

/-- The options of a number format. -/
def formatOptions : List Declaration :=
  [{ name := "total-bits", role := .value .integer }, { name := "frac-bits", role := .value .integer }]

/-- The option of an operand vector. -/
def vectorOption (name : String) : Declaration :=
  { name, role := .value .numbers, anyValue := true, repeats := true }

/-- The rules in front of the name of a command. -/
def rootRules : Rules := ⟨common ++ [⟨"version", some 'V', .version, false, false⟩], .none⟩

/-- The rules of a command. -/
def rules? : String → Option Rules
  | "build" => some ⟨common ++ [{ name := "config", letter := some 'c' }, { name := "out", letter := some 'o' }], .none⟩
  | "encode" => some ⟨common ++ formatOptions, .many .number true⟩
  | "decode" => some ⟨common ++ formatOptions, .many .text false⟩
  | "mac" => some ⟨common ++ formatOptions ++ [vectorOption "a", vectorOption "b"], .none⟩
  | "report" =>
    some ⟨common ++ formatOptions ++ [{ name := "batched", role := .flag },
      { name := "format", letter := some 'f', role := .value (.choice ["text", "json"]) }], .one⟩
  | _ => none

/-! ### Parts -/

/-- A part that must be there. -/
def need {α : Type} : Option α → Except Stop α
  | some a => .ok a
  | none => .error .misuse

/-- The integer of an option. -/
def integer (given : Given) (name : String) : Except Stop Int :=
  need ((given.value? name).bind fun s => Text.word? s.toList)

/-- The number format. -/
def format (given : Given) : Except Stop FormatArguments := do
  return ⟨← integer given "total-bits", ← integer given "frac-bits"⟩

/-- Numbers, of which there must be one. -/
def numbers (texts : List String) : Except Stop (List Binary64) :=
  if texts.isEmpty then .error .misuse else need (texts.mapM Binary64.parse?)

/-- The operand of a multiply-accumulate, with commas between its numbers. -/
def vector (given : Given) (name : String) : Except Stop (List Binary64) :=
  numbers ((given.values name).flatMap (Text.fields ','))

/-- How a report is to be printed. -/
def layout (given : Given) : Except Stop ReportLayout :=
  match given.value? "format" with
  | none => .ok .text
  | some "text" => .ok .text
  | some "json" => .ok .json
  | some _ => .error .misuse

/-- The command of a name with what was given for it. -/
def ofGiven (name : String) (given : Given) : Except Stop Command :=
  match name with
  | "build" => .ok (.build (given.value? "config") (given.value? "out"))
  | "encode" => do return .encode (← format given) (← numbers given.operands)
  | "decode" => do
    let f ← format given
    if given.operands.isEmpty then .error .misuse else return .decode f given.operands
  | "mac" => do return .mac (← format given) (← vector given "a") (← vector given "b")
  | "report" => do
    return .report (← format given) (← need given.operands.head?)
      (if given.has "batched" then .batched else .perLine) (← layout given)
  | _ => .error .misuse

end Command

namespace Invocation

/-- The end of a command line that asks for help on what the arguments name. No command has commands
of its own. -/
def help : List String → Stop
  | [] => .help
  | [name] => if name = "help" ∨ (Command.rules? name).isSome then .help else .misuse
  | _ => .misuse

/-- What was given in front of the name of a command, the name, and the arguments after it. -/
def readCommand : Given → List String → Except Stop (Given × String × List String)
  | _, [] => .error .misuse
  | given, argument :: rest =>
    if (Command.rules? argument).isSome then .ok (given, argument, rest)
    else if argument = "help" then .error (help rest)
    else do
      match ← readArgument Command.rootRules given argument with
      | (given, none) => readCommand given rest
      | (_, some _) => .error .misuse

/-- What a command line asks for. -/
def ofArguments (arguments : List String) : Except Stop Invocation := do
  let (root, name, rest) ← readCommand {} arguments
  let given ← Arguments.read (← Command.need (Command.rules? name)) {} rest
  return {
    quiet := root.has "quiet" || given.has "quiet"
    verbose := root.has "verbose" || given.has "verbose"
    command := ← Command.ofGiven name given }

end Invocation

end QuantNet
