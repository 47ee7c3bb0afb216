import QuantNet.Build
import QuantNet.Command.Action
import QuantNet.Command.Basic

/-!
# Running commands

What each command does and prints.

## The model

A run ends in one of four ways: it succeeds, it fails with a message, the arguments are misused, or
the arithmetic overflows. A build reads the configuration, makes all files, and only then has them
stored, so a build that fails before that stores nothing. It takes note of the manifest of the
previous build before it is overwritten.
-/

namespace QuantNet

/-- How a run ends. -/
inductive Exit where
  /-- It succeeds. -/
  | success
  /-- It fails with a message. -/
  | failure
  /-- The arguments are misused. -/
  | misuse
  /-- The arithmetic overflows. -/
  | overflow (operation : Arithmetic)
deriving DecidableEq

/-- The exit code. -/
def Exit.code : Exit → Nat
  | success => 0
  | failure => 1
  | misuse => 2
  | overflow _ => 101

/-- The end of a run, and what it prints. -/
structure Outcome where
  /-- How it ends. -/
  exit : Exit
  /-- The text on standard output. -/
  out : String := ""
  /-- The text on standard error. -/
  err : String := ""
deriving DecidableEq

namespace Outcome

/-- The success that prints lines. -/
def lines (lines : List String) : Outcome := ⟨.success, Text.ofLines lines, ""⟩

/-- The failure with a message, after what was shown before. -/
def failed (shown message : String) : Outcome := ⟨.failure, "", shown ++ "error: " ++ message ++ "\n"⟩

/-- The end of a run without a result, after what was shown before. -/
def ofFailure {ε : Type} (text : ε → String) (shown : String) : Failure ε → Outcome
  | .refused cause => failed shown (text cause)
  | .overflow operation => ⟨.overflow operation, "", shown ++ operation.overflowMessage ++ "\n"⟩

/-- The end of a computation that prints lines. -/
def ofChecked {ε : Type} (text : ε → String) : Checked ε (List String) → Outcome
  | .ok ls => lines ls
  | .error failure => ofFailure text "" failure

end Outcome

namespace Command

/-- The name of the program. -/
def program : String := "kiln"

/-- The version of the program. -/
def version : String := "0.1.0"

/-- How the program is used. -/
def usage : List String :=
  ["kiln quantized-circuit compiler", "",
    "Usage: kiln [-q] [-v] <command>", "",
    "  build [-c <config>] [-o <out>]",
    "  encode --total-bits <n> --frac-bits <n> <values>...",
    "  decode --total-bits <n> --frac-bits <n> <bits>...",
    "  mac --total-bits <n> --frac-bits <n> --a <values> --b <values>",
    "  report --total-bits <n> --frac-bits <n> [--batched] [-f text|json] <file>"]

/-! ### Numbers -/

/-- The number format that arguments give. -/
def formatOf (f : FormatArguments) : Except QError QFormat := QFormat.ofInts f.totalBits f.fracBits

/-- The bit strings of numbers. -/
def encodeLines (f : FormatArguments) (values : List Binary64) : Except QError (List String) := do
  let f ← formatOf f
  values.mapM fun x => (f.encode x).map Bits.text

/-- The numbers of bit strings. -/
def decodeLines (f : FormatArguments) (bits : List String) : Except QError (List String) := do
  let f ← formatOf f
  bits.mapM fun s => (f.decodeText s).map Binary64.text

/-- The number and the bit string of a multiply-accumulate. -/
def macLine (f : FormatArguments) (a b : List Binary64) : Checked QError String := do
  let f ← Checked.lift id (formatOf f)
  let q ← f.macInt a b
  let bits ← Checked.lift id (f.encodeInt q)
  return (f.toRational q).text ++ " " ++ bits.text

/-! ### Reports -/

/-- The lines that show groups of values. -/
def layOut (groups : List (List ReportedValue)) : ReportLayout → List String
  | .text => groups.map fun group => ", ".intercalate (group.map ReportedValue.text)
  | .json => [(Json.array (groups.map fun group => .array (group.map ReportedValue.toJson))).pretty]

/-- The lines that show the report in a text. -/
def reportLines (f : FormatArguments) (convention : ReportConvention) (layout : ReportLayout)
    (content : String) : Except TestbenchError (List String) := do
  let f ← (formatOf f).mapError .quantization
  return layOut (← Report.decode f convention (Text.lines content)) layout

/-- The run that shows a report. -/
def runReport (f : FormatArguments) (file : String) (convention : ReportConvention)
    (layout : ReportLayout) : Action Outcome :=
  .textOf file fun
    | .error cause => .done (.failed "" ("cannot read " ++ file ++ ": " ++ cause.message))
    | .ok content => .done (.ofChecked TestbenchError.message
        (Checked.lift id (reportLines f convention layout content)))

/-! ### Builds -/

/-- What is shown before a build, unless it is quiet. -/
def announcement (quiet : Bool) (c : Config) (f : QFormat) : String :=
  if quiet then ""
  else "   Building " ++ c.network.name ++ " (" ++ Text.ofNat c.layers.length ++ " layers, " ++
    f.text ++ ")\n"

/-- What is shown after a build: the files that changed since the previous one if that was made by
this version, and how many files there are. -/
def summary (quiet verbose : Bool) (previous : Option Manifest) (manifest : Manifest)
    (directory : String) : String :=
  let changed := match previous with
    | some p => if verbose && p.isCompatible version then manifest.changedSince p else []
    | none => []
  String.join (changed.map fun path => "   Changed " ++ path ++ "\n") ++
    (if quiet then ""
     else "  Finished " ++ Text.ofNat manifest.files.size ++ " files in " ++ directory ++ "\n")

/-- The run that stores the files of a build. -/
def install (quiet verbose : Bool) (shown : String) (files : FileSet) (directory : String) :
    Action Outcome :=
  .textOf (Path.join directory Manifest.fileName) fun found =>
  .install files directory version fun
    | .error cause => .done (.failed shown cause.message)
    | .ok manifest =>
      .done ⟨.success, manifest.digest.text ++ "\n",
        shown ++ summary quiet verbose (Manifest.ofOutcome? found) manifest directory⟩

/-- The run that builds a configuration found under a path. -/
def buildConfig (quiet verbose : Bool) (out : Option String) (path : String) (c : Config) :
    Action Outcome :=
  match c.format with
  | .error cause => .done (.failed "" cause.message)
  | .ok f =>
    let shown := announcement quiet c f
    match Build.ofConfig c with
    | .error failure => .done (.ofFailure BuildError.message shown failure)
    | .ok result =>
      install quiet verbose shown result.files (c.outputDirectory ((Path.parent? path).getD ".") out)

/-- The run that builds the configuration that is named, or that of the working directory. A folder
stands for the configuration in it. -/
def runBuild (quiet verbose : Bool) (directory : String) (config out : Option String) : Action Outcome :=
  let named := config.getD (Path.join directory Config.fileName)
  .isFolder named fun folder =>
  let path := if folder then Path.join named Config.fileName else named
  .textOf path fun found =>
  match Config.ofOutcome path found with
  | .error cause => .done (.failed "" cause.message)
  | .ok c => buildConfig quiet verbose out path c

end Command

/-- The run of a command in a working directory. -/
def Invocation.run (directory : String) (i : Invocation) : Action Outcome :=
  match i.command with
  | .build config out => Command.runBuild i.quiet i.verbose directory config out
  | .encode f values =>
    .done (.ofChecked QError.message (Checked.lift id (Command.encodeLines f values)))
  | .decode f bits => .done (.ofChecked QError.message (Checked.lift id (Command.decodeLines f bits)))
  | .mac f a b => .done (.ofChecked QError.message ((Command.macLine f a b).map fun line => [line]))
  | .report f file convention layout => Command.runReport f file convention layout

/-- The run of a command line in a working directory. -/
def runArguments (directory : String) (arguments : List String) : Action Outcome :=
  match Invocation.ofArguments arguments with
  | .ok i => i.run directory
  | .error .version => .done (.lines [Command.program ++ " " ++ Command.version])
  | .error .help => .done (.lines Command.usage)
  | .error .misuse => .done ⟨.misuse, "", Text.ofLines Command.usage⟩

end QuantNet
