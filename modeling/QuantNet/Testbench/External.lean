import QuantNet.Design
import QuantNet.Output.Disk
import QuantNet.Testbench.Error

/-!
# External simulators

A simulator program that imports source files, elaborates a design and runs it.

## The model

What a program does with its arguments is no business of the library: a shell answers with the
exit code and the printed text, or says that there is no such program. A program is started in the
working directory, which must exist, and no word of a command holds the character zero. The sources are all source files below that directory, in the
order of their paths.
-/

namespace QuantNet

/-- What a finished program leaves. -/
structure Completion where
  /-- The exit code; nought stands for success. -/
  code : Nat
  /-- The text on standard output. -/
  out : String
  /-- The text on standard error. -/
  err : String
deriving DecidableEq

/-- How programs answer to their arguments, if they exist. -/
abbrev Shell := (program : String) → (arguments : List String) → Option Completion

/-- The state of an external simulator. -/
structure ExternalSimulator where
  /-- The working directory. -/
  directory : String
  /-- The name of the design to run. -/
  top : String
  /-- The program. -/
  program : String := "ghdl"
  /-- The version of the language that the sources are written in. -/
  standard : String := "08"
  /-- The lines printed by the last run. -/
  output : List String := []

namespace ExternalSimulator

/-- Whether a name is that of a source file; the extension alone is no name. -/
def isSource (name : String) : Bool :=
  match Text.after? Emission.extension.toList.reverse name.toList.reverse with
  | some stem => !stem.isEmpty
  | none => false

/-- The paths of the source files of a folder, in order. -/
def sources (folder : Tree) : List String :=
  ((folder.files.filter fun f => f.1.getLast?.any isSource).map fun f => "/".intercalate f.1).mergeSort
    (fun a b => a ≤ b)

/-- The argument that names the version of the language. -/
def standardFlag (s : ExternalSimulator) : String := "--std=" ++ s.standard

/-- Whether a word can stand in a command. -/
def isWord (word : String) : Bool := !word.toList.contains '\x00'

/-- The lines a program prints for arguments. -/
def execute (s : ExternalSimulator) (shell : Shell) (d : Disk) (arguments : List String) :
    Except TestbenchError (List String) :=
  let command := s.program ++ " " ++ " ".intercalate arguments
  if !(s.program :: s.directory :: arguments).all isWord then
    .error (.simulator command "nul byte found in provided data")
  else
    match d.openFolder s.directory with
    | .error cause => .error (.simulator command cause.message)
    | .ok _ => match shell s.program arguments with
      | none => .error (.simulator command IoError.notFound.message)
      | some result =>
        let lines := Text.lines result.out ++ Text.lines result.err
        if result.code = 0 then .ok lines
        else .error (.simulator command
          ("exit status: " ++ Text.ofNat result.code ++ "\n" ++ "\n".intercalate lines))

/-! ### Calls -/

/-- The simulator after it has imported the sources and elaborated the design. -/
def prepare (s : ExternalSimulator) (shell : Shell) (d : Disk) :
    Except TestbenchError ExternalSimulator := do
  let folder ← (d.openFolder s.directory).mapError (.io s.directory)
  let _ ← s.execute shell d (["-i", s.standardFlag] ++ sources folder)
  let _ ← s.execute shell d ["-m", s.standardFlag, s.top]
  return s

/-- The simulator after a run of the design. -/
def run (s : ExternalSimulator) (shell : Shell) (d : Disk) : Except TestbenchError ExternalSimulator := do
  let output ← s.execute shell d ["-r", s.standardFlag, s.top]
  return { s with output }

end ExternalSimulator

end QuantNet
