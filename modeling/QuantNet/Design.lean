import QuantNet.Output.FileSet
import QuantNet.Port
import QuantNet.Template

/-!
# Designs

Components that can be placed in a network and written as source files.

## The model

A design is data: its name, its port, and the list of steps by which it writes itself below a
place. A step opens a folder, writes a source file, or refuses to go on. Steps are taken in
order; a refused step ends the writing and leaves what was written before it.
-/

namespace QuantNet

/-- One step of writing a design, seen from the place where the design is written. -/
inductive Emission where
  /-- Open a folder. -/
  | folder (parent : Place) (name : String)
  /-- Write a source file. -/
  | file (parent : Place) (name : String) (lines : List String)
  /-- Refuse to go on. -/
  | refuse (cause : DesignError)
deriving DecidableEq

namespace Emission

/-- What a source file is called after its name. -/
def extension : String := ".vhd"

/-- The step seen from the folder above. -/
def below (name : String) : Emission → Emission
  | folder parent n => folder (name :: parent) n
  | file parent n lines => file (name :: parent) n lines
  | refuse cause => refuse cause

/-- The file set after a step. -/
def run (files : FileSet) : Emission → Except DesignError FileSet
  | folder parent name => ((Place.sub parent name).mapError .output).map fun _ => files
  | file parent name lines =>
    ((Place.sub parent name).bind fun place => files.write place extension lines).mapError .output
  | refuse cause => .error cause

/-- The file set after steps in order, as far as they got, and the outcome. -/
def runAll : FileSet → List Emission → FileSet × Except DesignError Unit
  | files, [] => (files, .ok ())
  | files, e :: rest =>
    match e.run files with
    | .ok files => runAll files rest
    | .error cause => (files, .error cause)

end Emission

/-- A component of a network. -/
structure Design where
  /-- The name of the component and of its file. -/
  name : String
  /-- The signals on its boundary. -/
  port : Port
  /-- The steps by which it is written. -/
  emissions : List Emission
deriving DecidableEq

namespace Design

/-- A component that takes no part in the circuit and has no file. -/
def null (name : String) : Design := ⟨name, .null, []⟩

/-- The step that writes the lines of a component, or the refusal to make them. -/
def emit (name : String) : Except OutputError (List String) → Emission
  | .ok lines => .file [] name lines
  | .error cause => .refuse (.output cause)

/-- The file set after a design is written at the root, as far as it got, and the outcome. -/
def persist (d : Design) (files : FileSet) : FileSet × Except DesignError Unit :=
  Emission.runAll files d.emissions

end Design

end QuantNet
