import QuantNet.Config.Reader
import QuantNet.Network
import QuantNet.Output.Manifest
import QuantNet.Testbench.Basic

/-!
# Builds

From a configuration to the files of its circuit.

## The model

A build makes the network, wires it, and writes into an empty file set the network with its layers,
then the wrapper, then the testbench. The first refusal ends the build, and no file set comes out of
it. Only a finished file set is stored on a disk.
-/

namespace QuantNet

/-- Why a build has no result. -/
inductive BuildError where
  /-- The configuration is refused. -/
  | config (cause : ConfigError)
  /-- A layer or the network cannot be made. -/
  | layer (cause : LayerError)
  /-- Wiring or writing is refused. -/
  | design (cause : DesignError)
deriving DecidableEq

/-- The text of a build error. -/
def BuildError.message : BuildError → String
  | config cause => cause.message
  | layer cause => cause.message
  | design cause => cause.message

/-- The result of a build. -/
structure Build where
  /-- The configuration. -/
  config : Config
  /-- The files. -/
  files : FileSet
  /-- The wiring of the network. -/
  connections : Connections

namespace Build

/-- The convolution of a name, with the number format of the network. -/
def configuredConv1d (c : Config) (name : String) : Checked BuildError (Conv1d × QFormat) := do
  let f ← Checked.lift .config c.format
  let settings ← Checked.lift .config (c.findConv1d name)
  let layer ← Checked.within .layer (settings.layer f c.output.romStyle)
  return (layer, f)

/-- The file set after steps in order. -/
def emit (files : FileSet) (emissions : List Emission) : Checked BuildError FileSet :=
  match Emission.runAll files emissions with
  | (files, .ok ()) => .ok files
  | (_, .error cause) => Checked.refuse (.design cause)

/-- The file set after the wrapper is written, if there is one. -/
def emitWrapper (c : Config) (network : Sequential) (files : FileSet) : Checked BuildError FileSet := do
  match ← Checked.within .layer (c.wrapper network) with
  | some skeleton => emit files skeleton.emissions
  | none => return files

/-- The file set after the testbench is written, if there is one. -/
def emitTestbench (c : Config) (files : FileSet) : Checked BuildError FileSet :=
  match c.testbench with
  | none => .ok files
  | some settings => do
    let (layer, f) ← configuredConv1d c settings.uut
    let testbench ← Testbench.make settings.name layer.underTest f
    emit files testbench.emissions

/-- The build of a configuration. -/
def ofConfig (c : Config) : Checked BuildError Build := do
  let network ← Checked.within .layer c.sequential
  let connections ← Checked.lift .design network.connections
  let files ← emit Table.empty network.design.emissions
  let files ← emitWrapper c network files
  let files ← emitTestbench c files
  return ⟨c, files, connections⟩

/-- The build of the configuration that a text describes. -/
def ofText (s : String) : Checked BuildError Build := do
  let c ← Checked.lift .config (Config.ofText s)
  ofConfig c

/-- The text of a configuration that puts the given layers under a network of a format. -/
def textOver (totalBits fracBits : Int) (strictWidths : Bool) (layers : String) : String :=
  "\n[network]\nname = \"net\"\ntotal_bits = " ++ Text.ofInt totalBits ++ "\nfrac_bits = " ++
    Text.ofInt fracBits ++ "\nstrict_widths = " ++ (if strictWidths then "true" else "false") ++
    "\n\n" ++ layers ++ "\n"

end Build

end QuantNet
