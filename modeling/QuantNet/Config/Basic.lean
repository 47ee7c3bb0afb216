import QuantNet.Config.Error
import QuantNet.Failure
import QuantNet.Output.Path
import QuantNet.Skeleton

/-!
# Configurations

The description of a network: its number format, its layers with their trained parameters, and
what is generated beside it.

## The model

A configuration holds what the user wrote, checked or not. The counts of values that a layer reads
and writes are products of declared sizes, so they are checked computations.
-/

namespace QuantNet

/-! ### Settings -/

/-- What is set for the network as a whole. -/
structure NetworkSettings where
  /-- The name of the network. -/
  name : String
  /-- The declared width of every number. -/
  totalBits : Int
  /-- The declared number of bits after the binary point. -/
  fracBits : Int
  /-- Whether connected signals must have equal widths. -/
  strictWidths : Bool
deriving DecidableEq

/-- What is set for a fully connected layer. -/
structure LinearSettings where
  /-- The name of the layer. -/
  name : String
  /-- How many inputs it has. -/
  inFeatures : Nat
  /-- How many outputs it has. -/
  outFeatures : Nat
  /-- The weights, one row per output. -/
  weights : List (List Binary64)
  /-- The bias, one per output, or none at all. -/
  bias : List Binary64
deriving DecidableEq

/-- What is set for a convolution. -/
structure Conv1dSettings where
  /-- The name of the layer. -/
  name : String
  /-- How many channels go in. -/
  inChannels : Nat
  /-- How many channels come out. -/
  outChannels : Nat
  /-- The length of each input channel. -/
  signalLength : Nat
  /-- The length of the window. -/
  kernelSize : Nat
  /-- The taps, per output channel and input channel. -/
  weights : List (List (List Binary64))
  /-- The bias, one per output channel, or none at all. -/
  bias : List Binary64
deriving DecidableEq

/-- What is set for a layer. -/
inductive LayerSettings where
  /-- A fully connected layer. -/
  | linear (settings : LinearSettings)
  /-- A convolution. -/
  | conv1d (settings : Conv1dSettings)
  /-- A hard sigmoid. -/
  | hardSigmoid (name : String)
  /-- A sigmoid-weighted unit. -/
  | silu (name : String)
  /-- A change of shape, which needs no circuit. -/
  | flatten (name : String)
deriving DecidableEq

/-- What is set for the wrapper of the network. -/
structure SkeletonSettings where
  /-- The version. -/
  version : SkeletonVersion
  /-- The identifier. -/
  id : List UInt8
  /-- How many values go in, if it is not left to the layers. -/
  xCount : Option Nat
  /-- How many values come out, if it is not left to the layers. -/
  yCount : Option Nat
deriving DecidableEq

/-- What is set for the testbench. -/
structure TestbenchSettings where
  /-- The name of the testbench. -/
  name : String
  /-- The convolution under test. -/
  uut : String
deriving DecidableEq

/-- What is set for the output. -/
structure OutputSettings where
  /-- The output directory. -/
  directory : String
  /-- The synthesis hint of the memories. -/
  romStyle : String
deriving DecidableEq

/-- The output settings of a configuration that has none. -/
def OutputSettings.standard : OutputSettings := ⟨"build", "auto"⟩

/-- The description of a network. -/
structure Config where
  /-- The network as a whole. -/
  network : NetworkSettings
  /-- The layers, in the order of the data. -/
  layers : List LayerSettings
  /-- The wrapper, if there is one. -/
  skeleton : Option SkeletonSettings
  /-- The testbench, if there is one. -/
  testbench : Option TestbenchSettings
  /-- The output. -/
  output : OutputSettings
deriving DecidableEq

namespace LayerSettings

/-- The name of a layer. -/
def name : LayerSettings → String
  | linear s => s.name
  | conv1d s => s.name
  | hardSigmoid name => name
  | silu name => name
  | flatten name => name

/-- The word for the kind of a layer. -/
def kind : LayerSettings → String
  | linear _ => "linear"
  | conv1d _ => "conv1d"
  | hardSigmoid _ => "hard_sigmoid"
  | silu _ => "silu"
  | flatten _ => "flatten"

/-- How many values a layer reads, if it buffers its input. -/
def inputCount {ε : Type} : LayerSettings → Checked ε (Option Nat)
  | linear s => .ok (some s.inFeatures)
  | conv1d s => (Checked.sizeMul s.inChannels s.signalLength).map some
  | _ => .ok none

/-- How many values a layer writes, if it buffers its output. -/
def outputCount {ε : Type} : LayerSettings → Checked ε (Option Nat)
  | linear s => .ok (some s.outFeatures)
  | conv1d s => do
    let above ← Checked.sizeAdd s.signalLength 1
    (Checked.sizeMul s.outChannels (above - s.kernelSize)).map some
  | _ => .ok none

end LayerSettings

namespace Config

/-- The number format of the network. -/
def format (c : Config) : Except ConfigError QFormat :=
  (QFormat.ofInts c.network.totalBits c.network.fracBits).mapError .format

/-- The convolution of a name. -/
def conv1d? (c : Config) (name : String) : Option Conv1dSettings :=
  c.layers.findSome? fun
    | .conv1d s => if s.name = name then some s else none
    | _ => none

/-- The convolution of a name, or the refusal of the name. -/
def findConv1d (c : Config) (name : String) : Except ConfigError Conv1dSettings :=
  match c.conv1d? name with
  | some s => .ok s
  | none => .error (.notConv1d name)

/-- The output directory: the one asked for, or the configured one seen from the base directory. -/
def outputDirectory (c : Config) (base : String) : (asked : Option String) → String
  | some directory => directory
  | none => Path.join base c.output.directory

end Config

end QuantNet
