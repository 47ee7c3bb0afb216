import QuantNet.Config.Basic
import QuantNet.Layer.Activation
import QuantNet.Layer.Conv1d
import QuantNet.Layer.Linear
import QuantNet.Sequential

/-!
# Networks from configurations

The components that a configuration describes: its layers, the network they make, and the wrapper
of the network.

## The model

A layer that needs no circuit is a component without a port, which the network skips. The wrapper
takes the number of values from the configuration, else from the first layer that buffers its input
and the last that buffers its output, else it is one.
-/

namespace QuantNet

/-- The fully connected layer that is described. -/
def LinearSettings.layer (s : LinearSettings) (f : QFormat) (romStyle : String) :
    Checked LayerError Linear :=
  (Linear.make s.name f s.inFeatures s.outFeatures s.weights s.bias).map (·.withRomStyle romStyle)

/-- The convolution that is described. -/
def Conv1dSettings.layer (s : Conv1dSettings) (f : QFormat) (romStyle : String) :
    Checked LayerError Conv1d :=
  (Conv1d.make s.name f s.inChannels s.outChannels s.signalLength s.kernelSize s.weights s.bias).map
    (·.withRomStyle romStyle)

namespace LayerSettings

/-- The component of a layer. -/
def design (f : QFormat) (romStyle : String) : LayerSettings → Checked LayerError Design
  | linear s => (s.layer f romStyle).map Linear.design
  | conv1d s => (s.layer f romStyle).map Conv1d.design
  | hardSigmoid name => .ok (HardSigmoid.mk name f).design
  | silu name => .ok (Silu.mk name f).design
  | flatten name => .ok (.null name)

/-- The convolution of a layer, which every other layer is refused for. -/
def convolution (f : QFormat) (romStyle : String) : LayerSettings → Checked LayerError Conv1d
  | conv1d s => s.layer f romStyle
  | other => Checked.refuse (.unknownLayer other.name)

/-- The first count that a layer gives. -/
def firstCount {ε : Type} (count : LayerSettings → Checked ε (Option Nat)) :
    List LayerSettings → Checked ε (Option Nat)
  | [] => .ok none
  | layer :: rest => do
    match ← count layer with
    | some n => return some n
    | none => firstCount count rest

end LayerSettings

namespace Config

/-- The network of the layers. -/
def sequential (c : Config) : Checked LayerError Sequential := do
  let f ← Checked.lift .config c.format
  let designs ← c.layers.mapM (LayerSettings.design f c.output.romStyle)
  let network ← Checked.lift .design (Sequential.ofDesigns c.network.name designs)
  return network.withStrict c.network.strictWidths

/-- A count that is set, or else the first one that the layers give, or else one. -/
def countOr {ε : Type} (set : Option Nat) (count : LayerSettings → Checked ε (Option Nat))
    (layers : List LayerSettings) : Checked ε Nat :=
  match set with
  | some n => .ok n
  | none => (LayerSettings.firstCount count layers).map (·.getD 1)

/-- The wrapper of the network, if there is one. -/
def wrapper (c : Config) (network : Sequential) : Checked LayerError (Option Skeleton) :=
  match c.skeleton with
  | none => .ok none
  | some s => do
    let xCount ← countOr s.xCount LayerSettings.inputCount c.layers
    let yCount ← countOr s.yCount LayerSettings.outputCount c.layers.reverse
    let skeleton ← Checked.lift .design
      (Skeleton.make network.name network.port xCount yCount s.id s.version)
    return some skeleton

end Config

end QuantNet
