import QuantNet.Config.Basic

/-!
# Valid configurations

The checks a configuration passes before anything is made from it.

## The model

The checks are made in one order and the first that fails is reported: the network, then each layer
(its name, that no other part has the name, its shape), the wrapper, the testbench, the output. A
shape is right if no size is zero, the window fits the signal, and the weights and the bias have as
many entries as the sizes say; an empty bias stands for zeros.
-/

namespace QuantNet

/-- The number of a dimension in the text of a shape. -/
def bracketed (n : Nat) : String := "[" ++ Text.ofNat n ++ "]"

/-- Refuse a bias that is neither empty nor of the given length. -/
def checkBias (layer : String) (bias : List Binary64) (length : Nat) : Except ConfigError Unit :=
  if bias = [] ∨ bias.length = length then .ok ()
  else .error (.layerShape layer ("bias must have " ++ Text.ofNat length ++ " entries"))

namespace LinearSettings

/-- Whether the weights have the declared shape. -/
def IsShaped (s : LinearSettings) : Prop :=
  s.weights.length = s.outFeatures ∧ ∀ row ∈ s.weights, row.length = s.inFeatures

instance (s : LinearSettings) : Decidable s.IsShaped := inferInstanceAs (Decidable (_ ∧ _))

/-- Refuse a layer whose shape is wrong. -/
def check (s : LinearSettings) : Except ConfigError Unit :=
  if s.inFeatures = 0 ∨ s.outFeatures = 0 then
    .error (.layerShape s.name "in_features and out_features must be non-zero")
  else if ¬ s.IsShaped then
    .error (.layerShape s.name
      ("weights must have shape " ++ bracketed s.outFeatures ++ bracketed s.inFeatures))
  else checkBias s.name s.bias s.outFeatures

end LinearSettings

namespace Conv1dSettings

/-- Whether the weights have the declared shape. -/
def IsShaped (s : Conv1dSettings) : Prop :=
  s.weights.length = s.outChannels ∧
    ∀ kernel ∈ s.weights, kernel.length = s.inChannels ∧ ∀ taps ∈ kernel, taps.length = s.kernelSize

instance (s : Conv1dSettings) : Decidable s.IsShaped := inferInstanceAs (Decidable (_ ∧ _))

/-- Refuse a layer whose shape is wrong. -/
def check (s : Conv1dSettings) : Except ConfigError Unit :=
  if s.inChannels = 0 ∨ s.outChannels = 0 ∨ s.kernelSize = 0 then
    .error (.layerShape s.name "channel counts and kernel_size must be non-zero")
  else if s.signalLength < s.kernelSize then
    .error (.layerShape s.name
      ("kernel_size " ++ Text.ofNat s.kernelSize ++ " exceeds signal_length " ++ Text.ofNat s.signalLength))
  else if ¬ s.IsShaped then
    .error (.layerShape s.name
      ("weights must have shape " ++ bracketed s.outChannels ++ bracketed s.inChannels ++
        bracketed s.kernelSize))
  else checkBias s.name s.bias s.outChannels

end Conv1dSettings

namespace LayerSettings

/-- Refuse a layer whose shape is wrong. -/
def check : LayerSettings → Except ConfigError Unit
  | linear s => s.check
  | conv1d s => s.check
  | hardSigmoid _ => .ok ()
  | silu _ => .ok ()
  | flatten _ => .ok ()

end LayerSettings

namespace Config

/-- Refuse the first layer without a name, with a name that is taken, or with a wrong shape. -/
def checkLayers : (taken : List String) → List LayerSettings → Except ConfigError Unit
  | _, [] => .ok ()
  | taken, layer :: rest =>
    if layer.name = "" then .error (.empty ("name of " ++ layer.kind ++ " layer"))
    else if layer.name ∈ taken then .error (.duplicateName layer.name)
    else do
      layer.check
      checkLayers (layer.name :: taken) rest

/-- Refuse a wrapper whose identifier has the wrong length. -/
def checkSkeleton : Option SkeletonSettings → Except ConfigError Unit
  | some s =>
    if s.id.length = s.version.idLength then .ok ()
    else .error (.skeletonId s.version.text s.version.idLength s.id.length)
  | none => .ok ()

/-- Refuse a testbench without a name, or for something that is no convolution of the network. -/
def checkTestbench (c : Config) : Except ConfigError Unit :=
  match c.testbench with
  | some t =>
    if t.name = "" then .error (.empty "testbench.name")
    else (c.findConv1d t.uut).map fun _ => ()
  | none => .ok ()

/-- Refuse a configuration that nothing can be made from. -/
def validate (c : Config) : Except ConfigError Unit := do
  if c.network.name = "" then .error (.empty "network.name")
  let _ ← c.format
  checkLayers [c.network.name] c.layers
  checkSkeleton c.skeleton
  c.checkTestbench
  if c.output.romStyle = "" then .error (.empty "build.rom_style")

end Config

end QuantNet
