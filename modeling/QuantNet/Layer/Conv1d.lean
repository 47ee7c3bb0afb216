import QuantNet.Design
import QuantNet.Layer.Parameters
import QuantNet.Rom
import QuantNet.Source.Conv1d
import QuantNet.Source.FxpMac

/-!
# Convolution layers

One-dimensional convolutions over several channels.

## The model

The layer keeps, for every output channel, one row of stored taps per input channel. The weight
memory holds them one after the other: output channel, then input channel, then tap. An output
value is the neuron of a kernel on the window that starts at its time step, the channels of the
window one after the other.

Convolutions share a component that multiplies and accumulates. Its text does not depend on the
format, so every layer writes the same file.
-/

namespace QuantNet

/-! ### The multiply-accumulate component -/

namespace Mac

/-- The name of the component and of its file. -/
def name : String := "fxp_mac"

/-- The signals on its boundary. -/
def port (totalBits : Nat) : Port where
  incoming := [.input "reset" 1, .input "next_sample" 1, .input "x1" totalBits, .input "x2" totalBits]
  outgoing := [.output "sum" totalBits, .output "done" 1]

/-- The component for numbers of a width. -/
def design (totalBits : Nat) : Design :=
  ⟨name, port totalBits, [Design.emit name (Source.fxpMac.render Parameters.none)]⟩

end Mac

/-! ### Layers -/

/-- A one-dimensional convolution layer. -/
structure Conv1d where
  /-- The name of the layer. -/
  name : String
  /-- The number format. -/
  format : QFormat
  /-- How many channels go in. -/
  inChannels : Nat
  /-- How many channels come out. -/
  outChannels : Nat
  /-- The length of each input channel. -/
  signalLength : Nat
  /-- The length of the window. -/
  kernelSize : Nat
  /-- The stored taps, per output channel and input channel. -/
  kernels : List (List (List Int))
  /-- The stored bias, one per output channel. -/
  bias : List Int
  /-- The synthesis hint of the memories. -/
  romStyle : String
deriving DecidableEq

namespace Conv1d

/-- The stored taps of kernels, checked from an output channel on. -/
def quantizeKernels (f : QFormat) (layer : String) (inChannels kernelSize : Nat) :
    (index : Nat) → List (List (List Binary64)) → Checked LayerError (List (List (List Int)))
  | _, [] => .ok []
  | index, kernel :: rest => do
    let what := "weights[" ++ Text.ofNat index ++ "]"
    Layer.checkLength layer what kernel inChannels
    let first ← Layer.quantizeRows f layer what kernelSize 0 kernel
    let others ← quantizeKernels f layer inChannels kernelSize (index + 1) rest
    return first :: others

/-- The layer with the given trained parameters. -/
def make (name : String) (format : QFormat) (inChannels outChannels signalLength kernelSize : Nat)
    (weights : List (List (List Binary64))) (bias : List Binary64) : Checked LayerError Conv1d := do
  if inChannels = 0 ∨ outChannels = 0 ∨ kernelSize = 0 then
    Checked.refuse (.invalidShape name "channel counts and kernel_size must be non-zero")
  if signalLength < kernelSize then
    Checked.refuse (.invalidShape name
      ("kernel_size " ++ Text.ofNat kernelSize ++ " exceeds signal_length " ++ Text.ofNat signalLength))
  Layer.checkLength name "weights" weights outChannels
  let pairs ← Checked.sizeMul outChannels inChannels
  Checked.reserve (← Checked.sizeMul pairs kernelSize)
  let kernels ← quantizeKernels format name inChannels kernelSize 0 weights
  let bias ← Layer.quantizeBias format name bias outChannels
  let _ ← Checked.sizeMul signalLength inChannels
  let _ ← Checked.sizeMul (signalLength - kernelSize + 1) outChannels
  return ⟨name, format, inChannels, outChannels, signalLength, kernelSize, kernels, bias,
    Rom.defaultStyle⟩

/-- The layer with another synthesis hint. -/
def withRomStyle (l : Conv1d) (style : String) : Conv1d := { l with romStyle := style }

/-- The stored weights in the order of the memory. -/
def weights (l : Conv1d) : List Int := (l.kernels.map List.flatten).flatten

/-- The boundary of the layer. -/
def port (l : Conv1d) : Port :=
  .ofCounts l.format.totalBits l.format.totalBits (l.signalLength * l.inChannels)
    ((l.signalLength - l.kernelSize + 1) * l.outChannels)

/-- The length of an output channel for a signal and a window. -/
def lengthOfOutput {ε : Type} (signalLength kernelSize : Nat) : Checked ε Nat := do
  let above ← Checked.sizeAdd signalLength 1
  return above - kernelSize

/-- The length of each output channel. -/
def outputLength {ε : Type} (l : Conv1d) : Checked ε Nat := lengthOfOutput l.signalLength l.kernelSize

/-! ### Reference -/

/-- Refuse input channels of the wrong length, from an index on. -/
def checkChannels (l : Conv1d) : (index : Nat) → List (List Binary64) → Checked LayerError Unit
  | _, [] => .ok ()
  | index, channel :: rest => do
    Layer.checkLength l.name ("input[" ++ Text.ofNat index ++ "]") channel l.signalLength
    l.checkChannels (index + 1) rest

/-- The window of an input that starts at a time step, channel after channel. -/
def window (l : Conv1d) (input : List (List Binary64)) (t : Nat) : List Binary64 :=
  input.flatMap fun channel => (channel.drop t).take l.kernelSize

/-- The outputs of the layer, per output channel and time step. -/
def forward (l : Conv1d) (input : List (List Binary64)) : Checked LayerError (List (List Binary64)) := do
  Layer.checkLength l.name "input" input l.inChannels
  l.checkChannels 0 input
  let steps ← l.outputLength
  (l.kernels.zip l.bias).mapM fun (kernel, bias) =>
    (List.range steps).mapM fun t =>
      (Layer.neuron l.format (l.window input t) kernel.flatten bias).map l.format.toRational

/-! ### Circuit -/

/-- The name of the weight memory. -/
def weightRomName (l : Conv1d) : String := l.name ++ "_w_rom"

/-- The name of the bias memory. -/
def biasRomName (l : Conv1d) : String := l.name ++ "_b_rom"

/-- The weight memory. -/
def weightRom (l : Conv1d) : Rom :=
  (Rom.plain l.weightRomName l.format.totalBits l.weights).withStyle l.romStyle

/-- The bias memory. -/
def biasRom (l : Conv1d) : Rom :=
  (Rom.plain l.biasRomName l.format.totalBits l.bias).withStyle l.romStyle

/-- What the source text is filled with; every signal of the boundary gives its width. -/
def parameters (l : Conv1d) : Parameters :=
  let shape := Parameters.none
    |>.withText "name" l.name
    |>.withNat "frac_width" l.format.fracBits
    |>.withNat "in_channels" l.inChannels
    |>.withNat "out_channels" l.outChannels
    |>.withNat "kernel_size" l.kernelSize
    |>.withNat "vector_width" l.signalLength
    |>.withNat "w_address_width" (addressWidth l.weights.length)
    |>.withNat "b_address_width" (addressWidth l.bias.length)
  l.port.present.foldl (fun ps s => ps.withNat (s.name ++ "_width") s.width) shape

/-- The layer as a component: its own file, its memories, and the shared unit. -/
def design (l : Conv1d) : Design where
  name := l.name
  port := l.port
  emissions := [Design.emit l.name (Source.conv1d.render l.parameters)] ++
    l.weightRom.design.emissions ++ l.biasRom.design.emissions ++
    (Mac.design l.format.totalBits).emissions

end Conv1d

end QuantNet
