import QuantNet.Layer.Parameters
import QuantNet.Rom
import QuantNet.Source.Linear

/-!
# Fully connected layers

A layer that multiplies its inputs with a matrix and adds a bias.

## The model

The layer keeps one row of stored weights per output. The weight memory holds the rows one after
the other, the bias memory one word per output.
-/

namespace QuantNet

/-- A fully connected layer. -/
structure Linear where
  /-- The name of the layer. -/
  name : String
  /-- The number format. -/
  format : QFormat
  /-- How many inputs it has. -/
  inFeatures : Nat
  /-- How many outputs it has. -/
  outFeatures : Nat
  /-- The stored weights, one row per output. -/
  rows : List (List Int)
  /-- The stored bias, one per output. -/
  bias : List Int
  /-- The synthesis hint of the memories. -/
  romStyle : String
deriving DecidableEq

namespace Linear

/-- The layer with the given trained parameters. -/
def make (name : String) (format : QFormat) (inFeatures outFeatures : Nat)
    (weights : List (List Binary64)) (bias : List Binary64) : Checked LayerError Linear := do
  if inFeatures = 0 ∨ outFeatures = 0 then
    Checked.refuse (.invalidShape name "in_features and out_features must be non-zero")
  Layer.checkLength name "weights" weights outFeatures
  Checked.reserve (← Checked.sizeMul inFeatures outFeatures)
  let rows ← Layer.quantizeRows format name "weights" inFeatures 0 weights
  let bias ← Layer.quantizeBias format name bias outFeatures
  return ⟨name, format, inFeatures, outFeatures, rows, bias, Rom.defaultStyle⟩

/-- The layer with another synthesis hint. -/
def withRomStyle (l : Linear) (style : String) : Linear := { l with romStyle := style }

/-- The stored weights in the order of the memory. -/
def weights (l : Linear) : List Int := l.rows.flatten

/-- The boundary of the layer. -/
def port (l : Linear) : Port :=
  .ofCounts l.format.totalBits l.format.totalBits l.inFeatures l.outFeatures

/-! ### Reference -/

/-- The outputs of the layer for a list of inputs. -/
def forward (l : Linear) (input : List Binary64) : Checked LayerError (List Binary64) := do
  Layer.checkLength l.name "input" input l.inFeatures
  (l.rows.zip l.bias).mapM fun (row, bias) =>
    (Layer.neuron l.format input row bias).map l.format.toRational

/-! ### Circuit -/

/-- The name of the weight memory. -/
def weightRomName (l : Linear) : String := l.name ++ "_w_rom"

/-- The name of the bias memory. -/
def biasRomName (l : Linear) : String := l.name ++ "_b_rom"

/-- The weight memory. -/
def weightRom (l : Linear) : Rom :=
  (Rom.plain l.weightRomName l.format.totalBits l.weights).withStyle l.romStyle

/-- The bias memory. -/
def biasRom (l : Linear) : Rom :=
  (Rom.plain l.biasRomName l.format.totalBits l.bias).withStyle l.romStyle

/-- What the source text is filled with. -/
def parameters (l : Linear) : Parameters :=
  Parameters.none
    |>.withText "layer_name" l.name
    |>.withNat "data_width" l.format.totalBits
    |>.withNat "frac_width" l.format.fracBits
    |>.withNat "x_address_width" (l.port.widthOf "x_address")
    |>.withNat "y_address_width" (l.port.widthOf "y_address")
    |>.withNat "in_feature_num" l.inFeatures
    |>.withNat "out_feature_num" l.outFeatures
    |>.withText "weights_rom_name" l.weightRomName
    |>.withText "bias_rom_name" l.biasRomName
    |>.withNat "w_address_width" (addressWidth l.weights.length)
    |>.withNat "b_address_width" (addressWidth l.bias.length)

/-- The layer as a component: its own file, then its memories. -/
def design (l : Linear) : Design where
  name := l.name
  port := l.port
  emissions := [Design.emit l.name (Source.linear.render l.parameters)] ++
    l.weightRom.design.emissions ++ l.biasRom.design.emissions

end Linear

end QuantNet
