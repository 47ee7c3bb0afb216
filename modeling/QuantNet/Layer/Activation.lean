import QuantNet.Design
import QuantNet.Layer.Error
import QuantNet.Source.HardSigmoid
import QuantNet.Source.Silu

/-!
# Activations

Element-wise layers, as circuits and as reference functions on stored integers.

## The model

The break points of both activations are quantized with saturation, so a break point outside the
format lies at its bound. The reference functions work in 64-bit words like the circuits' models
do: the product and the sums are checked, and division truncates toward zero.
-/

namespace QuantNet

namespace Activation

/-- The stored integer of three. -/
def three (f : QFormat) : Int := f.quantizeSaturating (.ofInt 3)

/-- The stored integer of minus three. -/
def minusThree (f : QFormat) : Int := f.quantizeSaturating (.ofInt (-3))

/-- The stored integer of one. -/
def one (f : QFormat) : Int := f.quantizeSaturating (.ofInt 1)

/-- The stored integer of one half. -/
def half (f : QFormat) : Int := f.quantizeSaturating (.ofQuotient 1 2)

/-- The stored integer of one sixth, the slope of the hard sigmoid. -/
def slope (f : QFormat) : Int := f.quantizeSaturating (.ofQuotient 1 6)

/-- The unit of the format as a signed 64-bit word, in which the largest unit is negative. -/
def signedUnit (f : QFormat) : Int := Int.bmod f.unit (twoPow 64)

/-- The boundary of an activation: data in, data out. -/
def port (f : QFormat) : Port := ⟨[.input "x" f.totalBits], [.output "y" f.totalBits]⟩

end Activation

open Activation

/-! ### Hard sigmoid -/

/-- The hard sigmoid layer. -/
structure HardSigmoid where
  /-- The name of the layer. -/
  name : String
  /-- The number format. -/
  format : QFormat
deriving DecidableEq

namespace HardSigmoid

/-- The stored integer of the activation of a stored integer, before clamping. -/
def apply (f : QFormat) (q : Int) : Checked LayerError Int :=
  if q ≤ minusThree f then .ok 0
  else if three f ≤ q then .ok (one f)
  else do
    let product ← Checked.signedMul 64 q (slope f)
    Checked.signedAdd 64 (product.tdiv (signedUnit f)) (half f)

/-- The activation of a number. -/
def forward (l : HardSigmoid) (x : Binary64) : Checked LayerError Binary64 := do
  let q ← Checked.lift .quantization (l.format.quantize x)
  let y ← apply l.format q
  return l.format.toRational (l.format.clamp y)

/-- What the source text is filled with. -/
def parameters (l : HardSigmoid) : Parameters :=
  Parameters.none
    |>.withText "layer_name" l.name
    |>.withNat "data_width" l.format.totalBits
    |>.withNat "frac_width" l.format.fracBits
    |>.withInt "one" (one l.format)
    |>.withInt "half" (half l.format)
    |>.withInt "slope" (slope l.format)
    |>.withInt "three_threshold" (three l.format)
    |>.withInt "minus_three_threshold" (minusThree l.format)

/-- The layer as a component. -/
def design (l : HardSigmoid) : Design :=
  ⟨l.name, Activation.port l.format, [Design.emit l.name (Source.hardSigmoid.render l.parameters)]⟩

end HardSigmoid

/-! ### Sigmoid-weighted unit -/

/-- The sigmoid-weighted layer. -/
structure Silu where
  /-- The name of the layer. -/
  name : String
  /-- The number format. -/
  format : QFormat
deriving DecidableEq

namespace Silu

/-- The stored integer of the activation of a stored integer, before clamping. -/
def apply (f : QFormat) (q : Int) : Checked LayerError Int :=
  if q ≤ minusThree f then .ok 0
  else if three f ≤ q then .ok q
  else do
    let shifted ← Checked.signedAdd 64 q (three f)
    let product ← Checked.signedMul 128 q shifted
    return product.tdiv (6 * f.unit)

/-- The activation of a number. -/
def forward (l : Silu) (x : Binary64) : Checked LayerError Binary64 := do
  let q ← Checked.lift .quantization (l.format.quantize x)
  let y ← apply l.format q
  return l.format.toRational (l.format.clamp y)

/-- What the source text is filled with. -/
def parameters (l : Silu) : Parameters :=
  Parameters.none
    |>.withText "layer_name" l.name
    |>.withNat "data_width" l.format.totalBits
    |>.withNat "frac_width" l.format.fracBits
    |>.withInt "three_threshold" (three l.format)
    |>.withInt "minus_three_threshold" (minusThree l.format)

/-- The layer as a component. -/
def design (l : Silu) : Design :=
  ⟨l.name, Activation.port l.format, [Design.emit l.name (Source.silu.render l.parameters)]⟩

end Silu

end QuantNet
