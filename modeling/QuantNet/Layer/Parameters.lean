import QuantNet.Layer.Error

/-!
# Trained parameters

Shape checks and quantization of the parameters of a layer, and the arithmetic all layers share.

## The model

Parameters are checked and quantized in reading order, each row after its length, so that the
first defect is reported. A missing bias counts as zeros. The output of a neuron is the
multiply-accumulate of its inputs and stored weights, clamped, plus the stored bias, clamped again.
-/

namespace QuantNet.Layer

/-- Refuse a list of the wrong length. -/
def checkLength {α : Type} (layer what : String) (values : List α) (expected : Nat) :
    Checked LayerError Unit :=
  if values.length = expected then .ok ()
  else Checked.refuse (.shapeMismatch layer what expected values.length)

/-- The stored integers of numbers. -/
def quantizeAll (f : QFormat) (values : List Binary64) : Checked LayerError (List Int) :=
  Checked.lift .quantization (f.quantizeAll values)

/-- The stored integers of rows of one length, named for messages by their index. -/
def quantizeRows (f : QFormat) (layer what : String) (length : Nat) :
    (index : Nat) → List (List Binary64) → Checked LayerError (List (List Int))
  | _, [] => .ok []
  | index, row :: rest => do
    checkLength layer (what ++ "[" ++ Text.ofNat index ++ "]") row length
    let first ← quantizeAll f row
    let others ← quantizeRows f layer what length (index + 1) rest
    return first :: others

/-- The stored integers of a bias, zeros if it is left out. -/
def quantizeBias (f : QFormat) (layer : String) (bias : List Binary64) (length : Nat) :
    Checked LayerError (List Int) :=
  if bias.isEmpty then .ok (List.replicate length 0)
  else do
    checkLength layer "bias" bias length
    quantizeAll f bias

/-- The stored integer of a neuron's output. -/
def neuron (f : QFormat) (inputs : List Binary64) (weights : List Int) (bias : Int) :
    Checked LayerError Int := do
  let sum ← Checked.within .quantization (f.macInt inputs (weights.map f.toRational))
  return f.clamp (sum + bias)

end QuantNet.Layer
