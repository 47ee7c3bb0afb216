import QuantNet.Config.Error
import QuantNet.Port

/-!
# Layer errors

Why a layer cannot be made from its settings, or used.
-/

namespace QuantNet

/-- Why a layer cannot be made or used. -/
inductive LayerError where
  /-- A list has the wrong length. -/
  | shapeMismatch (layer what : String) (expected actual : Nat)
  /-- The shape itself makes no sense. -/
  | invalidShape (layer reason : String)
  /-- The layer is no convolution. -/
  | unknownLayer (name : String)
  /-- The configuration is refused. -/
  | config (cause : ConfigError)
  /-- A number does not fit the format. -/
  | quantization (cause : QError)
  /-- The composition is refused. -/
  | design (cause : DesignError)
deriving DecidableEq

/-- The text of a layer error. -/
def LayerError.message : LayerError → String
  | shapeMismatch layer what expected actual =>
    "layer '" ++ layer ++ "': " ++ what ++ " has " ++ Text.ofNat actual ++ " entries, expected " ++
      Text.ofNat expected
  | invalidShape layer reason => "layer '" ++ layer ++ "': " ++ reason
  | unknownLayer name => "no conv1d layer named '" ++ name ++ "'"
  | config cause => cause.message
  | quantization cause => cause.message
  | design cause => cause.message

end QuantNet
