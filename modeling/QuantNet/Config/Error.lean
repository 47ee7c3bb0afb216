import QuantNet.Output.Error
import QuantNet.QFormat

/-!
# Configuration errors

Why the description of a network is refused.
-/

namespace QuantNet

/-- Why a configuration is refused. -/
inductive ConfigError where
  /-- The file cannot be read. -/
  | read (path : String) (cause : IoError)
  /-- The text is malformed or a value has the wrong type. -/
  | malformed
  /-- The numbers of bits make no format. -/
  | format (cause : QError)
  /-- A text that is needed is empty. -/
  | empty (what : String)
  /-- Two parts have one name. -/
  | duplicateName (name : String)
  /-- The shape of a layer does not fit its parameters. -/
  | layerShape (layer reason : String)
  /-- The identifier of the skeleton has the wrong length. -/
  | skeletonId (version : String) (expected actual : Nat)
  /-- There is no convolution of that name. -/
  | notConv1d (name : String)
deriving DecidableEq

/-- The text of a configuration error. -/
def ConfigError.message : ConfigError → String
  | read path cause => "cannot read " ++ path ++ ": " ++ cause.message
  | malformed => "invalid kiln.toml: no description of a network"
  | format cause => "network format: " ++ cause.message
  | empty what => what ++ " must not be empty"
  | duplicateName name => "name '" ++ name ++ "' is used more than once"
  | layerShape layer reason => "layer '" ++ layer ++ "': " ++ reason
  | skeletonId version expected actual =>
    "skeleton " ++ version ++ " needs a " ++ Text.ofNat expected ++ "-byte id, got " ++ Text.ofNat actual
  | notConv1d name => "'" ++ name ++ "' is not a conv1d layer of this network"

end QuantNet
