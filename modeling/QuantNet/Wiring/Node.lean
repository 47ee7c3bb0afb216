import QuantNet.Port

/-!
# Data-flow nodes

The stations of a composition: its own inputs at the start, one node per instance, and its own
outputs at the end. Each node consumes some signals and produces others; absent signals take no
part.
-/

namespace QuantNet

/-- What a node stands for. -/
inductive NodeKind where
  /-- The inputs of the composition. -/
  | start
  /-- A component inside the composition. -/
  | component (label : String)
  /-- The outputs of the composition. -/
  | finish
deriving DecidableEq

/-- A station of a composition. -/
structure Node where
  /-- What it stands for. -/
  kind : NodeKind
  /-- The signals it consumes. -/
  sinks : List Signal
  /-- The signals it produces. -/
  sources : List Signal
deriving DecidableEq

namespace Node

/-- The node with only the present of the given signals. -/
def ofSignals (kind : NodeKind) (sinks sources : List Signal) : Node :=
  ⟨kind, sinks.filter Signal.isPresent, sources.filter Signal.isPresent⟩

/-- The inputs of a composition. -/
def start (xWidth yAddressWidth : Nat) : Node :=
  ofSignals .start []
    [.input "x" xWidth, .input "y_address" yAddressWidth, .input "enable" 1, .input "clock" 1]

/-- The outputs of a composition. -/
def finish (yWidth xAddressWidth : Nat) : Node :=
  ofSignals .finish [.output "y" yWidth, .output "x_address" xAddressWidth, .output "done" 1] []

/-- A component with a label. -/
def component (label : String) (port : Port) : Node :=
  ofSignals (.component label) port.incoming port.outgoing

/-- What stands before the names of the signals of a node. -/
def qualifier (n : Node) : String :=
  match n.kind with
  | .component label => label ++ "_"
  | .start => ""
  | .finish => ""

/-- The name of a signal of a node in the whole composition. -/
def qualify (n : Node) (s : Signal) : String := n.qualifier ++ s.name

end Node

end QuantNet
