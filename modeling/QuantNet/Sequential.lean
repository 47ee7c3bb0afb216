import QuantNet.Design
import QuantNet.Source.Network
import QuantNet.Wiring.Connect

/-!
# Sequential networks

A chain of components as one component, wired by name.

## The model

The composition has the standard port. Its stations are its own inputs, the components with a
port, in order, and its own outputs. Components without a port take no part in the circuit, but
their folders are opened like all others. A network whose wiring is refused writes nothing.
-/

namespace QuantNet

/-- The widths of the signals on the boundary of a network. -/
structure NetworkWidths where
  /-- The width of the input data. -/
  x : Nat
  /-- The width of the output data. -/
  y : Nat
  /-- The width of the input address. -/
  xAddress : Nat
  /-- The width of the output address. -/
  yAddress : Nat
deriving DecidableEq

/-- A chain of components. -/
structure Sequential where
  /-- The name of the network. -/
  name : String
  /-- The components, in order. -/
  designs : List Design
  /-- The widths of its boundary. -/
  widths : NetworkWidths
  /-- Whether connected signals must have equal widths. -/
  strict : Bool
deriving DecidableEq

namespace Sequential

/-! ### Making a network -/

/-- The first name that occurs a second time. -/
def repeated? : (seen : List String) → List String → Option String
  | _, [] => none
  | seen, name :: rest => if name ∈ seen then some name else repeated? (name :: seen) rest

/-- The network of components with different names; its wiring is strict. -/
def make (name : String) (designs : List Design) (widths : NetworkWidths) :
    Except DesignError Sequential :=
  match repeated? [] (designs.map Design.name) with
  | some d => .error (.duplicateInstance d)
  | none => .ok ⟨name, designs, widths, true⟩

/-- The width of the present signal of a name in a group. -/
def presentWidth? (signals : List Signal) (name : String) : Option Nat :=
  (signals.find? fun s => s.name = name && s.isPresent).map Signal.width

/-- The width of a signal at the first component that takes it in, one if there is none. -/
def firstConsumerWidth (designs : List Design) (name : String) : Nat :=
  (designs.findSome? fun d => presentWidth? d.port.incoming name).getD 1

/-- The width of a signal at the last component that gives it out, one if there is none. -/
def lastProducerWidth (designs : List Design) (name : String) : Nat :=
  (designs.reverse.findSome? fun d => presentWidth? d.port.outgoing name).getD 1

/-- The widths of the boundary that fit the components. -/
def derivedWidths (designs : List Design) : NetworkWidths where
  x := firstConsumerWidth designs "x"
  y := lastProducerWidth designs "y"
  xAddress := lastProducerWidth designs "x_address"
  yAddress := firstConsumerWidth designs "y_address"

/-- The network of components with different names, with the widths that fit them. -/
def ofDesigns (name : String) (designs : List Design) : Except DesignError Sequential :=
  make name designs (derivedWidths designs)

/-- The network with another rule on widths. -/
def withStrict (s : Sequential) (strict : Bool) : Sequential := { s with strict }

/-! ### Wiring -/

/-- The boundary of the network. -/
def port (s : Sequential) : Port :=
  .standard s.widths.x s.widths.y s.widths.xAddress s.widths.yAddress

/-- The label of a component in the network. -/
def label (d : Design) : String := "i_" ++ d.name

/-- The components that take part in the circuit. -/
def members (s : Sequential) : List Design := s.designs.filter fun d => !d.port.isNull

/-- The stations of the network. -/
def nodes (s : Sequential) : List Node :=
  [Node.start s.widths.x s.widths.yAddress] ++
    s.members.map (fun d => Node.component (label d) d.port) ++
    [Node.finish s.widths.y s.widths.xAddress]

/-- The connections of the network. -/
def connections (s : Sequential) : Except DesignError Connections := Wiring.connect s.strict s.nodes

/-! ### Source text -/

/-- The instance of a component. -/
def instanceOf (d : Design) : Vhdl.Instance where
  label := label d
  entity := d.name
  library := "work"
  architecture := "rtl"
  mapping := d.port.present.map fun s => (s.name, label d ++ "_" ++ s.name)

/-- The lines of the instances. -/
def instantiations (s : Sequential) : List String :=
  s.members.flatMap fun d => (instanceOf d).lines

/-- The declarations of the internal signals, sorted. -/
def signalDefinitions (s : Sequential) : List String :=
  Vhdl.sortLines <| s.members.flatMap fun d => Vhdl.signalDefinitions (label d ++ "_") d.port.signals

/-- What the source text is filled with, given the connections. -/
def parameters (s : Sequential) (connections : Connections) : Parameters :=
  Parameters.none
    |>.withLines "layer_connections" connections.lines
    |>.withLines "layer_instantiations" s.instantiations
    |>.withLines "signal_definitions" s.signalDefinitions
    |>.withNat "x_width" s.widths.x
    |>.withNat "y_width" s.widths.y
    |>.withNat "x_address_width" s.widths.xAddress
    |>.withNat "y_address_width" s.widths.yAddress
    |>.withText "layer_name" s.name

/-- The lines of the network. -/
def render (s : Sequential) : Except DesignError (List String) := do
  let connections ← s.connections
  (Source.network.render (s.parameters connections)).mapError .output

/-- The steps by which a component is written in its own folder. -/
def inFolder (d : Design) : List Emission :=
  .folder [] d.name :: d.emissions.map (Emission.below d.name)

/-- The steps by which the network is written: the components in their folders, then its own file. -/
def emissions (s : Sequential) : List Emission :=
  match s.render with
  | .error cause => [.refuse cause]
  | .ok lines => s.designs.flatMap inFolder ++ [.file [] s.name lines]

/-- The network as a component. -/
def design (s : Sequential) : Design := ⟨s.name, s.port, s.emissions⟩

end Sequential

end QuantNet
