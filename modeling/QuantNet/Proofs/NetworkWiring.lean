import QuantNet.Proofs.AddressWidths
import QuantNet.Proofs.ValidConfigurations
import QuantNet.Proofs.Wiring

/-!
# How networks are wired

The wiring of a network that a configuration describes, read off its layers.

The inputs of the network stay the most preferred sources throughout, because no layer gives out a
signal called `x`, `y_address`, `enable` or `clock`. So every layer is fed by the inputs of the
network and not by the layer before it, and only the outputs of the network look at the layers: `y`
at the last circuit, `x_address` and `done` at the last circuit with buffers. This is the invariant
`Inputs` of the run over the layers (`connectFrom_layers`).

The widths of the network come from its layers as well, the address of the outputs from the first
layer with buffers. Hence a strict wiring fails exactly if a later layer needs another address width.
-/

namespace QuantNet

open Wiring

/-! ### The wiring that is expected -/

namespace LayerSettings

/-- Whether a layer has a circuit. -/
def hasCircuit : LayerSettings → Bool
  | flatten _ => false
  | _ => true

/-- Whether a layer buffers its values. -/
def isBuffered : LayerSettings → Bool
  | linear _ | conv1d _ => true
  | _ => false

/-- How many values a layer with buffers reads. -/
def inputs : LayerSettings → Nat
  | linear s => s.inFeatures
  | conv1d s => s.signalLength * s.inChannels
  | _ => 0

/-- How many values a layer with buffers writes. -/
def outputs : LayerSettings → Nat
  | linear s => s.outFeatures
  | conv1d s => (s.signalLength - s.kernelSize + 1) * s.outChannels
  | _ => 0

/-- The name of a signal of a layer in the network. -/
def wire (layer : LayerSettings) (signal : String) : String := "i_" ++ layer.name ++ "_" ++ signal

/-- The connections of a layer. -/
def links (layer : LayerSettings) : List Connection :=
  if layer.isBuffered then
    [⟨layer.wire "x", "x"⟩, ⟨layer.wire "y_address", "y_address"⟩, ⟨layer.wire "clock", "clock"⟩,
      ⟨layer.wire "enable", "enable"⟩]
  else if layer.hasCircuit then [⟨layer.wire "x", "x"⟩]
  else []

/-- The signal of the last layer of a kind, or an input of the network if there is none. -/
def lastOr (kind : LayerSettings → Bool) (layers : List LayerSettings) (signal input : String) : String :=
  match (layers.filter kind).getLast? with
  | some layer => layer.wire signal
  | none => input

/-- The connections of the outputs of a network. -/
def outputLinks (layers : List LayerSettings) : List Connection :=
  [⟨"y", lastOr hasCircuit layers "y" "x"⟩, ⟨"x_address", lastOr isBuffered layers "x_address" "y_address"⟩,
    ⟨"done", lastOr isBuffered layers "done" "enable"⟩]

/-- The connections of a network. -/
def allLinks (layers : List LayerSettings) : List Connection := layers.flatMap links ++ outputLinks layers

end LayerSettings

open LayerSettings

/-! ### Layers as nodes -/

namespace LayerSettings

/-- The node of a layer, for numbers of a width. -/
def node (totalBits : Nat) (layer : LayerSettings) : Node :=
  .component ("i_" ++ layer.name) (layer.boundary totalBits)

/-- There are three kinds of layers: with buffers, without buffers, and without a circuit. -/
theorem boundary_cases (totalBits : Nat) (layer : LayerSettings) :
    (layer.isBuffered = true ∧ layer.hasCircuit = true ∧ layer.boundary totalBits =
      .standard totalBits totalBits (addressWidth layer.inputs) (addressWidth layer.outputs)) ∨
    (layer.isBuffered = false ∧ layer.hasCircuit = true ∧
      layer.boundary totalBits = ⟨[.input "x" totalBits], [.output "y" totalBits]⟩) ∨
    (layer.isBuffered = false ∧ layer.hasCircuit = false ∧ layer.boundary totalBits = .null) := by
  cases layer with
  | linear s => exact Or.inl ⟨rfl, rfl, rfl⟩
  | conv1d s => exact Or.inl ⟨rfl, rfl, rfl⟩
  | hardSigmoid name => exact Or.inr (Or.inl ⟨rfl, rfl, rfl⟩)
  | silu name => exact Or.inr (Or.inl ⟨rfl, rfl, rfl⟩)
  | flatten name => exact Or.inr (Or.inr ⟨rfl, rfl, rfl⟩)

variable {totalBits : Nat} {layer : LayerSettings}

/-- What a layer adds to the table of produced signals. -/
def supplies (totalBits : Nat) (layer : LayerSettings) : Available :=
  if layer.isBuffered then
    [⟨.output "done" 1, layer.wire "done"⟩, ⟨.output "x_address" (addressWidth layer.inputs), layer.wire "x_address"⟩,
      ⟨.output "y" totalBits, layer.wire "y"⟩]
  else if layer.hasCircuit then [⟨.output "y" totalBits, layer.wire "y"⟩]
  else []

theorem produced_node (hbits : 0 < totalBits) : produced (layer.node totalBits) = layer.supplies totalBits := by
  have hwidth := addressWidth_pos layer.inputs
  rcases layer.boundary_cases totalBits with ⟨hb, hc, hport⟩ | ⟨hb, hc, hport⟩ | ⟨hb, hc, hport⟩ <;>
    simp [produced, supplies, node, Node.component, Node.ofSignals, hport, Port.standard, Port.null, hb, hc,
      Signal.isPresent, Signal.output, hbits, hwidth, Node.qualify, Node.qualifier, wire]

/-- The signals that a layer takes in. -/
def needs (totalBits : Nat) (layer : LayerSettings) : List Signal :=
  if layer.isBuffered then
    [.input "x" totalBits, .input "y_address" (addressWidth layer.outputs), .input "clock" 1, .input "enable" 1]
  else if layer.hasCircuit then [.input "x" totalBits]
  else []

theorem sinks_node (hbits : 0 < totalBits) : (layer.node totalBits).sinks = layer.needs totalBits := by
  have hwidth := addressWidth_pos layer.outputs
  rcases layer.boundary_cases totalBits with ⟨hb, hc, hport⟩ | ⟨hb, hc, hport⟩ | ⟨hb, hc, hport⟩ <;>
    simp [needs, node, Node.component, Node.ofSignals, hport, Port.standard, Port.null, hb, hc,
      Signal.isPresent, Signal.input, hbits, hwidth]

end LayerSettings

/-! ### The run over the layers -/

/-- The inputs of the network are the latest signals of their names. -/
structure Inputs (available : Available) (xWidth yAddressWidth : Nat) : Prop where
  x : latest? available "x" = some ⟨.input "x" xWidth, "x"⟩
  yAddress : latest? available "y_address" = some ⟨.input "y_address" yAddressWidth, "y_address"⟩
  clock : latest? available "clock" = some ⟨.input "clock" 1, "clock"⟩
  enable : latest? available "enable" = some ⟨.input "enable" 1, "enable"⟩

section Start

variable {xWidth yAddressWidth : Nat} (hx : 0 < xWidth) (hy : 0 < yAddressWidth)
include hx hy

theorem produced_start : produced (Node.start xWidth yAddressWidth) =
    [⟨.input "clock" 1, "clock"⟩, ⟨.input "enable" 1, "enable"⟩, ⟨.input "y_address" yAddressWidth, "y_address"⟩,
      ⟨.input "x" xWidth, "x"⟩] := by
  simp [produced, Node.start, Node.ofSignals, Signal.isPresent, Signal.input, hx, hy, Node.qualify, Node.qualifier]

/-- The start of a network gives out its inputs. -/
theorem inputs_start : Inputs (produced (Node.start xWidth yAddressWidth)) xWidth yAddressWidth := by
  rw [produced_start hx hy]
  exact ⟨rfl, rfl, rfl, rfl⟩

/-- The start of a network gives out no output. -/
theorem latest?_start_eq_none {name : String} (hname : name ∈ ["y", "x_address", "done"]) :
    latest? (produced (Node.start xWidth yAddressWidth)) name = none := by
  rw [produced_start hx hy]
  simp only [List.mem_cons, List.not_mem_nil, or_false] at hname
  rcases hname with rfl | rfl | rfl <;> rfl

end Start

/-- No layer gives out a signal that is called like an input of the network. -/
theorem latest?_supplies_eq_none (totalBits : Nat) (layer : LayerSettings) {name : String}
    (hname : name ∉ ["y", "x_address", "done"]) : latest? (layer.supplies totalBits) name = none := by
  simp only [List.mem_cons, List.not_mem_nil, or_false, not_or] at hname
  obtain ⟨hy, hx, hdone⟩ := hname
  unfold supplies
  split_ifs <;> simp [latest?, Signal.output, Ne.symm hy, Ne.symm hx, Ne.symm hdone]

theorem Inputs.after {available : Available} {xWidth yAddressWidth : Nat} (h : Inputs available xWidth yAddressWidth)
    (totalBits : Nat) (layer : LayerSettings) :
    Inputs (layer.supplies totalBits ++ available) xWidth yAddressWidth := by
  have hkeep : ∀ name ∉ ["y", "x_address", "done"],
      latest? (layer.supplies totalBits ++ available) name = latest? available name := by
    intro name hname
    rw [latest?, List.find?_append, ← latest?, latest?_supplies_eq_none totalBits layer hname, Option.none_or,
      ← latest?]
  refine ⟨?_, ?_, ?_, ?_⟩
  · rw [hkeep "x" (by decide), h.x]
  · rw [hkeep "y_address" (by decide), h.yAddress]
  · rw [hkeep "clock" (by decide), h.clock]
  · rw [hkeep "enable" (by decide), h.enable]

/-- How the connections of a layer turn out: a strict wiring refuses a layer with another address
width than the network. -/
def layerOutcome (strict : Bool) (yAddressWidth : Nat) (layer : LayerSettings) : Except DesignError (List Connection) :=
  if strict ∧ layer.isBuffered ∧ yAddressWidth ≠ addressWidth layer.outputs then
    .error (.widthMismatch (layer.wire "y_address") "y_address" (addressWidth layer.outputs) yAddressWidth)
  else .ok layer.links

/-- A sink is connected to its source, strictly only if they have one width. -/
theorem resolve_eq_ok {strict : Bool} {available : Available} {n : Node} {sink : Signal} {source : Source}
    (h : feeder? available sink.name = some source) (hwidth : strict = true → source.signal.width = sink.width) :
    resolve strict available n sink = .ok ⟨n.qualify sink, source.qualified⟩ := by
  cases strict with
  | false => simp [resolve, h]
  | true => simp [resolve, h, hwidth rfl]

/-- A strict wiring refuses a source of another width. -/
theorem resolve_eq_error {available : Available} {n : Node} {sink : Signal} {source : Source}
    (h : feeder? available sink.name = some source) (hwidth : source.signal.width ≠ sink.width) :
    resolve true available n sink =
      .error (.widthMismatch (n.qualify sink) source.qualified sink.width source.signal.width) := by
  simp [resolve, h, hwidth]

/-- The first name that can feed a signal does, if the table has it. -/
theorem feeder?_of_latest? {available : Available} {name first : String} {others : List String} {source : Source}
    (hcandidates : candidates name = first :: others) (h : latest? available first = some source) :
    feeder? available name = some source := by
  rw [feeder?, hcandidates, List.findSome?_cons, h]

/-- A layer is fed by the inputs of the network. -/
theorem resolveAll_layer {available : Available} {totalBits yAddressWidth : Nat}
    (h : Inputs available totalBits yAddressWidth) (strict : Bool) (layer : LayerSettings) :
    resolveAll strict available (layer.node totalBits) (layer.needs totalBits) =
      layerOutcome strict yAddressWidth layer := by
  have hx : resolve strict available (layer.node totalBits) (.input "x" totalBits) = .ok ⟨layer.wire "x", "x"⟩ :=
    resolve_eq_ok (feeder?_of_latest? rfl h.x) fun _ => rfl
  have hclock : resolve strict available (layer.node totalBits) (.input "clock" 1) =
      .ok ⟨layer.wire "clock", "clock"⟩ := resolve_eq_ok (feeder?_of_latest? rfl h.clock) fun _ => rfl
  have henable : resolve strict available (layer.node totalBits) (.input "enable" 1) =
      .ok ⟨layer.wire "enable", "enable"⟩ := resolve_eq_ok (feeder?_of_latest? rfl h.enable) fun _ => rfl
  have hy : feeder? available (Signal.input "y_address" (addressWidth layer.outputs)).name =
      some ⟨.input "y_address" yAddressWidth, "y_address"⟩ := feeder?_of_latest? rfl h.yAddress
  unfold needs layerOutcome links
  cases hb : layer.isBuffered with
  | false => cases layer.hasCircuit <;> simp [resolveAll, hx]
  | true =>
    -- only the address can differ in width
    by_cases hclash : strict = true ∧ yAddressWidth ≠ addressWidth layer.outputs
    · obtain ⟨rfl, hwidth⟩ := hclash
      have hrefused := resolve_eq_error (n := layer.node totalBits) hy hwidth
      simp only [resolveAll, hx, hrefused, Outcome.ok_bind, Outcome.error_bind, if_true, true_and, hwidth,
        ne_eq, not_false_eq_true]
      rfl
    · have hwidth : strict = true → yAddressWidth = addressWidth layer.outputs :=
        fun hstrict => not_not.mp fun hne => hclash ⟨hstrict, hne⟩
      have hlinked := resolve_eq_ok (n := layer.node totalBits) hy hwidth
      simp only [if_true, true_and, if_neg hclash, resolveAll, hx, hclock, henable, hlinked, Outcome.ok_bind]
      rfl

/-- The table after the layers of a network. -/
def afterLayers (totalBits : Nat) (layers : List LayerSettings) (available : Available) : Available :=
  layers.reverse.flatMap (supplies totalBits) ++ available

theorem afterLayers_cons (totalBits : Nat) (layer : LayerSettings) (layers : List LayerSettings)
    (available : Available) :
    afterLayers totalBits (layer :: layers) available =
      afterLayers totalBits layers (layer.supplies totalBits ++ available) := by
  simp [afterLayers]

/-- The run of the wiring over the layers of a network: every layer is settled by itself. -/
theorem connectFrom_layers {totalBits xWidth yAddressWidth : Nat} (hbits : 0 < totalBits) (strict : Bool)
    (layers : List LayerSettings) (rest : List Node) {available : Available}
    (h : Inputs available xWidth yAddressWidth)
    (hx : ∀ layer ∈ layers, layer.hasCircuit = true → xWidth = totalBits) :
    connectFrom strict available ((layers.filter hasCircuit).map (node totalBits) ++ rest) = do
      let first ← layers.mapM (layerOutcome strict yAddressWidth)
      let others ← connectFrom strict (afterLayers totalBits layers available) rest
      return first.flatten ++ others := by
  induction layers generalizing available with
  | nil =>
    simp only [List.filter_nil, List.map_nil, List.nil_append, List.mapM_nil, Outcome.pure_eq_ok, Outcome.ok_bind,
      afterLayers, List.reverse_nil, List.flatMap_nil, List.flatten_nil]
    cases connectFrom strict available rest <;> rfl
  | cons layer layers ih =>
    have hrest := ih (h.after totalBits layer) fun other hother => hx other (List.mem_cons_of_mem _ hother)
    rw [afterLayers_cons, List.mapM_cons]
    cases hc : layer.hasCircuit with
    | false =>
      -- a layer without a circuit is no node, and it adds nothing
      have hb : layer.isBuffered = false := by
        rcases layer.boundary_cases totalBits with ⟨-, hc', -⟩ | ⟨-, hc', -⟩ | ⟨hb, -, -⟩
        · rw [hc] at hc'
          cases hc'
        · rw [hc] at hc'
          cases hc'
        · exact hb
      have hsupplies : layer.supplies totalBits = [] := by simp [supplies, hb, hc]
      have houtcome : layerOutcome strict yAddressWidth layer = .ok [] := by simp [layerOutcome, links, hb, hc]
      rw [hsupplies, List.nil_append] at hrest ⊢
      rw [List.filter_cons_of_neg (by simp [hc]), hrest, houtcome]
      simp
    | true =>
      obtain rfl : xWidth = totalBits := hx layer List.mem_cons_self hc
      rw [List.filter_cons_of_pos hc, List.map_cons, List.cons_append, connectFrom, sinks_node hbits,
        produced_node hbits, resolveAll_layer h, hrest]
      simp [List.append_assoc]

/-! ### Last layers -/

theorem findSome?_ite {α β : Type} (p : α → Bool) (g : α → β) (xs : List α) :
    (xs.findSome? fun x => if p x then some (g x) else none) = (xs.filter p).head?.map g := by
  induction xs with
  | nil => rfl
  | cons x xs ih =>
    cases hx : p x with
    | false => simp [hx, ih]
    | true => simp [hx]

theorem findSome?_reverse_ite {α β : Type} (p : α → Bool) (g : α → β) (xs : List α) :
    (xs.reverse.findSome? fun x => if p x then some (g x) else none) = (xs.filter p).getLast?.map g := by
  rw [findSome?_ite, List.filter_reverse, List.head?_reverse]

/-- The table after the layers holds a signal of the last layer that gives it out. -/
theorem latest?_afterLayers {totalBits : Nat} (layers : List LayerSettings) (available : Available) {name : String}
    {kind : LayerSettings → Bool} {source : LayerSettings → Source}
    (hsupplies : ∀ layer : LayerSettings,
      latest? (layer.supplies totalBits) name = if kind layer then some (source layer) else none) :
    latest? (afterLayers totalBits layers available) name =
      ((layers.filter kind).getLast?.map source).or (latest? available name) := by
  have hlayer : (fun layer => (supplies totalBits layer).find? fun s => s.signal.name = name) =
      fun layer => if kind layer then some (source layer) else none := funext hsupplies
  rw [latest?, afterLayers, List.find?_append, List.find?_flatMap, hlayer, findSome?_reverse_ite, ← latest?]

theorem latest?_supplies_y (totalBits : Nat) (layer : LayerSettings) :
    latest? (layer.supplies totalBits) "y" =
      if layer.hasCircuit then some ⟨.output "y" totalBits, layer.wire "y"⟩ else none := by
  rcases layer.boundary_cases totalBits with ⟨hb, hc, -⟩ | ⟨hb, hc, -⟩ | ⟨hb, hc, -⟩ <;>
    simp [supplies, latest?, hb, hc, Signal.output]

theorem latest?_supplies_x_address (totalBits : Nat) (layer : LayerSettings) :
    latest? (layer.supplies totalBits) "x_address" =
      if layer.isBuffered then some ⟨.output "x_address" (addressWidth layer.inputs), layer.wire "x_address"⟩
      else none := by
  rcases layer.boundary_cases totalBits with ⟨hb, hc, -⟩ | ⟨hb, hc, -⟩ | ⟨hb, hc, -⟩ <;>
    simp [supplies, latest?, hb, hc, Signal.output]

theorem latest?_supplies_done (totalBits : Nat) (layer : LayerSettings) :
    latest? (layer.supplies totalBits) "done" =
      if layer.isBuffered then some ⟨.output "done" 1, layer.wire "done"⟩ else none := by
  rcases layer.boundary_cases totalBits with ⟨hb, hc, -⟩ | ⟨hb, hc, -⟩ | ⟨hb, hc, -⟩ <;>
    simp [supplies, latest?, hb, hc, Signal.output]

/-- An output of the network is fed by the last layer that gives it out, or else by an input. -/
theorem resolve_output (strict : Bool) (n : Node) (sinkWidth : Nat) {available : Available}
    {kind : LayerSettings → Bool} {layers : List LayerSettings} {signal input : String}
    {width : LayerSettings → Nat} {inputWidth : Nat}
    (hcandidates : candidates signal = [signal, input])
    (hlast : latest? available signal =
      (layers.filter kind).getLast?.map fun layer => ⟨.output signal (width layer), layer.wire signal⟩)
    (hinput : latest? available input = some ⟨.input input inputWidth, input⟩)
    (hwidth : sinkWidth = ((layers.filter kind).getLast?.map width).getD inputWidth) :
    resolve strict available n (.output signal sinkWidth) =
      .ok ⟨n.qualify (.output signal sinkWidth), lastOr kind layers signal input⟩ := by
  unfold lastOr
  cases hkind : (layers.filter kind).getLast? with
  | none =>
    have hfeeder : feeder? available (Signal.output signal sinkWidth).name = some ⟨.input input inputWidth, input⟩ := by
      simp [feeder?, Signal.output, hcandidates, hlast, hkind, hinput]
    exact resolve_eq_ok hfeeder fun _ => by simp [hwidth, hkind, Signal.input, Signal.output]
  | some layer =>
    have hfeeder : feeder? available (Signal.output signal sinkWidth).name =
        some ⟨.output signal (width layer), layer.wire signal⟩ := by
      simp [feeder?, Signal.output, hcandidates, hlast, hkind]
    exact resolve_eq_ok hfeeder fun _ => by simp [hwidth, hkind, Signal.output]

/-! ### Widths of the network -/

section Widths

variable {totalBits : Nat} (hbits : 0 < totalBits) (layer : LayerSettings)
include hbits

theorem presentWidth?_x : Sequential.presentWidth? (layer.boundary totalBits).incoming "x" =
    if layer.hasCircuit then some totalBits else none := by
  rcases layer.boundary_cases totalBits with ⟨-, hc, hport⟩ | ⟨-, hc, hport⟩ | ⟨-, hc, hport⟩ <;>
    simp [Sequential.presentWidth?, hport, hc, Port.standard, Port.null, Signal.isPresent, Signal.input, hbits]

theorem presentWidth?_y : Sequential.presentWidth? (layer.boundary totalBits).outgoing "y" =
    if layer.hasCircuit then some totalBits else none := by
  rcases layer.boundary_cases totalBits with ⟨-, hc, hport⟩ | ⟨-, hc, hport⟩ | ⟨-, hc, hport⟩ <;>
    simp [Sequential.presentWidth?, hport, hc, Port.standard, Port.null, Signal.isPresent, Signal.output, hbits]

omit hbits in
theorem presentWidth?_y_address : Sequential.presentWidth? (layer.boundary totalBits).incoming "y_address" =
    if layer.isBuffered then some (addressWidth layer.outputs) else none := by
  have hwidth := addressWidth_pos layer.outputs
  rcases layer.boundary_cases totalBits with ⟨hb, -, hport⟩ | ⟨hb, -, hport⟩ | ⟨hb, -, hport⟩ <;>
    simp [Sequential.presentWidth?, hport, hb, Port.standard, Port.null, Signal.isPresent, Signal.input, hwidth]

omit hbits in
theorem presentWidth?_x_address : Sequential.presentWidth? (layer.boundary totalBits).outgoing "x_address" =
    if layer.isBuffered then some (addressWidth layer.inputs) else none := by
  have hwidth := addressWidth_pos layer.inputs
  rcases layer.boundary_cases totalBits with ⟨hb, -, hport⟩ | ⟨hb, -, hport⟩ | ⟨hb, -, hport⟩ <;>
    simp [Sequential.presentWidth?, hport, hb, Port.standard, Port.null, Signal.isPresent, Signal.output, hwidth]

end Widths

/-- The widths of a network, read off its layers. -/
def widthsOf (totalBits : Nat) (layers : List LayerSettings) : NetworkWidths where
  x := ((layers.filter hasCircuit).head?.map fun _ => totalBits).getD 1
  y := ((layers.filter hasCircuit).getLast?.map fun _ => totalBits).getD 1
  xAddress := ((layers.filter isBuffered).getLast?.map fun layer => addressWidth layer.inputs).getD 1
  yAddress := ((layers.filter isBuffered).head?.map fun layer => addressWidth layer.outputs).getD 1

section Network

variable {totalBits : Nat} {layers : List LayerSettings} {designs : List Design}
  (hviews : designs.map Design.view = layers.map fun layer => (layer.name, layer.boundary totalBits))
include hviews

theorem firstConsumerWidth_eq (name : String) : Sequential.firstConsumerWidth designs name =
    (layers.findSome? fun layer => Sequential.presentWidth? (layer.boundary totalBits).incoming name).getD 1 := by
  have h := congrArg (List.findSome? fun v => Sequential.presentWidth? v.2.incoming name) hviews
  rw [List.findSome?_map, List.findSome?_map] at h
  exact congrArg (Option.getD · 1) h

theorem lastProducerWidth_eq (name : String) : Sequential.lastProducerWidth designs name =
    (layers.reverse.findSome? fun layer =>
      Sequential.presentWidth? (layer.boundary totalBits).outgoing name).getD 1 := by
  have h := congrArg (fun vs => vs.reverse.findSome? fun v => Sequential.presentWidth? v.2.outgoing name) hviews
  simp only [← List.map_reverse, List.findSome?_map] at h
  exact congrArg (Option.getD · 1) h

theorem derivedWidths_eq (hbits : 0 < totalBits) : Sequential.derivedWidths designs = widthsOf totalBits layers := by
  simp only [Sequential.derivedWidths, widthsOf, firstConsumerWidth_eq hviews, lastProducerWidth_eq hviews,
    presentWidth?_x hbits, presentWidth?_y hbits, presentWidth?_x_address, presentWidth?_y_address,
    findSome?_ite, List.filter_reverse, List.head?_reverse]

/-- The circuits of a network are those of its layers. -/
theorem map_members_eq (name : String) (widths : NetworkWidths) (strict : Bool) :
    ((Sequential.mk name designs widths strict).members.map fun d => Node.component (Sequential.label d) d.port) =
      (layers.filter hasCircuit).map (node totalBits) := by
  have hnull : ∀ layer : LayerSettings, (!(layer.boundary totalBits).isNull) = layer.hasCircuit := by
    intro layer
    rcases layer.boundary_cases totalBits with ⟨-, hc, hport⟩ | ⟨-, hc, hport⟩ | ⟨-, hc, hport⟩ <;>
      simp [hport, hc, Port.isNull, Port.standard, Port.null]
  have h := congrArg (fun vs => (vs.filter fun v => !v.2.isNull).map fun v => Node.component ("i_" ++ v.1) v.2) hviews
  simp only [List.filter_map, List.map_map, Function.comp_def, hnull] at h
  exact h

end Network

/-! ### Networks -/

theorem Inputs.afterLayers (totalBits : Nat) (layers : List LayerSettings) {xWidth yAddressWidth : Nat}
    {available : Available} (h : Inputs available xWidth yAddressWidth) :
    Inputs (afterLayers totalBits layers available) xWidth yAddressWidth := by
  induction layers generalizing available with
  | nil => exact h
  | cons layer layers ih =>
    rw [afterLayers_cons]
    exact ih (h.after totalBits layer)

/-- Without a last entry there is no first one either. -/
theorem getD_getLast?_eq {α : Type} (xs : List α) (last first : α → Nat) :
    (xs.getLast?.map last).getD 1 = (xs.getLast?.map last).getD ((xs.head?.map first).getD 1) := by
  cases xs with
  | nil => rfl
  | cons x xs => simp [List.getLast?_cons]

/-- The outputs of a network are connected, strictly or not. -/
theorem resolveAll_outputs {totalBits : Nat} (strict : Bool) {layers : List LayerSettings} {available : Available}
    (h : Inputs available (widthsOf totalBits layers).x (widthsOf totalBits layers).yAddress)
    (hnew : ∀ name ∈ ["y", "x_address", "done"], latest? available name = none) {n : Node}
    (hqualify : ∀ signal, n.qualify signal = signal.name) :
    resolveAll strict (afterLayers totalBits layers available) n
      [.output "y" (widthsOf totalBits layers).y, .output "x_address" (widthsOf totalBits layers).xAddress,
        .output "done" 1] = .ok (outputLinks layers) := by
  have hinputs := h.afterLayers totalBits layers
  have hlastY := latest?_afterLayers layers available (latest?_supplies_y totalBits)
  have hlastX := latest?_afterLayers layers available (latest?_supplies_x_address totalBits)
  have hlastDone := latest?_afterLayers layers available (latest?_supplies_done totalBits)
  rw [hnew "y" (by decide), Option.or_none] at hlastY
  rw [hnew "x_address" (by decide), Option.or_none] at hlastX
  rw [hnew "done" (by decide), Option.or_none] at hlastDone
  have hdoneWidth : 1 = ((layers.filter isBuffered).getLast?.map fun _ => 1).getD 1 := by
    cases (layers.filter isBuffered).getLast? <;> rfl
  have hy := resolve_output strict n (widthsOf totalBits layers).y rfl hlastY hinputs.x (getD_getLast?_eq _ _ _)
  have hx := resolve_output strict n (widthsOf totalBits layers).xAddress rfl hlastX hinputs.yAddress
    (getD_getLast?_eq _ _ _)
  have hdone := resolve_output strict n 1 rfl hlastDone hinputs.enable hdoneWidth
  rw [hqualify] at hy hx hdone
  simp only [resolveAll, hy, hx, hdone, Outcome.ok_bind]
  rfl

theorem getD_map_pos {α : Type} (o : Option α) {g : α → Nat} (hg : ∀ a, 0 < g a) : 0 < (o.map g).getD 1 := by
  cases o with
  | none => exact Nat.one_pos
  | some a => exact hg a

/-- The data of a network with a circuit has the width of the numbers. -/
theorem widthsOf_x {totalBits : Nat} {layers : List LayerSettings} {layer : LayerSettings} (hmem : layer ∈ layers)
    (hc : layer.hasCircuit = true) : (widthsOf totalBits layers).x = totalBits := by
  have hfilter : layer ∈ layers.filter hasCircuit := List.mem_filter.mpr ⟨hmem, hc⟩
  cases hhead : (layers.filter hasCircuit).head? with
  | none =>
    rw [List.head?_eq_none_iff.mp hhead] at hfilter
    cases hfilter
  | some first => simp [widthsOf, hhead]

/-- The connections of a network are settled layer by layer; its outputs can always be connected. -/
theorem connections_eq {totalBits : Nat} (hbits : 0 < totalBits) {layers : List LayerSettings} {designs : List Design}
    (hviews : designs.map Design.view = layers.map fun layer => (layer.name, layer.boundary totalBits))
    (name : String) (strict : Bool) :
    (Sequential.mk name designs (Sequential.derivedWidths designs) strict).connections =
      (layers.mapM (layerOutcome strict (widthsOf totalBits layers).yAddress)).map
        fun first => ⟨first.flatten ++ outputLinks layers⟩ := by
  have hx : 0 < (widthsOf totalBits layers).x := getD_map_pos _ fun _ => hbits
  have hy : 0 < (widthsOf totalBits layers).y := getD_map_pos _ fun _ => hbits
  have hxAddress : 0 < (widthsOf totalBits layers).xAddress := getD_map_pos _ fun _ => addressWidth_pos _
  have hyAddress : 0 < (widthsOf totalBits layers).yAddress := getD_map_pos _ fun _ => addressWidth_pos _
  have hinputs := inputs_start hx hyAddress
  have hsinks : (Node.finish (widthsOf totalBits layers).y (widthsOf totalBits layers).xAddress).sinks =
      [.output "y" (widthsOf totalBits layers).y, .output "x_address" (widthsOf totalBits layers).xAddress,
        .output "done" 1] := by
    simp [Node.finish, Node.ofSignals, Signal.isPresent, Signal.output, hy, hxAddress]
  have houtputs := resolveAll_outputs strict hinputs (fun name => latest?_start_eq_none hx hyAddress)
    (n := Node.finish (widthsOf totalBits layers).y (widthsOf totalBits layers).xAddress)
    fun signal => String.empty_append
  rw [Sequential.connections, Sequential.nodes, map_members_eq hviews, derivedWidths_eq hviews hbits, connect,
    List.append_assoc, List.singleton_append, connectFrom]
  simp only [List.append_nil, connectFrom_layers hbits strict layers _ hinputs fun layer => widthsOf_x,
    connectFrom, hsinks, houtputs]
  cases layers.mapM (layerOutcome strict (widthsOf totalBits layers).yAddress) <;> rfl

theorem layerOutcome_eq_ok {strict : Bool} {yAddressWidth : Nat} {layer : LayerSettings}
    (h : strict = true → layer.isBuffered = true → yAddressWidth = addressWidth layer.outputs) :
    layerOutcome strict yAddressWidth layer = .ok layer.links :=
  if_neg fun ⟨hstrict, hb, hne⟩ => hne (h hstrict hb)

/-- The address of the outputs has the width of the first layer with buffers. -/
theorem widthsOf_yAddress {totalBits : Nat} {unbuffered rest : List LayerSettings} {first : LayerSettings}
    (hunbuffered : ∀ layer ∈ unbuffered, ¬ layer.isBuffered) (hfirst : first.isBuffered) :
    (widthsOf totalBits (unbuffered ++ first :: rest)).yAddress = addressWidth first.outputs := by
  simp [widthsOf, List.filter_append, List.filter_eq_nil_iff.mpr hunbuffered, hfirst]

/-- If there is a layer with buffers, there is a first one. -/
theorem exists_first_buffered {layers : List LayerSettings} {layer : LayerSettings} (hmem : layer ∈ layers)
    (hb : layer.isBuffered) : ∃ unbuffered first rest, layers = unbuffered ++ first :: rest ∧
      (∀ other ∈ unbuffered, ¬ other.isBuffered) ∧ first.isBuffered := by
  cases hfind : layers.find? isBuffered with
  | none => exact absurd hb (List.find?_eq_none.mp hfind layer hmem)
  | some first =>
    obtain ⟨hfirst, unbuffered, rest, hsplit, hunbuffered⟩ := List.find?_eq_some_iff_append.mp hfind
    exact ⟨unbuffered, first, rest, hsplit, fun other hother => by simpa using hunbuffered other hother, hfirst⟩

/-- **How the network of a configuration is wired.** A valid configuration whose layers can all be made
has a network. If widths are ignored, every layer with buffers takes its data, address, clock and
enable from the inputs of the network, every other circuit its data; the outputs of the network come
from the last circuit and the last circuit with buffers, or straight from the inputs. A strict wiring
gives the same connections if all layers with buffers have one address width, and else refuses the
address of the first layer whose width differs from that of the first one. -/
theorem connections_of_configuration {c : Config} {f : QFormat} (hvalid : c.validate = .ok ())
    (hformat : c.format = .ok f)
    (hlayers : ∀ layer ∈ c.layers, ∃ d, layer.design f c.output.romStyle = .ok d) :
    ∃ network, c.sequential = .ok network ∧
      (c.network.strictWidths = false → network.connections = .ok ⟨allLinks c.layers⟩) ∧
      (c.network.strictWidths = true →
        ((∀ one ∈ c.layers, ∀ other ∈ c.layers, one.isBuffered → other.isBuffered →
            addressWidth one.outputs = addressWidth other.outputs) →
          network.connections = .ok ⟨allLinks c.layers⟩) ∧
        (∀ unbuffered first between layer after,
          c.layers = unbuffered ++ first :: (between ++ layer :: after) →
          (∀ other ∈ unbuffered, ¬ other.isBuffered) → first.isBuffered →
          (∀ other ∈ between, other.isBuffered → addressWidth other.outputs = addressWidth first.outputs) →
          layer.isBuffered → addressWidth layer.outputs ≠ addressWidth first.outputs →
          network.connections = .error (.widthMismatch (layer.wire "y_address") "y_address"
            (addressWidth layer.outputs) (addressWidth first.outputs)))) := by
  obtain ⟨designs, hdesigns⟩ := Outcome.exists_mapM_eq_ok hlayers
  have hconnections := connections_eq f.total_pos (map_view_of_designs hdesigns) c.network.name
  refine ⟨_, Config.sequential_eq_ok hvalid hformat hdesigns, ?_, ?_⟩
  · intro hstrict
    rw [hconnections, hstrict, Outcome.mapM_eq_ok_map fun layer _ => layerOutcome_eq_ok (by simp)]
    rfl
  · intro hstrict
    rw [hconnections, hstrict]
    refine ⟨fun hequal => ?_, ?_⟩
    · have hlinks : ∀ layer ∈ c.layers,
          layerOutcome true (widthsOf f.totalBits c.layers).yAddress layer = .ok layer.links := by
        intro layer hlayer
        refine layerOutcome_eq_ok fun _ hb => ?_
        obtain ⟨unbuffered, first, rest, hsplit, hunbuffered, hfirst⟩ := exists_first_buffered hlayer hb
        have hwidth := hequal first (by simp [hsplit]) layer hlayer hfirst hb
        rw [hsplit, widthsOf_yAddress hunbuffered hfirst, hwidth]
      rw [Outcome.mapM_eq_ok_map hlinks]
      rfl
    · intro unbuffered first between layer after hsplit hunbuffered hfirst hbetween hb hne
      have haddress : (widthsOf f.totalBits c.layers).yAddress = addressWidth first.outputs := by
        rw [hsplit, widthsOf_yAddress hunbuffered hfirst]
      have hlinked : ∀ other ∈ unbuffered ++ first :: between,
          ∃ links, layerOutcome true (addressWidth first.outputs) other = .ok links := by
        intro other hother
        refine ⟨_, layerOutcome_eq_ok fun _ hother' => ?_⟩
        rcases List.mem_append.mp hother with hother | hother
        · exact absurd hother' (hunbuffered other hother)
        · rcases List.mem_cons.mp hother with rfl | hother
          · rfl
          · exact (hbetween other hother hother').symm
      have hrefused : layerOutcome true (addressWidth first.outputs) layer =
          .error (.widthMismatch (layer.wire "y_address") "y_address" (addressWidth layer.outputs)
            (addressWidth first.outputs)) := if_pos ⟨rfl, hb, hne.symm⟩
      have hshape : c.layers = (unbuffered ++ first :: between) ++ layer :: after := by
        rw [hsplit, List.append_assoc, List.cons_append]
      have hall := hshape ▸ Outcome.mapM_eq_error hlinked hrefused
      rw [haddress, hall]
      rfl

/-- A strict network whose layers go from one output to three. -/
def oneToThree : Config where
  network := ⟨"net", 8, 4, true⟩
  layers := [.flatten "a", .linear ⟨"b", 1, 1, [[.ofInt 1]], []⟩, .silu "s",
    .linear ⟨"c", 1, 3, [[.ofInt 1], [.ofInt 0], [.ofInt 1]], []⟩]
  skeleton := none
  testbench := none
  output := .standard

/-- Such a network is refused at its second layer with buffers. -/
theorem connections_oneToThree :
    ∃ network, oneToThree.sequential = .ok network ∧
      network.connections = .error (.widthMismatch "i_c_y_address" "y_address" 2 1) := by
  have hlayers : ∀ layer ∈ oneToThree.layers,
      (layer.design ⟨8, 4, by decide, by decide, by decide⟩ oneToThree.output.romStyle).isOk = true := by decide +kernel
  have hdesigns : ∀ layer ∈ oneToThree.layers,
      ∃ d, layer.design ⟨8, 4, by decide, by decide, by decide⟩ oneToThree.output.romStyle = .ok d := by
    intro layer hlayer
    have hok := hlayers layer hlayer
    cases hdesign : layer.design ⟨8, 4, by decide, by decide, by decide⟩ oneToThree.output.romStyle with
    | ok d => exact ⟨d, rfl⟩
    | error e =>
      rw [hdesign] at hok
      cases hok
  obtain ⟨network, hnetwork, -, hstrict⟩ := connections_of_configuration (by decide +kernel) rfl hdesigns
  refine ⟨network, hnetwork, ?_⟩
  exact (hstrict rfl).2 [_] _ [_] _ [] rfl (by simp [isBuffered]) rfl (by simp [isBuffered]) rfl (by decide)

end QuantNet
