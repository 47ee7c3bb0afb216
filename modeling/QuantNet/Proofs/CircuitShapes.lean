import QuantNet.Proofs.BuildSteps

/-!
# What a network owes to the shapes of its layers

The layers of a configuration come with their trained parameters, and some of them have no circuit at all. None of
this matters to the network: the text of the network and its wiring, the wrapper and the testbench follow from the
shapes of the layers that have a circuit (`LayerSettings.shapes`), which are what is left of the layers
when the flatten layers are left out and the trained parameters are forgotten.
-/

namespace QuantNet

open Outcome

/-! ### Shapes -/

/-- The convolution without its trained parameters. -/
def Conv1dSettings.untrained (s : Conv1dSettings) : Conv1dSettings := { s with weights := [], bias := [] }

namespace LayerSettings

/-- The layer without its trained parameters. -/
def untrained : LayerSettings → LayerSettings
  | linear s => .linear { s with weights := [], bias := [] }
  | conv1d s => .conv1d s.untrained
  | hardSigmoid name => .hardSigmoid name
  | silu name => .silu name
  | flatten name => .flatten name

/-- The shapes of the layers that have a circuit. -/
def shapes (layers : List LayerSettings) : List LayerSettings := (layers.filter hasCircuit).map untrained

variable {layers layers' : List LayerSettings}

theorem shapes_append : shapes (layers ++ layers') = shapes layers ++ shapes layers' := by
  rw [shapes, List.filter_append, List.map_append, shapes, shapes]

theorem shapes_reverse : shapes layers.reverse = (shapes layers).reverse := by
  rw [shapes, List.filter_reverse, List.map_reverse, shapes]

/-- A layer has a port exactly if it has a circuit. -/
theorem isNull_boundary (totalBits : Nat) (layer : LayerSettings) :
    (!(layer.boundary totalBits).isNull) = layer.hasCircuit := by
  cases layer <;> rfl

theorem view_untrained (totalBits : Nat) (layer : LayerSettings) :
    (layer.untrained.name, layer.untrained.boundary totalBits) = (layer.name, layer.boundary totalBits) := by
  cases layer <;> rfl

/-- The first count that layers give is given by their shapes. -/
theorem firstCount_shapes {ε : Type} {count : LayerSettings → Checked ε (Option Nat)}
    (hflatten : ∀ name, count (.flatten name) = .ok none) (huntrained : ∀ layer, count layer.untrained = count layer)
    (layers : List LayerSettings) : firstCount count (shapes layers) = firstCount count layers := by
  induction layers with
  | nil => rfl
  | cons layer rest ih =>
    cases hcircuit : layer.hasCircuit with
    | false =>
      cases layer with
      | flatten name =>
        rw [shapes, List.filter_cons_of_neg (by simp [hcircuit]), firstCount, hflatten, ok_bind]
        exact ih
      | _ => cases hcircuit
    | true =>
      rw [shapes, List.filter_cons_of_pos hcircuit, List.map_cons, firstCount, firstCount, huntrained]
      refine congrArg _ (funext fun found => ?_)
      cases found with
      | some n => rfl
      | none => exact ih

theorem inputCount_untrained {ε : Type} (layer : LayerSettings) :
    (layer.untrained.inputCount : Checked ε (Option Nat)) = layer.inputCount := by
  cases layer <;> rfl

theorem outputCount_untrained {ε : Type} (layer : LayerSettings) :
    (layer.untrained.outputCount : Checked ε (Option Nat)) = layer.outputCount := by
  cases layer <;> rfl

end LayerSettings

/-! ### Networks -/

namespace Sequential

/-- What the wiring sees of the components that take part in the circuit. -/
def visible (designs : List Design) : List (String × Port) :=
  (designs.filter fun d => !d.port.isNull).map Design.view

variable {designs designs' : List Design}

/-- What is found in the ports of components is found in those that take part in the circuit. -/
theorem findSome?_visible {α : Type} {find : Port → Option α}
    (hnull : ∀ port : Port, port.isNull = true → find port = none) (designs : List Design) :
    (visible designs).findSome? (fun v => find v.2) = designs.findSome? fun d => find d.port := by
  rw [visible, List.findSome?_map]
  change (designs.filter fun d => !d.port.isNull).findSome? (fun d => find d.port) = _
  induction designs with
  | nil => rfl
  | cons d rest ih =>
    cases hport : d.port.isNull with
    | true =>
      rw [List.filter_cons_of_neg (by simp [hport]), List.findSome?_cons, hnull _ hport]
      exact ih
    | false =>
      rw [List.filter_cons_of_pos (by simp [hport]), List.findSome?_cons, List.findSome?_cons, ih]

theorem visible_reverse : visible designs.reverse = (visible designs).reverse := by
  rw [visible, List.filter_reverse, List.map_reverse, visible]

/-- The widths of a network follow from what is visible of its components. -/
theorem derivedWidths_congr (h : visible designs = visible designs') :
    derivedWidths designs = derivedWidths designs' := by
  have hincoming : ∀ name, firstConsumerWidth designs name = firstConsumerWidth designs' name := by
    intro name
    have hnull : ∀ port : Port, port.isNull = true → presentWidth? port.incoming name = none := by
      intro port hport
      rw [Port.isNull, Bool.and_eq_true, List.isEmpty_iff] at hport
      rw [hport.1]
      rfl
    rw [firstConsumerWidth, ← findSome?_visible hnull, h, findSome?_visible hnull, firstConsumerWidth]
  have houtgoing : ∀ name, lastProducerWidth designs name = lastProducerWidth designs' name := by
    intro name
    have hnull : ∀ port : Port, port.isNull = true → presentWidth? port.outgoing name = none := by
      intro port hport
      rw [Port.isNull, Bool.and_eq_true, List.isEmpty_iff, List.isEmpty_iff] at hport
      rw [hport.2]
      rfl
    rw [lastProducerWidth, ← findSome?_visible hnull, visible_reverse, h, ← visible_reverse, findSome?_visible hnull,
      lastProducerWidth]
  rw [derivedWidths, derivedWidths, hincoming, hincoming, houtgoing, houtgoing]

/-- The wiring and the text of a network follow from what is visible of its components. -/
theorem circuit_congr (h : visible designs = visible designs') (name : String) (widths : NetworkWidths)
    (strict : Bool) :
    connections ⟨name, designs, widths, strict⟩ = connections ⟨name, designs', widths, strict⟩ ∧
      render ⟨name, designs, widths, strict⟩ = render ⟨name, designs', widths, strict⟩ := by
  have hnodes : nodes ⟨name, designs, widths, strict⟩ = nodes ⟨name, designs', widths, strict⟩ := by
    have hcomponents := congrArg (List.map fun v => Node.component ("i_" ++ v.1) v.2) h
    simp only [visible, List.map_map] at hcomponents
    exact congrArg (fun components => [Node.start widths.x widths.yAddress] ++ components ++
      [Node.finish widths.y widths.xAddress]) hcomponents
  have hinstances : instantiations ⟨name, designs, widths, strict⟩ =
      instantiations ⟨name, designs', widths, strict⟩ := by
    have hlines := congrArg (List.flatMap fun v => (instanceOf ⟨v.1, v.2, []⟩).lines) h
    simp only [visible, List.flatMap_map] at hlines
    exact hlines
  have hsignals : signalDefinitions ⟨name, designs, widths, strict⟩ =
      signalDefinitions ⟨name, designs', widths, strict⟩ := by
    have hlines := congrArg (List.flatMap fun v => Vhdl.signalDefinitions ("i_" ++ v.1 ++ "_") v.2.signals) h
    simp only [visible, List.flatMap_map] at hlines
    exact congrArg Vhdl.sortLines hlines
  have hconnections : connections ⟨name, designs, widths, strict⟩ = connections ⟨name, designs', widths, strict⟩ := by
    rw [connections, connections, hnodes]
  have hparameters : parameters ⟨name, designs, widths, strict⟩ = parameters ⟨name, designs', widths, strict⟩ := by
    funext wiring
    rw [parameters, parameters, hinstances, hsignals]
  refine ⟨hconnections, ?_⟩
  rw [render, render, hconnections, hparameters]

end Sequential

/-- What is visible of the components of layers are their shapes. -/
theorem LayerSettings.visible_of_designs {f : QFormat} {style : String} {layers : List LayerSettings}
    {designs : List Design} (h : layers.mapM (LayerSettings.design f style) = .ok designs) :
    Sequential.visible designs = (shapes layers).map fun layer => (layer.name, layer.boundary f.totalBits) := by
  have hviews := congrArg (List.filter fun v : String × Port => !v.2.isNull) (map_view_of_designs h)
  rw [List.filter_map, List.filter_map] at hviews
  simp only [Function.comp_def, isNull_boundary] at hviews
  rw [shapes, List.map_map]
  simp only [Function.comp_def, view_untrained]
  exact hviews

namespace Sequential

/-- Names among which none is found a second time are different. -/
theorem nodup_of_repeated? {seen names : List String} (h : repeated? seen names = none) :
    names.Nodup ∧ ∀ n ∈ names, n ∉ seen := by
  induction names generalizing seen with
  | nil => exact ⟨List.nodup_nil, List.forall_mem_nil _⟩
  | cons n rest ih =>
    rw [repeated?] at h
    split_ifs at h with hseen
    obtain ⟨hnodup, hnew⟩ := ih h
    refine ⟨List.nodup_cons.mpr ⟨fun hmem => hnew n hmem List.mem_cons_self, hnodup⟩, ?_⟩
    exact List.forall_mem_cons.mpr ⟨hseen, fun m hm hmem => hnew m hm (List.mem_cons_of_mem _ hmem)⟩

end Sequential

namespace Config

variable {c c' : Config} {network network' : Sequential}

/-- The network of a configuration is made if all layers are made and have different names. -/
theorem sequential_eq_ok_iff :
    c.sequential = .ok network ↔ ∃ f designs, c.format = .ok f ∧
      c.layers.mapM (LayerSettings.design f c.output.romStyle) = .ok designs ∧
      (c.layers.map LayerSettings.name).Nodup ∧
      network = ⟨c.network.name, designs, Sequential.derivedWidths designs, c.network.strictWidths⟩ := by
  simp only [sequential, bind_eq_ok_iff, lift_eq_ok_iff, Sequential.ofDesigns, Sequential.make]
  constructor
  · rintro ⟨f, hformat, designs, hdesigns, made, hmade, hnetwork⟩
    refine ⟨f, designs, hformat, hdesigns, ?_⟩
    rw [← map_name_of_designs hdesigns]
    split at hmade
    · cases hmade
    · rename_i hrepeated
      cases hmade
      cases hnetwork
      exact ⟨(Sequential.nodup_of_repeated? hrepeated).1, rfl⟩
  · rintro ⟨f, designs, hformat, hdesigns, hnodup, rfl⟩
    have hnames := map_name_of_designs hdesigns
    refine ⟨f, hformat, designs, hdesigns, ⟨c.network.name, designs, Sequential.derivedWidths designs, true⟩, ?_, rfl⟩
    rw [Sequential.repeated?_eq_none (hnames ▸ hnodup) fun _ _ => List.not_mem_nil]

/-- The network follows from the shapes of its layers. -/
theorem circuit_of_shapes (h : c.sequential = .ok network) (h' : c'.sequential = .ok network')
    (hnetwork : c'.network = c.network) (hshapes : LayerSettings.shapes c'.layers = LayerSettings.shapes c.layers) :
    network'.name = network.name ∧ network'.port = network.port ∧ network'.connections = network.connections ∧
      network'.render = network.render := by
  obtain ⟨f, designs, hformat, hdesigns, -, rfl⟩ := sequential_eq_ok_iff.mp h
  obtain ⟨f', designs', hformat', hdesigns', -, rfl⟩ := sequential_eq_ok_iff.mp h'
  obtain rfl : f' = f := by
    rw [format, hnetwork] at hformat'
    exact Except.ok.inj (hformat'.symm.trans hformat)
  have hvisible : Sequential.visible designs' = Sequential.visible designs := by
    rw [LayerSettings.visible_of_designs hdesigns', LayerSettings.visible_of_designs hdesigns, hshapes]
  rw [hnetwork, Sequential.derivedWidths_congr hvisible]
  obtain ⟨hconnections, hrender⟩ := Sequential.circuit_congr hvisible c.network.name
    (Sequential.derivedWidths designs) c.network.strictWidths
  exact ⟨rfl, rfl, hconnections, hrender⟩

/-! ### Wrappers and testbenches -/

theorem countOr_of_shapes {ε : Type} {count : LayerSettings → Checked ε (Option Nat)}
    (hflatten : ∀ name, count (.flatten name) = .ok none) (huntrained : ∀ layer, count layer.untrained = count layer)
    {layers layers' : List LayerSettings} (hshapes : LayerSettings.shapes layers' = LayerSettings.shapes layers)
    (set : Option Nat) : countOr set count layers' = countOr set count layers := by
  cases set with
  | some n => rfl
  | none =>
    rw [countOr, countOr, ← LayerSettings.firstCount_shapes hflatten huntrained, hshapes,
      LayerSettings.firstCount_shapes hflatten huntrained]

/-- The wrapper follows from the shapes of the layers and the boundary of the network. -/
theorem wrapper_of_shapes (hskeleton : c'.skeleton = c.skeleton)
    (hshapes : LayerSettings.shapes c'.layers = LayerSettings.shapes c.layers) (hname : network'.name = network.name)
    (hport : network'.port = network.port) : c'.wrapper network' = c.wrapper network := by
  have hreverse : LayerSettings.shapes c'.layers.reverse = LayerSettings.shapes c.layers.reverse := by
    rw [LayerSettings.shapes_reverse, hshapes, LayerSettings.shapes_reverse]
  rw [wrapper, wrapper, hskeleton]
  cases c.skeleton with
  | none => rfl
  | some s =>
    dsimp only
    rw [countOr_of_shapes (fun _ => rfl) LayerSettings.inputCount_untrained hshapes,
      countOr_of_shapes (fun _ => rfl) LayerSettings.outputCount_untrained hreverse, hname, hport]

/-- The convolution of a name is found among the shapes, but for its trained parameters. -/
theorem conv1d?_untrained (c : Config) (name : String) :
    (c.conv1d? name).map Conv1dSettings.untrained =
      conv1d? { c with layers := LayerSettings.shapes c.layers } name := by
  unfold conv1d?
  dsimp only
  induction c.layers with
  | nil => rfl
  | cons layer rest ih =>
    cases layer with
    | flatten other => exact ih
    | linear s => exact ih
    | hardSigmoid other => exact ih
    | silu other => exact ih
    | conv1d s =>
      change _ = List.findSome? _ (LayerSettings.conv1d s.untrained :: LayerSettings.shapes rest)
      rw [List.findSome?_cons, List.findSome?_cons]
      dsimp only
      by_cases hname : s.name = name
      · rw [if_pos hname, if_pos (show s.untrained.name = name from hname)]
        rfl
      · rw [if_neg hname, if_neg (show s.untrained.name ≠ name from hname)]
        exact ih

/-- Layers of one shape make the same unit under test. -/
theorem underTest_of_untrained {s s' : Conv1dSettings} {f : QFormat} {style : String} {l l' : Conv1d}
    (h : s.layer f style = .ok l) (h' : s'.layer f style = .ok l') (hshape : s'.untrained = s.untrained) :
    l'.underTest = l.underTest := by
  obtain ⟨_, _, rfl, -⟩ := Conv1dSettings.of_layer h
  obtain ⟨_, _, rfl, -⟩ := Conv1dSettings.of_layer h'
  simp only [Conv1dSettings.untrained, Conv1dSettings.mk.injEq] at hshape
  obtain ⟨hname, hin, hout, hlength, hkernel, -⟩ := hshape
  simp only [Conv1d.underTest, Conv1d.port, hname, hin, hout, hlength, hkernel]

/-- The unit under test is the convolution of its name. -/
theorem of_configuredConv1d {name : String} {made : Conv1d × QFormat} (h : Build.configuredConv1d c name = .ok made) :
    c.format = .ok made.2 ∧ ∃ s, c.conv1d? name = some s ∧ s.layer made.2 c.output.romStyle = .ok made.1 := by
  simp only [Build.configuredConv1d, bind_eq_ok_iff, lift_eq_ok_iff, within_eq_ok_iff] at h
  obtain ⟨f, hformat, s, hs, l, hl, hmade⟩ := h
  cases hmade
  refine ⟨hformat, s, ?_, hl⟩
  unfold findConv1d at hs
  split at hs
  · rename_i found hfound
    cases hs
    exact hfound
  · cases hs

/-- The testbench follows from the shapes of the layers. -/
theorem testbench_of_shapes {testbench testbench' : Option Testbench}
    (h : Build.configuredTestbench c = .ok testbench) (h' : Build.configuredTestbench c' = .ok testbench')
    (hnetwork : c'.network = c.network) (htestbench : c'.testbench = c.testbench) (houtput : c'.output = c.output)
    (hshapes : LayerSettings.shapes c'.layers = LayerSettings.shapes c.layers) : testbench' = testbench := by
  unfold Build.configuredTestbench at h h'
  rw [htestbench] at h'
  cases hset : c.testbench with
  | none =>
    rw [hset] at h h'
    cases h
    cases h'
    rfl
  | some settings =>
    rw [hset] at h h'
    obtain ⟨⟨l, f⟩, hmade, h⟩ := bind_eq_ok_iff.mp h
    obtain ⟨⟨l', f'⟩, hmade', h'⟩ := bind_eq_ok_iff.mp h'
    obtain ⟨hformat, s, hs, hl⟩ := of_configuredConv1d hmade
    obtain ⟨hformat', s', hs', hl'⟩ := of_configuredConv1d hmade'
    have hshape : s'.untrained = s.untrained := by
      have hfound := conv1d?_untrained c' settings.uut
      rw [hshapes, hs'] at hfound
      have hfound' := conv1d?_untrained c settings.uut
      rw [hs] at hfound'
      exact Option.some.inj (hfound.trans hfound'.symm)
    obtain rfl : f' = f := by
      rw [format, hnetwork] at hformat'
      exact Except.ok.inj (hformat'.symm.trans hformat)
    rw [houtput] at hl'
    have hunit := underTest_of_untrained hl hl' hshape
    dsimp only at h h' hunit
    rw [hunit] at h'
    exact Except.ok.inj (h'.symm.trans h)

end Config

end QuantNet
