import QuantNet.Proofs.CircuitShapes
import QuantNet.Proofs.EmittedFiles
import QuantNet.Proofs.Netlist

/-!
# Identifiers of a netlist

The architecture of a network declares its internal signals and labels its instances, and all of these are
identifiers of one scope. An instance of a layer `n` is labelled `i_n`, an internal signal of it is called `i_n_s`.
Labels are different from each other because the layers are, and so are the internal signals
(`Sequential.Standard.nodup_actuals`). But nothing keeps a label from being called like a signal: names of
layers may hold underscores, and a layer `a_x` beside a layer `a` is labelled like the signal `x` of the latter.
The identifiers of a network are different exactly if no layer with a circuit has a name of this form
(`nodup_identifiers_of_network`).
-/

namespace QuantNet

namespace Sequential

/-! ### Labels and declared names -/

/-- The labels of the instances of a network. -/
def labels (s : Sequential) : List String := s.instances.map Vhdl.Instance.label

/-- The identifiers that the architecture of a network declares: its internal signals and its labels. -/
def identifiers (s : Sequential) : List String := s.declarations.map Vhdl.Declaration.name ++ s.labels

theorem labels_eq (s : Sequential) : s.labels = s.members.map label := by
  rw [labels, instances, List.map_map]
  rfl

theorem label_inj {d e : Design} (h : label d = label e) : d.name = e.name := (String.append_right_inj _).mp h

/-- A label is an internal signal if the name of its component is that of the other one, continued by the signal. -/
theorem label_eq_wire_iff {d e : Design} {signal : Signal} :
    label d = wire e signal ↔ d.name = e.name ++ "_" ++ signal.name := by
  rw [wire, label, label, String.append_assoc, String.append_assoc, String.append_right_inj, ← String.append_assoc]

namespace Standard

variable {s : Sequential} (h : s.Standard)
include h

theorem nodup_labels : s.labels.Nodup := by
  rw [labels_eq, List.nodup_map_iff_inj_on (h.names_nodup.of_map _)]
  exact fun d hd e he hsame => List.inj_on_of_nodup_map h.names_nodup hd he (label_inj hsame)

theorem nodup_declared : (s.declarations.map Vhdl.Declaration.name).Nodup :=
  s.perm_actuals.nodup_iff.mpr h.nodup_actuals

/-- The identifiers of a network are different if no label is an internal signal. -/
theorem nodup_identifiers_iff :
    s.identifiers.Nodup ↔ ∀ d ∈ s.members, ∀ e ∈ s.members, ∀ signal ∈ e.port.present,
      d.name ≠ e.name ++ "_" ++ signal.name := by
  have hdisjoint : s.identifiers.Nodup ↔ ∀ name ∈ s.actuals, name ∉ s.labels := by
    rw [identifiers, List.nodup_append']
    simp only [h.nodup_declared, h.nodup_labels, true_and, List.Disjoint, s.perm_actuals.mem_iff]
  rw [hdisjoint]
  simp only [actuals_eq, labels_eq, List.mem_flatMap, List.mem_map]
  constructor
  · rintro hfresh d hd e he signal hsignal hname
    exact hfresh (wire e signal) ⟨e, he, signal, hsignal, rfl⟩ ⟨d, hd, label_eq_wire_iff.mpr hname⟩
  · rintro hfresh _ ⟨e, he, signal, hsignal, rfl⟩ ⟨d, hd, hsame⟩
    exact hfresh d hd e he signal hsignal (label_eq_wire_iff.mp hsame)

end Standard

end Sequential

/-! ### Layers -/

namespace LayerSettings

/-- What the signals of the circuit of a layer are called. -/
def signalNames (layer : LayerSettings) : List String :=
  if layer.isBuffered then ["x", "y_address", "clock", "enable", "y", "x_address", "done"]
  else if layer.hasCircuit then ["x", "y"]
  else []

theorem map_name_present {totalBits : Nat} (hbits : 0 < totalBits) (layer : LayerSettings) :
    (layer.boundary totalBits).present.map Signal.name = layer.signalNames := by
  have hpresent : (layer.boundary totalBits).present = (layer.boundary totalBits).signals :=
    List.filter_eq_self.mpr fun _ => isPresent_of_mem_boundary hbits
  rw [hpresent, signalNames]
  rcases layer.boundary_cases totalBits with ⟨hb, -, hport⟩ | ⟨hb, hc, hport⟩ | ⟨hb, hc, hport⟩
  · rw [hport, if_pos hb]
    rfl
  · rw [hport, if_neg (by simp [hb]), if_pos hc]
    rfl
  · rw [hport, if_neg (by simp [hb]), if_neg (by simp [hc])]
    rfl

theorem hasCircuit_of_mem_signalNames {layer : LayerSettings} {name : String} (h : name ∈ layer.signalNames) :
    layer.hasCircuit = true := by
  cases layer with
  | flatten _ => exact absurd h List.not_mem_nil
  | _ => rfl

end LayerSettings

section Configured

variable {totalBits : Nat} {layers : List LayerSettings} {designs : List Design}
  (hviews : designs.map Design.view = layers.map fun layer => (layer.name, layer.boundary totalBits))
  {s : Sequential} (hs : s.designs = designs)
include hviews hs

/-- The instances of a network are those of the layers with a circuit. -/
theorem forall_members_iff {P : String → Port → Prop} :
    (∀ d ∈ s.members, P d.name d.port) ↔
      ∀ layer ∈ layers, layer.hasCircuit → P layer.name (layer.boundary totalBits) := by
  constructor
  · intro hall layer hlayer hcircuit
    obtain ⟨d, hd, hname, hport⟩ := exists_component hviews hlayer
    rw [← hname, ← hport]
    exact hall d (List.mem_filter.mpr ⟨hs ▸ hd, by rw [hport, LayerSettings.isNull_boundary, hcircuit]⟩)
  · intro hall d hd
    obtain ⟨hmem, hnull⟩ := List.mem_filter.mp hd
    obtain ⟨layer, hlayer, hname, hport⟩ := exists_layer hviews (hs ▸ hmem)
    rw [hport, LayerSettings.isNull_boundary] at hnull
    rw [hname, hport]
    exact hall layer hlayer hnull

/-- The present signals of the instances are called like those of the layers. -/
theorem forall_present_iff (hbits : 0 < totalBits) {P : String → String → Prop} :
    (∀ d ∈ s.members, ∀ signal ∈ d.port.present, P d.name signal.name) ↔
      ∀ layer ∈ layers, ∀ signal ∈ layer.signalNames, P layer.name signal := by
  rw [forall_members_iff hviews hs (P := fun name port => ∀ signal ∈ port.present, P name signal.name)]
  refine forall₂_congr fun layer _ => ?_
  have hpresent := LayerSettings.map_name_present hbits layer
  rw [← hpresent, List.forall_mem_map]
  refine ⟨fun hall signal hsignal => ?_, fun hall _ => hall⟩
  have hname : signal.name ∈ layer.signalNames := hpresent ▸ List.mem_map_of_mem hsignal
  exact hall (LayerSettings.hasCircuit_of_mem_signalNames hname) signal hsignal

end Configured

/-- **When the identifiers of a network are different.** If the network of a valid configuration is made, the lines
of its declarations and of its instances tell which internal signals and labels it declares. The labels are different
from each other, and so are the internal signals. A label is called like an internal signal exactly if the
configuration has a layer whose name is that of another layer, an underscore, and the name of a signal of the
latter. -/
theorem nodup_identifiers_of_network {c : Config} {network : Sequential} (hvalid : c.validate = .ok ())
    (hnetwork : c.sequential = .ok network) :
    network.signalDefinitions = network.declarations.map Vhdl.Declaration.line ∧
      network.instantiations = network.instances.flatMap Vhdl.Instance.lines ∧
      network.labels.Nodup ∧ (network.declarations.map Vhdl.Declaration.name).Nodup ∧
      (network.identifiers.Nodup ↔ ∀ layer ∈ c.layers, layer.hasCircuit → ∀ other ∈ c.layers,
        ∀ signal ∈ other.signalNames, layer.name ≠ other.name ++ "_" ++ signal) := by
  obtain ⟨f, designs, -, hdesigns, rfl⟩ := Config.of_sequential hvalid hnetwork
  have hviews := map_view_of_designs hdesigns
  have hnames := (Config.of_checkLayers (Config.of_validate hvalid).2.2.1).1
  generalize hs : Sequential.mk c.network.name designs (Sequential.derivedWidths designs) c.network.strictWidths = s
  have hsdesigns : s.designs = designs := by rw [← hs]
  have hstandard : s.Standard := standard_of_layers hviews hsdesigns hnames
  refine ⟨s.signalDefinitions_eq, s.instantiations_eq, hstandard.nodup_labels, hstandard.nodup_declared, ?_⟩
  have hwires := fun name => forall_present_iff hviews hsdesigns f.total_pos
    (P := fun other signal => name ≠ other ++ "_" ++ signal)
  rw [hstandard.nodup_identifiers_iff]
  simp only [hwires]
  exact forall_members_iff hviews hsdesigns
    (P := fun name _ => ∀ other ∈ c.layers, ∀ signal ∈ other.signalNames, name ≠ other.name ++ "_" ++ signal)

/-- In a network of a convolution, a fully connected layer and an activation all identifiers are different. -/
theorem nodup_identifiers_chain : Build.chain.validate = .ok () ∧
    ∃ network, Build.chain.sequential = .ok network ∧ network.identifiers.Nodup := by
  obtain ⟨network, hnetwork⟩ := Outcome.exists_eq_ok_of_isOk (x := Build.chain.sequential) (by decide)
  obtain ⟨-, -, -, -, hnodup⟩ := nodup_identifiers_of_network Build.validate_chain hnetwork
  exact ⟨Build.validate_chain, network, hnetwork, hnodup.mpr (by decide)⟩

/-- A network with a layer that is called like a signal of another one. -/
def calledLikeSignal : Config where
  network := ⟨"net", 8, 4, true⟩
  layers := [.silu "a", .silu "a_x"]
  skeleton := none
  testbench := none
  output := .standard

/-- The network of a valid configuration that builds may label an instance like an internal signal. -/
theorem not_nodup_identifiers_of_build :
    ¬ ∀ (c : Config) (network : Sequential) (result : Build), c.validate = .ok () → c.sequential = .ok network →
      Build.ofConfig c = .ok result → network.identifiers.Nodup := by
  intro h
  obtain ⟨result, hresult⟩ :=
    Build.exists_ofConfig_of_nodup (c := calledLikeSignal) (by decide) (by decide) (by decide) (by decide)
  let f : QFormat := { totalBits := 8, fracBits := 4 }
  have hunits : calledLikeSignal.layers.mapM (LayerSettings.design f calledLikeSignal.output.romStyle) =
      .ok [(Silu.mk "a" f).design, (Silu.mk "a_x" f).design] := rfl
  have hnetwork := Config.sequential_eq_ok (c := calledLikeSignal) (by decide) rfl hunits
  have hnodup := h calledLikeSignal _ result (by decide) hnetwork hresult
  rw [Sequential.identifiers, List.nodup_append', List.disjoint_left] at hnodup
  obtain ⟨-, -, hfresh⟩ := hnodup
  exact hfresh ((Sequential.perm_actuals _).mem_iff.mpr (by decide : "i_a_x" ∈ _)) (by decide)

end QuantNet
