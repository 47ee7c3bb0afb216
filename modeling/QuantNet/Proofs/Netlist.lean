import QuantNet.Proofs.NetlistLines
import QuantNet.Proofs.NetworkWiring

/-!
# Well-formed netlists

The text of a network declares internal signals, maps them to the signals of its instances, and
assigns them in its connections. Three generators write these parts, each by itself; here they are
shown to speak of the same signals. What they speak of is what their lines say (`Prints`).

The internal signal of the signal `s` of a layer `n` is called `i_n_s`. A name of a layer may hold
underscores, so a name like this could be cut in several places. But of the seven names that signals
have, none is the end of another one after an underscore (`eq_of_suffix`). Hence the name tells the
layer and the signal (`wire_injective`), and the names of all layers are different from each other and
from those of the boundary (`nodup_wires`, `wire_ne_standard`). The rest is bookkeeping: the
declarations and the port maps name the present signals of every instance, the sinks of the
connections are the present signals that the instances take in and the outputs of the network
(`sinks_of_connections`), and the sources are known from the wiring of the layers (`source_of_mem_allLinks`).
-/

namespace QuantNet

/-! ### Names of internal signals -/

namespace Sequential

/-- The names that signals of layers and networks have. -/
def standardNames : List String := ["x", "y", "x_address", "y_address", "enable", "done", "clock"]

/-- The internal signal that a signal of a component is mapped to. -/
def wire (d : Design) (s : Signal) : String := label d ++ "_" ++ s.name

/-- After an underscore, no standard name ends with another one. -/
theorem eq_of_suffix : ∀ s ∈ standardNames, ∀ t ∈ standardNames,
    ('_' :: s.toList) <:+ ('_' :: t.toList) → s = t := by
  decide

/-- The name of an internal signal tells the component and the signal. -/
theorem wire_injective {d e : Design} {s t : Signal} (hs : s.name ∈ standardNames) (ht : t.name ∈ standardNames)
    (h : wire d s = wire e t) : d.name = e.name ∧ s.name = t.name := by
  have hchars : d.name.toList ++ '_' :: s.name.toList = e.name.toList ++ '_' :: t.name.toList := by
    simpa [wire, label] using congrArg String.toList h
  have hsignal : s.name = t.name := by
    have hleft : '_' :: s.name.toList <:+ d.name.toList ++ '_' :: s.name.toList := List.suffix_append _ _
    have hright : '_' :: t.name.toList <:+ d.name.toList ++ '_' :: s.name.toList :=
      hchars ▸ List.suffix_append _ _
    rcases List.suffix_or_suffix_of_suffix hleft hright with hsuffix | hsuffix
    · exact eq_of_suffix _ hs _ ht hsuffix
    · exact (eq_of_suffix _ ht _ hs hsuffix).symm
  rw [hsignal] at hchars
  exact ⟨String.toList_inj.mp (List.append_cancel_right hchars), hsignal⟩

/-- No internal signal is called like a signal of the boundary. -/
theorem wire_ne_standard (d : Design) (s : Signal) {name : String} (h : name ∈ standardNames) : wire d s ≠ name := by
  have hfirst : ∀ other ∈ standardNames, other.toList.head? ≠ some 'i' := by decide
  rintro rfl
  exact hfirst _ h (by simp [wire, label])

/-- Components with different names and some signals of each, with different standard names, have
different internal signals. -/
theorem nodup_wires {ds : List Design} {pick : Design → List Signal} (hnames : (ds.map Design.name).Nodup)
    (hnodup : ∀ d ∈ ds, ((pick d).map Signal.name).Nodup)
    (hstandard : ∀ d ∈ ds, ∀ s ∈ pick d, s.name ∈ standardNames) :
    (ds.flatMap fun d => (pick d).map (wire d)).Nodup := by
  rw [List.nodup_flatMap]
  refine ⟨fun d hd => ?_, ?_⟩
  · have hinjective : Function.Injective fun name => label d ++ "_" ++ name := fun _ _ => (String.append_right_inj _).mp
    have hmap := (hnodup d hd).map hinjective
    rwa [List.map_map] at hmap
  · have hpairs : ds.Pairwise fun d e => d.name ≠ e.name := List.pairwise_map.mp hnames
    refine hpairs.imp_of_mem fun {d e} hd he hne => ?_
    intro name hleft hright
    obtain ⟨s, hs, rfl⟩ := List.mem_map.mp hleft
    obtain ⟨t, ht, hsame⟩ := List.mem_map.mp hright
    exact hne (wire_injective (hstandard d hd s hs) (hstandard e he t ht) hsame.symm).1

/-! ### The parts of a netlist -/

/-- The instances of a network. -/
def instances (s : Sequential) : List Vhdl.Instance := s.members.map instanceOf

/-- The internal signals that the port maps of the instances name. -/
def actuals (s : Sequential) : List String := s.instances.flatMap fun i => i.mapping.map Prod.snd

/-- The declared internal signals, in the order of their lines. -/
def declarations (s : Sequential) : List Vhdl.Declaration :=
  (s.members.flatMap fun d => d.port.present.map fun signal => ⟨wire d signal, signal.width⟩).mergeSort
    fun a b => a.line ≤ b.line

/-- The internal signal is mapped to a signal that the component takes in. -/
def ToInput (d : Design) (actual : String) : Prop :=
  ∃ signal ∈ d.port.incoming, (signal.name, actual) ∈ (instanceOf d).mapping

/-- The internal signal is mapped to a signal that the component gives out. -/
def FromOutput (d : Design) (actual : String) : Prop :=
  ∃ signal ∈ d.port.outgoing, (signal.name, actual) ∈ (instanceOf d).mapping

/-- The declarations, the port maps and the connections of a network fit together. -/
structure WellFormed (s : Sequential) (declared : List String) (connections : List Connection) : Prop where
  declared_nodup : declared.Nodup
  declared_fresh : ∀ name ∈ declared, name ∉ s.port.signals.map Signal.name
  actual_declared : ∀ actual ∈ s.actuals, actual ∈ declared ∧ s.actuals.count actual = 1
  declared_used : ∀ name ∈ declared, name ∈ s.actuals
  sinks_nodup : (connections.map Connection.sink).Nodup
  mem_sinks_iff : ∀ name, name ∈ connections.map Connection.sink ↔
    (∃ d ∈ s.members, ToInput d name) ∨ name ∈ ["y", "x_address", "done"]
  source_of : ∀ c ∈ connections, c.source ∈ ["x", "y_address", "enable", "clock"] ∨
    c.source ∈ declared ∧ ∃ (i : Nat) (d : Design), s.members[i]? = some d ∧ FromOutput d c.source ∧
      ∀ j other, s.members[j]? = some other → ToInput other c.sink → i < j

/-- The text of a network holds the declarations, the assignments and the instances, and what each of them says can be
read from its lines. -/
structure Prints (s : Sequential) (declared : List Vhdl.Declaration) (connections : Connections) : Prop where
  text : ∃ boundary, s.render = .ok (boundary ++ Vhdl.indent s.signalDefinitions ++ ["begin"] ++
    Vhdl.indent connections.lines ++ Vhdl.indent s.instantiations ++ ["end rtl;"])
  definitions : s.signalDefinitions = declared.map Vhdl.Declaration.line
  definitions_unique : ∀ other : List Vhdl.Declaration, s.signalDefinitions = other.map Vhdl.Declaration.line →
    other = declared
  instantiations : s.instantiations = s.instances.flatMap Vhdl.Instance.lines
  port_maps : ∀ i ∈ s.instances, i.lines.filterMap Vhdl.association? = i.mapping
  actuals : (s.instantiations.filterMap Vhdl.association?).map Prod.snd = s.actuals
  assignments : (connections.lines.filterMap Connection.ofLine?).Perm connections.entries

/-- The lines of the declarations are those of the text. -/
theorem signalDefinitions_eq (s : Sequential) : s.signalDefinitions = s.declarations.map Vhdl.Declaration.line := by
  rw [declarations, List.map_mergeSort (s := fun a b : String => decide (a ≤ b)) (fun _ _ _ _ => rfl),
    List.map_flatMap]
  simp only [List.map_map]
  rfl

theorem instantiations_eq (s : Sequential) : s.instantiations = s.instances.flatMap Vhdl.Instance.lines := by
  rw [instantiations, instances, List.flatMap_map]

theorem actuals_eq (s : Sequential) : s.actuals = s.members.flatMap fun d => d.port.present.map (wire d) := by
  simp only [actuals, instances, List.flatMap_map, instanceOf, List.map_map]
  rfl

/-- The declarations name what the port maps name. -/
theorem perm_actuals (s : Sequential) : (s.declarations.map Vhdl.Declaration.name).Perm s.actuals := by
  refine ((List.mergeSort_perm _ _).map _).trans (List.Perm.of_eq ?_)
  rw [actuals_eq, List.map_flatMap]
  simp only [List.map_map]
  rfl

theorem mem_mapping {d : Design} {signal : Signal} (hsignal : signal ∈ d.port.signals) (hpresent : signal.isPresent) :
    (signal.name, wire d signal) ∈ (instanceOf d).mapping :=
  List.mem_map.mpr ⟨signal, List.mem_filter.mpr ⟨hsignal, hpresent⟩, rfl⟩

/-- An internal signal is mapped to an incoming signal if it is that of a present one. -/
theorem toInput_iff {d : Design} {actual : String} (hnodup : (d.port.signals.map Signal.name).Nodup) :
    ToInput d actual ↔ actual ∈ (d.port.incoming.filter Signal.isPresent).map (wire d) := by
  constructor
  · rintro ⟨signal, hsignal, hmapped⟩
    obtain ⟨other, hother, hpair⟩ := List.mem_map.mp hmapped
    obtain ⟨hname, rfl⟩ := Prod.mk.inj hpair
    obtain ⟨hmem, hpresent⟩ := List.mem_filter.mp hother
    -- a port has one signal of a name, so the mapped one is the incoming one
    obtain rfl : other = signal := List.inj_on_of_nodup_map hnodup hmem (List.mem_append_left _ hsignal) hname
    exact List.mem_map.mpr ⟨other, List.mem_filter.mpr ⟨hsignal, hpresent⟩, rfl⟩
  · intro hactual
    obtain ⟨signal, hsignal, rfl⟩ := List.mem_map.mp hactual
    obtain ⟨hincoming, hpresent⟩ := List.mem_filter.mp hsignal
    exact ⟨signal, hincoming, mem_mapping (List.mem_append_left _ hincoming) hpresent⟩

theorem fromOutput_wire {d : Design} {signal : Signal} (hsignal : signal ∈ d.port.outgoing)
    (hpresent : signal.isPresent) : FromOutput d (wire d signal) :=
  ⟨signal, hsignal, mem_mapping (List.mem_append_right _ hsignal) hpresent⟩

end Sequential

/-! ### Sinks -/

namespace Wiring

theorem sink_of_resolve {strict : Bool} {available : Available} {n : Node} {sink : Signal} {c : Connection}
    (h : resolve strict available n sink = .ok c) : c.sink = n.qualify sink := by
  unfold resolve at h
  split at h
  · cases h
    rfl
  · split at h
    · cases h
    · cases h
      rfl

theorem sinks_resolveAll {strict : Bool} {available : Available} {n : Node} {sinks : List Signal}
    {connections : List Connection} (h : resolveAll strict available n sinks = .ok connections) :
    connections.map Connection.sink = sinks.map n.qualify := by
  rw [resolveAll_eq_mapM, Outcome.mapM_eq_ok_iff] at h
  have hsinks : List.Forall₂ (fun sink connection => Connection.sink connection = n.qualify sink) sinks connections :=
    h.imp fun _ _ => sink_of_resolve
  rw [← List.forall₂_eq_eq_eq, List.forall₂_map_left_iff, List.forall₂_map_right_iff]
  exact hsinks.flip

/-- A wiring that succeeds connects every sink once, in order. -/
theorem sinks_connectFrom {strict : Bool} {available : Available} {nodes : List Node} {connections : List Connection}
    (h : connectFrom strict available nodes = .ok connections) :
    connections.map Connection.sink = nodes.flatMap fun n => n.sinks.map n.qualify := by
  induction nodes generalizing available connections with
  | nil =>
    cases h
    rfl
  | cons n rest ih =>
    simp only [connectFrom, Outcome.bind_eq_ok_iff, Outcome.pure_eq_ok, Except.ok.injEq] at h
    obtain ⟨first, hfirst, others, hothers, rfl⟩ := h
    rw [List.map_append, sinks_resolveAll hfirst, ih hothers, List.flatMap_cons]

end Wiring

/-! ### Networks of standard components -/

namespace Sequential

/-- The instances of a network have different names, and each has different standard signals. -/
structure Standard (s : Sequential) : Prop where
  names_nodup : (s.members.map Design.name).Nodup
  signals_nodup : ∀ d ∈ s.members, (d.port.signals.map Signal.name).Nodup
  signals_standard : ∀ d ∈ s.members, ∀ signal ∈ d.port.signals, signal.name ∈ standardNames

/-- The internal signals of what the instances of a network take in. -/
def inputWires (s : Sequential) : List String :=
  s.members.flatMap fun d => (d.port.incoming.filter Signal.isPresent).map (wire d)

/-- An internal signal is not called like a signal of the boundary. -/
theorem not_mem_port_of_mem_actuals {s : Sequential} {name : String} (hname : name ∈ s.actuals) :
    name ∉ s.port.signals.map Signal.name := by
  have hnames : s.port.signals.map Signal.name =
      ["x", "y_address", "clock", "enable", "y", "x_address", "done"] := rfl
  have hstandard : ∀ port ∈ ["x", "y_address", "clock", "enable", "y", "x_address", "done"],
      port ∈ standardNames := by decide
  rw [actuals_eq] at hname
  obtain ⟨d, -, hwire⟩ := List.mem_flatMap.mp hname
  obtain ⟨signal, -, rfl⟩ := List.mem_map.mp hwire
  exact fun hport => wire_ne_standard d signal (hstandard _ (hnames ▸ hport)) rfl

theorem inputWires_subset {s : Sequential} : s.inputWires ⊆ s.actuals := by
  intro name hname
  rw [actuals_eq]
  obtain ⟨d, hd, hwire⟩ := List.mem_flatMap.mp hname
  obtain ⟨signal, hsignal, rfl⟩ := List.mem_map.mp hwire
  obtain ⟨hincoming, hpresent⟩ := List.mem_filter.mp hsignal
  refine List.mem_flatMap.mpr ⟨d, hd, List.mem_map.mpr ⟨signal, List.mem_filter.mpr ⟨?_, hpresent⟩, rfl⟩⟩
  exact List.mem_append_left _ hincoming

/-- The internal signal of an input is not called like an output of the network. -/
theorem not_mem_outputs_of_mem_inputWires {s : Sequential} {name : String} (hname : name ∈ s.inputWires) :
    name ∉ ["y", "x_address", "done"] := fun houtput =>
  not_mem_port_of_mem_actuals (inputWires_subset hname)
    (List.mem_append_right ["x", "y_address", "clock", "enable"] houtput)

namespace Standard

variable {s : Sequential} (h : s.Standard)
include h

/-- Signals picked from every instance have different internal signals. -/
theorem nodup_picked {pick : Design → List Signal} (hpick : ∀ d : Design, (pick d).Sublist d.port.signals) :
    (s.members.flatMap fun d => (pick d).map (wire d)).Nodup :=
  nodup_wires h.names_nodup (fun d hd => (h.signals_nodup d hd).sublist ((hpick d).map _))
    fun d hd signal hsignal => h.signals_standard d hd signal ((hpick d).subset hsignal)

theorem nodup_actuals : s.actuals.Nodup := by
  rw [actuals_eq]
  exact h.nodup_picked fun _ => List.filter_sublist

theorem nodup_inputWires : s.inputWires.Nodup :=
  h.nodup_picked fun _ => List.filter_sublist.trans (List.sublist_append_left _ _)

/-- The port map of an instance is read from its lines. -/
theorem filterMap_association?_lines {i : Vhdl.Instance} (hi : i ∈ s.instances) :
    i.lines.filterMap Vhdl.association? = i.mapping := by
  have hplain : ∀ name ∈ standardNames, ' ' ∉ name.toList ∧ name.toList ≠ [] ∧ name.toList.getLast? ≠ some ',' := by
    decide
  obtain ⟨d, hd, rfl⟩ := List.mem_map.mp hi
  refine Vhdl.Instance.filterMap_association?_lines ⟨'i', by simp [instanceOf, label], by decide⟩ fun m hm => ?_
  obtain ⟨signal, hsignal, rfl⟩ := List.mem_map.mp hm
  obtain ⟨hblank, hne, hcomma⟩ := hplain _ (h.signals_standard d hd signal (List.mem_filter.mp hsignal).1)
  refine ⟨hblank, ?_⟩
  -- the internal signal ends as the signal does
  rwa [String.toList_append, List.getLast?_append_of_ne_nil _ hne]

theorem actuals_of_instantiations : (s.instantiations.filterMap Vhdl.association?).map Prod.snd = s.actuals := by
  rw [instantiations_eq, List.filterMap_flatMap, actuals, List.map_flatMap]
  exact List.flatMap_congr fun i hi => congrArg (List.map Prod.snd) (h.filterMap_association?_lines hi)

theorem mem_inputWires_iff {name : String} : name ∈ s.inputWires ↔ ∃ d ∈ s.members, ToInput d name := by
  simp only [inputWires, List.mem_flatMap]
  refine exists_congr fun d => and_congr_right fun hd => ?_
  rw [toInput_iff (h.signals_nodup d hd)]

end Standard

/-- The sinks of a network: the signals that its instances take in, then its outputs. -/
theorem sinks_of_connections {s : Sequential} {connections : Connections} (hy : 0 < s.widths.y)
    (hxAddress : 0 < s.widths.xAddress) (h : s.connections = .ok connections) :
    connections.entries.map Connection.sink = s.inputWires ++ ["y", "x_address", "done"] := by
  obtain ⟨entries, hentries, rfl⟩ := Outcome.map_eq_ok_iff.mp h
  have hfinish : (Node.finish s.widths.y s.widths.xAddress).sinks.map
      (Node.finish s.widths.y s.widths.xAddress).qualify = ["y", "x_address", "done"] := by
    simp [Node.finish, Node.ofSignals, Node.qualify, Node.qualifier, Signal.isPresent, Signal.output, hy, hxAddress]
  rw [Wiring.sinks_connectFrom hentries, nodes, List.flatMap_append, List.flatMap_append, List.flatMap_singleton,
    List.flatMap_singleton, hfinish, List.flatMap_map]
  rfl

end Sequential

/-! ### Networks of configurations -/

namespace LayerSettings

/-- The boundary of a layer has different standard signals. -/
theorem boundary_standard (totalBits : Nat) (layer : LayerSettings) :
    ((layer.boundary totalBits).signals.map Signal.name).Nodup ∧
      ∀ signal ∈ (layer.boundary totalBits).signals, signal.name ∈ Sequential.standardNames := by
  rw [← List.forall_mem_map (f := Signal.name) (P := (· ∈ Sequential.standardNames))]
  rcases layer.boundary_cases totalBits with ⟨-, -, hport⟩ | ⟨-, -, hport⟩ | ⟨-, -, hport⟩ <;> rw [hport]
  · have hnames : ((Port.standard totalBits totalBits (addressWidth layer.inputs)
        (addressWidth layer.outputs)).signals.map Signal.name) =
          ["x", "y_address", "clock", "enable", "y", "x_address", "done"] := rfl
    rw [hnames]
    decide
  · have hnames : ((Port.mk [.input "x" totalBits] [.output "y" totalBits]).signals.map Signal.name) = ["x", "y"] := rfl
    rw [hnames]
    decide
  · exact ⟨List.nodup_nil, fun _ hname => absurd hname List.not_mem_nil⟩

/-- No signal on the boundary of a layer is absent. -/
theorem isPresent_of_mem_boundary {totalBits : Nat} (hbits : 0 < totalBits) {layer : LayerSettings} {signal : Signal}
    (h : signal ∈ (layer.boundary totalBits).signals) : signal.isPresent := by
  have hinputs := addressWidth_pos layer.inputs
  have houtputs := addressWidth_pos layer.outputs
  rcases layer.boundary_cases totalBits with ⟨-, -, hport⟩ | ⟨-, -, hport⟩ | ⟨-, -, hport⟩ <;> rw [hport] at h
  · simp only [Port.signals, Port.standard, List.cons_append, List.nil_append, List.mem_cons, List.not_mem_nil,
      or_false] at h
    rcases h with rfl | rfl | rfl | rfl | rfl | rfl | rfl <;>
      simp [Signal.isPresent, Signal.input, Signal.output, hbits, hinputs, houtputs]
  · simp only [Port.signals, List.cons_append, List.nil_append, List.mem_cons, List.not_mem_nil, or_false] at h
    rcases h with rfl | rfl <;> simp [Signal.isPresent, Signal.input, Signal.output, hbits]
  · cases h

/-- A layer is connected to inputs of the network only. -/
theorem source_of_mem_links {layer : LayerSettings} {c : Connection} (h : c ∈ layer.links) :
    c.source ∈ ["x", "y_address", "enable", "clock"] := by
  unfold links at h
  split_ifs at h
  · simp only [List.mem_cons, List.not_mem_nil, or_false] at h
    rcases h with rfl | rfl | rfl | rfl <;> simp
  · simp [List.mem_singleton.mp h]
  · cases h

/-- A connection of a layer is read from its assignment. -/
theorem isReadable_of_mem_links {layer : LayerSettings} {c : Connection} (h : c ∈ layer.links) : c.IsReadable := by
  have hplain : ∀ source ∈ ["x", "y_address", "enable", "clock"], ' ' ∉ source.toList := by decide
  refine Or.inl ⟨?_, hplain _ (source_of_mem_links h)⟩
  obtain ⟨signal, hsink⟩ : ∃ signal, c.sink = layer.wire signal := by
    unfold links at h
    split_ifs at h
    · simp only [List.mem_cons, List.not_mem_nil, or_false] at h
      rcases h with rfl | rfl | rfl | rfl <;> exact ⟨_, rfl⟩
    · exact ⟨_, congrArg Connection.sink (List.mem_singleton.mp h)⟩
    · cases h
  simp [hsink, wire]

/-- The connection of an output is read from its assignment. -/
theorem isReadable_of_mem_outputLinks {layers : List LayerSettings} {c : Connection} (h : c ∈ outputLinks layers) :
    c.IsReadable := by
  have hplain : ∀ sink ∈ ["y", "x_address", "done"],
      sink ≠ "" ∧ sink.toList.head? ≠ some 'i' ∧ ' ' ∉ sink.toList := by decide
  have hsink : c.sink ∈ (outputLinks layers).map Connection.sink := List.mem_map_of_mem h
  exact Or.inr (hplain _ hsink)

/-- A connection of a network is read from its assignment. -/
theorem isReadable_of_mem_allLinks {layers : List LayerSettings} {c : Connection} (h : c ∈ allLinks layers) :
    c.IsReadable := by
  rcases List.mem_append.mp h with hlink | houtput
  · obtain ⟨layer, -, hlink⟩ := List.mem_flatMap.mp hlink
    exact isReadable_of_mem_links hlink
  · exact isReadable_of_mem_outputLinks houtput

/-- The source of an output is an input of the network or a signal that a layer gives out. -/
theorem lastOr_cases {kind : LayerSettings → Bool} (layers : List LayerSettings) (signal input : String)
    {totalBits : Nat}
    (hgives : ∀ layer : LayerSettings, kind layer = true →
      signal ∈ (layer.boundary totalBits).outgoing.map Signal.name) :
    lastOr kind layers signal input = input ∨
      ∃ layer ∈ layers, ∃ s ∈ (layer.boundary totalBits).outgoing,
        lastOr kind layers signal input = layer.wire s.name := by
  unfold lastOr
  cases hlast : (layers.filter kind).getLast? with
  | none => exact Or.inl rfl
  | some layer =>
    obtain ⟨hlayer, hkind⟩ := List.mem_filter.mp (List.mem_of_getLast? hlast)
    obtain ⟨s, hs, rfl⟩ := List.mem_map.mp (hgives layer hkind)
    exact Or.inr ⟨layer, hlayer, s, hs, rfl⟩

theorem mem_outgoing_of_hasCircuit (totalBits : Nat) {layer : LayerSettings} (h : layer.hasCircuit = true) :
    "y" ∈ (layer.boundary totalBits).outgoing.map Signal.name := by
  rcases layer.boundary_cases totalBits with ⟨-, -, hport⟩ | ⟨-, -, hport⟩ | ⟨-, hc, -⟩
  · rw [hport]
    simp [Port.standard, Signal.output]
  · rw [hport]
    simp [Signal.output]
  · rw [hc] at h
    cases h

theorem mem_outgoing_of_isBuffered (totalBits : Nat) {layer : LayerSettings} {signal : String}
    (hsignal : signal ∈ ["x_address", "done"]) (h : layer.isBuffered = true) :
    signal ∈ (layer.boundary totalBits).outgoing.map Signal.name := by
  rcases layer.boundary_cases totalBits with ⟨-, -, hport⟩ | ⟨hb, -, -⟩ | ⟨hb, -, -⟩
  · rw [hport]
    exact List.mem_cons_of_mem _ hsignal
  · rw [hb] at h
    cases h
  · rw [hb] at h
    cases h

/-- Where the outputs of a network come from. -/
theorem of_mem_outputLinks {layers : List LayerSettings} {c : Connection} (h : c ∈ outputLinks layers)
    (totalBits : Nat) :
    c.sink ∈ ["y", "x_address", "done"] ∧
      (c.source ∈ ["x", "y_address", "enable", "clock"] ∨
        ∃ layer ∈ layers, ∃ s ∈ (layer.boundary totalBits).outgoing, c.source = layer.wire s.name) := by
  simp only [outputLinks, List.mem_cons, List.not_mem_nil, or_false] at h
  rcases h with rfl | rfl | rfl
  · have hsource := lastOr_cases layers "y" "x" fun layer => mem_outgoing_of_hasCircuit totalBits
    exact ⟨by simp, hsource.imp_left fun hinput => by simp [hinput]⟩
  · have hsource := lastOr_cases layers "x_address" "y_address" fun layer =>
      mem_outgoing_of_isBuffered totalBits (by decide)
    exact ⟨by simp, hsource.imp_left fun hinput => by simp [hinput]⟩
  · have hsource := lastOr_cases layers "done" "enable" fun layer =>
      mem_outgoing_of_isBuffered totalBits (by decide)
    exact ⟨by simp, hsource.imp_left fun hinput => by simp [hinput]⟩

end LayerSettings

section Configured

open LayerSettings

variable {totalBits : Nat} {layers : List LayerSettings} {designs : List Design}
  (hviews : designs.map Design.view = layers.map fun layer => (layer.name, layer.boundary totalBits))
include hviews

/-- The layer of a component. -/
theorem exists_layer {d : Design} (hd : d ∈ designs) :
    ∃ layer ∈ layers, d.name = layer.name ∧ d.port = layer.boundary totalBits := by
  have hview : d.view ∈ layers.map fun layer => (layer.name, layer.boundary totalBits) :=
    hviews ▸ List.mem_map_of_mem hd
  obtain ⟨layer, hlayer, hsame⟩ := List.mem_map.mp hview
  obtain ⟨hname, hport⟩ := Prod.mk.inj hsame
  exact ⟨layer, hlayer, hname.symm, hport.symm⟩

/-- The component of a layer. -/
theorem exists_component {layer : LayerSettings} (hlayer : layer ∈ layers) :
    ∃ d ∈ designs, d.name = layer.name ∧ d.port = layer.boundary totalBits := by
  have hview : (layer.name, layer.boundary totalBits) ∈ designs.map Design.view :=
    hviews ▸ List.mem_map_of_mem hlayer
  obtain ⟨d, hd, hsame⟩ := List.mem_map.mp hview
  obtain ⟨hname, hport⟩ := Prod.mk.inj hsame
  exact ⟨d, hd, hname, hport⟩

variable {s : Sequential} (hs : s.designs = designs)
include hs

theorem standard_of_layers (hnames : (layers.map LayerSettings.name).Nodup) : s.Standard := by
  have hmember : ∀ d ∈ s.members, ∃ layer ∈ layers, d.name = layer.name ∧ d.port = layer.boundary totalBits :=
    fun d hd => exists_layer hviews (hs ▸ (List.mem_filter.mp hd).1)
  have hall : (s.designs.map Design.name).Nodup := by
    have hfirst := congrArg (List.map Prod.fst) hviews
    simp only [List.map_map] at hfirst
    rw [hs]
    exact hfirst ▸ hnames
  refine ⟨hall.sublist (List.filter_sublist.map _), fun d hd => ?_, fun d hd => ?_⟩
  · obtain ⟨layer, -, -, hport⟩ := hmember d hd
    exact hport ▸ (layer.boundary_standard totalBits).1
  · obtain ⟨layer, -, -, hport⟩ := hmember d hd
    exact hport ▸ (layer.boundary_standard totalBits).2

/-- A signal that a layer gives out is the internal signal of an instance. -/
theorem exists_fromOutput (hbits : 0 < totalBits) {layer : LayerSettings} (hlayer : layer ∈ layers) {signal : Signal}
    (hsignal : signal ∈ (layer.boundary totalBits).outgoing) :
    layer.wire signal.name ∈ s.actuals ∧ ∃ d ∈ s.members, Sequential.FromOutput d (layer.wire signal.name) := by
  obtain ⟨d, hd, hname, hport⟩ := exists_component hviews hlayer
  have hpresent : signal.isPresent := isPresent_of_mem_boundary hbits (List.mem_append_right _ hsignal)
  have houtgoing : signal ∈ d.port.outgoing := hport ▸ hsignal
  have hmember : d ∈ s.members := by
    refine List.mem_filter.mpr ⟨hs ▸ hd, ?_⟩
    have hne : d.port.outgoing ≠ [] := List.ne_nil_of_mem houtgoing
    simp [Port.isNull, hne]
  have hwire : layer.wire signal.name = Sequential.wire d signal := by
    rw [LayerSettings.wire, Sequential.wire, Sequential.label, hname]
  rw [hwire, Sequential.actuals_eq]
  refine ⟨List.mem_flatMap.mpr ⟨d, hmember, List.mem_map_of_mem (List.mem_filter.mpr ⟨?_, hpresent⟩)⟩, d, hmember,
    Sequential.fromOutput_wire houtgoing hpresent⟩
  exact List.mem_append_right _ houtgoing

/-- The source of a connection is an input of the network or the internal signal of an output of an
instance that comes before the one of the sink. -/
theorem source_of_mem_allLinks (hbits : 0 < totalBits) (hstandard : s.Standard) {c : Connection}
    (hc : c ∈ allLinks layers) :
    c.source ∈ ["x", "y_address", "enable", "clock"] ∨
      c.source ∈ s.actuals ∧ ∃ (i : Nat) (d : Design), s.members[i]? = some d ∧ Sequential.FromOutput d c.source ∧
        ∀ j other, s.members[j]? = some other → Sequential.ToInput other c.sink → i < j := by
  rcases List.mem_append.mp hc with hlink | houtput
  · obtain ⟨layer, -, hlink⟩ := List.mem_flatMap.mp hlink
    exact Or.inl (source_of_mem_links hlink)
  · obtain ⟨hsink, hsource⟩ := of_mem_outputLinks houtput totalBits
    refine hsource.imp_right ?_
    rintro ⟨layer, hlayer, signal, hsignal, hsource⟩
    obtain ⟨hactual, d, hd, hgives⟩ := exists_fromOutput hviews hs hbits hlayer hsignal
    obtain ⟨i, hi⟩ := List.getElem?_of_mem hd
    rw [hsource]
    refine ⟨hactual, i, d, hi, hgives, fun j other hother hinput => ?_⟩
    -- an output of the network is no input of an instance
    have hmem := hstandard.mem_inputWires_iff.mpr ⟨other, List.mem_of_getElem? hother, hinput⟩
    exact absurd hsink (Sequential.not_mem_outputs_of_mem_inputWires hmem)

end Configured

/-- The connections of a network are those of its layers, if the wiring succeeds. -/
theorem entries_eq_allLinks {totalBits : Nat} (hbits : 0 < totalBits) {layers : List LayerSettings}
    {designs : List Design}
    (hviews : designs.map Design.view = layers.map fun layer => (layer.name, layer.boundary totalBits))
    {name : String} {strict : Bool} {connections : Connections}
    (h : (Sequential.mk name designs (Sequential.derivedWidths designs) strict).connections = .ok connections) :
    connections.entries = LayerSettings.allLinks layers := by
  rw [connections_eq hbits hviews] at h
  obtain ⟨first, hfirst, rfl⟩ := Outcome.map_eq_ok_iff.mp h
  have hlinks : ∀ (layer : LayerSettings) (links : List Connection),
      layerOutcome strict (widthsOf totalBits layers).yAddress layer = .ok links → links = layer.links := by
    intro layer links hlinks
    unfold layerOutcome at hlinks
    split at hlinks
    · cases hlinks
    · cases hlinks
      rfl
  have hlists : first = layers.map LayerSettings.links := by
    have hall := (Outcome.mapM_eq_ok_iff.mp hfirst).imp hlinks
    rw [← List.forall₂_eq_eq_eq, List.forall₂_map_right_iff]
    exact hall.flip
  rw [hlists]
  rfl

/-- **The netlist of a network is well formed.** If the network of a valid configuration is made and
wired, its text ends in its declarations, assignments and instances, and the lines of each of them tell
what they declare, assign and map. The declared internal signals have different names, none of them that
of a signal of the boundary; the port maps use each of them once and nothing else. The sinks of the
connections are different, and they are the signals mapped to inputs of instances and the outputs of the
network. Every source is an input of the network or an internal signal mapped to an output of an instance
before the one of its sink. -/
theorem wellFormed_of_configuration {c : Config} {network : Sequential} {connections : Connections}
    (hvalid : c.validate = .ok ()) (hnetwork : c.sequential = .ok network)
    (hwired : network.connections = .ok connections) :
    ∃ declared : List Vhdl.Declaration,
      network.Prints declared connections ∧
      network.WellFormed (declared.map Vhdl.Declaration.name) connections.entries := by
  obtain ⟨f, designs, -, hdesigns, rfl⟩ := Config.of_sequential hvalid hnetwork
  have hviews := map_view_of_designs hdesigns
  have hnames := (Config.of_checkLayers (Config.of_validate hvalid).2.2.1).1
  have hentries := entries_eq_allLinks f.total_pos hviews hwired
  generalize hs : Sequential.mk c.network.name designs (Sequential.derivedWidths designs) c.network.strictWidths = s
    at hwired ⊢
  have hsdesigns : s.designs = designs := by rw [← hs]
  have hstandard : s.Standard := standard_of_layers hviews hsdesigns hnames
  have hperm := s.perm_actuals
  have hsinks : connections.entries.map Connection.sink = s.inputWires ++ ["y", "x_address", "done"] := by
    refine Sequential.sinks_of_connections ?_ ?_ hwired
    · rw [← hs, derivedWidths_eq hviews f.total_pos]
      exact getD_map_pos _ fun _ => f.total_pos
    · rw [← hs, derivedWidths_eq hviews f.total_pos]
      exact getD_map_pos _ fun _ => addressWidth_pos _
  refine ⟨s.declarations, ?_, ?_⟩
  · refine ⟨Sequential.exists_render_eq hwired, s.signalDefinitions_eq, fun other hother => ?_, s.instantiations_eq,
      fun i => hstandard.filterMap_association?_lines, hstandard.actuals_of_instantiations,
      Connections.filterMap_ofLine?_lines fun connection hconnection => ?_⟩
    · exact List.map_injective_iff.mpr Vhdl.Declaration.line_injective (hother.symm.trans s.signalDefinitions_eq)
    · exact LayerSettings.isReadable_of_mem_allLinks (hentries ▸ hconnection)
  · refine ⟨hperm.nodup_iff.mpr hstandard.nodup_actuals, fun name hname => ?_, fun actual hactual => ?_,
      fun name => hperm.mem_iff.mp, ?_, fun name => ?_, fun connection hconnection => ?_⟩
    · exact Sequential.not_mem_port_of_mem_actuals (hperm.mem_iff.mp hname)
    · exact ⟨hperm.mem_iff.mpr hactual, List.count_eq_one_of_mem hstandard.nodup_actuals hactual⟩
    · rw [hsinks]
      exact hstandard.nodup_inputWires.append (by decide) fun name => Sequential.not_mem_outputs_of_mem_inputWires
    · rw [hsinks, List.mem_append, hstandard.mem_inputWires_iff]
    · have hsource := source_of_mem_allLinks hviews hsdesigns f.total_pos hstandard (hentries ▸ hconnection)
      exact hsource.imp_right fun ⟨hactual, hgiven⟩ => ⟨hperm.mem_iff.mpr hactual, hgiven⟩

/-- A network whose layers have names that go on like those of signals. -/
def nestedNames : Config where
  network := ⟨"net", 8, 4, true⟩
  layers := [.linear ⟨"a", 1, 1, [[.ofInt 1]], []⟩, .flatten "f", .silu "a_x", .silu "a_x_y",
    .linear ⟨"x_address", 1, 1, [[.ofInt 1]], []⟩]
  skeleton := none
  testbench := none
  output := .standard

/-- Its netlist is well formed. -/
theorem wellFormed_nestedNames :
    ∃ network connections, ∃ declared : List Vhdl.Declaration,
      nestedNames.sequential = .ok network ∧ network.connections = .ok connections ∧
      network.Prints declared connections ∧
      network.WellFormed (declared.map Vhdl.Declaration.name) connections.entries := by
  have hwired : (nestedNames.sequential.toOption.bind fun network => network.connections.toOption).isSome = true := by
    decide +kernel
  cases hnetwork : nestedNames.sequential with
  | error e =>
    rw [hnetwork] at hwired
    cases hwired
  | ok network =>
    rw [hnetwork] at hwired
    cases hconnections : network.connections with
    | error e => simp [hconnections, Except.toOption] at hwired
    | ok connections =>
      obtain ⟨declared, hprinted, hformed⟩ :=
        wellFormed_of_configuration (by decide +kernel) hnetwork hconnections
      exact ⟨network, connections, declared, rfl, hconnections, hprinted, hformed⟩

end QuantNet
