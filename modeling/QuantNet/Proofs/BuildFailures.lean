import QuantNet.Proofs.Templates

/-!
# Why builds of valid configurations fail

A configuration is checked before anything is made from it, and then many parts of the build check
again: a layer its shape, the network its names, the wrapper its identifier, the testbench its unit,
every template its parameters. None of these later checks ever fails on a configuration that passed
the first ones. What can still go wrong is what the first checks do not look at, and there are four such
causes (`Build.Refusal`): a trained parameter that does not fit the number format, widths that differ in
a strict network, a name that cannot be the name of a file, and two files at one path.
-/

namespace QuantNet

open Outcome

/-! ### Trained parameters -/

/-- The refusal of one of the numbers, because the format does not store it. -/
def Unstored (f : QFormat) (numbers : List Binary64) (e : LayerError) : Prop :=
  ∃ v ∈ numbers, (∀ q, f.quantize v ≠ .ok q) ∧ e = .quantization (.outOfRange v (f.scaled v) f.minInt f.maxInt)

namespace Layer

variable {f : QFormat} {layer : String} {trained : List Binary64}

theorem refusesOnly_checkLength {α : Type} {p : LayerError → Prop} {what : String} {values : List α}
    {expected : Nat} (h : values.length = expected) : RefusesOnly p (checkLength layer what values expected) :=
  FailsOnly.of_eq_ok (a := ()) (checkLength_eq_ok_iff.mpr h)

theorem refusesOnly_quantizeAll {numbers : List Binary64} (htrained : numbers ⊆ trained) :
    RefusesOnly (Unstored f trained) (quantizeAll f numbers) := by
  refine RefusesOnly.lift ?_
  rw [QFormat.quantizeAll_eq_mapM]
  refine FailsOnly.mapM fun v hv e he => ?_
  have hrefused : ∀ q, f.quantize v ≠ .ok q := by
    intro q hq
    rw [hq] at he
    cases he
  rw [QFormat.quantize_eq_error hrefused] at he
  cases he
  exact ⟨v, htrained hv, hrefused, rfl⟩

/-- Rows of the right length are refused only for their numbers. -/
theorem refusesOnly_quantizeRows {what : String} {length index : Nat} {rows : List (List Binary64)}
    (hrows : ∀ row ∈ rows, row.length = length ∧ row ⊆ trained) :
    RefusesOnly (Unstored f trained) (quantizeRows f layer what length index rows) := by
  induction rows generalizing index with
  | nil => exact FailsOnly.ok []
  | cons row rest ih =>
    obtain ⟨hlength, htrained⟩ := hrows row List.mem_cons_self
    refine (refusesOnly_checkLength hlength).bind fun _ _ => ?_
    refine (refusesOnly_quantizeAll htrained).bind fun first _ => ?_
    exact (ih fun r hr => hrows r (List.mem_cons_of_mem _ hr)).bind fun others _ => FailsOnly.ok (first :: others)

/-- A bias of the right length is refused only for its numbers. -/
theorem refusesOnly_quantizeBias {bias : List Binary64} {length : Nat} (hbias : bias = [] ∨ bias.length = length)
    (htrained : bias ⊆ trained) : RefusesOnly (Unstored f trained) (quantizeBias f layer bias length) := by
  unfold quantizeBias
  split
  · exact FailsOnly.ok _
  · rename_i hne
    have hlength : bias.length = length := hbias.resolve_left fun hnil => hne (List.isEmpty_iff.mpr hnil)
    refine (refusesOnly_checkLength hlength).bind fun _ _ => ?_
    exact refusesOnly_quantizeAll htrained

end Layer

namespace LinearSettings

/-- The trained parameters of a fully connected layer. -/
def trained (s : LinearSettings) : List Binary64 := s.weights.flatten ++ s.bias

/-- A fully connected layer of the right shape is refused only for its trained parameters. -/
theorem refusesOnly_layer {s : LinearSettings} (h : s.check = .ok ()) (f : QFormat) (style : String) :
    RefusesOnly (Unstored f s.trained) (s.layer f style) := by
  obtain ⟨hsizes, ⟨hrows, hcolumns⟩, hbias⟩ := of_check h
  refine FailsOnly.map ?_ _
  rw [Linear.make, if_neg hsizes]
  refine (Layer.refusesOnly_checkLength hrows).bind fun _ _ => ?_
  refine (RefusesOnly.sizeMul _ _).bind fun _ _ => (RefusesOnly.reserve _).bind fun _ _ => ?_
  have hweights : ∀ row ∈ s.weights, row.length = s.inFeatures ∧ row ⊆ s.trained := fun row hrow =>
    ⟨hcolumns row hrow, List.subset_append_of_subset_left _ (List.sublist_flatten_of_mem hrow).subset⟩
  refine (Layer.refusesOnly_quantizeRows hweights).bind fun rows _ => ?_
  refine (Layer.refusesOnly_quantizeBias hbias (List.subset_append_right _ _)).bind fun bias _ => ?_
  exact FailsOnly.ok _

end LinearSettings

namespace Conv1d

/-- Kernels of the right shape are refused only for their numbers. -/
theorem refusesOnly_quantizeKernels {f : QFormat} {layer : String} {inChannels kernelSize index : Nat}
    {trained : List Binary64} {kernels : List (List (List Binary64))}
    (hkernels : ∀ kernel ∈ kernels, kernel.length = inChannels ∧
      ∀ row ∈ kernel, row.length = kernelSize ∧ row ⊆ trained) :
    RefusesOnly (Unstored f trained) (quantizeKernels f layer inChannels kernelSize index kernels) := by
  induction kernels generalizing index with
  | nil => exact FailsOnly.ok []
  | cons kernel rest ih =>
    obtain ⟨hchannels, hrows⟩ := hkernels kernel List.mem_cons_self
    refine (Layer.refusesOnly_checkLength hchannels).bind fun _ _ => ?_
    refine (Layer.refusesOnly_quantizeRows hrows).bind fun first _ => ?_
    exact (ih fun k hk => hkernels k (List.mem_cons_of_mem _ hk)).bind fun others _ => FailsOnly.ok (first :: others)

end Conv1d

namespace Conv1dSettings

/-- The trained parameters of a convolution. -/
def trained (s : Conv1dSettings) : List Binary64 := s.weights.flatten.flatten ++ s.bias

/-- A convolution of the right shape is refused only for its trained parameters. -/
theorem refusesOnly_layer {s : Conv1dSettings} (h : s.check = .ok ()) (f : QFormat) (style : String) :
    RefusesOnly (Unstored f s.trained) (s.layer f style) := by
  obtain ⟨hsizes, hwindow, ⟨hcount, hshape⟩, hbias⟩ := of_check h
  refine FailsOnly.map ?_ _
  rw [Conv1d.make, if_neg hsizes, if_neg hwindow]
  refine (Layer.refusesOnly_checkLength hcount).bind fun _ _ => ?_
  refine (RefusesOnly.sizeMul _ _).bind fun _ _ => (RefusesOnly.sizeMul _ _).bind fun _ _ => ?_
  refine (RefusesOnly.reserve _).bind fun _ _ => ?_
  have hkernels : ∀ kernel ∈ s.weights, kernel.length = s.inChannels ∧
      ∀ row ∈ kernel, row.length = s.kernelSize ∧ row ⊆ s.trained := by
    intro kernel hkernel
    refine ⟨(hshape kernel hkernel).1, fun row hrow => ⟨(hshape kernel hkernel).2 row hrow, ?_⟩⟩
    have hmem : row ∈ s.weights.flatten := List.mem_flatten.mpr ⟨kernel, hkernel, hrow⟩
    exact List.subset_append_of_subset_left _ (List.sublist_flatten_of_mem hmem).subset
  refine (Conv1d.refusesOnly_quantizeKernels hkernels).bind fun kernels _ => ?_
  refine (Layer.refusesOnly_quantizeBias hbias (List.subset_append_right _ _)).bind fun bias _ => ?_
  exact (RefusesOnly.sizeMul _ _).bind fun _ _ => (RefusesOnly.sizeMul _ _).bind fun _ _ => FailsOnly.ok _

end Conv1dSettings

namespace LayerSettings

/-- The trained parameters of a layer. -/
def trained : LayerSettings → List Binary64
  | linear s => s.trained
  | conv1d s => s.trained
  | _ => []

/-- A layer of the right shape is refused only for its trained parameters. -/
theorem refusesOnly_design {layer : LayerSettings} (h : layer.check = .ok ()) (f : QFormat) (style : String) :
    RefusesOnly (Unstored f layer.trained) (layer.design f style) := by
  cases layer with
  | linear s => exact (LinearSettings.refusesOnly_layer h f style).map _
  | conv1d s => exact (Conv1dSettings.refusesOnly_layer h f style).map _
  | hardSigmoid name => exact FailsOnly.ok _
  | silu name => exact FailsOnly.ok _
  | flatten name => exact FailsOnly.ok _

/-- Counting the values of a layer can overflow, but it is never refused. -/
theorem refusesOnly_inputCount {ε : Type} {p : ε → Prop} (layer : LayerSettings) : RefusesOnly p layer.inputCount := by
  cases layer with
  | conv1d s => exact (RefusesOnly.sizeMul _ _).map _
  | _ => exact FailsOnly.ok _

theorem refusesOnly_outputCount {ε : Type} {p : ε → Prop} (layer : LayerSettings) :
    RefusesOnly p layer.outputCount := by
  cases layer with
  | conv1d s => exact (RefusesOnly.sizeAdd _ _).bind fun _ _ => (RefusesOnly.sizeMul _ _).map _
  | _ => exact FailsOnly.ok _

theorem refusesOnly_firstCount {ε : Type} {p : ε → Prop} {count : LayerSettings → Checked ε (Option Nat)}
    (h : ∀ layer, RefusesOnly p (count layer)) (layers : List LayerSettings) :
    RefusesOnly p (firstCount count layers) := by
  induction layers with
  | nil => exact FailsOnly.ok _
  | cons layer rest ih =>
    refine (h layer).bind fun found _ => ?_
    cases found with
    | none => exact ih
    | some n => exact FailsOnly.ok _

end LayerSettings

theorem Config.refusesOnly_countOr {ε : Type} {p : ε → Prop} {count : LayerSettings → Checked ε (Option Nat)}
    (h : ∀ layer, RefusesOnly p (count layer)) (set : Option Nat) (layers : List LayerSettings) :
    RefusesOnly p (countOr set count layers) := by
  cases set with
  | none => exact (LayerSettings.refusesOnly_firstCount h layers).map _
  | some n => exact FailsOnly.ok n

theorem Testbench.refusesOnly_make {ε : Type} {p : ε → Prop} (name : String) (uut : UnitUnderTest) (f : QFormat) :
    RefusesOnly p (make name uut f) :=
  ((RefusesOnly.sizeAdd _ _).bind fun _ _ => FailsOnly.ok _).bind fun _ _ =>
    (RefusesOnly.sizeMul _ _).bind fun _ _ => FailsOnly.ok _

/-! ### Wiring -/

namespace Wiring

/-- The refusal of a strict wiring to connect signals of different widths. -/
def DiffersInWidth (strict : Bool) (e : DesignError) : Prop :=
  strict = true ∧ ∃ sink source sinkWidth sourceWidth, e = .widthMismatch sink source sinkWidth sourceWidth

variable {strict : Bool}

theorem failsOnly_resolve (available : Available) (n : Node) (sink : Signal) :
    FailsOnly (DiffersInWidth strict) (resolve strict available n sink) := by
  unfold resolve
  split
  · exact FailsOnly.ok _
  · split
    · rename_i hwidths
      exact FailsOnly.error ⟨(Bool.and_eq_true_iff.mp hwidths).1, _, _, _, _, rfl⟩
    · exact FailsOnly.ok _

/-- A wiring is refused only if it is strict, and then for a width. -/
theorem failsOnly_connectFrom (available : Available) (nodes : List Node) :
    FailsOnly (DiffersInWidth strict) (connectFrom strict available nodes) := by
  induction nodes generalizing available with
  | nil => exact FailsOnly.ok _
  | cons n rest ih =>
    rw [connectFrom, resolveAll_eq_mapM]
    refine (FailsOnly.mapM fun sink _ => failsOnly_resolve available n sink).bind fun first _ => ?_
    exact (ih _).bind fun others _ => FailsOnly.ok (first ++ others)

end Wiring

/-! ### Writing -/

/-- The refusals of an output: a name that is no component of a path, and a file that is there already. -/
inductive DesignError.OfWriting : DesignError → Prop
  | invalidName {name : String} (h : isComponent name = false) : OfWriting (.output (.invalidName name))
  | conflictingWrite (path : String) : OfWriting (.output (.conflictingWrite path))

namespace Emission

/-- The step opens a folder or writes a file. -/
def IsWriting : Emission → Prop
  | folder _ _ | file _ _ _ => True
  | refuse _ => False

theorem IsWriting.below {e : Emission} (h : e.IsWriting) (name : String) : (e.below name).IsWriting := by
  cases e with
  | folder parent n => trivial
  | file parent n lines => trivial
  | refuse cause => exact h.elim

theorem failsOnly_sub (place : Place) (name : String) :
    FailsOnly (fun e => DesignError.OfWriting (.output e)) (place.sub name) := by
  unfold Place.sub
  split
  · exact FailsOnly.ok _
  · rename_i hname
    exact FailsOnly.error (.invalidName (Bool.eq_false_iff.mpr hname))

/-- A file below the root is refused only if there is another one in its place. -/
theorem failsOnly_write (files : FileSet) {place : Place} (hplace : place ≠ []) (extension : String)
    (lines : List String) :
    FailsOnly (fun e => DesignError.OfWriting (.output e)) (files.write place extension lines) := by
  rw [FileSet.write, if_neg hplace]
  dsimp only
  split
  · split
    · exact FailsOnly.ok _
    · exact FailsOnly.error (.conflictingWrite _)
  · exact FailsOnly.ok _

theorem failsOnly_run (files : FileSet) {e : Emission} (h : e.IsWriting) :
    FailsOnly DesignError.OfWriting (e.run files) := by
  cases e with
  | folder parent name => exact ((failsOnly_sub parent name).mapError).map _
  | file parent name lines =>
    refine FailsOnly.mapError ((failsOnly_sub parent name).bind fun place hplace => ?_)
    refine failsOnly_write files ?_ _ _
    obtain ⟨-, rfl⟩ := ite_eq_ok_iff.mp hplace
    exact List.concat_ne_nil name parent
  | refuse cause => exact h.elim

/-- Steps that only write are refused only by the output. -/
theorem failsOnly_runAll {emissions : List Emission} (h : ∀ e ∈ emissions, e.IsWriting) (files : FileSet) :
    FailsOnly DesignError.OfWriting (runAll files emissions).2 := by
  induction emissions generalizing files with
  | nil => exact FailsOnly.ok _
  | cons e rest ih =>
    have hrun := failsOnly_run files (h e List.mem_cons_self)
    rw [runAll]
    split
    · exact ih (fun e' he' => h e' (List.mem_cons_of_mem _ he')) _
    · rename_i cause hcause
      exact FailsOnly.error (hrun cause hcause)

end Emission

/-- A component whose text can be made writes it. -/
theorem Design.isWriting_emit (name : String) {text : Except OutputError (List String)}
    (h : ∃ lines, text = .ok lines) : ∀ e ∈ [emit name text], e.IsWriting := by
  obtain ⟨lines, rfl⟩ := h
  exact List.forall_mem_singleton.mpr trivial

theorem Rom.isWriting (r : Rom) : ∀ e ∈ r.design.emissions, e.IsWriting := List.forall_mem_singleton.mpr trivial

/-- The component of a layer only writes. -/
theorem LayerSettings.isWriting_of_design {f : QFormat} {style : String} {layer : LayerSettings} {d : Design}
    (h : layer.design f style = .ok d) : ∀ e ∈ d.emissions, e.IsWriting := by
  cases layer with
  | linear s =>
    obtain ⟨l, -, rfl⟩ := map_eq_ok_iff.mp h
    rw [Linear.design, List.forall_mem_append, List.forall_mem_append]
    exact ⟨⟨Design.isWriting_emit _ l.render_parameters, l.weightRom.isWriting⟩, l.biasRom.isWriting⟩
  | conv1d s =>
    obtain ⟨l, -, rfl⟩ := map_eq_ok_iff.mp h
    rw [Conv1d.design, List.forall_mem_append, List.forall_mem_append, List.forall_mem_append]
    exact ⟨⟨⟨Design.isWriting_emit _ l.render_parameters, l.weightRom.isWriting⟩, l.biasRom.isWriting⟩,
      Design.isWriting_emit _ Mac.render_none⟩
  | hardSigmoid name =>
    cases h
    exact Design.isWriting_emit _ (HardSigmoid.render_parameters _)
  | silu name =>
    cases h
    exact Design.isWriting_emit _ (Silu.render_parameters _)
  | flatten name =>
    cases h
    exact List.forall_mem_nil _

/-- A network that is wired has a text. -/
theorem Sequential.exists_render {s : Sequential} {connections : Connections}
    (hwired : s.connections = .ok connections) : ∃ own, s.render = .ok own := by
  obtain ⟨own, hown⟩ := s.render_parameters connections
  exact ⟨own, by rw [render, hwired, ok_bind, hown, mapError_ok_eq]⟩

/-- A network that is wired is written after its components. -/
theorem Sequential.exists_emissions {s : Sequential} {connections : Connections}
    (hwired : s.connections = .ok connections) :
    ∃ own, s.emissions = s.designs.flatMap inFolder ++ [.file [] s.name own] := by
  obtain ⟨own, hown⟩ := exists_render hwired
  exact ⟨own, by rw [emissions, hown]⟩

/-- A network that is wired only writes, if its components do. -/
theorem Sequential.isWriting_of_designs {s : Sequential} {connections : Connections}
    (hwired : s.connections = .ok connections) (hdesigns : ∀ d ∈ s.designs, ∀ e ∈ d.emissions, e.IsWriting) :
    ∀ e ∈ s.emissions, e.IsWriting := by
  obtain ⟨own, hemissions⟩ := exists_emissions hwired
  rw [hemissions]
  intro e he
  rcases List.mem_append.mp he with he | he
  · obtain ⟨d, hd, he⟩ := List.mem_flatMap.mp he
    rcases List.mem_cons.mp he with rfl | he
    · trivial
    · obtain ⟨e', he', rfl⟩ := List.mem_map.mp he
      exact (hdesigns d hd e' he').below d.name
  · rw [List.mem_singleton.mp he]
    trivial

/-! ### Builds -/

namespace Build

/-- The causes for which the build of a valid configuration can still be refused. -/
inductive Refusal (c : Config) : BuildError → Prop
  /-- A trained parameter does not fit the number format. -/
  | outOfRange {f : QFormat} {layer : LayerSettings} {v : Binary64} (hformat : c.format = .ok f)
      (hlayer : layer ∈ c.layers) (hv : v ∈ layer.trained) (hrefused : ∀ q, f.quantize v ≠ .ok q) :
      Refusal c (.layer (.quantization (.outOfRange v (f.scaled v) f.minInt f.maxInt)))
  /-- Two signals of a strict network differ in width. -/
  | widthMismatch (hstrict : c.network.strictWidths = true) (sink source : String) (sinkWidth sourceWidth : Nat) :
      Refusal c (.design (.widthMismatch sink source sinkWidth sourceWidth))
  /-- A name cannot be the name of a file or a folder. -/
  | invalidName {name : String} (hname : isComponent name = false) : Refusal c (.design (.output (.invalidName name)))
  /-- Two different files have one path. -/
  | conflictingWrite (path : String) : Refusal c (.design (.output (.conflictingWrite path)))

variable {c : Config}

theorem Refusal.of_unstored {f : QFormat} (hformat : c.format = .ok f) {layer : LayerSettings}
    (hlayer : layer ∈ c.layers) {e : LayerError} (h : Unstored f layer.trained e) : Refusal c (.layer e) := by
  obtain ⟨v, hv, hrefused, rfl⟩ := h
  exact .outOfRange hformat hlayer hv hrefused

theorem Refusal.of_writing {e : DesignError} (h : e.OfWriting) : Refusal c (.design e) := by
  cases h with
  | invalidName hname => exact .invalidName hname
  | conflictingWrite path => exact .conflictingWrite path

/-- Steps that only write are refused only by the output. -/
theorem refusesOnly_emit (files : FileSet) {emissions : List Emission} (h : ∀ e ∈ emissions, e.IsWriting) :
    RefusesOnly (Refusal c) (emit files emissions) := by
  have hrun := Emission.failsOnly_runAll h files
  unfold emit
  split
  · exact FailsOnly.ok _
  · rename_i cause hcause
    rw [hcause] at hrun
    exact RefusesOnly.refuse (.of_writing (hrun cause rfl))

/-- The network of a valid configuration is refused only for a trained parameter. -/
theorem refusesOnly_sequential (hvalid : c.validate = .ok ()) :
    RefusesOnly (Refusal c) (Checked.within .layer c.sequential) := by
  obtain ⟨f, hformat⟩ := (Config.of_validate hvalid).2.1
  have hchecks := (Config.of_checkLayers (Config.of_validate hvalid).2.2.1).2
  have hlayers : RefusesOnly (fun e => Refusal c (.layer e))
      (c.layers.mapM (LayerSettings.design f c.output.romStyle)) := by
    refine FailsOnly.mapM fun layer hlayer => ?_
    have hlayerOnly := LayerSettings.refusesOnly_design (hchecks layer hlayer).2.2 f c.output.romStyle
    exact hlayerOnly.mono fun e => .of_unstored hformat hlayer
  refine RefusesOnly.within ?_
  cases hdesigns : c.layers.mapM (LayerSettings.design f c.output.romStyle) with
  | ok designs => exact FailsOnly.of_eq_ok (Config.sequential_eq_ok hvalid hformat hdesigns)
  | error failure =>
    rw [Config.sequential, hformat, lift_ok, ok_bind, hdesigns, error_bind]
    exact FailsOnly.error (hlayers failure hdesigns)

theorem refusesOnly_connections {network : Sequential} (hstrict : network.strict = c.network.strictWidths) :
    RefusesOnly (Refusal c) (Checked.lift .design network.connections) := by
  refine RefusesOnly.lift (FailsOnly.map ?_ _)
  refine (Wiring.failsOnly_connectFrom [] network.nodes).mono fun e he => ?_
  obtain ⟨hon, sink, source, sinkWidth, sourceWidth, rfl⟩ := he
  exact .widthMismatch (hstrict ▸ hon) sink source sinkWidth sourceWidth

/-- The wrapper of a valid configuration is refused only by the output. -/
theorem refusesOnly_emitWrapper (hvalid : c.validate = .ok ()) (network : Sequential) (files : FileSet) :
    RefusesOnly (Refusal c) (emitWrapper c network files) := by
  have hcheck := (Config.of_validate hvalid).2.2.2.1
  have hwrapper : RefusesOnly (fun e => Refusal c (.layer e)) (c.wrapper network) := by
    unfold Config.wrapper
    cases hskeleton : c.skeleton with
    | none => exact FailsOnly.ok _
    | some s =>
      rw [hskeleton, Config.checkSkeleton, ite_eq_ok_iff] at hcheck
      refine (Config.refusesOnly_countOr LayerSettings.refusesOnly_inputCount _ _).bind fun xCount _ => ?_
      refine (Config.refusesOnly_countOr LayerSettings.refusesOnly_outputCount _ _).bind fun yCount _ => ?_
      rw [Skeleton.make, if_pos hcheck.1]
      exact FailsOnly.ok _
  refine (RefusesOnly.within hwrapper).bind fun found _ => ?_
  cases found with
  | none => exact FailsOnly.ok _
  | some skeleton => exact refusesOnly_emit files (Design.isWriting_emit _ skeleton.exists_render)

/-- The testbench of a valid configuration is refused only for a trained parameter of the unit under test,
or by the output. -/
theorem refusesOnly_emitTestbench (hvalid : c.validate = .ok ()) (files : FileSet) :
    RefusesOnly (Refusal c) (emitTestbench c files) := by
  obtain ⟨-, ⟨f, hformat⟩, hlayers, -, hcheck⟩ := Config.of_validate hvalid
  unfold emitTestbench
  cases htestbench : c.testbench with
  | none => exact FailsOnly.ok _
  | some t =>
    obtain ⟨s, hs, hlayer⟩ := Config.of_checkTestbench htestbench hcheck
    have hshape : s.check = .ok () := ((Config.of_checkLayers hlayers).2 _ hlayer).2.2
    have hmade : RefusesOnly (Refusal c) (configuredConv1d c t.uut) := by
      rw [configuredConv1d, hformat, hs, lift_ok, ok_bind, lift_ok, ok_bind]
      have hlayerOnly := Conv1dSettings.refusesOnly_layer hshape f c.output.romStyle
      refine (RefusesOnly.within ?_).bind fun _ _ => FailsOnly.ok _
      exact hlayerOnly.mono fun e => .of_unstored hformat hlayer
    refine hmade.bind fun made _ => (Testbench.refusesOnly_make _ _ _).bind fun testbench _ => ?_
    exact refusesOnly_emit files (Design.isWriting_emit _ testbench.render_parameters)

/-- **Builds of valid configurations are refused for four causes only.** A trained parameter of a layer
does not fit the number format, two signals of a strict network differ in width, a name cannot be the
name of a file, or two different files have one path. -/
theorem refusal_of_valid {e : BuildError} (hvalid : c.validate = .ok ()) (h : ofConfig c = .error (.refused e)) :
    Refusal c e := by
  have hbuild : RefusesOnly (Refusal c) (ofConfig c) := by
    refine (refusesOnly_sequential hvalid).bind fun network hnetwork => ?_
    obtain ⟨f, designs, hformat, hdesigns, rfl⟩ := Config.of_sequential hvalid (within_eq_ok_iff.mp hnetwork)
    refine (refusesOnly_connections rfl).bind fun connections hwired => ?_
    have hwriting : ∀ d ∈ designs, ∀ e ∈ d.emissions, e.IsWriting := by
      intro d hd
      obtain ⟨layer, -, hlayer⟩ := exists_left_of_mem (mapM_eq_ok_iff.mp hdesigns) hd
      exact LayerSettings.isWriting_of_design hlayer
    refine (refusesOnly_emit Table.empty (Sequential.isWriting_of_designs (lift_eq_ok_iff.mp hwired) hwriting)).bind
      fun files _ => ?_
    refine (refusesOnly_emitWrapper hvalid _ files).bind fun files _ => ?_
    refine (refusesOnly_emitTestbench hvalid files).bind fun files _ => FailsOnly.ok _
  exact hbuild.refused h

/-- A valid configuration with a weight that its number format does not store. -/
def tooLarge : Config where
  network := ⟨"net", 8, 4, false⟩
  layers := [.flatten "f", .linear ⟨"a", 1, 1, [[.ofInt 100]], []⟩]
  skeleton := none
  testbench := none
  output := .standard

/-- Its build is refused for the weight. -/
theorem refusal_tooLarge :
    ∃ e, ofConfig tooLarge = .error (.refused e) ∧ Refusal tooLarge e := by
  have hnetwork : tooLarge.sequential =
      .error (.refused (.quantization (.outOfRange (.ofInt 100) (.ofInt 1600) (-128) 127))) := by decide +kernel
  have hbuild : ofConfig tooLarge =
      .error (.refused (.layer (.quantization (.outOfRange (.ofInt 100) (.ofInt 1600) (-128) 127)))) := by
    rw [ofConfig, hnetwork]
    rfl
  exact ⟨_, hbuild, refusal_of_valid (by decide +kernel) hbuild⟩

end Build

end QuantNet
