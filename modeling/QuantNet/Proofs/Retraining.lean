import QuantNet.Proofs.FlattenLayers
import QuantNet.Proofs.ParameterMemories

/-!
# Training a layer again

New weights of a layer change one file, the memory of its weights, and new biases change one file, the memory of its
biases. All other files follow from the shapes of the layers and from the parameters that stayed the same: this is a
statement about two builds, and it holds file by file (`Build.renders_of_retrained`).

The memory itself tells different parameters apart as far as they are stored differently. Its lines differ in one line
only, the one with the literals, and from this line the stored integers can be read off again
(`Rom.eq_of_ofLines_render_eq`).
-/

namespace QuantNet

open Outcome

/-! ### Contents of memories -/

namespace QFormat

variable {f : QFormat}

/-- A literal is read in one way only. -/
theorem ReadsLiteral.unique {literal : String} {q q' : Int} (h : f.ReadsLiteral literal q)
    (h' : f.ReadsLiteral literal q') : q = q' := by
  obtain ⟨text, bits, rfl, hbits, hq⟩ := h
  obtain ⟨text', bits', hsame, hbits', hq'⟩ := h'
  obtain rfl : text = text' := (String.append_right_inj _).mp ((String.append_left_inj _).mp hsame)
  cases hbits.symm.trans hbits'
  exact Except.ok.inj (hq.symm.trans hq')

/-- Numbers are stored in one way only. -/
theorem Stores.unique {vs : List Binary64} {qs qs' : List Int} (h : f.Stores vs qs) (h' : f.Stores vs qs') :
    qs = qs' := by
  rw [← quantizeAll_eq_ok_iff] at h h'
  exact Except.ok.inj (h.symm.trans h')

/-- Stored integers are in the range of the format. -/
theorem Stores.contains {vs : List Binary64} {qs : List Int} (h : f.Stores vs qs) : ∀ q ∈ qs, f.contains q = true := by
  intro q hq
  obtain ⟨v, -, hv⟩ := exists_left_of_mem h hq
  exact f.contains_of_quantize hv

end QFormat

namespace Layer.StoresBias

variable {f : QFormat} {length : Nat} {bias : List Binary64} {qs qs' : List Int}

theorem unique (h : StoresBias f length bias qs) (h' : StoresBias f length bias qs') : qs = qs' := by
  have hq : quantizeBias f "" bias length = .ok qs := quantizeBias_eq_ok_iff.mpr h
  exact Except.ok.inj (hq.symm.trans (quantizeBias_eq_ok_iff.mpr h'))

theorem contains (h : StoresBias f length bias qs) : ∀ q ∈ qs, f.contains q = true := by
  rcases h with ⟨-, rfl⟩ | ⟨-, -, hstores⟩
  · intro q hq
    rw [List.eq_of_mem_replicate hq]
    exact f.contains_zero
  · exact hstores.contains

end Layer.StoresBias

/-- A function that tells the entries of two lists apart tells the lists apart. -/
theorem eq_of_map_eq {α β : Type} {g : α → β} {xs ys : List α} (hinj : ∀ x ∈ xs, ∀ y ∈ ys, g x = g y → x = y)
    (h : xs.map g = ys.map g) : xs = ys := by
  induction xs generalizing ys with
  | nil => exact (List.map_eq_nil_iff.mp h.symm).symm
  | cons x xs ih =>
    cases ys with
    | nil => cases h
    | cons y ys =>
      obtain ⟨hfirst, hrest⟩ := List.cons.inj h
      rw [hinj x List.mem_cons_self y List.mem_cons_self hfirst,
        ih (fun a ha b hb => hinj a (List.mem_cons_of_mem _ ha) b (List.mem_cons_of_mem _ hb)) hrest]

namespace Rom

/-- No literal holds a comma. -/
theorem comma_not_mem_literal (n : Int) (width : Nat) : ',' ∉ (Bits.literal n width).toList := by
  simp only [Bits.literal, String.toList_append, List.mem_append, not_or]
  exact ⟨⟨by decide, fun hmem => (Bits.plain_of_mem_text hmem).2.1 rfl⟩, by decide⟩

/-- The line with the literals of a memory. -/
def contents (r : Rom) : String :=
  "    " ++ ("signal ROM : " ++ r.name ++ "_array_t:=(" ++ ",".intercalate r.literals ++ ");")

/-- The lines before the literals of a memory. -/
def linesBefore (r : Rom) : List String :=
  Vhdl.libraryLines r.unit.packages ++ r.entity.lines ++ ["architecture rtl of " ++ r.name ++ " is",
    "    " ++ ("type " ++ r.name ++ "_array_t is array (0 to 2**" ++ Text.ofNat r.addressBits ++ "-1) of " ++
      r.dataType.text ++ ";")]

/-- The lines after the literals of a memory. -/
def linesAfter (r : Rom) : List String :=
  Vhdl.indent (r.architecture.declarations.drop 2) ++ ["begin"] ++ Vhdl.indent r.architecture.statements ++
    ["end architecture rtl;"]

theorem render_eq (r : Rom) : r.render = r.linesBefore ++ r.contents :: r.linesAfter := by
  rw [linesBefore, List.append_assoc (_ ++ _)]
  rfl

/-- The lines around the literals depend on the number of values only. -/
theorem linesBefore_eq_of_length {r : Rom} {values : List Int} (h : values.length = r.values.length) :
    linesBefore { r with values } = r.linesBefore := by
  have hbits : addressBits { r with values } = r.addressBits := by rw [addressBits, h, addressBits]
  simp only [linesBefore, entity, hbits]
  rfl

/-- Stored integers are told apart by their literals. -/
theorem literals_inj {f : QFormat} {r : Rom} {values : List Int} (hwidth : r.dataWidth = f.totalBits)
    (hlength : values.length = r.values.length) (hstored : ∀ q ∈ r.values, f.contains q = true)
    (hstored' : ∀ q ∈ values, f.contains q = true) (h : literals { r with values } = r.literals) :
    values = r.values := by
  have hwords : ∀ {qs : List Int} {count : Nat}, (∀ q ∈ qs, f.contains q = true) →
      ∀ q ∈ qs ++ List.replicate count 0, f.contains q = true := by
    intro qs count hqs
    refine List.forall_mem_append.mpr ⟨hqs, fun q hq => ?_⟩
    rw [List.eq_of_mem_replicate hq]
    exact f.contains_zero
  have hsame : words { r with values } = r.words := by
    refine eq_of_map_eq (fun q hq q' hq' hliteral => ?_) h
    rw [show dataWidth { r with values } = f.totalBits from hwidth] at hliteral
    have hread := f.readsLiteral_literal (hwords hstored' q hq)
    rw [hliteral] at hread
    exact hread.unique (f.readsLiteral_literal (hwords hstored q' hq'))
  exact (List.append_inj hsame hlength).1

theorem literals_ne_nil (r : Rom) : r.literals ≠ [] := by
  refine List.ne_nil_of_length_pos ?_
  rw [length_literals]
  exact Nat.two_pow_pos _

/-- The stored integers of a memory can be read off its text. -/
theorem eq_of_ofLines_render_eq {f : QFormat} {r : Rom} {values : List Int} (hwidth : r.dataWidth = f.totalBits)
    (hlength : values.length = r.values.length) (hstored : ∀ q ∈ r.values, f.contains q = true)
    (hstored' : ∀ q ∈ values, f.contains q = true)
    (h : Text.ofLines (render { r with values }) = Text.ofLines r.render) : values = r.values := by
  have hcontents : contents { r with values } = r.contents := by
    rw [render_eq, render_eq, linesBefore_eq_of_length hlength] at h
    simp only [Text.ofLines, List.map_append, List.map_cons, String.join_append, String.join_cons] at h
    exact (String.append_left_inj _).mp ((String.append_left_inj _).mp ((String.append_right_inj _).mp h))
  have hline : ",".intercalate (literals { r with values }) = ",".intercalate r.literals :=
    (String.append_right_inj _).mp ((String.append_left_inj _).mp ((String.append_right_inj _).mp hcontents))
  have hfields : ∀ r : Rom, Text.fields ',' (",".intercalate r.literals) = r.literals := fun r =>
    Text.fields_intercalate rfl r.literals_ne_nil (List.forall_mem_map.mpr fun w _ => comma_not_mem_literal w _)
  refine literals_inj hwidth hlength hstored hstored' ?_
  rw [← hfields, hline, hfields]

/-- Memories of one name and size have the same lines, or the same text, exactly if they store the same integers. -/
theorem render_eq_iff {f : QFormat} (name style : String) {qs qs' : List Int} (hlength : qs'.length = qs.length)
    (hstored : ∀ q ∈ qs, f.contains q = true) (hstored' : ∀ q ∈ qs', f.contains q = true) :
    (((plain name f.totalBits qs').withStyle style).render = ((plain name f.totalBits qs).withStyle style).render ↔
      qs' = qs) ∧
    (Text.ofLines ((plain name f.totalBits qs').withStyle style).render =
      Text.ofLines ((plain name f.totalBits qs).withStyle style).render ↔ qs' = qs) := by
  have htext := eq_of_ofLines_render_eq (r := (plain name f.totalBits qs).withStyle style) rfl hlength hstored hstored'
  refine ⟨⟨fun hlines => htext (congrArg Text.ofLines hlines), ?_⟩, htext, ?_⟩
  · rintro rfl
    rfl
  · rintro rfl
    rfl

end Rom

/-! ### Layers -/

/-- The memories of a trained layer. -/
inductive TrainedMemory where
  /-- The memory of the weights. -/
  | weights
  /-- The memory of the biases. -/
  | bias
deriving DecidableEq

/-- The name of a memory of a layer. -/
def TrainedMemory.romName (layer : String) : TrainedMemory → String
  | weights => layer ++ "_w_rom"
  | bias => layer ++ "_b_rom"

namespace LayerSettings

/-- The second layer is the first one with other numbers for one of its memories. -/
inductive Retrained : TrainedMemory → LayerSettings → LayerSettings → Prop
  /-- Other weights of a fully connected layer. -/
  | linearWeights (s : LinearSettings) (weights : List (List Binary64)) :
      Retrained .weights (.linear s) (.linear { s with weights })
  /-- Other biases of a fully connected layer. -/
  | linearBias (s : LinearSettings) (bias : List Binary64) : Retrained .bias (.linear s) (.linear { s with bias })
  /-- Other weights of a convolution. -/
  | conv1dWeights (s : Conv1dSettings) (weights : List (List (List Binary64))) :
      Retrained .weights (.conv1d s) (.conv1d { s with weights })
  /-- Other biases of a convolution. -/
  | conv1dBias (s : Conv1dSettings) (bias : List Binary64) : Retrained .bias (.conv1d s) (.conv1d { s with bias })

/-- The integers that are stored for the numbers of a memory of a layer; no biases stand for zeros. -/
def Stores (f : QFormat) : LayerSettings → TrainedMemory → List Int → Prop
  | linear s, .weights, qs => f.Stores s.weights.flatten qs
  | linear s, .bias, qs => Layer.StoresBias f s.outFeatures s.bias qs
  | conv1d s, .weights, qs => f.Stores s.weights.flatten.flatten qs
  | conv1d s, .bias, qs => Layer.StoresBias f s.outChannels s.bias qs
  | _, _, _ => False

/-- How many integers a memory of a layer is made for. -/
def wordCount : LayerSettings → TrainedMemory → Nat
  | linear s, .weights => s.outFeatures * s.inFeatures
  | linear s, .bias => s.outFeatures
  | conv1d s, .weights => s.outChannels * s.inChannels * s.kernelSize
  | conv1d s, .bias => s.outChannels
  | _, _ => 0

end LayerSettings

namespace LinearSettings

variable {s : LinearSettings} {f : QFormat} {style : String} {l l' : Linear}

/-- A fully connected layer that is made stores its parameters. -/
theorem stores_of_layer (h : s.layer f style = .ok l) :
    f.Stores s.weights.flatten l.weights ∧ l.weights.length = s.outFeatures * s.inFeatures ∧
      Layer.StoresBias f s.outFeatures s.bias l.bias := by
  obtain ⟨rows, stored, rfl, hrows, hlength, hbias⟩ := of_layer h
  refine ⟨List.rel_flatten (hrows.imp fun _ _ hrow => hrow.2), ?_, hbias⟩
  rw [← hlength]
  exact (Layer.of_rows hrows).2

/-- The memories of a fully connected layer that is made. -/
theorem roms_of_layer (h : s.layer f style = .ok l) :
    l.weightRom = (Rom.plain (s.name ++ "_w_rom") f.totalBits l.weights).withStyle style ∧
      l.biasRom = (Rom.plain (s.name ++ "_b_rom") f.totalBits l.bias).withStyle style := by
  obtain ⟨_, _, rfl, -⟩ := of_layer h
  exact ⟨rfl, rfl⟩

/-- The text of a fully connected layer does not depend on its parameters. -/
theorem parameters_eq {weights : List (List Binary64)} {bias : List Binary64} (h : s.layer f style = .ok l)
    (h' : layer { s with weights, bias } f style = .ok l') : l'.parameters = l.parameters := by
  obtain ⟨-, hweights, hbias⟩ := stores_of_layer h
  obtain ⟨-, hweights', hbias'⟩ := stores_of_layer h'
  have hlength := hbias.length_eq
  have hlength' := hbias'.length_eq
  obtain ⟨_, _, rfl, -⟩ := of_layer h
  obtain ⟨_, _, rfl, -⟩ := of_layer h'
  rw [Linear.parameters, Linear.parameters, hweights, hweights', hlength, hlength']
  rfl

/-- New biases leave the memory of the weights alone. -/
theorem weightRom_eq {bias : List Binary64} (h : s.layer f style = .ok l)
    (h' : layer { s with bias } f style = .ok l') : l'.weightRom = l.weightRom := by
  have hweights := (stores_of_layer h').1.unique (stores_of_layer h).1
  rw [(roms_of_layer h).1, (roms_of_layer h').1, hweights]

/-- New weights leave the memory of the biases alone. -/
theorem biasRom_eq {weights : List (List Binary64)} (h : s.layer f style = .ok l)
    (h' : layer { s with weights } f style = .ok l') : l'.biasRom = l.biasRom := by
  have hbias := (stores_of_layer h').2.2.unique (stores_of_layer h).2.2
  rw [(roms_of_layer h).2, (roms_of_layer h').2, hbias]

end LinearSettings

namespace Conv1dSettings

variable {s : Conv1dSettings} {f : QFormat} {style : String} {l l' : Conv1d}

/-- A convolution that is made stores its parameters. -/
theorem stores_of_layer (h : s.layer f style = .ok l) :
    f.Stores s.weights.flatten.flatten l.weights ∧
      l.weights.length = s.outChannels * s.inChannels * s.kernelSize ∧
      Layer.StoresBias f s.outChannels s.bias l.bias := by
  obtain ⟨kernels, stored, rfl, hkernels, hlength, hbias⟩ := of_layer h
  refine ⟨?_, ?_, hbias⟩
  · rw [Conv1d.weights, ← List.flatten_flatten]
    exact List.rel_flatten (List.rel_flatten (hkernels.imp fun _ _ hkernel => hkernel.2.imp fun _ _ hrow => hrow.2))
  · rw [← hlength]
    exact (Layer.of_kernels hkernels).2

/-- The memories of a convolution that is made. -/
theorem roms_of_layer (h : s.layer f style = .ok l) :
    l.weightRom = (Rom.plain (s.name ++ "_w_rom") f.totalBits l.weights).withStyle style ∧
      l.biasRom = (Rom.plain (s.name ++ "_b_rom") f.totalBits l.bias).withStyle style := by
  obtain ⟨_, _, rfl, -⟩ := of_layer h
  exact ⟨rfl, rfl⟩

/-- The text of a convolution does not depend on its parameters. -/
theorem parameters_eq {weights : List (List (List Binary64))} {bias : List Binary64} (h : s.layer f style = .ok l)
    (h' : layer { s with weights, bias } f style = .ok l') : l'.parameters = l.parameters := by
  obtain ⟨-, hweights, hbias⟩ := stores_of_layer h
  obtain ⟨-, hweights', hbias'⟩ := stores_of_layer h'
  have hlength := hbias.length_eq
  have hlength' := hbias'.length_eq
  obtain ⟨_, _, rfl, -⟩ := of_layer h
  obtain ⟨_, _, rfl, -⟩ := of_layer h'
  rw [Conv1d.parameters, Conv1d.parameters, hweights, hweights', hlength, hlength']
  rfl

/-- New biases leave the memory of the weights alone. -/
theorem weightRom_eq {bias : List Binary64} (h : s.layer f style = .ok l)
    (h' : layer { s with bias } f style = .ok l') : l'.weightRom = l.weightRom := by
  have hweights := (stores_of_layer h').1.unique (stores_of_layer h).1
  rw [(roms_of_layer h).1, (roms_of_layer h').1, hweights]

/-- New weights leave the memory of the biases alone. -/
theorem biasRom_eq {weights : List (List (List Binary64))} (h : s.layer f style = .ok l)
    (h' : layer { s with weights } f style = .ok l') : l'.biasRom = l.biasRom := by
  have hbias := (stores_of_layer h').2.2.unique (stores_of_layer h).2.2
  rw [(roms_of_layer h).2, (roms_of_layer h').2, hbias]

end Conv1dSettings

namespace LayerSettings

variable {layer layer' : LayerSettings} {memory : TrainedMemory} {f : QFormat} {style : String} {d d' : Design}

/-- The memories of a layer that is made hold its stored parameters. -/
theorem exists_renders_memory (hlayer : layer.isBuffered = true) (h : layer.design f style = .ok d)
    (memory : TrainedMemory) : ∃ qs, layer.Stores f memory qs ∧ qs.length = layer.wordCount memory ∧
      (∀ q ∈ qs, f.contains q = true) ∧ layer.Renders f style (memory.romName layer.name)
        ((Rom.plain (memory.romName layer.name) f.totalBits qs).withStyle style).render := by
  cases layer with
  | linear s =>
    obtain ⟨l, hl, -⟩ := map_eq_ok_iff.mp h
    obtain ⟨hweights, hlength, hbias⟩ := LinearSettings.stores_of_layer hl
    obtain ⟨hweightRom, hbiasRom⟩ := LinearSettings.roms_of_layer hl
    cases memory with
    | weights => exact ⟨l.weights, hweights, hlength, hweights.contains, hweightRom ▸ .linearWeights hl⟩
    | bias => exact ⟨l.bias, hbias, hbias.length_eq, hbias.contains, hbiasRom ▸ .linearBias hl⟩
  | conv1d s =>
    obtain ⟨l, hl, -⟩ := map_eq_ok_iff.mp h
    obtain ⟨hweights, hlength, hbias⟩ := Conv1dSettings.stores_of_layer hl
    obtain ⟨hweightRom, hbiasRom⟩ := Conv1dSettings.roms_of_layer hl
    cases memory with
    | weights => exact ⟨l.weights, hweights, hlength, hweights.contains, hweightRom ▸ .conv1dWeights hl⟩
    | bias => exact ⟨l.bias, hbias, hbias.length_eq, hbias.contains, hbiasRom ▸ .conv1dBias hl⟩
  | hardSigmoid name => cases hlayer
  | silu name => cases hlayer
  | flatten name => cases hlayer

namespace Retrained

theorem symm (h : Retrained memory layer layer') : Retrained memory layer' layer := by
  cases h with
  | linearWeights s weights => exact .linearWeights { s with weights } s.weights
  | linearBias s bias => exact .linearBias { s with bias } s.bias
  | conv1dWeights s weights => exact .conv1dWeights { s with weights } s.weights
  | conv1dBias s bias => exact .conv1dBias { s with bias } s.bias

/-- Layers that differ in trained parameters only agree in everything else. -/
theorem same (h : Retrained memory layer layer') : layer'.name = layer.name ∧ layer.isBuffered = true ∧
    layer'.wordCount memory = layer.wordCount memory ∧ shapes [layer'] = shapes [layer] := by
  cases h <;> exact ⟨rfl, rfl, rfl, rfl⟩

/-- The other files of a layer that is trained again stay the same. -/
theorem renders (h : Retrained memory layer layer') (hd : layer.design f style = .ok d)
    (hd' : layer'.design f style = .ok d') {name : String} {lines : List String}
    (hrenders : layer.Renders f style name lines) (hne : name ≠ memory.romName layer.name) :
    layer'.Renders f style name lines := by
  cases h with
  | linearWeights s weights =>
    obtain ⟨l, hl, -⟩ := map_eq_ok_iff.mp hd
    obtain ⟨l', hl', -⟩ := map_eq_ok_iff.mp hd'
    cases hrenders with
    | linear hmade hlines =>
      cases hl.symm.trans hmade
      rw [← LinearSettings.parameters_eq hl hl'] at hlines
      exact .linear hl' hlines
    | linearWeights _ => exact absurd rfl hne
    | linearBias hmade =>
      cases hl.symm.trans hmade
      rw [← LinearSettings.biasRom_eq hl hl']
      exact .linearBias hl'
  | linearBias s bias =>
    obtain ⟨l, hl, -⟩ := map_eq_ok_iff.mp hd
    obtain ⟨l', hl', -⟩ := map_eq_ok_iff.mp hd'
    cases hrenders with
    | linear hmade hlines =>
      cases hl.symm.trans hmade
      rw [← LinearSettings.parameters_eq hl hl'] at hlines
      exact .linear hl' hlines
    | linearBias _ => exact absurd rfl hne
    | linearWeights hmade =>
      cases hl.symm.trans hmade
      rw [← LinearSettings.weightRom_eq hl hl']
      exact .linearWeights hl'
  | conv1dWeights s weights =>
    obtain ⟨l, hl, -⟩ := map_eq_ok_iff.mp hd
    obtain ⟨l', hl', -⟩ := map_eq_ok_iff.mp hd'
    cases hrenders with
    | conv1d hmade hlines =>
      cases hl.symm.trans hmade
      rw [← Conv1dSettings.parameters_eq hl hl'] at hlines
      exact .conv1d hl' hlines
    | conv1dWeights _ => exact absurd rfl hne
    | conv1dBias hmade =>
      cases hl.symm.trans hmade
      rw [← Conv1dSettings.biasRom_eq hl hl']
      exact .conv1dBias hl'
    | mac hlines => exact .mac hlines
  | conv1dBias s bias =>
    obtain ⟨l, hl, -⟩ := map_eq_ok_iff.mp hd
    obtain ⟨l', hl', -⟩ := map_eq_ok_iff.mp hd'
    cases hrenders with
    | conv1d hmade hlines =>
      cases hl.symm.trans hmade
      rw [← Conv1dSettings.parameters_eq hl hl'] at hlines
      exact .conv1d hl' hlines
    | conv1dBias _ => exact absurd rfl hne
    | conv1dWeights hmade =>
      cases hl.symm.trans hmade
      rw [← Conv1dSettings.weightRom_eq hl hl']
      exact .conv1dWeights hl'
    | mac hlines => exact .mac hlines

end Retrained

end LayerSettings

/-! ### Builds -/

namespace Table

variable {α : Type}

/-- Tables that hold something under the same keys have the same keys. -/
theorem keys_eq_of_isSome {t u : Table α} (h : ∀ key, (t.get? key).isSome = (u.get? key).isSome) : t.keys = u.keys := by
  have hkeys : ∀ t : Table α, (t.map fun _ => ()).keys = t.keys := by
    intro t
    rw [keys, map, List.map_map]
    rfl
  have hmap : (t.map fun _ => ()) = u.map fun _ => () := by
    refine eq_of_get?_eq fun key => ?_
    have hkey := h key
    rw [get?_map, get?_map]
    cases ht : t.get? key <;> cases hu : u.get? key <;> simp_all
  rw [← hkeys t, hmap, hkeys]

end Table

namespace Build

variable {c : Config} {before after : List LayerSettings} {layer layer' : LayerSettings} {memory : TrainedMemory}
  {result result' : Build}

theorem shapes_of_retrained (h : layer.Retrained memory layer') (before after : List LayerSettings) :
    LayerSettings.shapes (before ++ layer' :: after) = LayerSettings.shapes (before ++ layer :: after) := by
  rw [List.append_cons, LayerSettings.shapes_append, LayerSettings.shapes_append, h.same.2.2.2,
    List.append_cons before layer, LayerSettings.shapes_append, LayerSettings.shapes_append]

/-- Every file but the memory of the parameters that changed is rendered as before. -/
theorem renders_of_retrained (hretrained : layer.Retrained memory layer')
    (hvalid : (c.withLayers (before ++ layer :: after)).validate = .ok ())
    (hvalid' : (c.withLayers (before ++ layer' :: after)).validate = .ok ())
    (h : ofConfig (c.withLayers (before ++ layer :: after)) = .ok result)
    (h' : ofConfig (c.withLayers (before ++ layer' :: after)) = .ok result') {path : String} {lines : List String}
    (hrenders : (c.withLayers (before ++ layer :: after)).Renders path lines)
    (hpath : path ≠ layer.name ++ "/" ++ memory.romName layer.name ++ ".vhd") :
    (c.withLayers (before ++ layer' :: after)).Renders path lines := by
  have hshapes := shapes_of_retrained hretrained before after
  obtain ⟨network', wrapper', testbench', hnetwork', hwired', hwrapper', htestbench', -⟩ := ofConfig_eq_ok_iff.mp h'
  cases hrenders with
  | @layer f found name _ hformat hfound hlines =>
    rcases List.mem_append.mp hfound with hbefore | hbehind
    · exact .layer hformat (List.mem_append_left _ hbefore) hlines
    rcases List.mem_cons.mp hbehind with rfl | hafter
    · obtain ⟨f₁, hformat₁, hdesigns⟩ := exists_design hvalid h
      obtain ⟨f₂, hformat₂, hdesigns'⟩ := exists_design hvalid' h'
      cases hformat.symm.trans hformat₁
      cases hformat.symm.trans hformat₂
      obtain ⟨d, hd⟩ := hdesigns found hfound
      have hmem : layer' ∈ before ++ layer' :: after := List.mem_append_right _ List.mem_cons_self
      obtain ⟨d', hd'⟩ := hdesigns' layer' hmem
      have hname : name ≠ memory.romName found.name := fun hsame => hpath (by rw [hsame])
      rw [← hretrained.same.1]
      exact .layer hformat hmem (hretrained.renders hd hd' hlines hname)
    · exact .layer hformat (List.mem_append_right _ (List.mem_cons_of_mem _ hafter)) hlines
  | @network network _ hnetwork hrender =>
    obtain ⟨-, -, -, hsame⟩ := Config.circuit_of_shapes hnetwork hnetwork' rfl hshapes
    exact .network hnetwork' (hsame.trans hrender)
  | @wrapper network skeleton _ hnetwork hwrapper hrender =>
    obtain ⟨hname, hport, -, -⟩ := Config.circuit_of_shapes hnetwork hnetwork' rfl hshapes
    have hsame : (c.withLayers (before ++ layer' :: after)).wrapper network' =
        (c.withLayers (before ++ layer :: after)).wrapper network := Config.wrapper_of_shapes rfl hshapes hname hport
    exact .wrapper hnetwork' (hsame.trans hwrapper) hrender
  | @testbench t _ htestbench hrender =>
    have hsame := Config.testbench_of_shapes htestbench htestbench' rfl rfl rfl hshapes
    rw [hsame] at htestbench'
    exact .testbench htestbench' hrender

/-- Every file but the memory of the parameters that changed has the same lines in both builds. -/
theorem get?_of_retrained (hretrained : layer.Retrained memory layer')
    (hvalid : (c.withLayers (before ++ layer :: after)).validate = .ok ())
    (hvalid' : (c.withLayers (before ++ layer' :: after)).validate = .ok ())
    (h : ofConfig (c.withLayers (before ++ layer :: after)) = .ok result)
    (h' : ofConfig (c.withLayers (before ++ layer' :: after)) = .ok result') (path : String)
    (hpath : path ≠ layer.name ++ "/" ++ memory.romName layer.name ++ ".vhd") :
    result'.files.get? path = result.files.get? path := by
  refine Option.ext fun lines => ?_
  rw [get?_iff_renders hvalid h, get?_iff_renders hvalid' h']
  constructor
  · intro hrenders
    rw [← hretrained.same.1] at hpath
    exact renders_of_retrained hretrained.symm hvalid' hvalid h' h hrenders hpath
  · intro hrenders
    exact renders_of_retrained hretrained hvalid hvalid' h h' hrenders hpath

/-- The memory of the parameters that changed holds the stored integers. -/
theorem exists_memory (hlayer : layer.isBuffered = true)
    (hvalid : (c.withLayers (before ++ layer :: after)).validate = .ok ())
    (h : ofConfig (c.withLayers (before ++ layer :: after)) = .ok result) (memory : TrainedMemory) :
    ∃ f qs, c.format = .ok f ∧ layer.Stores f memory qs ∧ qs.length = layer.wordCount memory ∧
      (∀ q ∈ qs, f.contains q = true) ∧
      result.files.get? (layer.name ++ "/" ++ memory.romName layer.name ++ ".vhd") =
        some ((Rom.plain (memory.romName layer.name) f.totalBits qs).withStyle c.output.romStyle).render := by
  have hmem : layer ∈ before ++ layer :: after := List.mem_append_right _ List.mem_cons_self
  obtain ⟨f, hformat, hdesigns⟩ := exists_design hvalid h
  obtain ⟨d, hd⟩ := hdesigns layer hmem
  obtain ⟨qs, hqs, hlength, hcontains, hrenders⟩ := LayerSettings.exists_renders_memory hlayer hd memory
  exact ⟨f, qs, hformat, hqs, hlength, hcontains, (get?_iff_renders hvalid h _ _).mpr (.layer hformat hmem hrenders)⟩

/-- **Training a layer again changes one memory.** Take two valid configurations that build and differ only in the
weights of one layer, or only in its biases. Then both builds have the same paths and the same lines
everywhere but at the memory of these parameters, and there the lines are the same exactly if the stored integers
are, and so are the texts. -/
theorem retrained_changes_one_memory (hretrained : layer.Retrained memory layer')
    (hvalid : (c.withLayers (before ++ layer :: after)).validate = .ok ())
    (hvalid' : (c.withLayers (before ++ layer' :: after)).validate = .ok ())
    (h : ofConfig (c.withLayers (before ++ layer :: after)) = .ok result)
    (h' : ofConfig (c.withLayers (before ++ layer' :: after)) = .ok result') :
    result'.files.keys = result.files.keys ∧
    (∀ path, path ≠ layer.name ++ "/" ++ memory.romName layer.name ++ ".vhd" →
      result'.files.get? path = result.files.get? path) ∧
    ∃ f qs qs' lines lines', c.format = .ok f ∧ layer.Stores f memory qs ∧ layer'.Stores f memory qs' ∧
      result.files.get? (layer.name ++ "/" ++ memory.romName layer.name ++ ".vhd") = some lines ∧
      result'.files.get? (layer.name ++ "/" ++ memory.romName layer.name ++ ".vhd") = some lines' ∧
      (lines' = lines ↔ qs' = qs) ∧ (Text.ofLines lines' = Text.ofLines lines ↔ qs' = qs) := by
  obtain ⟨hname, hlayer, hcount, -⟩ := hretrained.same
  obtain ⟨f, qs, hformat, hqs, hlength, hcontains, hlines⟩ := exists_memory hlayer hvalid h memory
  obtain ⟨f', qs', hformat', hqs', hlength', hcontains', hlines'⟩ :=
    exists_memory hretrained.symm.same.2.1 hvalid' h' memory
  cases hformat.symm.trans hformat'
  rw [hname] at hlines'
  have hothers := get?_of_retrained hretrained hvalid hvalid' h h'
  obtain ⟨hsame, htext⟩ := Rom.render_eq_iff (memory.romName layer.name) c.output.romStyle
    (hlength'.trans (hcount.trans hlength.symm)) hcontains hcontains'
  refine ⟨Table.keys_eq_of_isSome fun path => ?_, hothers, f, qs, qs', _, _, hformat, hqs, hqs', hlines, hlines', hsame,
    htext⟩
  by_cases hpath : path = layer.name ++ "/" ++ memory.romName layer.name ++ ".vhd"
  · rw [hpath, hlines, hlines', Option.isSome_some, Option.isSome_some]
  · rw [hothers path hpath]

/-- The chain with another fully connected layer. -/
def chainWith (s : LinearSettings) : Config :=
  chain.withLayers ([.conv1d pairs, .flatten "flat"] ++ .linear s :: [.silu "act"])

/-- The fully connected layer of the chain with other weights. -/
def sum : LinearSettings := { difference with weights := [[.ofInt 1, .ofInt 1]] }

theorem validate_sum : (chainWith sum).validate = .ok () := by decide

/-- One other weight of the chain changes the memory of the weights and no other file. -/
theorem retrained_chain : (chainWith difference).validate = .ok () ∧ (chainWith sum).validate = .ok () ∧
    ∃ result result' lines lines', ofConfig (chainWith difference) = .ok result ∧
      ofConfig (chainWith sum) = .ok result' ∧
      result'.files.keys = result.files.keys ∧
      (∀ path, path ≠ "fc/fc_w_rom.vhd" → result'.files.get? path = result.files.get? path) ∧
      result.files.get? "fc/fc_w_rom.vhd" = some lines ∧ result'.files.get? "fc/fc_w_rom.vhd" = some lines' ∧
      lines' ≠ lines := by
  have hvalid : (chainWith difference).validate = .ok () := validate_chain
  obtain ⟨result, hresult⟩ : ∃ result, ofConfig (chainWith difference) = .ok result := exists_ofConfig_chain
  obtain ⟨result', hresult'⟩ := exists_ofConfig_of_nodup validate_sum (by decide) (by decide)
    (by decide)
  obtain ⟨hkeys, hothers, f, qs, qs', lines, lines', hformat, hqs, hqs', hlines, hlines', hsame, -⟩ :=
    retrained_changes_one_memory (.linearWeights difference [[.ofInt 1, .ofInt 1]]) hvalid validate_sum hresult hresult'
  have hpath : "fc" ++ "/" ++ ("fc" ++ "_w_rom") ++ ".vhd" = "fc/fc_w_rom.vhd" := by decide
  have hf : chain.format = .ok ⟨8, 4, by decide, by decide, by decide⟩ := by decide
  cases hf.symm.trans hformat
  have hstored : qs = [16, -16] := QFormat.Stores.unique hqs (QFormat.quantizeAll_eq_ok_iff.mp (by decide))
  have hstored' : qs' = [16, 16] := QFormat.Stores.unique hqs' (QFormat.quantizeAll_eq_ok_iff.mp (by decide))
  refine ⟨hvalid, validate_sum, result, result', lines, lines', hresult, hresult', hkeys, hpath ▸ hothers,
    hpath ▸ hlines, hpath ▸ hlines', ?_⟩
  rw [ne_eq, hsame, hstored, hstored']
  decide

end Build

end QuantNet
