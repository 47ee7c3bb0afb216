import QuantNet.Proofs.FailedBuilds
import QuantNet.Proofs.WriteOnce

/-!
# What a build consists of

A build that succeeds is the work of its parts: the network with its layers, the wrapper and the
testbench, each of them made from the configuration alone, and one list of steps that writes them
(`Build.ofConfig_eq_ok_iff`). What the steps leave behind does not depend on their order: a file is there
exactly if one of them writes it (`Emission.get?_of_runAll`), and they can all be taken if every name can be the
name of a file and no two of them write different lines to one path (`Emission.exists_runAll`).

So the files of a build are known without running it. `Config.Renders` says which file holds which
lines, component by component.
-/

namespace QuantNet

open Outcome

/-! ### Steps -/

namespace Emission

/-- One of the steps writes the lines at a path. -/
def Writes (es : List Emission) (path : String) (lines : List String) : Prop :=
  ∃ parent name, .file parent name lines ∈ es ∧ path = pathOf parent name

/-- The folders that lead to the file that a step writes, and its name. -/
def place? : Emission → Option (Place × String)
  | file parent name _ => some (parent, name)
  | _ => none

theorem place?_eq_some_iff {e : Emission} {place : Place × String} :
    e.place? = some place ↔ ∃ lines, e = .file place.1 place.2 lines := by
  cases e with
  | file parent name lines => simp [place?, Prod.ext_iff]
  | folder parent name => simp [place?]
  | refuse cause => simp [place?]

variable {es es' : List Emission} {files written : FileSet} {path : String} {lines : List String}

theorem not_writes_nil : ¬ Writes [] path lines := fun ⟨_, _, hmem, _⟩ => List.not_mem_nil hmem

theorem writes_append : Writes (es ++ es') path lines ↔ Writes es path lines ∨ Writes es' path lines := by
  simp only [Writes, List.mem_append, or_and_right, exists_or]

theorem writes_cons (e : Emission) (rest : List Emission) :
    Writes (e :: rest) path lines ↔ Writes [e] path lines ∨ Writes rest path lines := by
  rw [← List.singleton_append, writes_append]

theorem writes_file {parent : Place} {name : String} {own : List String} :
    Writes [.file parent name own] path lines ↔ path = pathOf parent name ∧ lines = own := by
  constructor
  · rintro ⟨parent', name', hmem, hpath⟩
    cases List.mem_singleton.mp hmem
    exact ⟨hpath, rfl⟩
  · rintro ⟨hpath, rfl⟩
    exact ⟨parent, name, List.mem_singleton_self _, hpath⟩

theorem not_writes_folder {parent : Place} {name : String} : ¬ Writes [.folder parent name] path lines := by
  rintro ⟨_, _, hmem, -⟩
  cases List.mem_singleton.mp hmem

/-- After a step a file is there exactly if it was there before or the step writes it. -/
theorem get?_of_run {e : Emission} (h : e.run files = .ok written) (path : String) (lines : List String) :
    written.get? path = some lines ↔ files.get? path = some lines ∨ Writes [e] path lines := by
  cases e with
  | folder parent name =>
    unfold run at h
    obtain ⟨_, -, rfl⟩ := map_eq_ok_iff.mp h
    simp only [not_writes_folder, or_false]
  | file parent name own =>
    obtain ⟨place, hplace, hwritten⟩ := bind_eq_ok_iff.mp (mapError_eq_ok_iff.mp h)
    obtain ⟨-, rfl⟩ := ite_eq_ok_iff.mp hplace
    rw [FileSet.get?_of_write hwritten, writes_file]
    rfl
  | refuse cause => cases h

/-- A step that has a name is taken if the path of its file is free or holds the same lines. -/
theorem exists_run {e : Emission} (hnamed : e.IsNamed)
    (hfree : ∀ path lines stored, Writes [e] path lines → files.get? path = some stored → stored = lines) :
    ∃ next, e.run files = .ok next := by
  cases e with
  | folder parent name => exact ⟨files, run_folder hnamed files⟩
  | file parent name own =>
    have hname : isComponent name = true := hnamed
    have hown : ∀ stored, files.get? (pathOf parent name) = some stored → stored = own := fun stored =>
      hfree _ own stored (writes_file.mpr ⟨rfl, rfl⟩)
    refine ⟨files.insert (pathOf parent name) own, ?_⟩
    rw [run, Place.sub, if_pos hname]
    refine mapError_eq_ok_iff.mpr (FileSet.write_eq_ok_iff.mpr ⟨List.concat_ne_nil _ _, hown, fun path => ?_⟩)
    exact Table.get?_insert ..
  | refuse cause => exact hnamed.elim

/-- After steps that are all taken a file is there exactly if it was there before or one of them writes it. -/
theorem get?_of_runAll (h : runAll files es = (written, .ok ())) (path : String) (lines : List String) :
    written.get? path = some lines ↔ files.get? path = some lines ∨ Writes es path lines := by
  induction es generalizing files with
  | nil =>
    cases h
    simp only [not_writes_nil, or_false]
  | cons e rest ih =>
    rw [runAll] at h
    cases hrun : e.run files with
    | error cause =>
      rw [hrun] at h
      cases h
    | ok next =>
      rw [hrun] at h
      rw [ih h, get?_of_run hrun, writes_cons e rest, or_assoc]

/-- Steps can all be taken if each has a name and they agree on what they write. -/
theorem exists_runAll (hnamed : ∀ e ∈ es, e.IsNamed)
    (hagree : ∀ path lines lines', files.get? path = some lines ∨ Writes es path lines →
      files.get? path = some lines' ∨ Writes es path lines' → lines = lines') :
    ∃ written, runAll files es = (written, .ok ()) := by
  induction es generalizing files with
  | nil => exact ⟨files, rfl⟩
  | cons e rest ih =>
    obtain ⟨hfirst, hrest⟩ := List.forall_mem_cons.mp hnamed
    simp only [writes_cons e rest] at hagree
    obtain ⟨next, hnext⟩ : ∃ next, e.run files = .ok next := exists_run hfirst fun path lines stored hlines hstored =>
      hagree path stored lines (Or.inl hstored) (Or.inr (Or.inl hlines))
    rw [runAll_cons hnext]
    refine ih hrest fun path lines lines' hlines hlines' => ?_
    rw [get?_of_run hnext, or_assoc] at hlines hlines'
    exact hagree path lines lines' hlines hlines'

/-- Steps that are taken after others. -/
theorem runAll_append_eq_ok_iff :
    runAll files (es ++ es') = (written, .ok ()) ↔
      ∃ between, runAll files es = (between, .ok ()) ∧ runAll between es' = (written, .ok ()) := by
  induction es generalizing files with
  | nil => simp [runAll]
  | cons e rest ih =>
    rw [List.cons_append, runAll, runAll]
    cases e.run files with
    | ok next => exact ih
    | error cause => simp

end Emission

/-! ### Files of layers -/

/-- A fully connected layer that is made has the declared sizes and the stored integers of its parameters. -/
theorem LinearSettings.of_layer {s : LinearSettings} {f : QFormat} {style : String} {l : Linear}
    (h : s.layer f style = .ok l) : ∃ rows stored,
      l = ⟨s.name, f, s.inFeatures, s.outFeatures, rows, stored, style⟩ ∧
      List.Forall₂ (fun row q => row.length = s.inFeatures ∧ f.Stores row q) s.weights rows ∧
      s.weights.length = s.outFeatures ∧ Layer.StoresBias f s.outFeatures s.bias stored := by
  obtain ⟨made, hmade, rfl⟩ := map_eq_ok_iff.mp h
  obtain ⟨rows, stored, rfl, -, -, hlength, hrows, hbias⟩ := Linear.of_make hmade
  exact ⟨rows, stored, rfl, hrows, hlength, hbias⟩

/-- A convolution that is made has the declared sizes and the stored integers of its parameters. -/
theorem Conv1dSettings.of_layer {s : Conv1dSettings} {f : QFormat} {style : String} {l : Conv1d}
    (h : s.layer f style = .ok l) : ∃ kernels stored,
      l = ⟨s.name, f, s.inChannels, s.outChannels, s.signalLength, s.kernelSize, kernels, stored, style⟩ ∧
      List.Forall₂ (fun kernel q => kernel.length = s.inChannels ∧
        List.Forall₂ (fun row q => row.length = s.kernelSize ∧ f.Stores row q) kernel q) s.weights kernels ∧
      s.weights.length = s.outChannels ∧ Layer.StoresBias f s.outChannels s.bias stored := by
  obtain ⟨made, hmade, rfl⟩ := map_eq_ok_iff.mp h
  obtain ⟨kernels, stored, rfl, -, -, -, -, hlength, hkernels, hbias, -, -⟩ := Conv1d.of_make hmade
  exact ⟨kernels, stored, rfl, hkernels, hlength, hbias⟩

/-- The files of a fully connected layer. -/
theorem Linear.exists_emissions (l : Linear) : ∃ own, Source.linear.render l.parameters = .ok own ∧
    l.design.emissions = [.file [] l.name own, .file [] (l.name ++ "_w_rom") l.weightRom.render,
      .file [] (l.name ++ "_b_rom") l.biasRom.render] := by
  obtain ⟨own, hown⟩ := l.render_parameters
  refine ⟨own, hown, ?_⟩
  rw [Linear.design, hown]
  rfl

/-- The files of a convolution. -/
theorem Conv1d.exists_emissions (l : Conv1d) : ∃ own mac, Source.conv1d.render l.parameters = .ok own ∧
    Source.fxpMac.render Parameters.none = .ok mac ∧
    l.design.emissions = [.file [] l.name own, .file [] (l.name ++ "_w_rom") l.weightRom.render,
      .file [] (l.name ++ "_b_rom") l.biasRom.render, .file [] "fxp_mac" mac] := by
  obtain ⟨own, hown⟩ := l.render_parameters
  obtain ⟨mac, hmac⟩ := Mac.render_none
  refine ⟨own, mac, hown, hmac, ?_⟩
  rw [Conv1d.design, hown, Mac.design, hmac]
  rfl

/-- The file of a hard sigmoid. -/
theorem HardSigmoid.exists_emissions (l : HardSigmoid) : ∃ own, Source.hardSigmoid.render l.parameters = .ok own ∧
    l.design.emissions = [.file [] l.name own] := by
  obtain ⟨own, hown⟩ := l.render_parameters
  refine ⟨own, hown, ?_⟩
  rw [HardSigmoid.design, hown]
  rfl

/-- The file of a sigmoid-weighted unit. -/
theorem Silu.exists_emissions (l : Silu) : ∃ own, Source.silu.render l.parameters = .ok own ∧
    l.design.emissions = [.file [] l.name own] := by
  obtain ⟨own, hown⟩ := l.render_parameters
  refine ⟨own, hown, ?_⟩
  rw [Silu.design, hown]
  rfl

namespace LayerSettings

/-- The files in the folder of a layer: the name of each, and the lines of the component that it holds. -/
inductive Renders (f : QFormat) (style : String) : LayerSettings → String → List String → Prop
  /-- A fully connected layer. -/
  | linear {s : LinearSettings} {l : Linear} {lines : List String} (hl : s.layer f style = .ok l)
      (h : Source.linear.render l.parameters = .ok lines) : Renders f style (.linear s) s.name lines
  /-- The weight memory of a fully connected layer. -/
  | linearWeights {s : LinearSettings} {l : Linear} (hl : s.layer f style = .ok l) :
      Renders f style (.linear s) (s.name ++ "_w_rom") l.weightRom.render
  /-- The bias memory of a fully connected layer. -/
  | linearBias {s : LinearSettings} {l : Linear} (hl : s.layer f style = .ok l) :
      Renders f style (.linear s) (s.name ++ "_b_rom") l.biasRom.render
  /-- A convolution. -/
  | conv1d {s : Conv1dSettings} {l : Conv1d} {lines : List String} (hl : s.layer f style = .ok l)
      (h : Source.conv1d.render l.parameters = .ok lines) : Renders f style (.conv1d s) s.name lines
  /-- The weight memory of a convolution. -/
  | conv1dWeights {s : Conv1dSettings} {l : Conv1d} (hl : s.layer f style = .ok l) :
      Renders f style (.conv1d s) (s.name ++ "_w_rom") l.weightRom.render
  /-- The bias memory of a convolution. -/
  | conv1dBias {s : Conv1dSettings} {l : Conv1d} (hl : s.layer f style = .ok l) :
      Renders f style (.conv1d s) (s.name ++ "_b_rom") l.biasRom.render
  /-- The multiply-accumulate component of a convolution. -/
  | mac {s : Conv1dSettings} {lines : List String} (h : Source.fxpMac.render Parameters.none = .ok lines) :
      Renders f style (.conv1d s) "fxp_mac" lines
  /-- A hard sigmoid. -/
  | hardSigmoid {name : String} {lines : List String}
      (h : Source.hardSigmoid.render (HardSigmoid.mk name f).parameters = .ok lines) :
      Renders f style (.hardSigmoid name) name lines
  /-- A sigmoid-weighted unit. -/
  | silu {name : String} {lines : List String} (h : Source.silu.render (Silu.mk name f).parameters = .ok lines) :
      Renders f style (.silu name) name lines

/-- The component of a layer writes the files of the layer, and it does nothing else. -/
theorem mem_emissions_iff {f : QFormat} {style : String} {layer : LayerSettings} {d : Design}
    (h : layer.design f style = .ok d) {e : Emission} :
    e ∈ d.emissions ↔ ∃ name lines, e = .file [] name lines ∧ layer.Renders f style name lines := by
  cases layer with
  | linear s =>
    obtain ⟨l, hl, rfl⟩ := map_eq_ok_iff.mp h
    obtain ⟨own, hown, hemissions⟩ := l.exists_emissions
    obtain ⟨_, _, hlayer, -⟩ := LinearSettings.of_layer hl
    have hname : l.name = s.name := by rw [hlayer]
    rw [hemissions, hname]
    simp only [List.mem_cons, List.not_mem_nil, or_false]
    constructor
    · rintro (rfl | rfl | rfl)
      · exact ⟨_, _, rfl, .linear hl hown⟩
      · exact ⟨_, _, rfl, .linearWeights hl⟩
      · exact ⟨_, _, rfl, .linearBias hl⟩
    · rintro ⟨name, lines, rfl, hrenders⟩
      cases hrenders with
      | linear hl' hlines =>
        cases hl.symm.trans hl'
        cases hown.symm.trans hlines
        exact Or.inl rfl
      | linearWeights hl' =>
        cases hl.symm.trans hl'
        exact Or.inr (Or.inl rfl)
      | linearBias hl' =>
        cases hl.symm.trans hl'
        exact Or.inr (Or.inr rfl)
  | conv1d s =>
    obtain ⟨l, hl, rfl⟩ := map_eq_ok_iff.mp h
    obtain ⟨own, mac, hown, hmac, hemissions⟩ := l.exists_emissions
    obtain ⟨_, _, hlayer, -⟩ := Conv1dSettings.of_layer hl
    have hname : l.name = s.name := by rw [hlayer]
    rw [hemissions, hname]
    simp only [List.mem_cons, List.not_mem_nil, or_false]
    constructor
    · rintro (rfl | rfl | rfl | rfl)
      · exact ⟨_, _, rfl, .conv1d hl hown⟩
      · exact ⟨_, _, rfl, .conv1dWeights hl⟩
      · exact ⟨_, _, rfl, .conv1dBias hl⟩
      · exact ⟨_, _, rfl, .mac hmac⟩
    · rintro ⟨name, lines, rfl, hrenders⟩
      cases hrenders with
      | conv1d hl' hlines =>
        cases hl.symm.trans hl'
        cases hown.symm.trans hlines
        exact Or.inl rfl
      | conv1dWeights hl' =>
        cases hl.symm.trans hl'
        exact Or.inr (Or.inl rfl)
      | conv1dBias hl' =>
        cases hl.symm.trans hl'
        exact Or.inr (Or.inr (Or.inl rfl))
      | mac hlines =>
        cases hmac.symm.trans hlines
        exact Or.inr (Or.inr (Or.inr rfl))
  | hardSigmoid name' =>
    cases h
    obtain ⟨own, hown, hemissions⟩ := HardSigmoid.exists_emissions ⟨name', f⟩
    rw [hemissions, List.mem_singleton]
    constructor
    · rintro rfl
      exact ⟨_, _, rfl, .hardSigmoid hown⟩
    · rintro ⟨name, lines, rfl, hrenders⟩
      cases hrenders with
      | hardSigmoid hlines =>
        cases hown.symm.trans hlines
        rfl
  | silu name' =>
    cases h
    obtain ⟨own, hown, hemissions⟩ := Silu.exists_emissions ⟨name', f⟩
    rw [hemissions, List.mem_singleton]
    constructor
    · rintro rfl
      exact ⟨_, _, rfl, .silu hown⟩
    · rintro ⟨name, lines, rfl, hrenders⟩
      cases hrenders with
      | silu hlines =>
        cases hown.symm.trans hlines
        rfl
  | flatten name' =>
    cases h
    constructor
    · exact fun hmem => absurd hmem List.not_mem_nil
    · rintro ⟨_, _, _, hrenders⟩
      cases hrenders

/-- The names of the files in the folder of a layer. -/
def fileNames : LayerSettings → List String
  | linear s => [s.name, s.name ++ "_w_rom", s.name ++ "_b_rom"]
  | conv1d s => [s.name, s.name ++ "_w_rom", s.name ++ "_b_rom", "fxp_mac"]
  | hardSigmoid name | silu name => [name]
  | flatten _ => []

/-- The component of a layer writes one file of each name. -/
theorem places_of_design {f : QFormat} {style : String} {layer : LayerSettings} {d : Design}
    (h : layer.design f style = .ok d) :
    d.emissions.filterMap Emission.place? = layer.fileNames.map fun name => ([], name) := by
  cases layer with
  | linear s =>
    obtain ⟨l, hl, rfl⟩ := map_eq_ok_iff.mp h
    obtain ⟨own, -, hemissions⟩ := l.exists_emissions
    obtain ⟨_, _, rfl, -⟩ := LinearSettings.of_layer hl
    rw [hemissions]
    rfl
  | conv1d s =>
    obtain ⟨l, hl, rfl⟩ := map_eq_ok_iff.mp h
    obtain ⟨own, mac, -, -, hemissions⟩ := l.exists_emissions
    obtain ⟨_, _, rfl, -⟩ := Conv1dSettings.of_layer hl
    rw [hemissions]
    rfl
  | hardSigmoid name =>
    cases h
    obtain ⟨own, -, hemissions⟩ := HardSigmoid.exists_emissions ⟨name, f⟩
    rw [hemissions]
    rfl
  | silu name =>
    cases h
    obtain ⟨own, -, hemissions⟩ := Silu.exists_emissions ⟨name, f⟩
    rw [hemissions]
    rfl
  | flatten name =>
    cases h
    rfl

/-- A layer that is made has a text for each of its files. -/
theorem mem_fileNames_iff {f : QFormat} {style : String} {layer : LayerSettings} {d : Design}
    (h : layer.design f style = .ok d) {name : String} :
    name ∈ layer.fileNames ↔ ∃ lines, layer.Renders f style name lines := by
  have hplace : name ∈ layer.fileNames ↔ ([], name) ∈ d.emissions.filterMap Emission.place? := by
    rw [places_of_design h, List.mem_map]
    simp
  rw [hplace, List.mem_filterMap]
  simp only [Emission.place?_eq_some_iff, mem_emissions_iff h]
  constructor
  · rintro ⟨e, ⟨name', lines, rfl, hrenders⟩, lines', hfile⟩
    cases hfile
    exact ⟨lines, hrenders⟩
  · rintro ⟨lines, hrenders⟩
    exact ⟨_, ⟨name, lines, rfl, hrenders⟩, lines, rfl⟩

end LayerSettings

/-! ### Files of networks -/

namespace Emission

/-- A file in a folder of the root. -/
theorem pathOf_folder (folder name : String) : pathOf [folder] name = folder ++ "/" ++ name ++ extension := by
  rw [pathOf, Place.text, List.singleton_append, String.intercalate_cons_cons, String.intercalate_singleton]

theorem file_mem_map_below {es : List Emission} {folder : String} {parent : Place} {name : String}
    {lines : List String} : .file parent name lines ∈ es.map (below folder) ↔
      ∃ inner, parent = folder :: inner ∧ .file inner name lines ∈ es := by
  rw [List.mem_map]
  constructor
  · rintro ⟨e, he, hbelow⟩
    cases e with
    | file inner name' lines' =>
      cases hbelow
      exact ⟨inner, rfl, he⟩
    | folder inner name' => cases hbelow
    | refuse cause => cases hbelow
  · rintro ⟨inner, rfl, he⟩
    exact ⟨_, he, rfl⟩

/-- A step that writes the lines of a component. -/
theorem writes_emit {name path : String} {own lines : List String} {text : Except OutputError (List String)}
    (htext : text = .ok own) :
    Writes [Design.emit name text] path lines ↔ path = name ++ extension ∧ text = .ok lines := by
  subst htext
  rw [Design.emit, writes_file, pathOf_root, Except.ok.injEq, eq_comm (a := lines)]

end Emission

/-- A network that is wired writes the files of its components into their folders, and its own beside them. -/
theorem Sequential.writes_emissions {s : Sequential} {connections : Connections}
    (hwired : s.connections = .ok connections) {path : String} {lines : List String} :
    Emission.Writes s.emissions path lines ↔
      (∃ d ∈ s.designs, ∃ parent name, .file parent name lines ∈ d.emissions ∧
        path = Emission.pathOf (d.name :: parent) name) ∨
      path = s.name ++ Emission.extension ∧ s.render = .ok lines := by
  obtain ⟨own, hown⟩ := exists_render hwired
  rw [emissions, hown]
  dsimp only
  rw [Emission.writes_append, Emission.writes_file, Emission.pathOf_root, Except.ok.injEq, eq_comm (a := lines)]
  refine or_congr_left ?_
  constructor
  · rintro ⟨parent, name, hmem, hpath⟩
    obtain ⟨d, hd, hmem⟩ := List.mem_flatMap.mp hmem
    rcases List.mem_cons.mp hmem with hmem | hmem
    · cases hmem
    · obtain ⟨inner, rfl, hinner⟩ := Emission.file_mem_map_below.mp hmem
      exact ⟨d, hd, inner, name, hinner, hpath⟩
  · rintro ⟨d, hd, inner, name, hmem, hpath⟩
    refine ⟨_, name, List.mem_flatMap.mpr ⟨d, hd, ?_⟩, hpath⟩
    exact List.mem_cons_of_mem _ (Emission.file_mem_map_below.mpr ⟨inner, rfl, hmem⟩)

/-! ### Builds -/

namespace Build

/-- The testbench of a configuration, if there is one. -/
def configuredTestbench (c : Config) : Checked BuildError (Option Testbench) :=
  match c.testbench with
  | none => .ok none
  | some settings => do
    let (layer, f) ← configuredConv1d c settings.uut
    (Testbench.make settings.name layer.underTest f).map some

/-- The steps that write a network with its wrapper and its testbench. -/
def steps (network : Sequential) (wrapper : Option Skeleton) (testbench : Option Testbench) : List Emission :=
  network.emissions ++ wrapper.elim [] Skeleton.emissions ++ testbench.elim [] Testbench.emissions

variable {c : Config}

theorem emitWrapper_eq_ok_iff {network : Sequential} {files written : FileSet} :
    emitWrapper c network files = .ok written ↔ ∃ wrapper, c.wrapper network = .ok wrapper ∧
      Emission.runAll files (wrapper.elim [] Skeleton.emissions) = (written, .ok ()) := by
  rw [emitWrapper, bind_eq_ok_iff]
  refine exists_congr fun wrapper => and_congr within_eq_ok_iff ?_
  cases wrapper with
  | none => simp [Emission.runAll]
  | some skeleton => exact emit_eq_ok_iff

theorem emitTestbench_eq_ok_iff {files written : FileSet} :
    emitTestbench c files = .ok written ↔ ∃ testbench, configuredTestbench c = .ok testbench ∧
      Emission.runAll files (testbench.elim [] Testbench.emissions) = (written, .ok ()) := by
  unfold emitTestbench configuredTestbench
  cases c.testbench with
  | none => simp [Emission.runAll]
  | some settings =>
    dsimp only
    simp only [bind_eq_ok_iff, map_eq_ok_iff, emit_eq_ok_iff]
    constructor
    · rintro ⟨made, hmade, testbench, htestbench, hrun⟩
      exact ⟨some testbench, ⟨made, hmade, testbench, htestbench, rfl⟩, hrun⟩
    · rintro ⟨_, ⟨made, hmade, testbench, htestbench, rfl⟩, hrun⟩
      exact ⟨made, hmade, testbench, htestbench, hrun⟩

/-- A build succeeds if its parts are made and wired and all the steps that write them are taken. -/
theorem ofConfig_eq_ok_iff {result : Build} :
    ofConfig c = .ok result ↔ ∃ network wrapper testbench, c.sequential = .ok network ∧
      network.connections = .ok result.connections ∧ c.wrapper network = .ok wrapper ∧
      configuredTestbench c = .ok testbench ∧
      Emission.runAll Table.empty (steps network wrapper testbench) = (result.files, .ok ()) ∧ result.config = c := by
  simp only [ofConfig, bind_eq_ok_iff, within_eq_ok_iff, lift_eq_ok_iff, emit_eq_ok_iff, emitWrapper_eq_ok_iff,
    emitTestbench_eq_ok_iff, steps, Emission.runAll_append_eq_ok_iff]
  constructor
  · rintro ⟨network, hnetwork, connections, hwired, first, hfirst, second, ⟨wrapper, hwrapper, hsecond⟩, third,
      ⟨testbench, htestbench, hthird⟩, hresult⟩
    cases hresult
    exact ⟨network, wrapper, testbench, hnetwork, hwired, hwrapper, htestbench,
      ⟨second, ⟨first, hfirst, hsecond⟩, hthird⟩, rfl⟩
  · rintro ⟨network, wrapper, testbench, hnetwork, hwired, hwrapper, htestbench,
      ⟨second, ⟨first, hfirst, hsecond⟩, hthird⟩, hconfig⟩
    refine ⟨network, hnetwork, _, hwired, first, hfirst, second, ⟨wrapper, hwrapper, hsecond⟩, _,
      ⟨testbench, htestbench, hthird⟩, ?_⟩
    rw [← hconfig]
    rfl

/-- The testbench has the name that is set for it. -/
theorem name_of_configuredTestbench {testbench : Option Testbench} (h : configuredTestbench c = .ok testbench) :
    testbench.map Testbench.name = c.testbench.map TestbenchSettings.name := by
  unfold configuredTestbench at h
  cases htestbench : c.testbench with
  | none =>
    rw [htestbench] at h
    cases h
    rfl
  | some settings =>
    rw [htestbench] at h
    obtain ⟨made, -, h⟩ := bind_eq_ok_iff.mp h
    obtain ⟨t, ht, rfl⟩ := map_eq_ok_iff.mp h
    obtain ⟨length, -, ht⟩ := bind_eq_ok_iff.mp ht
    obtain ⟨values, -, ht⟩ := bind_eq_ok_iff.mp ht
    cases ht
    rfl

end Build

/-- The names of the files beside the folders of the layers: the network, its wrapper if there is one, and the
testbench if there is one. -/
def Config.rootNames (c : Config) : List String :=
  c.network.name :: ((c.skeleton.map fun _ => Skeleton.name).toList ++
    (c.testbench.map TestbenchSettings.name).toList)

/-- The names that become names of files and folders in a build. -/
def Config.fileNames (c : Config) : List String :=
  c.layers.flatMap (fun layer => layer.name :: layer.fileNames) ++ c.rootNames

/-- The files of a build: the path of each, and the lines of the component that it holds. -/
inductive Config.Renders (c : Config) : String → List String → Prop
  /-- A file of a layer, in the folder of the layer. -/
  | layer {f : QFormat} {layer : LayerSettings} {name : String} {lines : List String} (hformat : c.format = .ok f)
      (hlayer : layer ∈ c.layers) (h : layer.Renders f c.output.romStyle name lines) :
      Renders c (layer.name ++ "/" ++ name ++ ".vhd") lines
  /-- The network. -/
  | network {network : Sequential} {lines : List String} (hnetwork : c.sequential = .ok network)
      (h : network.render = .ok lines) : Renders c (c.network.name ++ ".vhd") lines
  /-- The wrapper of the network. -/
  | wrapper {network : Sequential} {skeleton : Skeleton} {lines : List String} (hnetwork : c.sequential = .ok network)
      (hwrapper : c.wrapper network = .ok (some skeleton)) (h : skeleton.render = .ok lines) :
      Renders c "skeleton.vhd" lines
  /-- The testbench. -/
  | testbench {testbench : Testbench} {lines : List String}
      (htestbench : Build.configuredTestbench c = .ok (some testbench))
      (h : Source.conv1dTestbench.render testbench.parameters = .ok lines) :
      Renders c (testbench.name ++ ".vhd") lines

namespace Build

variable {c : Config}

/-- The steps of a build write the files of the build. -/
theorem writes_steps_iff {network : Sequential} {wrapper : Option Skeleton} {testbench : Option Testbench}
    {connections : Connections} (hvalid : c.validate = .ok ()) (hnetwork : c.sequential = .ok network)
    (hwired : network.connections = .ok connections) (hwrapper : c.wrapper network = .ok wrapper)
    (htestbench : configuredTestbench c = .ok testbench) {path : String} {lines : List String} :
    Emission.Writes (steps network wrapper testbench) path lines ↔ c.Renders path lines := by
  obtain ⟨f, designs, hformat, hdesigns, hmade⟩ := Config.of_sequential hvalid hnetwork
  have hlayers := mapM_eq_ok_iff.mp hdesigns
  have hname : network.name = c.network.name := by rw [hmade]
  have hall : network.designs = designs := by rw [hmade]
  rw [steps, Emission.writes_append, Emission.writes_append, Sequential.writes_emissions hwired,
    hname, hall]
  constructor
  · rintro (((⟨d, hd, parent, name, hmem, rfl⟩ | ⟨rfl, hrender⟩) | hwrites) | hwrites)
    · obtain ⟨layer, hlayer, hdesign⟩ := exists_left_of_mem hlayers hd
      obtain ⟨_, _, hfile, hrenders⟩ := (LayerSettings.mem_emissions_iff hdesign).mp hmem
      cases hfile
      rw [Emission.pathOf_folder, (LayerSettings.name_port_of_design hdesign).1]
      exact .layer hformat hlayer hrenders
    · exact .network hnetwork hrender
    · cases wrapper with
      | none => exact absurd hwrites Emission.not_writes_nil
      | some skeleton =>
        obtain ⟨own, hown⟩ := skeleton.exists_render
        obtain ⟨rfl, hrender⟩ := (Emission.writes_emit hown).mp hwrites
        exact .wrapper hnetwork hwrapper hrender
    · cases testbench with
      | none => exact absurd hwrites Emission.not_writes_nil
      | some t =>
        obtain ⟨own, hown⟩ := t.render_parameters
        obtain ⟨rfl, hrender⟩ := (Emission.writes_emit hown).mp hwrites
        exact .testbench htestbench hrender
  · intro hrenders
    cases hrenders with
    | @layer f' layer name _ hformat' hlayer hrenders =>
      cases hformat.symm.trans hformat'
      obtain ⟨d, hd, hdesign⟩ := exists_right_of_mem hlayers hlayer
      refine Or.inl (Or.inl (Or.inl ⟨d, hd, [], name, ?_, ?_⟩))
      · exact (LayerSettings.mem_emissions_iff hdesign).mpr ⟨_, _, rfl, hrenders⟩
      · rw [Emission.pathOf_folder, (LayerSettings.name_port_of_design hdesign).1]
        rfl
    | network hnetwork' hrender =>
      cases hnetwork.symm.trans hnetwork'
      exact Or.inl (Or.inl (Or.inr ⟨rfl, hrender⟩))
    | wrapper hnetwork' hwrapper' hrender =>
      cases hnetwork.symm.trans hnetwork'
      cases hwrapper.symm.trans hwrapper'
      exact Or.inl (Or.inr ((Emission.writes_emit hrender).mpr ⟨rfl, hrender⟩))
    | testbench htestbench' hrender =>
      cases htestbench.symm.trans htestbench'
      exact Or.inr ((Emission.writes_emit hrender).mpr ⟨rfl, hrender⟩)

/-- **The files of a build.** A build holds at each path the lines that one of its components renders there,
and nothing else. -/
theorem get?_iff_renders {result : Build} (hvalid : c.validate = .ok ()) (h : ofConfig c = .ok result)
    (path : String) (lines : List String) : result.files.get? path = some lines ↔ c.Renders path lines := by
  obtain ⟨network, wrapper, testbench, hnetwork, hwired, hwrapper, htestbench, hrun, -⟩ := ofConfig_eq_ok_iff.mp h
  rw [Emission.get?_of_runAll hrun, writes_steps_iff hvalid hnetwork hwired hwrapper htestbench]
  exact or_iff_right fun hnone => by cases hnone

/-- A step that writes the lines of a component names the component. -/
theorem isNamed_emit_iff {name : String} {own : List String} {text : Except OutputError (List String)}
    (htext : text = .ok own) : (∀ e ∈ [Design.emit name text], e.IsNamed) ↔ isComponent name = true := by
  subst htext
  exact List.forall_mem_singleton

/-- The steps of a layer in its folder name the layer and its files. -/
theorem isNamed_inFolder_iff {f : QFormat} {style : String} {layer : LayerSettings} {d : Design}
    (h : layer.design f style = .ok d) :
    (∀ e ∈ Sequential.inFolder d, e.IsNamed) ↔ ∀ name ∈ layer.name :: layer.fileNames, isComponent name = true := by
  rw [Sequential.inFolder, List.forall_mem_cons, List.forall_mem_cons, List.forall_mem_map,
    (LayerSettings.name_port_of_design h).1]
  refine and_congr Iff.rfl ?_
  simp only [LayerSettings.mem_emissions_iff h, LayerSettings.mem_fileNames_iff h]
  constructor
  · rintro hnamed name ⟨lines, hrenders⟩
    exact hnamed _ ⟨name, lines, rfl, hrenders⟩
  · rintro hnamed _ ⟨name, lines, rfl, hrenders⟩
    exact hnamed name ⟨lines, hrenders⟩

/-- The steps of a build name something each exactly if the names of all components can be names of files. -/
theorem isNamed_steps_iff {network : Sequential} (wrapper : Option Skeleton) {testbench : Option Testbench}
    {connections : Connections} (hvalid : c.validate = .ok ()) (hnetwork : c.sequential = .ok network)
    (hwired : network.connections = .ok connections) (htestbench : configuredTestbench c = .ok testbench) :
    (∀ e ∈ steps network wrapper testbench, e.IsNamed) ↔ ∀ name ∈ c.fileNames, isComponent name = true := by
  obtain ⟨f, designs, hformat, hdesigns, rfl⟩ := Config.of_sequential hvalid hnetwork
  obtain ⟨own, hemissions⟩ := Sequential.exists_emissions hwired
  have hlayers := mapM_eq_ok_iff.mp hdesigns
  have hfolders : (∀ d ∈ designs, ∀ e ∈ Sequential.inFolder d, e.IsNamed) ↔
      ∀ layer ∈ c.layers, ∀ name ∈ layer.name :: layer.fileNames, isComponent name = true := by
    constructor
    · intro hnamed layer hlayer
      obtain ⟨d, hd, hdesign⟩ := exists_right_of_mem hlayers hlayer
      exact (isNamed_inFolder_iff hdesign).mp (hnamed d hd)
    · intro hnamed d hd
      obtain ⟨layer, hlayer, hdesign⟩ := exists_left_of_mem hlayers hd
      exact (isNamed_inFolder_iff hdesign).mpr (hnamed layer hlayer)
  have hname : isComponent Skeleton.name = true := by decide
  have hwrapper : ∀ e ∈ wrapper.elim [] Skeleton.emissions, e.IsNamed := by
    cases wrapper with
    | none => exact List.forall_mem_nil _
    | some skeleton =>
      obtain ⟨lines, hlines⟩ := skeleton.exists_render
      exact (isNamed_emit_iff hlines).mpr hname
  have hskeleton : ∀ name ∈ (c.skeleton.map fun _ => Skeleton.name).toList, isComponent name = true := by
    cases c.skeleton with
    | none => exact List.forall_mem_nil _
    | some s => exact List.forall_mem_singleton.mpr hname
  have htested : (∀ e ∈ testbench.elim [] Testbench.emissions, e.IsNamed) ↔
      ∀ name ∈ (c.testbench.map TestbenchSettings.name).toList, isComponent name = true := by
    rw [← name_of_configuredTestbench htestbench]
    cases testbench with
    | none => simp
    | some t =>
      obtain ⟨lines, hlines⟩ := t.render_parameters
      rw [Option.map_some, Option.toList_some, List.forall_mem_singleton]
      exact isNamed_emit_iff hlines
  rw [steps, hemissions, Config.fileNames, Config.rootNames]
  simp only [List.forall_mem_append, List.forall_mem_cons, List.forall_mem_flatMap, List.not_mem_nil, false_implies,
    implies_true, and_true, and_iff_left hwrapper, and_iff_right hskeleton, htested, ← and_assoc]
  exact and_congr_left fun _ => and_congr_left fun _ => by simpa only [List.forall_mem_cons] using hfolders

/-- The names of a build that succeeds can be names of files. -/
theorem isComponent_of_ofConfig {result : Build} (hvalid : c.validate = .ok ()) (h : ofConfig c = .ok result) :
    ∀ name ∈ c.fileNames, isComponent name = true := by
  obtain ⟨network, wrapper, testbench, hnetwork, hwired, -, htestbench, hrun, -⟩ := ofConfig_eq_ok_iff.mp h
  exact (isNamed_steps_iff wrapper hvalid hnetwork hwired htestbench).mp (Emission.path_of_runAll hrun).1

/-- A build succeeds if its parts can be made, their names can be names of files, and no two components render
different lines at one path. -/
theorem exists_ofConfig {network : Sequential} {wrapper : Option Skeleton} {testbench : Option Testbench}
    {connections : Connections} (hvalid : c.validate = .ok ()) (hnetwork : c.sequential = .ok network)
    (hwired : network.connections = .ok connections) (hwrapper : c.wrapper network = .ok wrapper)
    (htestbench : configuredTestbench c = .ok testbench) (hnames : ∀ name ∈ c.fileNames, isComponent name = true)
    (hagree : ∀ path lines lines', c.Renders path lines → c.Renders path lines' → lines = lines') :
    ∃ result, ofConfig c = .ok result ∧ result.connections = connections := by
  have hnamed := (isNamed_steps_iff wrapper hvalid hnetwork hwired htestbench).mpr hnames
  have hempty : ∀ path lines, (Table.empty : FileSet).get? path = some lines ∨
      Emission.Writes (steps network wrapper testbench) path lines → c.Renders path lines := by
    rintro path lines (hnone | hwrites)
    · cases hnone
    · exact (writes_steps_iff hvalid hnetwork hwired hwrapper htestbench).mp hwrites
  obtain ⟨files, hrun⟩ := Emission.exists_runAll hnamed fun path lines lines' hlines hlines' =>
    hagree path lines lines' (hempty path lines hlines) (hempty path lines' hlines')
  exact ⟨⟨c, files, connections⟩, ofConfig_eq_ok_iff.mpr ⟨network, wrapper, testbench, hnetwork, hwired, hwrapper,
    htestbench, hrun, rfl⟩, rfl⟩

end Build

end QuantNet
