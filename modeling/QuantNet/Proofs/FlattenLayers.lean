import QuantNet.Proofs.CircuitShapes
import QuantNet.Proofs.EmittedFiles

/-!
# Flatten layers

A flatten layer changes the shape of the data and needs no circuit. Its component has no port and no file, so the
wiring, the counts of the wrapper and the testbench pass it over, and all that it adds to a build is a step that opens
its folder, which leaves the files alone. Hence a build with a flatten layer is the build without it, if the name
of the layer is new and can be the name of a folder (`Build.yields_flatten_iff`).
-/

namespace QuantNet

open Outcome

/-! ### Parts of a build -/

/-- The configuration with other layers. -/
def Config.withLayers (c : Config) (layers : List LayerSettings) : Config := { c with layers }

/-- A folder can be opened between other steps exactly if it has a name, and it adds nothing. -/
theorem Emission.runAll_folder_iff {es es' : List Emission} {parent : Place} {name : String} {files written : FileSet} :
    runAll files (es ++ .folder parent name :: es') = (written, .ok ()) ↔
      isComponent name = true ∧ runAll files (es ++ es') = (written, .ok ()) := by
  rw [runAll_append_eq_ok_iff, runAll_append_eq_ok_iff]
  by_cases hname : isComponent name = true
  · simp only [runAll_cons (run_folder hname _), hname, true_and]
  · have hrefused : ∀ between, runAll between (.folder parent name :: es') ≠ (written, .ok ()) := by
      intro between hrun
      exact hname ((path_of_runAll hrun).1 _ List.mem_cons_self)
    simp [hrefused, hname]

/-- Lists of steps one after the other. -/
theorem Outcome.mapM_append_eq_ok_iff {ε α β : Type} {f : α → Except ε β} {xs xs' : List α} {ys : List β} :
    (xs ++ xs').mapM f = .ok ys ↔ ∃ first rest, xs.mapM f = .ok first ∧ xs'.mapM f = .ok rest ∧ ys = first ++ rest := by
  rw [List.mapM_append]
  simp only [bind_eq_ok_iff, pure_eq_ok, Except.ok.injEq]
  constructor
  · rintro ⟨first, hfirst, rest, hrest, rfl⟩
    exact ⟨first, rest, hfirst, hrest, rfl⟩
  · rintro ⟨first, rest, hfirst, hrest, rfl⟩
    exact ⟨first, hfirst, rest, hrest, rfl⟩

section Flatten

variable {c : Config} {before after : List LayerSettings} {name : String}

theorem LayerSettings.shapes_flatten (before after : List LayerSettings) (name : String) :
    shapes (before ++ .flatten name :: after) = shapes (before ++ after) := by
  rw [shapes_append, shapes_append]
  rfl

/-- The components of layers among which there is a flatten layer. -/
theorem LayerSettings.designs_flatten_iff {f : QFormat} {style : String} {designs : List Design} :
    (before ++ .flatten name :: after).mapM (design f style) = .ok designs ↔
      ∃ first rest, before.mapM (design f style) = .ok first ∧ after.mapM (design f style) = .ok rest ∧
        designs = first ++ .null name :: rest := by
  rw [mapM_append_eq_ok_iff]
  refine exists_congr fun first => ?_
  rw [List.mapM_cons, design, ok_bind]
  simp only [bind_eq_ok_iff, pure_eq_ok, Except.ok.injEq]
  constructor
  · rintro ⟨_, hfirst, ⟨rest, hrest, rfl⟩, rfl⟩
    exact ⟨rest, hfirst, hrest, rfl⟩
  · rintro ⟨rest, hfirst, hrest, rfl⟩
    exact ⟨_, hfirst, ⟨rest, hrest, rfl⟩, rfl⟩

theorem Sequential.visible_null (first rest : List Design) (name : String) :
    visible (first ++ .null name :: rest) = visible (first ++ rest) := by
  rw [visible, visible, List.filter_append, List.filter_append]
  rfl

/-- Names stay different with one more exactly if that one is new. -/
theorem LayerSettings.nodup_flatten_iff :
    ((before ++ .flatten name :: after).map LayerSettings.name).Nodup ↔
      (∀ layer ∈ before ++ after, layer.name ≠ name) ∧ ((before ++ after).map LayerSettings.name).Nodup := by
  have hperm : (before ++ .flatten name :: after).Perm (.flatten name :: (before ++ after)) := List.perm_middle
  rw [(hperm.map LayerSettings.name).nodup_iff, List.map_cons, List.nodup_cons]
  refine and_congr_left fun _ => ?_
  rw [List.mem_map, not_exists]
  exact forall_congr' fun layer => not_and

namespace Config

/-- The network without a flatten layer, from the one with it. -/
theorem of_sequential_flatten {network' : Sequential}
    (h : (c.withLayers (before ++ .flatten name :: after)).sequential = .ok network') :
    (∀ layer ∈ before ++ after, layer.name ≠ name) ∧ ∃ network first rest,
      (c.withLayers (before ++ after)).sequential = .ok network ∧ network.designs = first ++ rest ∧
      network' = { network with designs := first ++ .null name :: rest } := by
  obtain ⟨f, designs, hformat, hdesigns, hnames, rfl⟩ := sequential_eq_ok_iff.mp h
  obtain ⟨first, rest, hfirst, hrest, rfl⟩ := LayerSettings.designs_flatten_iff.mp hdesigns
  obtain ⟨hnew, hnodup⟩ := LayerSettings.nodup_flatten_iff.mp hnames
  have hwithout : (before ++ after).mapM (LayerSettings.design f c.output.romStyle) = .ok (first ++ rest) :=
    mapM_append_eq_ok_iff.mpr ⟨first, rest, hfirst, hrest, rfl⟩
  refine ⟨hnew, _, first, rest, sequential_eq_ok_iff.mpr ⟨f, _, hformat, hwithout, hnodup, rfl⟩, rfl, ?_⟩
  rw [Sequential.derivedWidths_congr (Sequential.visible_null first rest name)]
  rfl

/-- The network with a flatten layer, from the one without it. -/
theorem exists_sequential_flatten {network : Sequential}
    (h : (c.withLayers (before ++ after)).sequential = .ok network)
    (hnew : ∀ layer ∈ before ++ after, layer.name ≠ name) :
    ∃ first rest, network.designs = first ++ rest ∧
      (c.withLayers (before ++ .flatten name :: after)).sequential =
        .ok { network with designs := first ++ .null name :: rest } := by
  obtain ⟨f, designs, hformat, hdesigns, hnodup, rfl⟩ := sequential_eq_ok_iff.mp h
  obtain ⟨first, rest, hfirst, hrest, rfl⟩ := mapM_append_eq_ok_iff.mp hdesigns
  refine ⟨first, rest, rfl, sequential_eq_ok_iff.mpr ⟨f, first ++ .null name :: rest, hformat, ?_, ?_, ?_⟩⟩
  · exact LayerSettings.designs_flatten_iff.mpr ⟨first, rest, hfirst, hrest, rfl⟩
  · exact LayerSettings.nodup_flatten_iff.mpr ⟨hnew, hnodup⟩
  · rw [Sequential.derivedWidths_congr (Sequential.visible_null first rest name)]
    rfl

/-- The convolution of a name is no flatten layer. -/
theorem conv1d?_flatten (uut : String) :
    (c.withLayers (before ++ .flatten name :: after)).conv1d? uut = (c.withLayers (before ++ after)).conv1d? uut := by
  simp only [conv1d?, withLayers, List.findSome?_append, List.findSome?_cons]

/-- Layers pass their checks exactly if their names differ, none is empty or taken, and the shapes are right. -/
theorem checkLayers_eq_ok_iff {taken : List String} {layers : List LayerSettings} :
    checkLayers taken layers = .ok () ↔ (layers.map LayerSettings.name).Nodup ∧
      ∀ layer ∈ layers, layer.name ≠ "" ∧ layer.name ∉ taken ∧ layer.check = .ok () := by
  refine ⟨of_checkLayers, ?_⟩
  induction layers generalizing taken with
  | nil => exact fun _ => rfl
  | cons layer rest ih =>
    rintro ⟨hnodup, hall⟩
    rw [List.map_cons, List.nodup_cons] at hnodup
    obtain ⟨⟨hname, htaken, hcheck⟩, hrest⟩ := List.forall_mem_cons.mp hall
    rw [checkLayers, if_neg hname, if_neg htaken, hcheck, ok_bind]
    refine ih ⟨hnodup.2, fun other hother => ?_⟩
    obtain ⟨hname', htaken', hcheck'⟩ := hrest other hother
    refine ⟨hname', fun hmem => ?_, hcheck'⟩
    rcases List.mem_cons.mp hmem with hsame | hmem
    · exact hnodup.1 (List.mem_map.mpr ⟨other, hother, hsame⟩)
    · exact htaken' hmem

/-- The checks of a configuration, one by one. -/
theorem validate_eq_ok_iff : c.validate = .ok () ↔ c.network.name ≠ "" ∧ (∃ f, c.format = .ok f) ∧
    checkLayers [c.network.name] c.layers = .ok () ∧ checkSkeleton c.skeleton = .ok () ∧
    c.checkTestbench = .ok () ∧ c.output.romStyle ≠ "" := by
  simp only [validate, guard_eq_ok_iff, bind_eq_ok_iff]
  constructor
  · rintro ⟨hname, f, hformat, _, hlayers, _, hskeleton, _, htestbench, hstyle⟩
    refine ⟨hname, ⟨f, hformat⟩, hlayers, hskeleton, htestbench, fun hempty => ?_⟩
    rw [if_pos hempty] at hstyle
    cases hstyle
  · rintro ⟨hname, ⟨f, hformat⟩, hlayers, hskeleton, htestbench, hstyle⟩
    refine ⟨hname, f, hformat, (), hlayers, (), hskeleton, (), htestbench, ?_⟩
    rw [if_neg hstyle]
    rfl

/-- A configuration with a flatten layer is valid if the one without it is, and the name is new. -/
theorem validate_flatten_iff :
    (c.withLayers (before ++ .flatten name :: after)).validate = .ok () ↔
      name ≠ "" ∧ name ≠ c.network.name ∧ (∀ layer ∈ before ++ after, layer.name ≠ name) ∧
        (c.withLayers (before ++ after)).validate = .ok () := by
  have hlayers : checkLayers [c.network.name] (before ++ .flatten name :: after) = .ok () ↔
      name ≠ "" ∧ name ≠ c.network.name ∧ (∀ layer ∈ before ++ after, layer.name ≠ name) ∧
        checkLayers [c.network.name] (before ++ after) = .ok () := by
    have hperm : (before ++ .flatten name :: after).Perm (.flatten name :: (before ++ after)) := List.perm_middle
    rw [checkLayers_eq_ok_iff, checkLayers_eq_ok_iff, LayerSettings.nodup_flatten_iff]
    simp only [hperm.mem_iff, List.forall_mem_cons, LayerSettings.check, List.mem_singleton, LayerSettings.name]
    tauto
  have htestbench : (c.withLayers (before ++ .flatten name :: after)).checkTestbench =
      (c.withLayers (before ++ after)).checkTestbench := by
    unfold checkTestbench findConv1d
    simp only [conv1d?_flatten]
    rfl
  rw [validate_eq_ok_iff, validate_eq_ok_iff, htestbench]
  simp only [withLayers, hlayers]
  tauto

end Config

namespace Build

variable {network : Sequential} {wrapper : Option Skeleton} {testbench : Option Testbench} {files : FileSet}

/-- The steps of a build with a flatten layer are those of the build without it and one that opens its folder. -/
theorem runAll_steps_flatten_iff {first rest : List Design} {own : List String}
    (hdesigns : network.designs = first ++ rest) (hrender : network.render = .ok own)
    (hrender' : Sequential.render { network with designs := first ++ .null name :: rest } = .ok own) :
    Emission.runAll Table.empty (steps { network with designs := first ++ .null name :: rest } wrapper testbench) =
        (files, .ok ()) ↔
      isComponent name = true ∧ Emission.runAll Table.empty (steps network wrapper testbench) = (files, .ok ()) := by
  have hnull : Sequential.inFolder (.null name) = [.folder [] name] := rfl
  rw [steps, steps, Sequential.emissions, Sequential.emissions, hrender, hrender', hdesigns]
  dsimp only
  rw [List.flatMap_append, List.flatMap_append, List.flatMap_cons, hnull]
  simp only [List.append_assoc, List.singleton_append]
  exact Emission.runAll_folder_iff

theorem configuredTestbench_flatten :
    configuredTestbench (c.withLayers (before ++ .flatten name :: after)) =
      configuredTestbench (c.withLayers (before ++ after)) := by
  unfold configuredTestbench configuredConv1d Config.findConv1d
  simp only [Config.conv1d?_flatten]
  rfl

/-- The build of a configuration succeeds with the given files and connections. -/
def Yields (c : Config) (files : FileSet) (connections : Connections) : Prop :=
  ∃ result, ofConfig c = .ok result ∧ result.files = files ∧ result.connections = connections

theorem yields_iff {connections : Connections} : Yields c files connections ↔ ∃ network wrapper testbench,
    c.sequential = .ok network ∧ network.connections = .ok connections ∧ c.wrapper network = .ok wrapper ∧
    configuredTestbench c = .ok testbench ∧
    Emission.runAll Table.empty (steps network wrapper testbench) = (files, .ok ()) := by
  constructor
  · rintro ⟨result, hresult, rfl, rfl⟩
    obtain ⟨network, wrapper, testbench, hnetwork, hwired, hwrapper, htestbench, hrun, -⟩ :=
      ofConfig_eq_ok_iff.mp hresult
    exact ⟨network, wrapper, testbench, hnetwork, hwired, hwrapper, htestbench, hrun⟩
  · rintro ⟨network, wrapper, testbench, hnetwork, hwired, hwrapper, htestbench, hrun⟩
    exact ⟨⟨c, files, connections⟩, ofConfig_eq_ok_iff.mpr
      ⟨network, wrapper, testbench, hnetwork, hwired, hwrapper, htestbench, hrun, rfl⟩, rfl, rfl⟩

/-- A build with a flatten layer succeeds if the build without it does, the name of the layer is new, and it can be
the name of a folder. Then both have the same files and connections. -/
theorem yields_flatten_iff {connections : Connections} :
    Yields (c.withLayers (before ++ .flatten name :: after)) files connections ↔
      isComponent name = true ∧ (∀ layer ∈ before ++ after, layer.name ≠ name) ∧
        Yields (c.withLayers (before ++ after)) files connections := by
  have hshapes := LayerSettings.shapes_flatten before after name
  rw [yields_iff, yields_iff]
  constructor
  · rintro ⟨network', wrapper, testbench, hnetwork', hwired', hwrapper', htestbench, hrun'⟩
    obtain ⟨hnew, network, first, rest, hnetwork, hdesigns, rfl⟩ := Config.of_sequential_flatten hnetwork'
    obtain ⟨hname, hport, hconnections, hrender⟩ := Config.circuit_of_shapes hnetwork hnetwork' rfl hshapes
    rw [hconnections] at hwired'
    obtain ⟨own, hown⟩ := Sequential.exists_render hwired'
    obtain ⟨hcomponent, hrun⟩ := (runAll_steps_flatten_iff hdesigns hown (hrender.trans hown)).mp hrun'
    have hwrapper : (c.withLayers (before ++ .flatten name :: after)).wrapper _ =
        (c.withLayers (before ++ after)).wrapper network := Config.wrapper_of_shapes rfl hshapes hname hport
    exact ⟨hcomponent, hnew, network, wrapper, testbench, hnetwork, hwired', hwrapper.symm.trans hwrapper',
      configuredTestbench_flatten.symm.trans htestbench, hrun⟩
  · rintro ⟨hcomponent, hnew, network, wrapper, testbench, hnetwork, hwired, hwrapper, htestbench, hrun⟩
    obtain ⟨first, rest, hdesigns, hnetwork'⟩ := Config.exists_sequential_flatten hnetwork hnew
    obtain ⟨hname, hport, hconnections, hrender⟩ := Config.circuit_of_shapes hnetwork hnetwork' rfl hshapes
    obtain ⟨own, hown⟩ := Sequential.exists_render hwired
    have hwrapper' : (c.withLayers (before ++ .flatten name :: after)).wrapper _ =
        (c.withLayers (before ++ after)).wrapper network := Config.wrapper_of_shapes rfl hshapes hname hport
    exact ⟨_, wrapper, testbench, hnetwork', hconnections.trans hwired, hwrapper'.trans hwrapper,
      configuredTestbench_flatten.trans htestbench,
      (runAll_steps_flatten_iff hdesigns hown (hrender.trans hown)).mpr ⟨hcomponent, hrun⟩⟩

end Build

end Flatten

/-! ### Transparency -/

namespace Build

/-- **Flatten layers are transparent.** A flatten layer can be put at any position into a valid configuration that
builds, under a name that no layer has and that can be the name of a folder: the configuration stays valid, it
builds, and neither the connections nor the files change. A flatten layer can also be taken out of any
configuration that builds, and again neither of them changes. -/
theorem flatten_transparent (c : Config) (before after : List LayerSettings) (name : String) :
    (∀ result, (c.withLayers (before ++ after)).validate = .ok () →
      ofConfig (c.withLayers (before ++ after)) = .ok result → name ≠ c.network.name →
      (∀ layer ∈ before ++ after, layer.name ≠ name) → isComponent name = true →
      (c.withLayers (before ++ .flatten name :: after)).validate = .ok () ∧
      ∃ result', ofConfig (c.withLayers (before ++ .flatten name :: after)) = .ok result' ∧
        result'.files = result.files ∧ result'.connections = result.connections) ∧
    (∀ result', ofConfig (c.withLayers (before ++ .flatten name :: after)) = .ok result' →
      ((c.withLayers (before ++ .flatten name :: after)).validate = .ok () →
        (c.withLayers (before ++ after)).validate = .ok ()) ∧
      ∃ result, ofConfig (c.withLayers (before ++ after)) = .ok result ∧
        result.files = result'.files ∧ result.connections = result'.connections) := by
  refine ⟨fun result hvalid hresult hnetwork hnew hname => ⟨?_, ?_⟩, fun result' hresult' => ⟨fun hvalid' => ?_, ?_⟩⟩
  · have hne : name ≠ "" := (isComponent_iff.mp hname).1.1.1
    exact Config.validate_flatten_iff.mpr ⟨hne, hnetwork, hnew, hvalid⟩
  · exact yields_flatten_iff.mpr ⟨hname, hnew, result, hresult, rfl, rfl⟩
  · exact (Config.validate_flatten_iff.mp hvalid').2.2.2
  · exact (yields_flatten_iff.mp ⟨result', hresult', rfl, rfl⟩).2.2

/-- The layers of the chain behind its flatten layer. -/
def behind : List LayerSettings := [.linear difference, .silu "act"]

/-- The flatten layer of the chain can be replaced by another one: it is taken out, and another one is put in. -/
theorem flatten_transparent_chain : ∃ result without result',
    ofConfig (chain.withLayers ([.conv1d pairs] ++ .flatten "flat" :: behind)) = .ok result ∧
    ofConfig (chain.withLayers ([.conv1d pairs] ++ behind)) = .ok without ∧
    ofConfig (chain.withLayers ([.conv1d pairs] ++ .flatten "reshape" :: behind)) = .ok result' ∧
    without.files = result.files ∧ result'.files = result.files ∧ result'.connections = result.connections := by
  obtain ⟨result, hresult⟩ := exists_ofConfig_chain
  obtain ⟨hvalid, without, hwithout, hfiles, hconnections⟩ :=
    (flatten_transparent chain [.conv1d pairs] behind "flat").2 result hresult
  obtain ⟨-, result', hresult', hfiles', hconnections'⟩ :=
    (flatten_transparent chain [.conv1d pairs] behind "reshape").1 without (hvalid validate_chain) hwithout (by decide)
      (by decide) (by decide)
  exact ⟨result, without, result', hresult, hwithout, hresult', hfiles, hfiles'.trans hfiles,
    hconnections'.trans hconnections⟩

end Build

end QuantNet
