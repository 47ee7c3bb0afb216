import Mathlib.Data.List.Pairwise
import Mathlib.Data.Prod.Basic
import QuantNet.Proofs.BuildSteps

/-!
# The files of a build

Which files a build has is read off the configuration (`Config.paths`): every layer but the flatten layers
has a folder with its component and, for a trained layer, its memories, and the network, the wrapper and the
testbench stand beside the folders.

No two of these files have one path. The names of the layers differ because they were checked. Everything
else could clash: nothing keeps a convolution from being called like the component that it shares with the
others, or a testbench from being called like the network. But then two components render lines at one path, and
these are never the same, because their templates differ in a line without placeholders (`Template.Fixes`). So
the second write is refused, and the build does not succeed.
-/

namespace QuantNet

open Outcome

/-! ### Fixed lines -/

namespace Template

/-- Line `i` of whatever the template renders is the given one: it has no placeholder, and no line up to it
is the place of a list. -/
def Fixes (t : Template) (i : Nat) (line : String) : Prop :=
  t.lines[i]? = some line ∧ (∀ source ∈ t.lines.take (i + 1), loneHole? source = none) ∧
    pieces line = line.toList.map .char

instance (t : Template) (i : Nat) (line : String) : Decidable (t.Fixes i line) :=
  inferInstanceAs (Decidable (_ ∧ _ ∧ _))

variable {t : Template} {params : Parameters}

/-- Characters stand for themselves. -/
theorem fill_map_char (number : Nat) (cs : List Char) : t.fill params number (cs.map .char) = .ok cs := by
  induction cs with
  | nil => rfl
  | cons c cs ih => rw [List.map_cons, fill, ih, map_ok_eq]

/-- A line that is not the place of a list becomes one line. -/
theorem renderLine_of_loneHole?_eq_none {source : String} (h : loneHole? source = none) (number : Nat) :
    t.renderLine params number source = (t.fill params number (pieces source)).map fun cs => [String.ofList cs] := by
  rw [renderLine, h, Option.bind_none]

/-- A line without placeholders is rendered at its own index, if every line up to it becomes one line. -/
theorem getElem?_of_renderFrom {sources lines : List String} {number i : Nat} {line : String}
    (h : t.renderFrom params number sources = .ok lines) (hline : sources[i]? = some line)
    (hbefore : ∀ source ∈ sources.take (i + 1), loneHole? source = none)
    (hplain : pieces line = line.toList.map .char) : lines[i]? = some line := by
  induction sources generalizing number i lines with
  | nil => cases hline
  | cons source rest ih =>
    obtain ⟨first, hfirst, hrest⟩ := bind_eq_ok_iff.mp h
    obtain ⟨others, hothers, hall⟩ := bind_eq_ok_iff.mp hrest
    cases hall
    rw [List.take_succ_cons, List.forall_mem_cons] at hbefore
    rw [renderLine_of_loneHole?_eq_none hbefore.1] at hfirst
    obtain ⟨cs, hcs, rfl⟩ := map_eq_ok_iff.mp hfirst
    cases i with
    | zero =>
      cases hline
      rw [hplain, fill_map_char] at hcs
      cases hcs
      rw [String.ofList_toList]
      rfl
    | succ i =>
      rw [List.getElem?_cons_succ] at hline
      rw [List.singleton_append, List.getElem?_cons_succ]
      exact ih hothers hline hbefore.2

/-- The fixed lines of a template are rendered as they are. -/
theorem Fixes.getElem?_of_render {i : Nat} {line : String} (h : t.Fixes i line) {lines : List String}
    (hrender : t.render params = .ok lines) : lines[i]? = some line :=
  getElem?_of_renderFrom hrender h.1 h.2.1 h.2.2

/-- Templates that fix different lines never render the same. -/
theorem Fixes.render_ne {t' : Template} {params' : Parameters} {i : Nat} {line line' : String} (h : t.Fixes i line)
    (h' : t'.Fixes i line') (hne : line ≠ line') {lines lines' : List String} (hlines : t.render params = .ok lines)
    (hlines' : t'.render params' = .ok lines') : lines ≠ lines' := by
  rintro rfl
  exact hne (Option.some.inj ((h.getElem?_of_render hlines).symm.trans (h'.getElem?_of_render hlines')))

end Template

/-- The lines are made of the characters. -/
theorem Spelled.eq_map {lines : List String} {css : List (List Char)} (h : Spelled lines css) :
    lines = css.map String.ofList := by
  induction h with
  | nil => rfl
  | cons _ ih => rw [List.map_cons, ← ih]

/-- A template fixes a line if its characters start no placeholder and no line up to it starts with one. -/
theorem Template.fixes_of_spelled {t : Template} {i : Nat} {css : List (List Char)} {cs : List Char}
    (h : Spelled (t.lines.take (i + 1)) css)
    (hcss : css.all (fun cs => Text.after? ['$', '{'] (Text.trimChars cs) = none) = true) (hcs : css[i]? = some cs)
    (hplain : piecesFrom none cs = cs.map .char) : t.Fixes i (String.ofList cs) := by
  have hlines : t.lines.take (i + 1) = css.map String.ofList := h.eq_map
  refine ⟨?_, ?_, ?_⟩
  · have hline : (t.lines.take (i + 1))[i]? = some (String.ofList cs) := by
      rw [hlines, List.getElem?_map, hcs, Option.map_some]
    rwa [List.getElem?_take_of_lt (Nat.lt_succ_self i)] at hline
  · rw [hlines]
    intro source hsource
    obtain ⟨cs', hcs', rfl⟩ := List.mem_map.mp hsource
    have hnone := List.all_eq_true.mp hcss cs' hcs'
    rw [loneHole?, String.toList_ofList, of_decide_eq_true hnone]
  · rw [pieces, String.toList_ofList, hplain]

namespace Source

theorem fixes_network : network.Fixes 7 "        clock : in std_logic;" := by
  apply Template.fixes_of_spelled
  · repeat constructor
  · decide
  · rfl
  · decide

theorem fixes_conv1dTestbench : conv1dTestbench.Fixes 7 "" := by
  apply Template.fixes_of_spelled
  · repeat constructor
  · decide
  · rfl
  · decide

theorem fixes_conv1d : conv1d.Fixes 14 "    );" := by
  apply Template.fixes_of_spelled
  · repeat constructor
  · decide
  · rfl
  · decide

theorem fixes_fxpMac : fxpMac.Fixes 14 "        x2 : in signed(TOTAL_WIDTH-1 downto 0);" := by
  apply Template.fixes_of_spelled
  · repeat constructor
  · decide
  · rfl
  · decide

theorem fixes_skeleton (version : SkeletonVersion) : version.source.Fixes 7 "        reset : in std_logic;" := by
  cases version <;> decide

end Source

/-! ### Paths -/

namespace Emission

/-- The names that lead to a file are the fields of its path, the last of them with the extension. -/
theorem fields_pathOf {parent : Place} {name : String} (h : (parent ++ [name]).IsChecked) :
    Text.fields '/' (pathOf parent name) = parent ++ [name ++ extension] := by
  have hslash : ∀ n, isComponent n = true → '/' ∉ n.toList := fun n hn => (isComponent_iff.mp hn).1.1.2.2
  obtain ⟨hparent, hname⟩ := List.forall_mem_append.mp h
  rw [pathOf, Place.text_append]
  refine Text.fields_intercalate rfl (List.concat_ne_nil _ _) (List.forall_mem_append.mpr ⟨?_, ?_⟩)
  · exact fun n hn => hslash n (hparent n hn)
  · rw [List.forall_mem_singleton, String.toList_append, List.mem_append]
    exact not_or_intro (hslash name (hname name List.mem_cons_self)) (by decide)

/-- A file is found at one place only. -/
theorem pathOf_inj {parent parent' : Place} {name name' : String} (h : (parent ++ [name]).IsChecked)
    (h' : (parent' ++ [name']).IsChecked) (hpath : pathOf parent name = pathOf parent' name') :
    parent = parent' ∧ name = name' := by
  have hplaces : parent ++ [name ++ extension] = parent' ++ [name' ++ extension] := by
    rw [← fields_pathOf h, ← fields_pathOf h', hpath]
  obtain ⟨hparent, hlast⟩ := List.append_inj' hplaces rfl
  exact ⟨hparent, (String.append_left_inj _).mp (List.singleton_inj.mp hlast)⟩

end Emission

/-- Steps write at the paths of their places. -/
theorem Emission.mem_paths_iff {es : List Emission} {path : String} :
    path ∈ (es.filterMap place?).map (fun place => pathOf place.1 place.2) ↔ ∃ lines, Writes es path lines := by
  rw [List.mem_map]
  constructor
  · rintro ⟨place, hplace, rfl⟩
    obtain ⟨e, he, hfile⟩ := List.mem_filterMap.mp hplace
    obtain ⟨lines, rfl⟩ := place?_eq_some_iff.mp hfile
    exact ⟨lines, _, _, he, rfl⟩
  · rintro ⟨lines, parent, name, he, rfl⟩
    exact ⟨(parent, name), List.mem_filterMap.mpr ⟨_, he, rfl⟩, rfl⟩

/-- What is found by a partial function without repetition comes from one entry each. -/
theorem eq_of_nodup_filterMap {α β : Type} {f : α → Option β} {xs : List α} (h : (xs.filterMap f).Nodup) {x y : α}
    {b : β} (hx : x ∈ xs) (hy : y ∈ xs) (hxb : f x = some b) (hyb : f y = some b) : x = y := by
  have hsymm : Std.Symm fun a a' => ∀ b, f a = some b → ∀ b', f a' = some b' → b ≠ b' :=
    ⟨fun a a' hdiffer b hb b' hb' hsame => hdiffer b' hb' b hb hsame.symm⟩
  by_contra hne
  exact (List.pairwise_filterMap.mp h).forall hx hy hne b hxb b hyb rfl

/-- Steps that write at different places agree on what they write. -/
theorem Emission.writes_unique {es : List Emission} (hnodup : (es.filterMap place?).Nodup)
    (hchecked : ∀ place ∈ es.filterMap place?, (place.1 ++ [place.2]).IsChecked) {path : String}
    {lines lines' : List String}
    (h : Writes es path lines) (h' : Writes es path lines') : lines = lines' := by
  obtain ⟨parent, name, he, rfl⟩ := h
  obtain ⟨parent', name', he', hpath⟩ := h'
  have hplace := hchecked (parent, name) (List.mem_filterMap.mpr ⟨_, he, rfl⟩)
  have hplace' := hchecked (parent', name') (List.mem_filterMap.mpr ⟨_, he', rfl⟩)
  obtain ⟨rfl, rfl⟩ := pathOf_inj hplace hplace' hpath
  exact (Emission.file.inj (eq_of_nodup_filterMap hnodup he he' rfl rfl)).2.2

namespace Table

variable {α : Type}

theorem nodup_keys (t : Table α) : t.keys.Nodup := by
  refine List.Pairwise.map _ (fun e e' hlt hsame => ?_) t.sorted
  exact String.lt_irrefl _ (hsame ▸ hlt)

theorem mem_keys_iff {t : Table α} {key : String} : key ∈ t.keys ↔ ∃ value, t.get? key = some value := by
  constructor
  · intro hkey
    obtain ⟨e, he, rfl⟩ := List.mem_map.mp hkey
    cases hget : t.get? e.1 with
    | none => exact absurd rfl (bne_iff_ne.mp (List.lookup_eq_none_iff.mp hget e he))
    | some value => exact ⟨value, rfl⟩
  · rintro ⟨value, hvalue⟩
    exact List.mem_map.mpr ⟨_, mem_of_get?_eq_some hvalue, rfl⟩

end Table

/-- The paths of the files of a layer. -/
def LayerSettings.paths (layer : LayerSettings) : List String :=
  layer.fileNames.map fun name => layer.name ++ "/" ++ name ++ ".vhd"

/-- The paths of the files of a build: those of the layers, each in its folder, and those beside them. -/
def Config.paths (c : Config) : List String :=
  c.layers.flatMap LayerSettings.paths ++ c.rootNames.map (· ++ ".vhd")

/-- The places of the files of a build: the folders that lead to each, and its name. -/
def Config.places (c : Config) : List (Place × String) :=
  c.layers.flatMap (fun layer => layer.fileNames.map fun name => ([layer.name], name)) ++
    c.rootNames.map fun name => ([], name)

namespace Config

variable {c : Config}

theorem paths_eq (c : Config) : c.paths = c.places.map fun place => Emission.pathOf place.1 place.2 := by
  simp only [paths, places, List.map_append, List.map_flatMap, List.map_map, Function.comp_def,
    Emission.pathOf_folder, Emission.pathOf_root]
  rfl

theorem isChecked_of_mem_places (h : ∀ name ∈ c.fileNames, isComponent name = true) {place : Place × String}
    (hplace : place ∈ c.places) : (place.1 ++ [place.2]).IsChecked := by
  obtain ⟨hlayers, hroot⟩ := List.forall_mem_append.mp h
  rcases List.mem_append.mp hplace with hplace | hplace
  · obtain ⟨layer, hlayer, hplace⟩ := List.mem_flatMap.mp hplace
    obtain ⟨name, hname, rfl⟩ := List.mem_map.mp hplace
    obtain ⟨hfolder, hfiles⟩ := List.forall_mem_cons.mp (List.forall_mem_flatMap.mp hlayers layer hlayer)
    exact List.forall_mem_cons.mpr ⟨hfolder, List.forall_mem_singleton.mpr (hfiles name hname)⟩
  · obtain ⟨name, hname, rfl⟩ := List.mem_map.mp hplace
    exact List.forall_mem_singleton.mpr (hroot name hname)

/-- The places of files differ if the names of the layers differ, and so do the names within each folder and at the
root. -/
theorem nodup_places (hlayers : (c.layers.map LayerSettings.name).Nodup)
    (hfiles : ∀ layer ∈ c.layers, layer.fileNames.Nodup) (hroot : c.rootNames.Nodup) : c.places.Nodup := by
  refine List.Nodup.append (List.nodup_flatMap.mpr ⟨fun layer hlayer => ?_, ?_⟩) ?_ ?_
  · exact (hfiles layer hlayer).map (Prod.mk_right_injective _)
  · refine (List.pairwise_map.mp hlayers).imp fun hne place hplace hplace' => ?_
    obtain ⟨name, -, rfl⟩ := List.mem_map.mp hplace
    obtain ⟨name', -, hsame⟩ := List.mem_map.mp hplace'
    exact hne (List.singleton_inj.mp (congrArg Prod.fst hsame).symm)
  · exact hroot.map (Prod.mk_right_injective _)
  · intro place hplace hplace'
    obtain ⟨layer, -, hplace⟩ := List.mem_flatMap.mp hplace
    obtain ⟨name, -, rfl⟩ := List.mem_map.mp hplace
    obtain ⟨name', -, hsame⟩ := List.mem_map.mp hplace'
    exact List.cons_ne_nil _ _ (congrArg Prod.fst hsame).symm

end Config

/-- The files of a layer have different names, unless it is a convolution with the name of the shared component. -/
theorem LayerSettings.nodup_fileNames {layer : LayerSettings} (h : ∀ s, layer = .conv1d s → s.name ≠ Mac.name) :
    layer.fileNames.Nodup := by
  have hself : ∀ name memory : String, memory ≠ "" → name ≠ name ++ memory := by
    intro name memory hne heq
    rw [← String.toList_inj, String.toList_append, List.self_eq_append_right] at heq
    exact hne (String.toList_eq_nil_iff.mp heq)
  -- the names of the memories end with another character than that of the shared component
  have hlast : ∀ name memory : String, memory.toList.getLast? = some 'm' → name ++ memory ≠ Mac.name := by
    intro name memory hm heq
    have hmac : Mac.name.toList.getLast? = some 'c' := by decide
    rw [← heq, String.toList_append, List.getLast?_append, hm] at hmac
    cases hmac
  cases layer with
  | linear s => simp [fileNames, hself]
  | conv1d s =>
    have hname : s.name ≠ "fxp_mac" := h s rfl
    have hw : s.name ++ "_w_rom" ≠ "fxp_mac" := hlast _ _ (by decide)
    have hb : s.name ++ "_b_rom" ≠ "fxp_mac" := hlast _ _ (by decide)
    simp [fileNames, hself, hname, hw, hb]
  | hardSigmoid name => exact List.nodup_singleton name
  | silu name => exact List.nodup_singleton name
  | flatten name => exact List.nodup_nil

/-! ### Files of components -/

/-- The wrapper is made exactly if it is set. -/
theorem Config.isSome_of_wrapper {c : Config} {network : Sequential} {found : Option Skeleton}
    (h : c.wrapper network = .ok found) : found.isSome = c.skeleton.isSome := by
  unfold wrapper at h
  cases hskeleton : c.skeleton with
  | none =>
    rw [hskeleton] at h
    cases h
    rfl
  | some s =>
    rw [hskeleton] at h
    obtain ⟨xCount, -, h⟩ := bind_eq_ok_iff.mp h
    obtain ⟨yCount, -, h⟩ := bind_eq_ok_iff.mp h
    obtain ⟨skeleton, -, h⟩ := bind_eq_ok_iff.mp h
    cases h
    rfl

namespace Build

variable {c : Config} {result : Build}

/-- The steps of a layer in its folder write one file of each name. -/
theorem places_inFolder {f : QFormat} {style : String} {layer : LayerSettings} {d : Design}
    (h : layer.design f style = .ok d) :
    (Sequential.inFolder d).filterMap Emission.place? = layer.fileNames.map fun name => ([layer.name], name) := by
  have hbelow : ∀ e : Emission, (e.below d.name).place? = e.place?.map fun place => (d.name :: place.1, place.2) := by
    intro e
    cases e <;> rfl
  have hplaces := congrArg (List.map fun place => (d.name :: place.1, place.2)) (LayerSettings.places_of_design h)
  rw [List.map_filterMap, List.map_map] at hplaces
  rw [Sequential.inFolder, List.filterMap_cons_none rfl, List.filterMap_map, ← (LayerSettings.name_port_of_design h).1]
  simpa only [Function.comp_def, hbelow] using hplaces

/-- The steps of layers in their folders write the files of the layers, one after the other. -/
theorem places_flatMap_inFolder {f : QFormat} {style : String} {layers : List LayerSettings} {designs : List Design}
    (h : layers.mapM (LayerSettings.design f style) = .ok designs) :
    (designs.flatMap Sequential.inFolder).filterMap Emission.place? =
      layers.flatMap fun layer => layer.fileNames.map fun name => ([layer.name], name) := by
  rw [mapM_eq_ok_iff] at h
  induction h with
  | nil => rfl
  | cons hdesign _ ih => rw [List.flatMap_cons, List.flatMap_cons, List.filterMap_append, places_inFolder hdesign, ih]

/-- The steps of a build write the files of the configuration, one after the other. -/
theorem places_steps {network : Sequential} {wrapper : Option Skeleton} {testbench : Option Testbench}
    {connections : Connections} (hvalid : c.validate = .ok ()) (hnetwork : c.sequential = .ok network)
    (hwired : network.connections = .ok connections) (hwrapper : c.wrapper network = .ok wrapper)
    (htestbench : configuredTestbench c = .ok testbench) :
    (steps network wrapper testbench).filterMap Emission.place? = c.places := by
  have hskeletonPlaces : (wrapper.elim [] Skeleton.emissions).filterMap Emission.place? =
      (c.skeleton.map fun _ => Skeleton.name).toList.map fun name => ([], name) := by
    have hsome := Config.isSome_of_wrapper hwrapper
    cases wrapper with
    | none =>
      rw [Option.isSome_none, eq_comm, Option.isSome_eq_false_iff, Option.isNone_iff_eq_none] at hsome
      rw [hsome]
      rfl
    | some skeleton =>
      obtain ⟨lines, hlines⟩ := skeleton.exists_render
      obtain ⟨s, hs⟩ := Option.isSome_iff_exists.mp hsome.symm
      rw [hs, Option.elim_some, Skeleton.emissions, hlines]
      rfl
  have htestbenchPlaces : (testbench.elim [] Testbench.emissions).filterMap Emission.place? =
      (c.testbench.map TestbenchSettings.name).toList.map fun name => ([], name) := by
    rw [← name_of_configuredTestbench htestbench]
    cases testbench with
    | none => rfl
    | some t =>
      obtain ⟨lines, hlines⟩ := t.render_parameters
      rw [Option.elim_some, Testbench.emissions, hlines]
      rfl
  obtain ⟨f, designs, -, hdesigns, rfl⟩ := Config.of_sequential hvalid hnetwork
  obtain ⟨own, hemissions⟩ := Sequential.exists_emissions hwired
  rw [steps, hemissions, List.filterMap_append, List.filterMap_append, List.filterMap_append,
    places_flatMap_inFolder hdesigns, hskeletonPlaces, htestbenchPlaces, Config.places, Config.rootNames]
  simp [Emission.place?]

section Components

variable (hvalid : c.validate = .ok ()) (h : ofConfig c = .ok result)

include hvalid h

/-- The layers of a build that succeeds can be made. -/
theorem exists_design : ∃ f, c.format = .ok f ∧ ∀ layer ∈ c.layers, ∃ d, layer.design f c.output.romStyle = .ok d := by
  obtain ⟨network, _, _, hnetwork, -⟩ := ofConfig_eq_ok_iff.mp h
  obtain ⟨f, designs, hformat, hdesigns, -⟩ := Config.of_sequential hvalid hnetwork
  refine ⟨f, hformat, fun layer hlayer => ?_⟩
  obtain ⟨d, -, hdesign⟩ := exists_right_of_mem (mapM_eq_ok_iff.mp hdesigns) hlayer
  exact ⟨d, hdesign⟩

/-- At each path a build has the lines of one component. -/
theorem renders_unique {path : String} {lines lines' : List String} (hlines : c.Renders path lines)
    (hlines' : c.Renders path lines') : lines = lines' := by
  rw [← get?_iff_renders hvalid h] at hlines hlines'
  exact Option.some.inj (hlines.symm.trans hlines')

omit hvalid in
theorem exists_renders_network :
    ∃ params lines, Source.network.render params = .ok lines ∧ c.Renders (c.network.name ++ ".vhd") lines := by
  obtain ⟨network, _, _, hnetwork, hwired, -⟩ := ofConfig_eq_ok_iff.mp h
  obtain ⟨lines, hlines⟩ := network.render_parameters result.connections
  refine ⟨_, lines, hlines, .network hnetwork ?_⟩
  rw [Sequential.render, hwired, ok_bind, hlines, mapError_ok_eq]

omit hvalid in
theorem exists_renders_wrapper {s : SkeletonSettings} (hs : c.skeleton = some s) :
    ∃ version params lines, (SkeletonVersion.source version).render params = .ok lines ∧
      c.Renders (Skeleton.name ++ ".vhd") lines := by
  obtain ⟨network, wrapper, _, hnetwork, -, hwrapper, -⟩ := ofConfig_eq_ok_iff.mp h
  have hsome := Config.isSome_of_wrapper hwrapper
  rw [hs, Option.isSome_some] at hsome
  obtain ⟨skeleton, rfl⟩ := Option.isSome_iff_exists.mp hsome
  obtain ⟨lines, hlines⟩ := skeleton.exists_render
  exact ⟨_, _, lines, hlines, .wrapper hnetwork hwrapper hlines⟩

omit hvalid in
theorem exists_renders_testbench {t : TestbenchSettings} (ht : c.testbench = some t) :
    ∃ params lines, Source.conv1dTestbench.render params = .ok lines ∧ c.Renders (t.name ++ ".vhd") lines := by
  obtain ⟨_, _, testbench, -, -, -, htestbench, -⟩ := ofConfig_eq_ok_iff.mp h
  have hname := name_of_configuredTestbench htestbench
  rw [ht, Option.map_some, Option.map_eq_some_iff] at hname
  obtain ⟨made, rfl, hmade⟩ := hname
  obtain ⟨lines, hlines⟩ := made.render_parameters
  rw [← hmade]
  exact ⟨_, lines, hlines, .testbench htestbench hlines⟩

/-- Components with different fixed lines have different paths. -/
theorem path_ne_of_fixes {t t' : Template} {i : Nat} {line line' : String} (ht : t.Fixes i line)
    (ht' : t'.Fixes i line') (hne : line ≠ line') {params params' : Parameters} {lines lines' : List String}
    {path path' : String}
    (hlines : t.render params = .ok lines) (hlines' : t'.render params' = .ok lines') (hpath : c.Renders path lines)
    (hpath' : c.Renders path' lines') : path ≠ path' := by
  rintro rfl
  exact ht.render_ne ht' hne hlines hlines' (renders_unique hvalid h hpath hpath')

/-- No convolution has the name of the shared component. -/
theorem name_ne_mac {s : Conv1dSettings} (hs : .conv1d s ∈ c.layers) : s.name ≠ Mac.name := by
  obtain ⟨f, hformat, hdesigns⟩ := exists_design hvalid h
  obtain ⟨d, hd⟩ := hdesigns _ hs
  obtain ⟨l, hl, -⟩ := map_eq_ok_iff.mp hd
  obtain ⟨own, hown⟩ := l.render_parameters
  obtain ⟨mac, hmac⟩ := Mac.render_none
  intro hname
  refine path_ne_of_fixes hvalid h Source.fixes_conv1d Source.fixes_fxpMac (by decide) hown hmac
    (.layer hformat hs (.conv1d hl hown)) (.layer hformat hs (.mac hmac)) ?_
  rw [hname]
  rfl

/-- The files beside the folders have different names. -/
theorem nodup_rootNames : c.rootNames.Nodup := by
  have hne : ∀ {name name' : String}, name ++ ".vhd" ≠ name' ++ ".vhd" → name ≠ name' := fun hpath hname =>
    hpath (by rw [hname])
  obtain ⟨_, _, hnetwork, hnetworkPath⟩ := exists_renders_network h
  have hskeleton : ∀ s, c.skeleton = some s → c.network.name ≠ Skeleton.name := by
    intro s hs
    obtain ⟨version, _, _, hwrapper, hpath⟩ := exists_renders_wrapper h hs
    exact hne (path_ne_of_fixes hvalid h Source.fixes_network (Source.fixes_skeleton version) (by decide) hnetwork
      hwrapper hnetworkPath hpath)
  have htestbench : ∀ t, c.testbench = some t → c.network.name ≠ t.name ∧
      ∀ s, c.skeleton = some s → Skeleton.name ≠ t.name := by
    intro t ht
    obtain ⟨_, _, hlines, hpath⟩ := exists_renders_testbench h ht
    refine ⟨?_, fun s hs => ?_⟩
    · exact hne (path_ne_of_fixes hvalid h Source.fixes_network Source.fixes_conv1dTestbench (by decide) hnetwork hlines
        hnetworkPath hpath)
    · obtain ⟨version, _, _, hwrapper, hwrapperPath⟩ := exists_renders_wrapper h hs
      exact hne (path_ne_of_fixes hvalid h (Source.fixes_skeleton version) Source.fixes_conv1dTestbench (by decide)
        hwrapper hlines hwrapperPath hpath)
  unfold Config.rootNames
  cases hs : c.skeleton with
  | none =>
    cases ht : c.testbench with
    | none => exact List.nodup_singleton _
    | some t => simp [(htestbench t ht).1]
  | some s =>
    cases ht : c.testbench with
    | none => simp [hskeleton s hs]
    | some t => simp [hskeleton s hs, (htestbench t ht).1, (htestbench t ht).2 s hs]

end Components

/-- The paths of a configuration that builds are those at which one of its components renders lines. -/
theorem mem_paths_iff (hvalid : c.validate = .ok ()) (h : ofConfig c = .ok result) {path : String} :
    path ∈ c.paths ↔ ∃ lines, c.Renders path lines := by
  obtain ⟨network, wrapper, testbench, hnetwork, hwired, hwrapper, htestbench, -⟩ := ofConfig_eq_ok_iff.mp h
  simp only [← writes_steps_iff hvalid hnetwork hwired hwrapper htestbench, Config.paths_eq,
    ← places_steps hvalid hnetwork hwired hwrapper htestbench]
  exact Emission.mem_paths_iff

/-! ### Builds that succeed -/

/-- The parts of a build, all of them made and wired. -/
def parts (c : Config) : Checked BuildError (Connections × Option Skeleton × Option Testbench) := do
  let network ← Checked.within .layer c.sequential
  let connections ← Checked.lift .design network.connections
  let wrapper ← Checked.within .layer (c.wrapper network)
  let testbench ← configuredTestbench c
  return (connections, wrapper, testbench)

/-- A build succeeds if its parts can be made, all names can be names of files, and no two files have one place. -/
theorem exists_ofConfig_of_nodup (hvalid : c.validate = .ok ()) (hparts : (parts c).isOk = true)
    (hnames : c.fileNames.all isComponent = true) (hnodup : c.places.Nodup) : ∃ result, ofConfig c = .ok result := by
  obtain ⟨made, hmade⟩ := exists_eq_ok_of_isOk hparts
  simp only [parts, bind_eq_ok_iff, within_eq_ok_iff, lift_eq_ok_iff] at hmade
  obtain ⟨network, hnetwork, connections, hwired, wrapper, hwrapper, testbench, htestbench, -⟩ := hmade
  rw [List.all_eq_true] at hnames
  have hplaces := places_steps hvalid hnetwork hwired hwrapper htestbench
  have hagree : ∀ path lines lines', c.Renders path lines → c.Renders path lines' → lines = lines' := by
    intro path lines lines' hlines hlines'
    rw [← writes_steps_iff hvalid hnetwork hwired hwrapper htestbench] at hlines hlines'
    refine Emission.writes_unique (by rw [hplaces]; exact hnodup) (fun place hplace => ?_) hlines hlines'
    rw [hplaces] at hplace
    exact Config.isChecked_of_mem_places hnames hplace
  obtain ⟨result, hresult, -⟩ := exists_ofConfig hvalid hnetwork hwired hwrapper htestbench hnames hagree
  exact ⟨result, hresult⟩

/-- A convolution over windows of two values. -/
def pairs : Conv1dSettings := ⟨"conv", 1, 1, 3, 2, [[[.ofInt 1, .ofInt 2]]], []⟩

/-- A fully connected layer with two inputs. -/
def difference : LinearSettings := ⟨"fc", 2, 1, [[.ofInt 1, .ofInt (-1)]], [.ofInt 3]⟩

/-- A network with a convolution, a fully connected layer and an activation, a wrapper and a testbench. -/
def chain : Config where
  network := ⟨"net", 8, 4, false⟩
  layers := [.conv1d pairs, .flatten "flat", .linear difference, .silu "act"]
  skeleton := some ⟨.v1, [7], none, none⟩
  testbench := some ⟨"conv_tb", "conv"⟩
  output := .standard

theorem validate_chain : chain.validate = .ok () := by decide

theorem exists_ofConfig_chain : ∃ result, ofConfig chain = .ok result :=
  exists_ofConfig_of_nodup validate_chain (by decide) (by decide) (by decide)

/-! ### Which files there are -/

/-- **The files of a build.** The build of a valid configuration has exactly the files that the configuration
says: for every layer but the flatten layers its component, with two memories if it is trained and with the shared
component if it is a convolution, the network, the wrapper and the testbench. No two of them have one path, and
each holds the lines that its own component renders. -/
theorem files_of_build (hvalid : c.validate = .ok ()) (h : ofConfig c = .ok result) :
    c.paths.Nodup ∧ result.files.keys.Perm c.paths ∧
      ∀ path lines, result.files.get? path = some lines ↔ c.Renders path lines := by
  have hlayers := Config.of_checkLayers (Config.of_validate hvalid).2.2.1
  have hfiles : ∀ layer ∈ c.layers, layer.fileNames.Nodup := by
    rintro layer hlayer
    refine LayerSettings.nodup_fileNames ?_
    rintro s rfl
    exact name_ne_mac hvalid h hlayer
  have hplaces := Config.nodup_places hlayers.1 hfiles (nodup_rootNames hvalid h)
  have hchecked : ∀ place ∈ c.places, (place.1 ++ [place.2]).IsChecked := fun place hplace =>
    Config.isChecked_of_mem_places (isComponent_of_ofConfig hvalid h) hplace
  have hnodup : c.paths.Nodup := by
    rw [Config.paths_eq]
    refine hplaces.map_on fun place hplace place' hplace' hpath => ?_
    obtain ⟨hparent, hname⟩ := Emission.pathOf_inj (hchecked place hplace) (hchecked place' hplace') hpath
    exact Prod.ext hparent hname
  refine ⟨hnodup, ?_, get?_iff_renders hvalid h⟩
  rw [List.perm_ext_iff_of_nodup result.files.nodup_keys hnodup]
  intro path
  rw [Table.mem_keys_iff, mem_paths_iff hvalid h]
  simp only [get?_iff_renders hvalid h]

/-- The eleven files of a network with a convolution, a fully connected layer and an activation. -/
theorem files_of_chain : chain.validate = .ok () ∧ ∃ result, ofConfig chain = .ok result ∧
    result.files.keys.Perm ["conv/conv.vhd", "conv/conv_w_rom.vhd", "conv/conv_b_rom.vhd", "conv/fxp_mac.vhd",
      "fc/fc.vhd", "fc/fc_w_rom.vhd", "fc/fc_b_rom.vhd", "act/act.vhd", "net.vhd", "skeleton.vhd", "conv_tb.vhd"] := by
  obtain ⟨result, hresult⟩ := exists_ofConfig_chain
  have hpaths : chain.paths = ["conv/conv.vhd", "conv/conv_w_rom.vhd", "conv/conv_b_rom.vhd", "conv/fxp_mac.vhd",
      "fc/fc.vhd", "fc/fc_w_rom.vhd", "fc/fc_b_rom.vhd", "act/act.vhd", "net.vhd", "skeleton.vhd", "conv_tb.vhd"] := by
    decide
  refine ⟨validate_chain, result, hresult, ?_⟩
  rw [← hpaths]
  exact (files_of_build validate_chain hresult).2.1

end Build

end QuantNet
