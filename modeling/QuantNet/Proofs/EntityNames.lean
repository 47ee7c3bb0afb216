import QuantNet.Proofs.EntityDeclarations

/-!
# Entities of a build

All files of a build are compiled into one library, so an entity may be declared once, or several times by the same
text. The names of entities come from several places: the names of the layers, the network and the testbench are
chosen by the user, the memories of a layer are called like the layer with an ending, and the wrapper and the
component that convolutions share have names of their own. The checks of a configuration only compare the names of
the layers and the network. The files do not clash either, because those of a layer are in a folder of its own.

So two files may declare one entity. Two components are never the same text by chance: files with equal lines
have one role (`Role.ofLines`), and in one role the name tells the component (`Config.eq_of_plays`). Hence all
entities are declared once, but for the copies of the shared component, exactly if their names are different
(`Build.entities_of_build`).
-/

namespace QuantNet

open Outcome

/-! ### Files of layers -/

namespace LayerSettings

/-- Whether the layer is a convolution. -/
def isConvolution : LayerSettings → Bool
  | conv1d _ => true
  | _ => false

/-- The folder of a layer has a file of a name, whose component is there for a role. -/
inductive HasFile (layer : LayerSettings) : String → Role → Prop
  /-- The layer itself. -/
  | own (h : layer.hasCircuit = true) : HasFile layer layer.name .layer
  /-- Its weights. -/
  | weights (h : layer.isBuffered = true) : HasFile layer (layer.name ++ "_w_rom") .memory
  /-- Its bias. -/
  | bias (h : layer.isBuffered = true) : HasFile layer (layer.name ++ "_b_rom") .memory
  /-- The component that convolutions share. -/
  | shared (h : layer.isConvolution = true) : HasFile layer Mac.name .shared

variable {f : QFormat} {style : String} {layer : LayerSettings} {name : String}

/-- What the files of a layer hold. -/
theorem hasFile_of_renders {lines : List String} (h : layer.Renders f style name lines) :
    ∃ role, layer.HasFile name role ∧ HoldsComponent lines role name ∧
      (role = .shared → Source.fxpMac.render Parameters.none = .ok lines) := by
  cases h with
  | linear hl h =>
    obtain ⟨_, _, rfl, -⟩ := LinearSettings.of_layer hl
    exact ⟨_, .own rfl, .linear h, nofun⟩
  | linearWeights hl =>
    obtain ⟨_, _, rfl, -⟩ := LinearSettings.of_layer hl
    exact ⟨_, .weights rfl, .rom _ _ _ _, nofun⟩
  | linearBias hl =>
    obtain ⟨_, _, rfl, -⟩ := LinearSettings.of_layer hl
    exact ⟨_, .bias rfl, .rom _ _ _ _, nofun⟩
  | conv1d hl h =>
    obtain ⟨_, _, rfl, -⟩ := Conv1dSettings.of_layer hl
    exact ⟨_, .own rfl, .conv1d h, nofun⟩
  | conv1dWeights hl =>
    obtain ⟨_, _, rfl, -⟩ := Conv1dSettings.of_layer hl
    exact ⟨_, .weights rfl, .rom _ _ _ _, nofun⟩
  | conv1dBias hl =>
    obtain ⟨_, _, rfl, -⟩ := Conv1dSettings.of_layer hl
    exact ⟨_, .bias rfl, .rom _ _ _ _, nofun⟩
  | mac h => exact ⟨_, .shared rfl, .mac h, fun _ => h⟩
  | hardSigmoid h => exact ⟨_, .own rfl, .hardSigmoid h, nofun⟩
  | silu h => exact ⟨_, .own rfl, .silu h, nofun⟩

/-- The entities that the files of a layer declare, but for the one that convolutions share. -/
def entities : LayerSettings → List String
  | linear s => [s.name, s.name ++ "_w_rom", s.name ++ "_b_rom"]
  | conv1d s => [s.name, s.name ++ "_w_rom", s.name ++ "_b_rom"]
  | hardSigmoid name | silu name => [name]
  | flatten _ => []

theorem fileNames_eq (layer : LayerSettings) :
    layer.fileNames = layer.entities ++ if layer.isConvolution then [Mac.name] else [] := by
  cases layer <;> rfl

theorem mem_entities_of_hasFile {role : Role} (h : layer.HasFile name role) (hrole : role ≠ .shared) :
    name ∈ layer.entities := by
  cases h with
  | own h =>
    cases layer with
    | flatten _ => cases h
    | _ => exact List.mem_cons_self
  | weights h =>
    cases layer with
    | linear s => exact List.mem_cons_of_mem _ List.mem_cons_self
    | conv1d s => exact List.mem_cons_of_mem _ List.mem_cons_self
    | _ => cases h
  | bias h =>
    cases layer with
    | linear s => exact List.mem_cons_of_mem _ (List.mem_cons_of_mem _ List.mem_cons_self)
    | conv1d s => exact List.mem_cons_of_mem _ (List.mem_cons_of_mem _ List.mem_cons_self)
    | _ => cases h
  | shared h => exact absurd rfl hrole

/-- Each of its own entities is declared by a file of the layer. -/
theorem exists_renders_entity {d : Design} (hd : layer.design f style = .ok d) (hnodup : layer.fileNames.Nodup)
    (h : name ∈ layer.entities) :
    ∃ role lines, layer.HasFile name role ∧ role ≠ .shared ∧ layer.Renders f style name lines ∧
      HoldsComponent lines role name := by
  rw [fileNames_eq] at hnodup
  have hmem : name ∈ layer.fileNames := by
    rw [fileNames_eq]
    exact List.mem_append_left _ h
  obtain ⟨lines, hlines⟩ := (mem_fileNames_iff hd).mp hmem
  obtain ⟨role, hfile, hholds, -⟩ := hasFile_of_renders hlines
  refine ⟨role, lines, hfile, ?_, hlines, hholds⟩
  rintro rfl
  cases hfile with
  | shared hconvolution =>
    rw [if_pos hconvolution] at hnodup
    exact List.disjoint_of_nodup_append hnodup h (List.mem_singleton_self _)

end LayerSettings

/-! ### Components of a build -/

/-- A component that a build writes. -/
inductive Component where
  /-- One of a layer, by the name of the layer and its own. -/
  | own (layer name : String)
  /-- The one that convolutions share. -/
  | shared
  /-- One beside the folders of the layers. -/
  | beside (name : String)
deriving DecidableEq

/-- The name of a component, which is that of its entity. -/
def Component.name : Component → String
  | own _ name => name
  | shared => Mac.name
  | beside name => name

/-- Where a component is found; the shared one is found in several places. -/
def Component.path? : Component → Option String
  | own layer name => some (layer ++ "/" ++ name ++ ".vhd")
  | shared => none
  | beside name => some (name ++ ".vhd")

namespace Config

variable {c : Config}

/-- The components of a build. -/
def components (c : Config) : List Component :=
  c.layers.flatMap (fun layer => layer.entities.map (.own layer.name)) ++
    (if c.layers.any LayerSettings.isConvolution then [.shared] else []) ++ c.rootNames.map .beside

/-- The names of the components of a build, with that of the shared one only once. -/
def entities (c : Config) : List String :=
  c.layers.flatMap LayerSettings.entities ++
    (if c.layers.any LayerSettings.isConvolution then [Mac.name] else []) ++ c.rootNames

theorem entities_eq (c : Config) : c.entities = c.components.map Component.name := by
  have hname : ∀ layer : LayerSettings,
      layer.entities.map (Component.name ∘ Component.own layer.name) = layer.entities :=
    fun layer => List.map_id _
  have hroot : c.rootNames.map (Component.name ∘ Component.beside) = c.rootNames := List.map_id _
  rw [entities, components, List.map_append, List.map_append, List.map_flatMap, List.map_map, hroot]
  simp only [List.map_map, hname]
  split <;> rfl

/-- A component is there for a role. -/
inductive Plays (c : Config) : Component → Role → Prop
  /-- A component of a layer. -/
  | own {layer : LayerSettings} {name : String} {role : Role} (hlayer : layer ∈ c.layers)
      (h : layer.HasFile name role) (hrole : role ≠ .shared) : Plays c (.own layer.name name) role
  /-- The component that convolutions share. -/
  | shared {layer : LayerSettings} (hlayer : layer ∈ c.layers) (h : layer.isConvolution = true) :
    Plays c .shared .shared
  /-- The network. -/
  | network : Plays c (.beside c.network.name) .network
  /-- The wrapper. -/
  | wrapper {s : SkeletonSettings} (h : c.skeleton = some s) : Plays c (.beside Skeleton.name) .wrapper
  /-- The testbench. -/
  | testbench {t : TestbenchSettings} (h : c.testbench = some t) : Plays c (.beside t.name) .testbench

/-- A file of a build holds a component; every convolution has a copy of the shared one. -/
inductive IsFile (c : Config) : Component → String → List String → Prop
  /-- A file of a layer. -/
  | own {layer : LayerSettings} (hlayer : layer ∈ c.layers) (name : String) (lines : List String) :
      IsFile c (.own layer.name name) (layer.name ++ "/" ++ name ++ ".vhd") lines
  /-- A copy of the shared component. -/
  | shared {layer : LayerSettings} (hlayer : layer ∈ c.layers) {lines : List String}
      (h : Source.fxpMac.render Parameters.none = .ok lines) :
      IsFile c .shared (layer.name ++ "/" ++ Mac.name ++ ".vhd") lines
  /-- A file beside the folders. -/
  | beside (name : String) (lines : List String) : IsFile c (.beside name) (name ++ ".vhd") lines

/-- The files of one component have one path, unless they are copies of the shared one. -/
theorem IsFile.path?_eq {k : Component} {path : String} {lines : List String} (h : c.IsFile k path lines) :
    k.path? = some path ∨ k = .shared ∧ Source.fxpMac.render Parameters.none = .ok lines := by
  cases h with
  | own hlayer name lines => exact Or.inl rfl
  | shared hlayer h => exact Or.inr ⟨rfl, h⟩
  | beside name lines => exact Or.inl rfl

/-- Every file of a build holds one of its components. -/
theorem exists_component_of_renders (hvalid : c.validate = .ok ()) {path : String} {lines : List String}
    (h : c.Renders path lines) :
    ∃ k role, c.Plays k role ∧ c.IsFile k path lines ∧ HoldsComponent lines role k.name := by
  cases h with
  | @layer f layer name _ hformat hlayer h =>
    obtain ⟨role, hfile, hholds, hmac⟩ := LayerSettings.hasFile_of_renders h
    by_cases hrole : role = .shared
    · subst hrole
      cases hfile with
      | shared hconvolution =>
        exact ⟨.shared, .shared, .shared hlayer hconvolution, .shared hlayer (hmac rfl), hholds⟩
    · exact ⟨.own layer.name name, role, .own hlayer hfile hrole, .own hlayer name lines, hholds⟩
  | network hnetwork h =>
    obtain ⟨_, _, -, -, rfl⟩ := of_sequential hvalid hnetwork
    exact ⟨.beside c.network.name, .network, .network, .beside _ lines, .network h⟩
  | wrapper hnetwork hwrapper h =>
    have hsome := isSome_of_wrapper hwrapper
    rw [Option.isSome_some] at hsome
    obtain ⟨s, hs⟩ := Option.isSome_iff_exists.mp hsome.symm
    exact ⟨.beside Skeleton.name, .wrapper, .wrapper hs, .beside _ lines, .wrapper h⟩
  | @testbench testbench _ htestbench h =>
    have hname := Build.name_of_configuredTestbench htestbench
    rw [Option.map_some, eq_comm, Option.map_eq_some_iff] at hname
    obtain ⟨t, ht, hname⟩ := hname
    rw [← hname]
    exact ⟨.beside t.name, .testbench, .testbench ht, .beside _ lines, hname ▸ .testbench h⟩

/-- What is there for a role is a component of the build. -/
theorem mem_components_of_plays {k : Component} {role : Role} (h : c.Plays k role) : k ∈ c.components := by
  rw [components, List.mem_append, List.mem_append]
  cases h with
  | own hlayer h hrole =>
    exact Or.inl (Or.inl (List.mem_flatMap.mpr
      ⟨_, hlayer, List.mem_map_of_mem (LayerSettings.mem_entities_of_hasFile h hrole)⟩))
  | shared hlayer h =>
    rw [if_pos (List.any_eq_true.mpr ⟨_, hlayer, h⟩)]
    exact Or.inl (Or.inr List.mem_cons_self)
  | network => exact Or.inr (List.mem_map_of_mem List.mem_cons_self)
  | wrapper h =>
    refine Or.inr (List.mem_map_of_mem (List.mem_cons_of_mem _ (List.mem_append_left _ ?_)))
    rw [h]
    exact List.mem_cons_self
  | testbench h =>
    refine Or.inr (List.mem_map_of_mem (List.mem_cons_of_mem _ (List.mem_append_right _ ?_)))
    rw [h]
    exact List.mem_cons_self

/-- The names of the two memories differ, whatever the layers are. -/
theorem weights_ne_bias (name name' : String) : name ++ "_w_rom" ≠ name' ++ "_b_rom" := by
  intro h
  rw [← String.toList_inj, String.toList_append, String.toList_append] at h
  have hlength : "_w_rom".toList.length = "_b_rom".toList.length := by decide
  have hends : "_w_rom".toList ≠ "_b_rom".toList := by decide
  exact hends (List.append_inj' h hlength).2

/-- Components that are there for one role and have one name are the same. -/
theorem eq_of_plays {k k' : Component} {role : Role} (h : c.Plays k role) (h' : c.Plays k' role)
    (hname : k.name = k'.name) : k = k' := by
  cases h with
  | own hlayer hfile hrole =>
    cases h' with
    | own hlayer' hfile' hrole' =>
      cases hfile with
      | own h =>
        cases hfile' with
        | own h' => exact congrArg (fun name => Component.own name name) hname
      | weights h =>
        cases hfile' with
        | weights h' => rw [(String.append_left_inj _).mp hname]
        | bias h' => exact absurd hname (weights_ne_bias _ _)
      | bias h =>
        cases hfile' with
        | weights h' => exact absurd hname.symm (weights_ne_bias _ _)
        | bias h' => rw [(String.append_left_inj _).mp hname]
      | shared h => exact absurd rfl hrole
    | shared hlayer' h' => exact absurd rfl hrole
    | _ => cases hfile
  | shared hlayer h =>
    cases h' with
    | own hlayer' hfile' hrole' => exact absurd rfl hrole'
    | shared hlayer' h' => rfl
  | network =>
    cases h' with
    | own hlayer' hfile' hrole' => cases hfile'
    | network => rfl
  | wrapper h =>
    cases h' with
    | own hlayer' hfile' hrole' => cases hfile'
    | wrapper h' => rfl
  | testbench h =>
    cases h' with
    | own hlayer' hfile' hrole' => cases hfile'
    | testbench h' => rw [Option.some.inj (h.symm.trans h')]

/-- The components of a build are different if its files are. -/
theorem nodup_components (hlayers : (c.layers.map LayerSettings.name).Nodup)
    (hfiles : ∀ layer ∈ c.layers, layer.fileNames.Nodup) (hroot : c.rootNames.Nodup) : c.components.Nodup := by
  have hown : (c.layers.flatMap fun layer => layer.entities.map (Component.own layer.name)).Nodup := by
    refine List.nodup_flatMap.mpr ⟨fun layer hlayer => ?_, ?_⟩
    · have hentities := hfiles layer hlayer
      rw [LayerSettings.fileNames_eq] at hentities
      exact hentities.of_append_left.map fun _ _ h => (Component.own.inj h).2
    · refine (List.pairwise_map.mp hlayers).imp fun hne k hk hk' => ?_
      obtain ⟨name, -, rfl⟩ := List.mem_map.mp hk
      obtain ⟨name', -, hsame⟩ := List.mem_map.mp hk'
      exact hne (Component.own.inj hsame).1.symm
  have hshared : ∀ b : Bool, (if b then [Component.shared] else []).Nodup := by decide
  refine (hown.append (hshared _) fun k hk hk' => ?_).append (hroot.map fun _ _ h => Component.beside.inj h) ?_
  · obtain ⟨layer, -, hk⟩ := List.mem_flatMap.mp hk
    obtain ⟨name, -, rfl⟩ := List.mem_map.mp hk
    split at hk'
    · cases List.mem_singleton.mp hk'
    · cases hk'
  · intro k hk hk'
    obtain ⟨name, -, rfl⟩ := List.mem_map.mp hk'
    rcases List.mem_append.mp hk with hk | hk
    · obtain ⟨layer, -, hk⟩ := List.mem_flatMap.mp hk
      obtain ⟨name', -, hsame⟩ := List.mem_map.mp hk
      cases hsame
    · split at hk
      · cases List.mem_singleton.mp hk
      · cases hk

end Config

namespace Build

variable {c : Config} {result : Build} (hvalid : c.validate = .ok ()) (h : ofConfig c = .ok result)
include hvalid h

theorem nodup_fileNames {layer : LayerSettings} (hlayer : layer ∈ c.layers) : layer.fileNames.Nodup := by
  refine LayerSettings.nodup_fileNames ?_
  rintro s rfl
  exact name_ne_mac hvalid h hlayer

/-- The network, the wrapper and the testbench of a build are held by files. -/
theorem exists_renders_of_mem_rootNames {name : String} (hname : name ∈ c.rootNames) :
    ∃ role path lines, c.Plays (.beside name) role ∧ c.Renders path lines ∧ HoldsComponent lines role name := by
  obtain ⟨network, wrapper, testbench, hnetwork, hwired, hwrapper, htestbench, -⟩ := ofConfig_eq_ok_iff.mp h
  rw [Config.rootNames, List.mem_cons, List.mem_append, Option.mem_toList, Option.mem_toList,
    Option.map_eq_some_iff, Option.map_eq_some_iff] at hname
  rcases hname with rfl | ⟨s, hs, rfl⟩ | ⟨t, ht, rfl⟩
  · obtain ⟨lines, hlines⟩ := Sequential.exists_render hwired
    have hname : network.name = c.network.name := by
      obtain ⟨_, _, -, -, rfl⟩ := Config.of_sequential hvalid hnetwork
      rfl
    exact ⟨_, _, lines, .network, .network hnetwork hlines, hname ▸ .network hlines⟩
  · have hsome := Config.isSome_of_wrapper hwrapper
    rw [hs, Option.isSome_some] at hsome
    obtain ⟨skeleton, rfl⟩ := Option.isSome_iff_exists.mp hsome
    obtain ⟨lines, hlines⟩ := skeleton.exists_render
    exact ⟨_, _, lines, .wrapper hs, .wrapper hnetwork hwrapper hlines, .wrapper hlines⟩
  · have hname := name_of_configuredTestbench htestbench
    rw [ht, Option.map_some, Option.map_eq_some_iff] at hname
    obtain ⟨made, rfl, hname⟩ := hname
    obtain ⟨lines, hlines⟩ := made.render_parameters
    exact ⟨_, _, lines, .testbench ht, .testbench htestbench hlines, hname ▸ .testbench hlines⟩

/-- Every component of a build is held by a file. -/
theorem exists_renders_of_mem_components {k : Component} (hk : k ∈ c.components) :
    ∃ role path lines, c.Plays k role ∧ c.Renders path lines ∧ HoldsComponent lines role k.name := by
  obtain ⟨f, hformat, hmade⟩ := exists_design hvalid h
  rw [Config.components, List.mem_append, List.mem_append] at hk
  rcases hk with (hk | hk) | hk
  · obtain ⟨layer, hlayer, hk⟩ := List.mem_flatMap.mp hk
    obtain ⟨name, hname, rfl⟩ := List.mem_map.mp hk
    obtain ⟨d, hd⟩ := hmade layer hlayer
    obtain ⟨role, lines, hfile, hrole, hlines, hholds⟩ :=
      LayerSettings.exists_renders_entity hd (nodup_fileNames hvalid h hlayer) hname
    exact ⟨role, _, lines, .own hlayer hfile hrole, .layer hformat hlayer hlines, hholds⟩
  · split at hk
    · rename_i hany
      cases List.mem_singleton.mp hk
      obtain ⟨layer, hlayer, hconvolution⟩ := List.any_eq_true.mp hany
      obtain ⟨mac, hmac⟩ := Mac.render_none
      cases layer with
      | conv1d s =>
        exact ⟨_, _, mac, .shared hlayer hconvolution, .layer hformat hlayer (.mac hmac), .mac hmac⟩
      | _ => cases hconvolution
    · cases hk
  · obtain ⟨name, hname, rfl⟩ := List.mem_map.mp hk
    exact exists_renders_of_mem_rootNames hvalid h hname

/-- The files of one component hold the same lines. -/
theorem eq_of_isFile {k : Component} {path path' : String} {lines lines' : List String} (hfile : c.IsFile k path lines)
    (hfile' : c.IsFile k path' lines') (hlines : c.Renders path lines) (hlines' : c.Renders path' lines') :
    lines = lines' := by
  rcases hfile.path?_eq with hpath | ⟨rfl, hmac⟩
  · rcases hfile'.path?_eq with hpath' | ⟨rfl, -⟩
    · obtain rfl := Option.some.inj (hpath.symm.trans hpath')
      exact renders_unique hvalid h hlines hlines'
    · cases hpath
  · rcases hfile'.path?_eq with hpath' | ⟨-, hmac'⟩
    · cases hpath'
    · exact Except.ok.inj (hmac.symm.trans hmac')

/-- **The entities of a build.** Every file of the build of a valid configuration declares one entity, which has the
name of the file. No two files that differ declare the same entity, in letters as they are written, exactly if
the names that the configuration gives to its components are all different: those of its layers and their
memories, of the shared component if there is a convolution, of the network, the wrapper and the testbench. -/
theorem entities_of_build :
    (∀ path lines, result.files.get? path = some lines → ∃ entity ∈ c.entities,
      (∀ other, DeclaresEntity lines other ↔ other = entity) ∧
        (path = entity ++ ".vhd" ∨ ∃ layer ∈ c.layers, path = layer.name ++ "/" ++ entity ++ ".vhd")) ∧
      ((∀ path path' lines lines' entity, result.files.get? path = some lines → result.files.get? path' = some lines' →
        DeclaresEntity lines entity → DeclaresEntity lines' entity → lines = lines') ↔ c.entities.Nodup) := by
  have hnodup : c.components.Nodup :=
    Config.nodup_components (Config.of_checkLayers (Config.of_validate hvalid).2.2.1).1
      (fun layer hlayer => nodup_fileNames hvalid h hlayer) (nodup_rootNames hvalid h)
  simp only [get?_iff_renders hvalid h]
  refine ⟨fun path lines hlines => ?_, ?_⟩
  · obtain ⟨k, role, hplays, hfile, hholds⟩ := Config.exists_component_of_renders hvalid hlines
    refine ⟨k.name, ?_, hholds.declares_iff, ?_⟩
    · rw [Config.entities_eq]
      exact List.mem_map_of_mem (Config.mem_components_of_plays hplays)
    · cases hfile with
      | own hlayer name lines => exact Or.inr ⟨_, hlayer, rfl⟩
      | shared hlayer h => exact Or.inr ⟨_, hlayer, rfl⟩
      | beside name lines => exact Or.inl rfl
  · rw [Config.entities_eq, List.nodup_map_iff_inj_on hnodup]
    constructor
    · intro hagree k hk k' hk' hname
      obtain ⟨role, path, lines, hplays, hlines, hholds⟩ := exists_renders_of_mem_components hvalid h hk
      obtain ⟨role', path', lines', hplays', hlines', hholds'⟩ := exists_renders_of_mem_components hvalid h hk'
      obtain rfl := hagree path path' lines lines' k.name hlines hlines' ((hholds.declares_iff _).mpr rfl)
        ((hholds'.declares_iff _).mpr hname)
      -- equal lines are there for one role
      obtain rfl : role = role' := hholds.role_eq.symm.trans hholds'.role_eq
      exact Config.eq_of_plays hplays hplays' hname
    · intro hinj path path' lines lines' entity hlines hlines' hdeclares hdeclares'
      obtain ⟨k, role, hplays, hfile, hholds⟩ := Config.exists_component_of_renders hvalid hlines
      obtain ⟨k', role', hplays', hfile', hholds'⟩ := Config.exists_component_of_renders hvalid hlines'
      have hname : k.name = k'.name :=
        ((hholds.declares_iff _).mp hdeclares).symm.trans ((hholds'.declares_iff _).mp hdeclares')
      obtain rfl := hinj k (Config.mem_components_of_plays hplays) k' (Config.mem_components_of_plays hplays') hname
      exact eq_of_isFile hvalid h hfile hfile' hlines hlines'

omit hvalid h

/-- In a network of a convolution, a fully connected layer and an activation all entities have different names. -/
theorem entities_of_chain : chain.validate = .ok () ∧ ∃ result, ofConfig chain = .ok result ∧
    ∀ path path' lines lines' entity, result.files.get? path = some lines → result.files.get? path' = some lines' →
      DeclaresEntity lines entity → DeclaresEntity lines' entity → lines = lines' := by
  obtain ⟨result, hresult⟩ := exists_ofConfig_chain
  exact ⟨validate_chain, result, hresult, (entities_of_build validate_chain hresult).2.mpr (by decide)⟩

/-- A network with an activation that is called like the memory of a fully connected layer. -/
def calledLikeMemory : Config where
  network := ⟨"net", 8, 4, false⟩
  layers := [.linear difference, .silu "fc_w_rom"]
  skeleton := none
  testbench := none
  output := .standard

/-- The build of a valid configuration may declare an entity in two files that differ. -/
theorem not_unique_entity_of_build :
    ¬ ∀ (c : Config) (result : Build) (path path' : String) (lines lines' : List String) (entity : String),
      c.validate = .ok () → ofConfig c = .ok result → result.files.get? path = some lines →
        result.files.get? path' = some lines' → DeclaresEntity lines entity → DeclaresEntity lines' entity →
          lines = lines' := by
  intro hunique
  have hvalid : calledLikeMemory.validate = .ok () := by decide
  obtain ⟨result, hresult⟩ := exists_ofConfig_of_nodup hvalid (by decide) (by decide) (by decide)
  obtain ⟨f, hformat, hmade⟩ := exists_design hvalid hresult
  have hmemory : LayerSettings.linear difference ∈ calledLikeMemory.layers := List.mem_cons_self
  have hunit : LayerSettings.silu "fc_w_rom" ∈ calledLikeMemory.layers := List.mem_cons_of_mem _ List.mem_cons_self
  obtain ⟨d, hd⟩ := hmade _ hmemory
  obtain ⟨l, hl, -⟩ := map_eq_ok_iff.mp hd
  obtain ⟨lines, hlines⟩ := Silu.render_parameters ⟨"fc_w_rom", f⟩
  have hname : difference.name ++ "_w_rom" = "fc_w_rom" := by decide
  have hweights : HoldsComponent l.weightRom.render .memory "fc_w_rom" := by
    obtain ⟨_, _, rfl, -⟩ := LinearSettings.of_layer hl
    exact hname ▸ .rom _ _ _ _
  have hown : HoldsComponent lines .layer "fc_w_rom" := .silu hlines
  have hsame := hunique _ result _ _ _ _ "fc_w_rom" hvalid hresult
    ((get?_iff_renders hvalid hresult _ _).mpr (.layer hformat hmemory (.linearWeights hl)))
    ((get?_iff_renders hvalid hresult _ _).mpr (.layer hformat hunit (.silu hlines)))
    ((hweights.declares_iff _).mpr rfl) ((hown.declares_iff _).mpr rfl)
  have hroles := hweights.role_eq.symm.trans (hsame ▸ hown.role_eq)
  cases hroles

end Build

end QuantNet
