import QuantNet.Command.Run
import QuantNet.Proofs.BuildFailures
import QuantNet.Proofs.Manifests

/-!
# What failed builds leave behind

All files of a build are made in memory, and only a build that is finished reaches the disk. A build that
fails before that leaves the disk alone. But the finished files are stored one by one, in the order of
their paths, and the disk can refuse any of them: for a folder in its place, for a file in the place of
its folder, for a name that is too long. The files before it have been stored by then, and they stay
(`Command.files_of_failed_build`). Only the manifest of the build before is always kept, because it would
have been replaced last.

The configuration alone can bring this about. A layer has a folder of its name, the network a file of
its name, and nothing keeps a layer from being called like the file of the network
(`Command.not_unchanged_of_failed`).
-/

namespace QuantNet

open Outcome

/-! ### Paths of builds -/

namespace FileSet

/-- All files are source files at checked places. -/
def IsEmitted (files : FileSet) : Prop :=
  ∀ e ∈ files.entries, ∃ place : Place, place ≠ [] ∧ place.IsChecked ∧ e.1 = place.text ++ Emission.extension

theorem isEmitted_empty : IsEmitted Table.empty := List.forall_mem_nil _

theorem IsEmitted.isBelow {files : FileSet} (h : files.IsEmitted) : files.IsBelow := by
  intro e he
  obtain ⟨place, hne, hplace, hpath⟩ := h e he
  rw [hpath]
  exact hplace.isBelow hne (by decide)

/-- No source file has the name of the manifest. -/
theorem IsEmitted.ne_fileName {files : FileSet} (h : files.IsEmitted) {e : String × List String}
    (he : e ∈ files.entries) : e.1 ≠ Manifest.fileName := by
  obtain ⟨place, -, -, hpath⟩ := h e he
  intro hname
  have hlast : (place.text ++ Emission.extension).toList.getLast? = some 'd' := by
    rw [String.toList_append, List.getLast?_append_of_ne_nil _ (by decide)]
    decide
  rw [← hpath, hname] at hlast
  exact absurd hlast (by decide)

end FileSet

namespace Emission

/-- The step names something that can be the name of a file or a folder. -/
def IsNamed : Emission → Prop
  | folder _ name | file _ name _ => isComponent name = true
  | refuse _ => False

/-- A step that is taken names something, and it adds at most the file that it writes. -/
theorem path_of_run {e : Emission} {files written : FileSet} (h : e.run files = .ok written) :
    e.IsNamed ∧ ∀ f ∈ written.entries, f ∈ files.entries ∨
      ∃ parent name lines, e = .file parent name lines ∧ f.1 = pathOf parent name := by
  cases e with
  | folder parent name =>
    unfold run at h
    obtain ⟨place, hplace, rfl⟩ := map_eq_ok_iff.mp h
    exact ⟨(ite_eq_ok_iff.mp (mapError_eq_ok_iff.mp hplace)).1, fun f hf => Or.inl hf⟩
  | file parent name lines =>
    obtain ⟨place, hplace, hwritten⟩ := bind_eq_ok_iff.mp (mapError_eq_ok_iff.mp h)
    obtain ⟨hname, rfl⟩ := ite_eq_ok_iff.mp hplace
    refine ⟨hname, fun f hf => ?_⟩
    rcases FileSet.path_of_mem_write hwritten hf with hf | ⟨-, hpath⟩
    · exact Or.inl hf
    · exact Or.inr ⟨parent, name, lines, rfl, hpath⟩
  | refuse cause => cases h

/-- Steps that are all taken name something each, and they add at most the files that they write. -/
theorem path_of_runAll {es : List Emission} {files written : FileSet} (h : runAll files es = (written, .ok ())) :
    (∀ e ∈ es, e.IsNamed) ∧ ∀ f ∈ written.entries, f ∈ files.entries ∨
      ∃ parent name lines, .file parent name lines ∈ es ∧ f.1 = pathOf parent name := by
  induction es generalizing files with
  | nil =>
    cases h
    exact ⟨List.forall_mem_nil _, fun f hf => Or.inl hf⟩
  | cons e rest ih =>
    rw [runAll] at h
    cases hrun : e.run files with
    | error cause =>
      rw [hrun] at h
      cases h
    | ok next =>
      rw [hrun] at h
      obtain ⟨hnamed, hfirst⟩ := path_of_run hrun
      obtain ⟨hothers, hrest⟩ := ih h
      refine ⟨List.forall_mem_cons.mpr ⟨hnamed, hothers⟩, fun f hf => ?_⟩
      rcases hrest f hf with hf | ⟨parent, name, lines, he, hpath⟩
      · rcases hfirst f hf with hf | ⟨parent, name, lines, he, hpath⟩
        · exact Or.inl hf
        · exact Or.inr ⟨parent, name, lines, he ▸ List.mem_cons_self, hpath⟩
      · exact Or.inr ⟨parent, name, lines, List.mem_cons_of_mem _ he, hpath⟩

/-- Steps that write at checked places emit source files. -/
theorem isEmitted_runAll {es : List Emission} {files written : FileSet} (h : runAll files es = (written, .ok ()))
    (hfiles : files.IsEmitted) (hparents : ∀ parent name lines, .file parent name lines ∈ es → parent.IsChecked) :
    written.IsEmitted := by
  obtain ⟨hnamed, hpaths⟩ := path_of_runAll h
  intro f hf
  rcases hpaths f hf with hf | ⟨parent, name, lines, he, hpath⟩
  · exact hfiles f hf
  · refine ⟨parent ++ [name], by simp, ?_, hpath⟩
    exact List.forall_mem_append.mpr ⟨hparents parent name lines he, List.forall_mem_singleton.mpr (hnamed _ he)⟩

theorem runAll_cons {e : Emission} {files written : FileSet} (h : e.run files = .ok written) (rest : List Emission) :
    runAll files (e :: rest) = runAll written rest := by
  rw [runAll, h]

theorem run_folder {parent : Place} {name : String} (hname : isComponent name = true) (files : FileSet) :
    (folder parent name).run files = .ok files := by
  rw [run, Place.sub, if_pos hname]
  rfl

theorem run_file {parent : Place} {name : String} {lines : List String} {files : FileSet}
    (hname : isComponent name = true) (hnew : files.get? (pathOf parent name) = none) :
    (file parent name lines).run files = .ok (files.insert (pathOf parent name) lines) := by
  rw [run, Place.sub, if_pos hname]
  change (files.write (parent ++ [name]) extension lines).mapError DesignError.output = _
  rw [FileSet.write, if_neg (by simp)]
  dsimp only
  rw [show files.get? (Place.text (parent ++ [name]) ++ extension) = none from hnew]
  rfl

/-- A step that writes a file writes it right here. -/
def IsFlat : Emission → Prop
  | file parent _ _ => parent = []
  | _ => True

end Emission

theorem Design.isFlat_emit (name : String) (text : Except OutputError (List String)) :
    ∀ e ∈ [emit name text], e.IsFlat := by
  refine List.forall_mem_singleton.mpr ?_
  cases text with
  | ok lines => rfl
  | error cause => trivial

theorem Rom.isFlat (r : Rom) : ∀ e ∈ r.design.emissions, e.IsFlat := List.forall_mem_singleton.mpr rfl

/-- The component of a layer writes its files side by side. -/
theorem LayerSettings.isFlat_of_design {f : QFormat} {style : String} {layer : LayerSettings} {d : Design}
    (h : layer.design f style = .ok d) : ∀ e ∈ d.emissions, e.IsFlat := by
  cases layer with
  | linear s =>
    obtain ⟨l, -, rfl⟩ := map_eq_ok_iff.mp h
    rw [Linear.design, List.forall_mem_append, List.forall_mem_append]
    exact ⟨⟨Design.isFlat_emit _ _, l.weightRom.isFlat⟩, l.biasRom.isFlat⟩
  | conv1d s =>
    obtain ⟨l, -, rfl⟩ := map_eq_ok_iff.mp h
    rw [Conv1d.design, List.forall_mem_append, List.forall_mem_append, List.forall_mem_append]
    exact ⟨⟨⟨Design.isFlat_emit _ _, l.weightRom.isFlat⟩, l.biasRom.isFlat⟩, Design.isFlat_emit _ _⟩
  | hardSigmoid name =>
    cases h
    exact Design.isFlat_emit _ _
  | silu name =>
    cases h
    exact Design.isFlat_emit _ _
  | flatten name =>
    cases h
    exact List.forall_mem_nil _

/-- A network writes its components into folders of their names, and itself beside them. -/
theorem Sequential.isChecked_of_mem {s : Sequential} (hflat : ∀ d ∈ s.designs, ∀ e ∈ d.emissions, e.IsFlat)
    (hnamed : ∀ e ∈ s.emissions, e.IsNamed) {parent : Place} {name : String} {lines : List String}
    (h : .file parent name lines ∈ s.emissions) : parent.IsChecked := by
  unfold emissions at h hnamed
  cases hrender : s.render with
  | error cause =>
    rw [hrender] at h
    exact absurd (List.mem_singleton.mp h) (by simp)
  | ok own =>
    rw [hrender] at h hnamed
    rcases List.mem_append.mp h with h | h
    · obtain ⟨d, hd, h⟩ := List.mem_flatMap.mp h
      have hfolder : .folder [] d.name ∈ s.designs.flatMap inFolder := List.mem_flatMap.mpr ⟨d, hd, List.mem_cons_self⟩
      rcases List.mem_cons.mp h with h | h
      · cases h
      · obtain ⟨e, he, hbelow⟩ := List.mem_map.mp h
        cases e with
        | folder parent' n => cases hbelow
        | refuse cause => cases hbelow
        | file parent' n ls =>
          cases hbelow
          rw [show parent' = [] from hflat d hd _ he]
          exact List.forall_mem_singleton.mpr (hnamed _ (List.mem_append_left _ hfolder))
    · cases List.mem_singleton.mp h
      exact List.forall_mem_nil _

/-- A network that is not strict is always wired. -/
theorem Sequential.exists_connections {s : Sequential} (hstrict : s.strict = false) :
    ∃ connections, s.connections = .ok connections := by
  rw [connections, Wiring.connect]
  cases hlinks : Wiring.connectFrom s.strict [] s.nodes with
  | ok links => exact ⟨_, rfl⟩
  | error cause =>
    have hon := (Wiring.failsOnly_connectFrom [] s.nodes cause hlinks).1
    rw [hstrict] at hon
    cases hon

namespace Build

variable {c : Config}

theorem emit_eq_ok_iff {files written : FileSet} {es : List Emission} :
    emit files es = .ok written ↔ Emission.runAll files es = (written, .ok ()) := by
  unfold emit
  split
  · rename_i left hrun
    rw [hrun]
    simp
  · rename_i left cause hrun
    rw [hrun]
    simp [Checked.refuse]

/-- A component that is written right at the root emits source files. -/
theorem isEmitted_of_flat {files written : FileSet} {es : List Emission} (h : emit files es = .ok written)
    (hfiles : files.IsEmitted) (hflat : ∀ e ∈ es, e.IsFlat) : written.IsEmitted := by
  refine Emission.isEmitted_runAll (emit_eq_ok_iff.mp h) hfiles fun parent name lines he => ?_
  rw [show parent = [] from hflat _ he]
  exact List.forall_mem_nil _

/-- The build of a valid configuration emits source files. -/
theorem isEmitted_of_ofConfig {result : Build} (hvalid : c.validate = .ok ()) (h : ofConfig c = .ok result) :
    result.files.IsEmitted := by
  obtain ⟨network, hnetwork, h⟩ := bind_eq_ok_iff.mp h
  obtain ⟨connections, -, h⟩ := bind_eq_ok_iff.mp h
  obtain ⟨written, hwritten, h⟩ := bind_eq_ok_iff.mp h
  obtain ⟨wrapped, hwrapped, h⟩ := bind_eq_ok_iff.mp h
  obtain ⟨tested, htested, h⟩ := bind_eq_ok_iff.mp h
  cases h
  obtain ⟨f, designs, -, hdesigns, rfl⟩ := Config.of_sequential hvalid (within_eq_ok_iff.mp hnetwork)
  have hflat : ∀ d ∈ designs, ∀ e ∈ d.emissions, e.IsFlat := by
    intro d hd
    obtain ⟨layer, -, hlayer⟩ := exists_left_of_mem (mapM_eq_ok_iff.mp hdesigns) hd
    exact LayerSettings.isFlat_of_design hlayer
  have hnet : written.IsEmitted := by
    have hrun := emit_eq_ok_iff.mp hwritten
    refine Emission.isEmitted_runAll hrun FileSet.isEmitted_empty fun parent name lines he => ?_
    exact Sequential.isChecked_of_mem hflat (Emission.path_of_runAll hrun).1 he
  have hwrap : wrapped.IsEmitted := by
    obtain ⟨found, -, hfound⟩ := bind_eq_ok_iff.mp hwrapped
    cases found with
    | none =>
      cases hfound
      exact hnet
    | some skeleton => exact isEmitted_of_flat hfound hnet (Design.isFlat_emit _ _)
  unfold emitTestbench at htested
  cases htestbench : c.testbench with
  | none =>
    rw [htestbench] at htested
    cases htested
    exact hwrap
  | some settings =>
    rw [htestbench] at htested
    obtain ⟨made, -, htested⟩ := bind_eq_ok_iff.mp htested
    obtain ⟨testbench, -, htested⟩ := bind_eq_ok_iff.mp htested
    exact isEmitted_of_flat htested hwrap (Design.isFlat_emit _ _)

end Build

/-! ### Builds on disks -/

namespace Command

section Disks

variable {c : Config} (quiet verbose : Bool) (out : Option String) (path : String) (d : Disk)

/-- A build that has no result leaves the disk alone. -/
theorem onDisk_of_unfinished (h : ∀ result, Build.ofConfig c ≠ .ok result) :
    ((buildConfig quiet verbose out path c).onDisk d).1 = d := by
  unfold buildConfig
  cases c.format with
  | error cause => rfl
  | ok f =>
    cases hbuild : Build.ofConfig c with
    | error failure => rfl
    | ok result => exact absurd hbuild (h result)

/-- A build that has a result stores its files, and it fails exactly if the disk refuses them. -/
theorem onDisk_of_finished {f : QFormat} {result : Build} (hformat : c.format = .ok f)
    (h : Build.ofConfig c = .ok result) {d' : Disk} {outcome : Except OutputError Manifest}
    (hflush : result.files.flush d (c.outputDirectory ((Path.parent? path).getD ".") out) version = (d', outcome)) :
    ((buildConfig quiet verbose out path c).onDisk d).1 = d' ∧
      ((buildConfig quiet verbose out path c).onDisk d).2.exit = if outcome.isOk then .success else .failure := by
  simp only [buildConfig, hformat, h, install, Action.onDisk, hflush]
  cases outcome with
  | error cause => exact ⟨rfl, rfl⟩
  | ok manifest => exact ⟨rfl, rfl⟩

end Disks

/-! ### A layer in the way of its network -/

/-- A configuration with a layer that is called like the file of the network. -/
def clashing : Config where
  network := ⟨"net", 8, 4, false⟩
  layers := [.silu "net.vhd"]
  skeleton := none
  testbench := none
  output := .standard

theorem validate_clashing : clashing.validate = .ok () := by decide

/-- The steps that write the network: its one layer in a folder, and its own file. -/
theorem exists_emissions_clashing : ∃ network connections outer inner, clashing.sequential = .ok network ∧
    network.connections = .ok connections ∧ network.design.emissions =
      [.folder [] "net.vhd", .file ["net.vhd"] "net.vhd" inner, .file [] "net" outer] := by
  obtain ⟨f, hformat⟩ := (Config.of_validate validate_clashing).2.1
  obtain ⟨inner, hinner⟩ := (Silu.mk "net.vhd" f).render_parameters
  have hlayer : LayerSettings.design f clashing.output.romStyle (.silu "net.vhd") =
      .ok ⟨"net.vhd", Activation.port f, [.file [] "net.vhd" inner]⟩ := by
    rw [LayerSettings.design, Silu.design, hinner, Design.emit]
  have hdesigns : clashing.layers.mapM (LayerSettings.design f clashing.output.romStyle) =
      .ok [⟨"net.vhd", Activation.port f, [.file [] "net.vhd" inner]⟩] := by
    rw [show clashing.layers = [.silu "net.vhd"] from rfl, List.mapM_cons, hlayer]
    rfl
  have hnetwork := Config.sequential_eq_ok validate_clashing hformat hdesigns
  obtain ⟨connections, hwired⟩ := Sequential.exists_connections (s := ⟨"net", _, _, false⟩) rfl
  obtain ⟨outer, houter⟩ := Sequential.exists_emissions hwired
  exact ⟨_, connections, outer, inner, hnetwork, hwired, houter⟩

/-- Its build has two files, one of them in the place of the folder of the other. -/
theorem exists_files_clashing : ∃ result outer inner, Build.ofConfig clashing = .ok result ∧
    result.files.entries = [("net.vhd", outer), ("net.vhd/net.vhd.vhd", inner)] := by
  obtain ⟨network, connections, outer, inner, hnetwork, hwired, hemissions⟩ := exists_emissions_clashing
  have hinner : Emission.pathOf ["net.vhd"] "net.vhd" = "net.vhd/net.vhd.vhd" := by decide
  have houter : Emission.pathOf [] "net" = "net.vhd" := by decide
  have hdiffer : "net.vhd" ≠ "net.vhd/net.vhd.vhd" := by decide
  have hrun : Emission.runAll Table.empty network.design.emissions =
      ((Table.empty.insert "net.vhd/net.vhd.vhd" inner).insert "net.vhd" outer, .ok ()) := by
    have hname : isComponent "net.vhd" = true := by decide
    have hnet : isComponent "net" = true := by decide
    rw [hemissions, Emission.runAll_cons (Emission.run_folder hname _),
      Emission.runAll_cons (Emission.run_file hname rfl), hinner, Emission.runAll_cons (Emission.run_file hnet ?_), houter]
    · rfl
    · rw [houter, Table.get?_insert, if_neg hdiffer]
      rfl
  refine ⟨⟨clashing, (Table.empty.insert "net.vhd/net.vhd.vhd" inner).insert "net.vhd" outer, connections⟩, outer, inner,
    ?_, ?_⟩
  · rw [Build.ofConfig, hnetwork, within_ok, ok_bind, hwired, lift_ok, ok_bind, Build.emit_eq_ok_iff.mpr hrun, ok_bind]
    rfl
  · have hbefore : "net.vhd" < "net.vhd/net.vhd.vhd" := by decide
    simp [Table.insert, Table.empty, Table.insertEntry, hbefore]

/-- No disk takes its files, but the file of the network is stored unless it is refused itself. -/
theorem exists_flush_clashing {d : Disk} (hrooted : d.IsRooted) (dir : String) :
    ∃ result left cause, Build.ofConfig clashing = .ok result ∧ result.files.flush d dir version = (left, .error cause) ∧
      ((∀ text, (d.store (Path.join dir "net.vhd") text).2 = .ok ()) → left.isFile (Path.join dir "net.vhd") = true) := by
  obtain ⟨result, outer, inner, hresult, hentries⟩ := exists_files_clashing
  have hbelow := (Build.isEmitted_of_ofConfig validate_clashing hresult).isBelow
  cases hflush : result.files.flush d dir version with
  | mk left flushed =>
    cases flushed with
    | ok manifest =>
      have hfile : ("net.vhd", outer) ∈ result.files.entries := by simp [hentries]
      have hinside : ("net.vhd" ++ "/" ++ "net.vhd.vhd", inner) ∈ result.files.entries := by simp [hentries]
      exact absurd hflush (hbelow.flush_ne_ok hrooted hfile hinside)
    | error cause =>
      refine ⟨result, left, cause, hresult, hflush, fun hstore => ?_⟩
      obtain ⟨stored, rest, -, hstored, hfirst⟩ := hbelow.stored_of_flush_error hrooted hflush
      have hmem : ("net.vhd", outer) ∈ stored := hfirst ("net.vhd", outer) (by rw [hentries]; rfl) (hstore _)
      have htext := hstored.text ("net.vhd", Text.ofLines outer) (List.mem_map_of_mem hmem)
      exact Disk.isFile_iff.mpr ⟨Text.ofLines outer, htext⟩

/-- A file in a new folder of an empty disk can be stored. -/
theorem store_empty (text : String) : (Disk.empty.store "out/net.vhd" text).2 = .ok () := by
  have hmakes : (Disk.empty.makeFolders (Path.parent "out/net.vhd")).2 = .ok () := by decide
  have hlocate : (Disk.empty.makeFolders (Path.parent "out/net.vhd")).1.locate "out/net.vhd" =
      .ok ["out", "net.vhd"] := by decide
  have hnone : ((Disk.empty.makeFolders (Path.parent "out/net.vhd")).1.tree.get? ["out", "net.vhd"]).isNone = true := by
    decide
  have hname : Path.namesDirectory "out/net.vhd" = false := by decide
  cases hmade : Disk.empty.makeFolders (Path.parent "out/net.vhd") with
  | mk made outcome =>
    rw [hmade] at hmakes hlocate hnone
    have hwritten : made.putText "out/net.vhd" text = .ok (made.putFile ["out", "net.vhd"] text) := by
      refine Disk.putText_eq_ok.mpr ⟨_, hlocate, hname, fun contents hfolder => ?_, rfl⟩
      rw [hfolder] at hnone
      cases hnone
    obtain rfl : outcome = .ok () := hmakes
    rw [Disk.store, hmade]
    simp only [hwritten]

/-- On an empty disk the build fails, and the file of the network is there afterwards. -/
theorem fails_clashing :
    ((buildConfig true false (some "out") "kiln.toml" clashing).onDisk Disk.empty).2.exit = .failure ∧
      ((buildConfig true false (some "out") "kiln.toml" clashing).onDisk Disk.empty).1.isFile "out/net.vhd" = true := by
  have hjoin : Path.join "out" "net.vhd" = "out/net.vhd" := by decide
  obtain ⟨f, hformat⟩ := (Config.of_validate validate_clashing).2.1
  obtain ⟨result, left, cause, hresult, hflush, hfile⟩ := exists_flush_clashing (d := Disk.empty) ⟨[], rfl⟩ "out"
  rw [hjoin] at hfile
  obtain ⟨hleft, hexit⟩ := onDisk_of_finished true false (some "out") "kiln.toml" Disk.empty hformat hresult hflush
  refine ⟨hexit, ?_⟩
  rw [hleft]
  exact hfile store_empty

/-! ### Failed builds -/

/-- **What a failed build leaves behind.** If the build of a valid configuration fails, then either it has no
result, and the disk is as it was, or the files of its result that come first in the order of their paths
are stored and no others: each of them is read back, and at every other place, that of the manifest
included, the disk holds the text that it held before, if any. So the files are as they were exactly if
each of the stored ones was there with its text. -/
theorem files_of_failed_build {c : Config} {quiet verbose : Bool} {out : Option String} {path directory : String}
    {d d' : Disk} {outcome : Outcome} (hvalid : c.validate = .ok ()) (hrooted : d.IsRooted)
    (hdirectory : c.outputDirectory ((Path.parent? path).getD ".") out = directory)
    (hrun : (buildConfig quiet verbose out path c).onDisk d = (d', outcome)) (hfailed : outcome.exit ≠ .success) :
    ((∀ result, Build.ofConfig c ≠ .ok result) → d' = d) ∧
    ∀ result, Build.ofConfig c = .ok result →
      ∃ stored rest, result.files.entries = stored ++ rest ∧
        (∀ e ∈ stored, d'.textOf (Path.join directory e.1) = .ok (Text.ofLines e.2)) ∧
        (∀ place, (∀ e ∈ stored, d'.locate (Path.join directory e.1) ≠ .ok place) →
          d'.tree.text? place = d.tree.text? place) ∧
        (∀ place, d'.locate (Path.join directory Manifest.fileName) = .ok place →
          d'.tree.text? place = d.tree.text? place) ∧
        (d'.tree.text? = d.tree.text? ↔ ∀ e ∈ stored, ∀ place,
          d'.locate (Path.join directory e.1) = .ok place → d.tree.text? place = some (Text.ofLines e.2)) := by
  subst hdirectory
  constructor
  · intro hnone
    have hdisk := onDisk_of_unfinished quiet verbose out path d hnone
    rwa [hrun] at hdisk
  intro result hresult
  obtain ⟨f, hformat⟩ := (Config.of_validate hvalid).2.1
  have hemitted := Build.isEmitted_of_ofConfig hvalid hresult
  cases hflush : result.files.flush d (c.outputDirectory ((Path.parent? path).getD ".") out) version with
  | mk left flushed =>
    obtain ⟨hleft, hexit⟩ := onDisk_of_finished quiet verbose out path d hformat hresult hflush
    rw [hrun] at hleft hexit
    subst hleft
    cases flushed with
    | ok manifest => exact absurd hexit hfailed
    | error cause =>
      obtain ⟨stored, rest, hentries, hstored, -⟩ := hemitted.isBelow.stored_of_flush_error hrooted hflush
      have hothers : ∀ place, (∀ e ∈ stored, d'.locate (Path.join _ e.1) ≠ .ok place) →
          d'.tree.text? place = d.tree.text? place := fun place hplace =>
        hstored.others place (List.forall_mem_map.mpr hplace)
      refine ⟨stored, rest, hentries, List.forall_mem_map.mp hstored.text, hothers, fun place hplace => ?_, ?_⟩
      · refine hothers place fun e he hlocate => ?_
        have hentry : e ∈ result.files.entries := hentries ▸ List.mem_append_left rest he
        exact hemitted.ne_fileName hentry (Disk.locate_join_injective (hemitted.isBelow e hentry)
          Manifest.isBelow_fileName hlocate hplace)
      · rw [hstored.text?_eq_iff]
        exact List.forall_mem_map

/-- The build with a layer in the way of its network has stored some of its files when it fails. -/
theorem files_of_clashing_build : ∃ result d' outcome, Build.ofConfig clashing = .ok result ∧
    (buildConfig true false (some "out") "kiln.toml" clashing).onDisk Disk.empty = (d', outcome) ∧
    outcome.exit ≠ .success ∧ ∃ stored rest, result.files.entries = stored ++ rest ∧ stored ≠ [] ∧
      ∀ e ∈ stored, d'.textOf (Path.join "out" e.1) = .ok (Text.ofLines e.2) := by
  have hrooted : Disk.empty.IsRooted := ⟨[], rfl⟩
  have hdirectory : clashing.outputDirectory ((Path.parent? "kiln.toml").getD ".") (some "out") = "out" := rfl
  obtain ⟨hexit, hfile⟩ := fails_clashing
  obtain ⟨result, outer, inner, hresult, -⟩ := exists_files_clashing
  cases hrun : (buildConfig true false (some "out") "kiln.toml" clashing).onDisk Disk.empty with
  | mk d' outcome =>
    rw [hrun] at hexit hfile
    have hfailed : outcome.exit ≠ .success := by
      rw [show outcome.exit = .failure from hexit]
      decide
    obtain ⟨stored, rest, hentries, htexts, -, -, hsame⟩ :=
      (files_of_failed_build validate_clashing hrooted hdirectory hrun hfailed).2 result hresult
    refine ⟨result, d', outcome, hresult, rfl, hfailed, stored, rest, hentries, ?_, htexts⟩
    rintro rfl
    obtain ⟨text, htext⟩ := Disk.isFile_iff.mp hfile
    obtain ⟨place, -, hplace⟩ := Disk.text?_of_textOf htext
    rw [hsame.mpr (List.forall_mem_nil _)] at hplace
    exact absurd ((Tree.text?_empty place).symm.trans hplace) (by simp)

/-- A failed build leaves a file where there was none: no folder can be made for the layer, because by then
the file of the network has been stored under its name. -/
theorem not_unchanged_of_failed :
    clashing.validate = .ok () ∧
    ((buildConfig true false (some "out") "kiln.toml" clashing).onDisk Disk.empty).2.exit = .failure ∧
    Disk.empty.isFile "out/net.vhd" = false ∧
    ((buildConfig true false (some "out") "kiln.toml" clashing).onDisk Disk.empty).1.isFile "out/net.vhd" = true :=
  ⟨validate_clashing, fails_clashing.1, by decide +kernel, fails_clashing.2⟩

end Command

end QuantNet
