import QuantNet.Proofs.FreePlaces
import QuantNet.Proofs.Manifests
import QuantNet.Proofs.WriteOnce

/-!
# Sessions on a disk

The same requests can be made of an output in memory, which is stored afterwards, and of a disk directly. The two
differ in much on the way. A disk makes the folders of a file when the file is written, in the order of the requests,
and writes a file again that is there already; an output in memory takes a file twice only with the same lines, and is
stored in the order of the paths. In the end both have left the same files (`Session.disk_session_eq_flush`).

The path of a file on the disk is made by joining the names of its place to the directory one after the other, and in
memory by writing slashes between them. As every name was checked when its place was opened, both are one path below
the directory (`Place.IsChecked.filePath_eq`).

The relation that every request keeps is `Session.Persists`: both sessions know the same places, and the disk is the
one from before with the files of the output in memory stored below the directory. That no request is refused on the
disk needs to look ahead. A file could be written where a later one needs a folder; so the relation also says that
the directory holds nothing but files that the whole run will have, and folders above them, and these fit together.
-/

namespace QuantNet

/-! ### Paths -/

/-- The names of a checked place are joined one after the other to the path that the text of the place has. -/
theorem Place.IsChecked.filePath_eq {place : Place} (h : place.IsChecked) (hne : place ≠ []) (root extension : String) :
    Disk.filePath root place extension = Path.join root place.text ++ extension := by
  have hplain : ∀ name ∈ place, Path.IsPlain name := fun name hname => (isComponent_iff.mp (h name hname)).1.1
  rw [Disk.filePath, text, Text.fields_intercalate rfl hne fun name hname => (hplain name hname).2.2,
    Path.foldl_join hne hplain]

/-! ### File sets -/

namespace Manifest

variable {d : Disk} {dir : String} {base : List String}

theorem fields_fileName : Text.fields '/' fileName = [fileName] := Text.fields_eq_singleton (by decide)

/-- A manifest can be stored in a directory in which no folder has its name. -/
theorem save_eq_ok (hdir : d.IsDirectory dir base) (haccepts : Disk.Accepts dir fileName)
    (hfolder : ¬ d.tree.IsFolder (base ++ Text.fields '/' fileName)) (m : Manifest) : (m.save d dir).2 = .ok () := by
  obtain ⟨made, hmade, hmadeDir, hfolders⟩ :=
    hdir.exists_makeFolders (Path.check_of_join isBelow_fileName.isAbsolute haccepts.check)
  have hwalk : made.tree.walk base (Text.fields '/' fileName).dropLast =
      .ok (base ++ (Text.fields '/' fileName).dropLast) := by
    rw [fields_fileName, List.dropLast_singleton, List.append_nil, Tree.walk]
  have hput := Disk.putText_of_walk hmadeDir isBelow_fileName haccepts hwalk (fun h => hfolder (hfolders _ h))
    m.toJson.pretty
  simp only [save, hmade, hput]

end Manifest

namespace FileSet

variable {d d' : Disk} {dir : String} {base : List String} {files : FileSet}

theorem mem_texts_iff {f : String × String} :
    f ∈ texts files.entries ↔ ∃ lines, files.get? f.1 = some lines ∧ Text.ofLines lines = f.2 := by
  obtain ⟨path, text⟩ := f
  simp only [texts, List.mem_map, Prod.exists, Prod.mk.injEq, Table.get?_eq_some_iff]
  constructor
  · rintro ⟨_, lines, hmem, rfl, htext⟩
    exact ⟨lines, hmem, htext⟩
  · rintro ⟨lines, hmem, htext⟩
    exact ⟨path, lines, hmem, rfl, htext⟩

theorem mem_texts_of_write {written : FileSet} {place : Place} {extension : String} {lines : List String}
    (h : files.write place extension lines = .ok written) (f : String × String) :
    f ∈ texts written.entries ↔ f ∈ texts files.entries ∨ f = (place.text ++ extension, Text.ofLines lines) := by
  obtain ⟨path, text⟩ := f
  simp only [mem_texts_iff, get?_of_write h, Prod.mk.injEq]
  constructor
  · rintro ⟨others, hbefore | ⟨hpath, rfl⟩, htext⟩
    · exact Or.inl ⟨others, hbefore, htext⟩
    · exact Or.inr ⟨hpath, htext.symm⟩
  · rintro (⟨others, hbefore, htext⟩ | ⟨hpath, htext⟩)
    · exact ⟨others, Or.inl hbefore, htext⟩
    · exact ⟨lines, Or.inr ⟨hpath, rfl⟩, htext.symm⟩

/-- Files that fit together can be stored one after the other. -/
theorem exists_storeAll {paths : List String} (hfits : Disk.Fits dir paths) (hdir : d.IsDirectory dir base)
    (hholds : d.HoldsOnly base paths) {entries : List (String × List String)} (hentries : ∀ e ∈ entries, e.1 ∈ paths) :
    ∃ written, storeAll dir d entries = (written, .ok ()) ∧ written.IsDirectory dir base ∧
      written.HoldsOnly base paths := by
  induction entries generalizing d with
  | nil => exact ⟨d, rfl, hdir, hholds⟩
  | cons e entries ih =>
    obtain ⟨hfirst, hrest⟩ := List.forall_mem_cons.mp hentries
    obtain ⟨written, hwritten, hstored, hstill⟩ := hholds.exists_store hfits hdir hfirst (Text.ofLines e.2)
    rw [storeAll_cons, hwritten]
    exact ih (hdir.of_kept hstored.kept) hstill hrest

/-- A file set that fits together with its manifest can be stored in an empty directory. -/
theorem exists_flush (hfits : Disk.Fits dir (Manifest.fileName :: files.keys))
    (hdir : d.IsDirectory dir base) (hempty : d.tree.get? base = some Tree.empty) (version : String) :
    ∃ written, files.flush d dir version = (written, .ok (Manifest.ofFiles files version)) := by
  have hname : Manifest.fileName ∈ Manifest.fileName :: files.keys := List.mem_cons_self
  obtain ⟨stored, hstored, hstoredDir, hholds⟩ := exists_storeAll hfits hdir (Disk.holdsOnly_of_empty hempty _)
    fun e he => List.mem_cons_of_mem Manifest.fileName (List.mem_map_of_mem he)
  have hsave := Manifest.save_eq_ok hstoredDir (hfits.accepts _ hname) (hholds.not_isFolder hfits hname)
    (Manifest.ofFiles files version)
  refine ⟨((Manifest.ofFiles files version).save stored dir).1, ?_⟩
  simp only [flush, hstored, hsave]
  rfl

end FileSet

/-! ### What an empty directory holds afterwards -/

namespace Disk

/-- The directory is an empty folder of the disk, at a place. -/
structure IsEmptyDirectory (d : Disk) (dir : String) (base : List String) : Prop extends d.IsDirectory dir base where
  empty : d.tree.get? base = some Tree.empty

variable {d d' : Disk} {dir : String} {base : List String} {files : List (String × String)}

/-- Paths that lead down fit together if none of them, with a slash behind it, is how another one starts. -/
theorem fits_of_not_starts {paths : List String} (hbelow : ∀ path ∈ paths, Path.IsBelow path)
    (haccepts : ∀ path ∈ paths, Accepts dir path)
    (hfree : ∀ path ∈ paths, ∀ other ∈ paths, ¬ (path ++ "/").toList <+: other.toList) : Fits dir paths := by
  refine ⟨hbelow, haccepts, fun path hpath other hother hstarts => ?_⟩
  have hslash : "/".toList = ['/'] := rfl
  obtain ⟨more, hmore⟩ := hstarts
  have hwhole := Text.intercalate_fields hslash other
  rw [← hmore] at hwhole
  by_cases hnone : more = []
  · rw [hnone, List.append_nil, Text.intercalate_fields hslash] at hwhole
    exact hwhole
  · rw [String.intercalate_append_of_ne_nil (Text.fields_ne_nil '/' path) hnone,
      Text.intercalate_fields hslash] at hwhole
    refine absurd ?_ (hfree path hpath other hother)
    rw [← hwhole]
    exact ⟨("/".intercalate more).toList, String.toList_append.symm⟩

/-- A directory that was empty holds the files that were stored and no other. -/
theorem Stored.text?_eq_some_iff (hdir : d.IsEmptyDirectory dir base) (h : Stored dir d d' files)
    (hbelow : ∀ f ∈ files, Path.IsBelow f.1) {names : List String} {text : String} :
    d'.tree.text? (base ++ names) = some text ↔ ∃ f ∈ files, Text.fields '/' f.1 = names ∧ f.2 = text := by
  have hdir' := hdir.toIsDirectory.of_kept h.kept
  have hread : ∀ f ∈ files, d'.tree.text? (base ++ Text.fields '/' f.1) = some f.2 := by
    intro f hf
    obtain ⟨place, hlocate, htext⟩ := text?_of_textOf (h.text f hf)
    rw [← hdir'.eq_of_locate (hbelow f hf) hlocate]
    exact htext
  constructor
  · intro htext
    by_contra hnone
    have hother : ∀ f ∈ files, d'.locate (Path.join dir f.1) ≠ .ok (base ++ names) := by
      intro f hf hlocate
      have hnames := List.append_cancel_left (hdir'.eq_of_locate (hbelow f hf) hlocate)
      have htext' := hread f hf
      rw [← hnames, htext] at htext'
      exact hnone ⟨f, hf, hnames.symm, (Option.some.inj htext').symm⟩
    rw [h.others _ hother, Tree.text?_append, hdir.empty, Option.bind_some, Tree.text?_empty] at htext
    cases htext
  · rintro ⟨f, hf, rfl, rfl⟩
    exact hread f hf

/-- A directory that was empty holds the files of a set that was stored, line by line. -/
theorem Stored.text?_eq_some_iff_get? {files : FileSet} (hdir : d.IsEmptyDirectory dir base)
    (h : Stored dir d d' (FileSet.texts files.entries)) (hbelow : files.IsBelow) {names : List String} {text : String} :
    d'.tree.text? (base ++ names) = some text ↔
      ∃ path lines, files.get? path = some lines ∧ Text.fields '/' path = names ∧ Text.ofLines lines = text := by
  rw [h.text?_eq_some_iff hdir (List.forall_mem_map.mpr hbelow)]
  constructor
  · rintro ⟨⟨path, text⟩, hf, hnames, rfl⟩
    obtain ⟨lines, hlines, htext⟩ := FileSet.mem_texts_iff.mp hf
    exact ⟨path, lines, hlines, hnames, htext⟩
  · rintro ⟨path, lines, hlines, hnames, htext⟩
    exact ⟨(path, text), FileSet.mem_texts_iff.mpr ⟨lines, hlines, htext⟩, hnames, rfl⟩

/-- Two directories that were empty hold the same, if one of them has a manifest besides. -/
theorem Stored.text?_eq_ite {files : FileSet} (hdir : d.IsEmptyDirectory dir base)
    (h : Stored dir d d' (FileSet.texts files.entries)) (hbelow : files.IsBelow)
    (hmanifest : files.get? Manifest.fileName = none) {e e' : Disk} {dir' : String} {base' : List String}
    {manifest : String} (hdir' : e.IsEmptyDirectory dir' base')
    (h' : Stored dir' e e' (FileSet.texts files.entries ++ [(Manifest.fileName, manifest)])) (names : List String) :
    d'.tree.text? (base ++ names) =
      if names = [Manifest.fileName] then none else e'.tree.text? (base' ++ names) := by
  have htexts : ∀ f ∈ FileSet.texts files.entries, Path.IsBelow f.1 := List.forall_mem_map.mpr hbelow
  split_ifs with hnames
  · refine Option.eq_none_iff_forall_ne_some.mpr fun text htext => ?_
    obtain ⟨path, lines, hlines, hpath, -⟩ := (h.text?_eq_some_iff_get? hdir hbelow).mp htext
    have hslash : "/".toList = ['/'] := rfl
    have hsame : path = Manifest.fileName := by
      rw [← Text.intercalate_fields hslash path, hpath, hnames, String.intercalate_singleton]
    rw [hsame, hmanifest] at hlines
    cases hlines
  · refine Option.ext fun text => ?_
    have hbelow' : ∀ f ∈ FileSet.texts files.entries ++ [(Manifest.fileName, manifest)], Path.IsBelow f.1 :=
      List.forall_mem_append.mpr ⟨htexts, List.forall_mem_singleton.mpr Manifest.isBelow_fileName⟩
    rw [h.text?_eq_some_iff hdir htexts, h'.text?_eq_some_iff hdir' hbelow']
    constructor
    · rintro ⟨f, hf, hrest⟩
      exact ⟨f, List.mem_append_left _ hf, hrest⟩
    · rintro ⟨f, hf, hpath, htext⟩
      rcases List.mem_append.mp hf with hf | hf
      · exact ⟨f, hf, hpath, htext⟩
      · rw [List.mem_singleton.mp hf, Manifest.fields_fileName] at hpath
        exact absurd hpath.symm hnames

end Disk

/-! ### The simulation -/

namespace Session

/-- No request is refused. -/
def Succeeds {σ : Type} (store : Store σ) : Session σ → List Request → Prop
  | _, [] => True
  | s, r :: rest => (s.step store r).2 = .ok () ∧ (s.step store r).1.Succeeds store rest

/-- A session on a disk persists what a session in memory holds: they know the same places, all of them checked, and
the files are stored below a directory of the disk, which holds none but those of the paths. -/
structure Persists (d : Disk) (dir : String) (base paths : List String) (s : Session FileSet) (onDisk : Session Disk) :
    Prop where
  places : onDisk.places = s.places
  checked : ∀ place ∈ s.places, place.IsChecked
  stored : Disk.Stored dir d onDisk.target (FileSet.texts s.target.entries)
  holds : onDisk.target.HoldsOnly base paths

variable {d : Disk} {dir : String} {base paths : List String} {s : Session FileSet} {onDisk : Session Disk}

theorem Persists.place (h : Persists d dir base paths s onDisk) (handle : Nat) :
    onDisk.place handle = s.place handle := by
  rw [Session.place, Session.place, h.places]

theorem persists_start (hdir : d.IsEmptyDirectory dir base) (paths : List String) :
    Persists d dir base paths (start Table.empty) (start d) :=
  ⟨rfl, isBelow_start.places, Disk.stored_nil (Disk.Kept.refl d) rfl, Disk.holdsOnly_of_empty hdir.empty paths⟩

section Steps

variable (hfits : Disk.Fits dir paths) (hdir : d.IsDirectory dir base)
include hfits hdir

/-- A file that is written in memory is written on the disk. -/
theorem Persists.write (h : Persists d dir base paths s onDisk) {handle : Nat} {extension : String}
    {lines : List String} {written : FileSet} (hwritten : s.target.write (s.place handle) extension lines = .ok written)
    (hpaths : ∀ path lines, written.get? path = some lines → path ∈ paths) :
    ∃ d', onDisk.step (Store.disk dir) (.write handle extension lines) = (⟨onDisk.places, d'⟩, .ok ()) ∧
      Persists d dir base paths ⟨s.places, written⟩ ⟨onDisk.places, d'⟩ := by
  obtain ⟨hne, hagree, -⟩ := FileSet.write_eq_ok_iff.mp hwritten
  have hthere := FileSet.get?_of_write hwritten
  have hpath : (s.place handle).text ++ extension ∈ paths :=
    hpaths _ lines ((hthere _ lines).mpr (Or.inr ⟨rfl, rfl⟩))
  obtain ⟨d', hd', hstored, hholds⟩ :=
    h.holds.exists_store hfits (hdir.of_kept h.stored.kept) hpath (Text.ofLines lines)
  have hstep : onDisk.target.write dir (s.place handle) extension lines = (d', .ok ()) := by
    rw [Disk.write, if_neg hne, (isChecked_place h.checked handle).filePath_eq hne,
      Path.join_append (hfits.below _ hpath).isAbsolute, hd']
  refine ⟨d', ?_, h.places, h.checked, ?_, hholds⟩
  · simp only [Session.step, Store.disk, h.place, hstep]
  have hold : ∀ f ∈ FileSet.texts s.target.entries, f.1 ∈ paths := by
    intro f hf
    obtain ⟨lines', hlines', -⟩ := FileSet.mem_texts_iff.mp hf
    exact hpaths f.1 lines' ((hthere _ _).mpr (Or.inl hlines'))
  refine (h.stored.append_of_agree hstored ?_ ?_).of_mem_iff fun f => ?_
  · refine List.forall_mem_append.mpr ⟨fun f hf => hfits.below _ (hold f hf), ?_⟩
    exact List.forall_mem_singleton.mpr (hfits.below _ hpath)
  · -- a file that is written again is written with the same lines
    intro f hf f' hf' heq
    obtain rfl := List.mem_singleton.mp hf'
    obtain ⟨lines', hlines', htext⟩ := FileSet.mem_texts_iff.mp hf
    rw [heq] at hlines'
    rw [← htext, hagree lines' hlines']
  · rw [List.mem_append, List.mem_singleton, FileSet.mem_texts_of_write hwritten]

/-- What succeeds in memory succeeds on the disk, and then the disk persists it. -/
theorem Persists.step (h : Persists d dir base paths s onDisk) {r : Request}
    (hok : (s.step Store.memory r).2 = .ok ())
    (hpaths : ∀ path lines, (s.step Store.memory r).1.target.get? path = some lines → path ∈ paths) :
    (onDisk.step (Store.disk dir) r).2 = .ok () ∧
      Persists d dir base paths (s.step Store.memory r).1 (onDisk.step (Store.disk dir) r).1 := by
  cases r with
  | sub handle name =>
    cases hplace : (s.place handle).sub name with
    | error cause =>
      simp only [Session.step, hplace] at hok
      cases hok
    | ok place =>
      simp only [Session.step, h.place, hplace]
      have hbelow : place.IsChecked := (isChecked_place h.checked handle).sub hplace
      exact ⟨trivial, by rw [h.places],
        List.forall_mem_append.mpr ⟨h.checked, List.forall_mem_singleton.mpr hbelow⟩, h.stored, h.holds⟩
  | write handle extension lines =>
    obtain ⟨written, hwritten⟩ := step_write_eq_ok_iff.mp hok
    rw [step_write hwritten] at hpaths ⊢
    obtain ⟨d', hd', hpersists⟩ := h.write hfits hdir hwritten hpaths
    rw [hd']
    exact ⟨rfl, hpersists⟩

/-- A run that succeeds in memory succeeds on the disk, and then the disk persists it. -/
theorem Persists.run (h : Persists d dir base paths s onDisk) {requests : List Request}
    (hok : s.Succeeds Store.memory requests)
    (hpaths : ∀ path lines, (s.run Store.memory requests).target.get? path = some lines → path ∈ paths) :
    onDisk.Succeeds (Store.disk dir) requests ∧
      Persists d dir base paths (s.run Store.memory requests) (onDisk.run (Store.disk dir) requests) := by
  induction requests generalizing s onDisk with
  | nil => exact ⟨trivial, h⟩
  | cons r rest ih =>
    obtain ⟨hfirst, hrest⟩ := hok
    -- a file of now is a file of the whole run
    have hnow : ∀ path lines, (s.step Store.memory r).1.target.get? path = some lines → path ∈ paths :=
      fun path lines hlines => hpaths path lines (kept_run _ rest path lines hlines)
    obtain ⟨hfirst', hstep⟩ := h.step hfits hdir hfirst hnow
    obtain ⟨hrest', hrun⟩ := ih hstep hrest hpaths
    exact ⟨⟨hfirst', hrest'⟩, hrun⟩

end Steps

/-! ### Both ways -/

/-- **A session on a disk leaves what an output in memory leaves when it is stored.** Take requests whose
extensions have no slash and that all succeed in memory. Let no path of their output, and not that of the manifest,
be a folder on the way to another path of the output, and let no file have the name of the manifest. Then the same
requests succeed on a disk, below any directory that is empty and in which the file system takes the paths. The
directory holds the files of the output with their lines and no other; no name on the way to one of them is empty, a
dot or two dots; and outside the directory the disk holds the files that it held before. The output can be stored in
any directory that is empty, of this disk or another one, and but for the manifest this directory holds the same. -/
theorem disk_session_eq_flush {requests : List Request} {files : FileSet}
    (hext : ∀ handle extension lines, Request.write handle extension lines ∈ requests → '/' ∉ extension.toList)
    (hsucceed : (start Table.empty).Succeeds Store.memory requests)
    (houtput : ((start Table.empty).run Store.memory requests).target = files)
    (hfree : ∀ path ∈ Manifest.fileName :: files.keys, ∀ other ∈ files.keys,
      ¬ (path ++ "/").toList <+: other.toList)
    (hmanifest : files.get? Manifest.fileName = none) {d d' : Disk} {dir dir' : String} {base base' : List String}
    (hdir : d.IsEmptyDirectory dir base) (hdir' : d'.IsEmptyDirectory dir' base')
    (haccepts : ∀ path ∈ files.keys, Disk.Accepts dir path)
    (haccepts' : ∀ path ∈ Manifest.fileName :: files.keys, Disk.Accepts dir' path) (version : String) :
    let persisted := ((start d).run (Store.disk dir) requests).target
    (start d).Succeeds (Store.disk dir) requests ∧
      (∀ names text, persisted.tree.text? (base ++ names) = some text ↔
        ∃ path lines, files.get? path = some lines ∧ Text.fields '/' path = names ∧ Text.ofLines lines = text) ∧
      (∀ names text, persisted.tree.text? (base ++ names) = some text →
        ∀ name ∈ names, name ≠ "" ∧ name ≠ "." ∧ name ≠ "..") ∧
      (∀ place, ¬ base <+: place → persisted.tree.text? place = d.tree.text? place) ∧
      ∃ flushed, files.flush d' dir' version = (flushed, .ok (Manifest.ofFiles files version)) ∧
        ∀ names, persisted.tree.text? (base ++ names) =
          if names = [Manifest.fileName] then none else flushed.tree.text? (base' ++ names) := by
  intro persisted
  have hbelow : files.IsBelow := houtput ▸ (isBelow_start.run hext).files
  have hpaths : ∀ path ∈ files.keys, Path.IsBelow path := List.forall_mem_map.mpr hbelow
  have htexts : ∀ f ∈ FileSet.texts files.entries, Path.IsBelow f.1 := List.forall_mem_map.mpr hbelow
  have hname : Path.IsBelow Manifest.fileName := Manifest.isBelow_fileName
  -- the session on the disk
  have hfits : Disk.Fits dir files.keys := Disk.fits_of_not_starts hpaths haccepts fun path hpath =>
    hfree path (List.mem_cons_of_mem _ hpath)
  have hkeys : ∀ path lines, ((start Table.empty).run Store.memory requests).target.get? path = some lines →
      path ∈ files.keys := by
    rw [houtput]
    exact fun path lines hlines => List.mem_map.mpr ⟨_, Table.mem_of_get?_eq_some hlines, rfl⟩
  obtain ⟨hsucceed', hpersists⟩ := (persists_start hdir files.keys).run hfits hdir.toIsDirectory hsucceed hkeys
  have hstored : Disk.Stored dir d persisted (FileSet.texts files.entries) := houtput ▸ hpersists.stored
  -- the files that are stored afterwards
  have hfits' : Disk.Fits dir' (Manifest.fileName :: files.keys) := by
    refine Disk.fits_of_not_starts (List.forall_mem_cons.mpr ⟨hname, hpaths⟩) haccepts' fun path hpath => ?_
    refine List.forall_mem_cons.mpr ⟨fun hstarts => ?_, hfree path hpath⟩
    have hslash : '/' ∉ Manifest.fileName.toList := by decide
    rw [String.toList_append] at hstarts
    exact hslash (hstarts.subset (List.mem_append_right _ List.mem_cons_self))
  obtain ⟨flushed, hflush⟩ := FileSet.exists_flush hfits' hdir'.toIsDirectory hdir'.empty version
  obtain ⟨-, hflushed⟩ := hbelow.stored_flush hmanifest hdir'.rooted hflush
  refine ⟨hsucceed', fun names text => hstored.text?_eq_some_iff_get? hdir hbelow, fun names text htext => ?_,
    fun place hplace => ?_, flushed, hflush, fun names => ?_⟩
  · obtain ⟨f, hf, rfl, -⟩ := (hstored.text?_eq_some_iff hdir htexts).mp htext
    intro name hname
    obtain ⟨⟨hempty, hdot, -⟩, hup⟩ := htexts f hf name hname
    exact ⟨hempty, hdot, hup⟩
  · refine hstored.others place fun f hf hlocate => hplace ?_
    rw [(hdir.toIsDirectory.of_kept hstored.kept).eq_of_locate (htexts f hf) hlocate]
    exact List.prefix_append _ _
  · exact hstored.text?_eq_ite hdir hbelow hmanifest hdir' hflushed names

/-- Requests that nest two places and write one of the files twice. -/
def writtenTwice : List Request :=
  [.sub 0 "net", .sub 1 "fc", .write 2 ".vhd" ["end fc;"], .write 1 ".vhd" ["end net;"], .write 2 ".vhd" ["end fc;"]]

/-- A disk with an empty directory and a note beside it. -/
def besideNote : Disk := ⟨.folder [("out", .folder []), ("notes.txt", .file "keep\n")], []⟩

/-- The file that is written twice is on the disk once, as it is on an empty disk in which the output is stored. The
note stays. -/
theorem disk_session_writtenTwice :
    let persisted := ((start besideNote).run (Store.disk "out") writtenTwice).target
    (start besideNote).Succeeds (Store.disk "out") writtenTwice ∧
      persisted.tree.text? ["out", "net", "fc.vhd"] = some "end fc;\n" ∧
      persisted.tree.text? ["notes.txt"] = some "keep\n" ∧
      ∃ flushed manifest,
        FileSet.flush ((start Table.empty).run Store.memory writtenTwice).target Disk.empty "" "0.1.0" =
          (flushed, .ok manifest) ∧
        flushed.tree.text? ["net", "fc.vhd"] = some "end fc;\n" := by
  intro persisted
  have hext : ∀ handle extension lines, Request.write handle extension lines ∈ writtenTwice →
      '/' ∉ extension.toList := by
    intro handle extension lines hmem
    simp only [writtenTwice, List.mem_cons, List.not_mem_nil, or_false, reduceCtorEq, false_or,
      Request.write.injEq] at hmem
    rcases hmem with ⟨-, rfl, -⟩ | ⟨-, rfl, -⟩ | ⟨-, rfl, -⟩ <;> decide
  have hsucceed : (start Table.empty).Succeeds Store.memory writtenTwice := by
    refine ⟨rfl, rfl, ?_, ?_, ?_, trivial⟩ <;> decide +kernel
  have hdir : besideNote.IsEmptyDirectory "out" ["out"] := ⟨⟨⟨_, rfl⟩, by decide⟩, rfl⟩
  have hdir' : Disk.empty.IsEmptyDirectory "" [] := ⟨⟨⟨_, rfl⟩, rfl⟩, rfl⟩
  have haccepts : ∀ directory ∈ ["out", ""], ∀ path ∈ Manifest.fileName ::
      ((start Table.empty).run Store.memory writtenTwice).target.keys,
      Path.check (Path.join directory path) = .ok () ∧
        ∀ name ∈ Text.fields '/' path, Tree.isLongName name = false := by decide +kernel
  obtain ⟨hsession, hfiles, -, hothers, flushed, hflush, hsame⟩ := disk_session_eq_flush hext hsucceed rfl
    (by decide +kernel) (by decide +kernel) hdir hdir'
    (fun path hpath => ⟨(haccepts "out" (by decide) path (List.mem_cons_of_mem _ hpath)).1,
      (haccepts "out" (by decide) path (List.mem_cons_of_mem _ hpath)).2⟩)
    (fun path hpath => ⟨(haccepts "" (by decide) path hpath).1, (haccepts "" (by decide) path hpath).2⟩) "0.1.0"
  have htext : persisted.tree.text? (["out"] ++ ["net", "fc.vhd"]) = some "end fc;\n" :=
    (hfiles _ _).mpr ⟨"net/fc.vhd", ["end fc;"], by decide +kernel, by decide, by decide⟩
  refine ⟨hsession, htext, ?_, flushed, _, hflush, ?_⟩
  · exact (hothers ["notes.txt"] (by decide)).trans rfl
  · exact ((hsame ["net", "fc.vhd"]).trans (if_neg (by decide))).symm.trans htext

end Session

end QuantNet
