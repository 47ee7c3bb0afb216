import QuantNet.Output.Disk
import QuantNet.Proofs.Outcome
import QuantNet.Proofs.Text

/-!
# What writing keeps

Writing a file and making folders leave every other file and folder where it is. This is said once,
by the relation `Tree.Kept` between the trees before and after: folders stay folders, and files stay
files. It holds for every single change (`Tree.kept_put`), it can be composed, and it carries over to
the way in which paths are followed (`Tree.Kept.walk`). So whatever was a file before is still one
(`Disk.isFile_of_kept`), and a file that was written is read back (`Disk.of_putText`).
-/

namespace QuantNet

namespace Tree

/-! ### Single changes -/

/-- Whether something is a folder. -/
def isFolder : Tree → Bool
  | file _ => false
  | folder _ => true

/-- The names lead to a folder. -/
def IsFolder (t : Tree) (place : List String) : Prop := ∃ contents, t.get? place = some (folder contents)

/-- Whatever is in the first tree is in the second one, folders as folders and files as files. -/
def Kept (t t' : Tree) : Prop :=
  ∀ place x, t.get? place = some x → ∃ y, t'.get? place = some y ∧ y.isFolder = x.isFolder

theorem Kept.refl (t : Tree) : Kept t t := fun _ x hx => ⟨x, hx, rfl⟩

theorem Kept.trans {t t' t'' : Tree} (h : Kept t t') (h' : Kept t' t'') : Kept t t'' := by
  intro place x hx
  obtain ⟨y, hy, hkind⟩ := h place x hx
  obtain ⟨z, hz, hkind'⟩ := h' place y hy
  exact ⟨z, hz, hkind'.trans hkind⟩

theorem Kept.isFolder {t t' : Tree} (h : Kept t t') {place : List String} (hplace : t.IsFolder place) :
    t'.IsFolder place := by
  obtain ⟨contents, hget⟩ := hplace
  obtain ⟨y, hy, hkind⟩ := h place _ hget
  cases y with
  | file text => cases hkind
  | folder contents' => exact ⟨contents', hy⟩

theorem lookup_setChild (name n : String) (x : Tree) (contents : List (String × Tree)) :
    (setChild name x contents).lookup n = if n = name then some x else contents.lookup n := by
  induction contents with
  | nil => exact Outcome.lookup_cons_eq n name x []
  | cons entry rest ih =>
    obtain ⟨key, y⟩ := entry
    rw [setChild]
    by_cases hkey : key = name
    · subst hkey
      rw [if_pos rfl, Outcome.lookup_cons_eq, Outcome.lookup_cons_eq]
      split <;> rfl
    · rw [if_neg hkey, Outcome.lookup_cons_eq, Outcome.lookup_cons_eq, ih]
      by_cases h : n = key
      · subst h
        rw [if_pos rfl, if_neg hkey, if_pos rfl]
      · rw [if_neg h, if_neg h]

theorem get?_cons_eq_some {t x : Tree} {name : String} {rest : List String} :
    t.get? (name :: rest) = some x ↔ ∃ child, t.children.lookup name = some child ∧ child.get? rest = some x := by
  rw [get?]
  cases t.children.lookup name with
  | none => simp
  | some child => simp

/-- What is put somewhere is found there. -/
theorem get?_put_self (new t : Tree) (place : List String) : (put new t place).get? place = some new := by
  induction place generalizing t with
  | nil => rfl
  | cons name rest ih =>
    rw [put, get?_cons_eq_some]
    exact ⟨_, by rw [children, lookup_setChild, if_pos rfl], ih _⟩

/-- A folder in which one entry is replaced keeps everything if the entry does. -/
theorem kept_setChild {name : String} {contents : List (String × Tree)} {new : Tree}
    (h : ∀ old, contents.lookup name = some old → Kept old new) :
    Kept (folder contents) (folder (setChild name new contents)) := by
  intro place x hx
  cases place with
  | nil =>
    cases hx
    exact ⟨_, rfl, rfl⟩
  | cons n rest =>
    obtain ⟨child, hchild, hrest⟩ := get?_cons_eq_some.mp hx
    by_cases hn : n = name
    · subst hn
      obtain ⟨y, hy, hkind⟩ := h child hchild rest x hrest
      exact ⟨y, get?_cons_eq_some.mpr ⟨new, by rw [children, lookup_setChild, if_pos rfl], hy⟩, hkind⟩
    · exact ⟨x, get?_cons_eq_some.mpr ⟨child, by rw [children, lookup_setChild, if_neg hn]; exact hchild, hrest⟩, rfl⟩

/-- What is put into a folder keeps everything, if it keeps what was there. -/
theorem kept_put {t new : Tree} {place : List String} {name : String} (hfolder : t.IsFolder place)
    (hnew : ∀ old, t.get? (place ++ [name]) = some old → Kept old new) :
    Kept t (put new t (place ++ [name])) := by
  induction place generalizing t with
  | nil =>
    obtain ⟨contents, hcontents⟩ := hfolder
    cases hcontents
    exact kept_setChild fun old hold => hnew old (get?_cons_eq_some.mpr ⟨old, hold, rfl⟩)
  | cons first rest ih =>
    obtain ⟨contents, hcontents⟩ := hfolder
    obtain ⟨child, hchild, hrest⟩ := get?_cons_eq_some.mp hcontents
    cases t with
    | file text => cases hchild
    | folder entries =>
      rw [List.cons_append, put, hchild, Option.getD_some]
      refine kept_setChild fun old hold => ?_
      obtain rfl : child = old := Option.some.inj (hchild.symm.trans hold)
      exact ih ⟨contents, hrest⟩ fun old' hold' => hnew old' (get?_cons_eq_some.mpr ⟨child, hchild, hold'⟩)

/-- A file can take the place of a file. -/
theorem kept_file_file (text text' : String) : Kept (file text) (file text') := by
  intro place x hx
  cases place with
  | nil =>
    cases hx
    exact ⟨_, rfl, rfl⟩
  | cons n rest => cases hx

/-! ### Following paths -/

/-- A folder lies in a folder. -/
theorem IsFolder.above {t : Tree} {place : List String} (h : t.IsFolder place) : t.IsFolder (above place) := by
  unfold Tree.above
  induction place generalizing t with
  | nil => exact h
  | cons name rest ih =>
    obtain ⟨contents, hcontents⟩ := h
    obtain ⟨child, hchild, hrest⟩ := get?_cons_eq_some.mp hcontents
    cases rest with
    | nil =>
      cases t with
      | file text => cases hchild
      | folder entries => exact ⟨entries, rfl⟩
    | cons next rest =>
      obtain ⟨contents', hcontents'⟩ := ih ⟨contents, hrest⟩
      exact ⟨contents', get?_cons_eq_some.mpr ⟨child, hchild, hcontents'⟩⟩

/-- One step along a path. -/
theorem walk_cons_eq_ok {t : Tree} {start place rest : List String} {name : String} :
    t.walk start (name :: rest) = .ok place ↔
      (name = ".." ∧ t.walk (above start) rest = .ok place) ∨
      (name ≠ ".." ∧ isLongName name = false ∧ t.IsFolder (start ++ [name]) ∧
        t.walk (start ++ [name]) rest = .ok place) := by
  rw [walk]
  by_cases hup : name = ".."
  · simp [hup]
  by_cases hlong : isLongName name = true
  · simp [hup, hlong]
  cases hget : t.get? (start ++ [name]) with
  | none => simp [hup, hlong, IsFolder, hget]
  | some x => cases x <;> simp [hup, hlong, IsFolder, hget]

/-- A path leads from folders to folders. -/
theorem isFolder_of_walk {t : Tree} {start place components : List String} (hstart : t.IsFolder start)
    (h : t.walk start components = .ok place) : t.IsFolder place := by
  induction components generalizing start with
  | nil =>
    cases h
    exact hstart
  | cons name rest ih =>
    rcases walk_cons_eq_ok.mp h with ⟨-, hrest⟩ | ⟨-, -, hfolder, hrest⟩
    · exact ih hstart.above hrest
    · exact ih hfolder hrest

/-- A path that leads somewhere still leads there. -/
theorem Kept.walk {t t' : Tree} (h : Kept t t') {start place components : List String}
    (hwalk : t.walk start components = .ok place) : t'.walk start components = .ok place := by
  induction components generalizing start with
  | nil => exact hwalk
  | cons name rest ih =>
    refine walk_cons_eq_ok.mpr ?_
    rcases walk_cons_eq_ok.mp hwalk with ⟨hup, hrest⟩ | ⟨hup, hlong, hfolder, hrest⟩
    · exact Or.inl ⟨hup, ih hrest⟩
    · exact Or.inr ⟨hup, hlong, h.isFolder hfolder, ih hrest⟩

theorem walk_append_eq_ok {t : Tree} {start place first second : List String} :
    t.walk start (first ++ second) = .ok place ↔
      ∃ between, t.walk start first = .ok between ∧ t.walk between second = .ok place := by
  induction first generalizing start with
  | nil => simp [Tree.walk]
  | cons name rest ih =>
    simp only [List.cons_append, walk_cons_eq_ok, ih]
    constructor
    · rintro (⟨hup, between, hrest, hsecond⟩ | ⟨hup, hlong, hfolder, between, hrest, hsecond⟩)
      · exact ⟨between, Or.inl ⟨hup, hrest⟩, hsecond⟩
      · exact ⟨between, Or.inr ⟨hup, hlong, hfolder, hrest⟩, hsecond⟩
    · rintro ⟨between, ⟨hup, hrest⟩ | ⟨hup, hlong, hfolder, hrest⟩, hsecond⟩
      · exact Or.inl ⟨hup, between, hrest, hsecond⟩
      · exact Or.inr ⟨hup, hlong, hfolder, between, hrest, hsecond⟩

/-! ### Making folders -/

/-- What making a folder does: it puts an empty one where nothing was. -/
theorem makeFolder_eq_ok {t made : Tree} {start parents : List String} {name : String} :
    t.makeFolder start parents name = .ok made ↔ ∃ place, t.walk start parents = .ok place ∧ name ≠ ".." ∧
      isLongName name = false ∧ t.get? (place ++ [name]) = none ∧ put empty t (place ++ [name]) = made := by
  unfold makeFolder
  rw [Outcome.bind_eq_ok_iff]
  refine exists_congr fun place => and_congr_right fun _ => ?_
  by_cases hup : name = ".."
  · simp [hup]
  · cases hlong : isLongName name <;> cases hget : t.get? (place ++ [name]) <;> simp [hup]

section Folders

variable {t : Tree} {start : List String} (hstart : t.IsFolder start)
include hstart

/-- A new folder keeps everything, and it can be reached. -/
theorem of_makeFolder {parents : List String} {name : String} {made : Tree}
    (h : t.makeFolder start parents name = .ok made) :
    Kept t made ∧ ∃ place, made.walk start (parents ++ [name]) = .ok place := by
  obtain ⟨place, hwalk, hup, hlong, hget, rfl⟩ := makeFolder_eq_ok.mp h
  have hkept : Kept t (put empty t (place ++ [name])) := by
    refine kept_put (isFolder_of_walk hstart hwalk) fun old hold => ?_
    rw [hget] at hold
    cases hold
  refine ⟨hkept, place ++ [name], walk_append_eq_ok.mpr ⟨place, hkept.walk hwalk, walk_cons_eq_ok.mpr (Or.inr ?_)⟩⟩
  exact ⟨hup, hlong, ⟨[], get?_put_self _ _ _⟩, rfl⟩

theorem of_ensureFolder (parents : List String) (name : String) :
    Kept t (t.ensureFolder start parents name).1 ∧
      ((t.ensureFolder start parents name).2 = .ok () →
        ∃ place, (t.ensureFolder start parents name).1.walk start (parents ++ [name]) = .ok place) := by
  unfold ensureFolder
  cases hmake : t.makeFolder start parents name with
  | ok made => exact ⟨(of_makeFolder hstart hmake).1, fun _ => (of_makeFolder hstart hmake).2⟩
  | error cause =>
    refine ⟨Kept.refl t, fun h => ?_⟩
    cases hwalk : t.walk start (parents ++ [name]) with
    | ok place => exact ⟨place, rfl⟩
    | error cause' =>
      rw [hwalk] at h
      cases h

/-- Making a chain of folders keeps everything, and if it succeeds the last one can be reached. -/
theorem of_makeFolders (names : List String) :
    Kept t (t.makeFolders start names).1 ∧
      ((t.makeFolders start names).2 = .ok () →
        ∃ place, (t.makeFolders start names).1.walk start names.reverse = .ok place) := by
  induction names with
  | nil => exact ⟨Kept.refl t, fun _ => ⟨start, rfl⟩⟩
  | cons name parents ih =>
    have hensure := of_ensureFolder hstart parents.reverse name
    rw [List.reverse_cons, makeFolders]
    split
    · -- a folder above is missing, so the folders above are made first
      split
      · rename_i made hmade
        rw [hmade] at ih
        have hagain := of_ensureFolder (ih.1.isFolder hstart) parents.reverse name
        exact ⟨ih.1.trans hagain.1, hagain.2⟩
      · rename_i refused hrefused
        refine ⟨ih.1, fun h => ?_⟩
        cases hmade : t.makeFolders start parents with
        | mk made outcome =>
          rw [hmade] at h
          exact absurd (hmade.trans (congrArg (Prod.mk made) h)) (hrefused made)
    · exact hensure

end Folders

end Tree

/-! ### Paths -/

namespace Path

section Joined

variable {path : String} (hpath : isAbsolute path = false) (base : String)
include hpath

theorem join_eq_ite :
    join base path =
      if base = "" then path else if base.toList.getLast? = some '/' then base ++ path else base ++ "/" ++ path := by
  rw [join, if_neg (of_decide_eq_false hpath)]

/-- The fields of a joined path are those of the base, blank ones apart, and those of the path. -/
theorem fields_join : ∃ fields, Text.fields '/' (join base path) = fields ++ Text.fields '/' path ∧
    (fields.filter fun c => c ≠ "" && c ≠ ".") = components base := by
  rw [join_eq_ite hpath]
  split
  · rename_i hbase
    exact ⟨[], rfl, by rw [hbase]; rfl⟩
  split
  · rename_i hlast
    -- the base ends with the slash that divides it from the path
    obtain ⟨cs, hcs⟩ := List.getLast?_eq_some_iff.mp hlast
    obtain rfl : base = String.ofList cs ++ "/" := by
      rw [← String.toList_inj]
      simpa using hcs
    refine ⟨Text.fields '/' (String.ofList cs), Text.fields_append '/' rfl _ _, ?_⟩
    have hslash : String.ofList cs ++ "/" = String.ofList cs ++ "/" ++ "" := by simp
    rw [components, hslash, Text.fields_append '/' rfl, List.filter_append]
    exact (List.append_nil _).symm
  · exact ⟨Text.fields '/' base, Text.fields_append '/' rfl _ _, rfl⟩

theorem components_join : components (join base path) = components base ++ components path := by
  obtain ⟨fields, hfields, hbase⟩ := fields_join hpath base
  rw [components, hfields, List.filter_append, hbase]
  rfl

theorem namesDirectory_join : namesDirectory (join base path) = namesDirectory path := by
  obtain ⟨fields, hfields, -⟩ := fields_join hpath base
  rw [namesDirectory, namesDirectory, hfields, List.getLast?_append_of_ne_nil _ (Text.fields_ne_nil '/' path)]

theorem isAbsolute_join : isAbsolute (join base path) = isAbsolute base := by
  rw [join_eq_ite hpath]
  split
  · rename_i hbase
    rw [hpath, hbase]
    rfl
  · rename_i hbase
    have hne : base.toList ≠ [] := by simpa using hbase
    split <;> simp [isAbsolute, List.head?_append_of_ne_nil _ hne]

end Joined

/-- A plain name: one that is neither empty nor a dot, without slashes. -/
def IsPlain (name : String) : Prop := name ≠ "" ∧ name ≠ "." ∧ '/' ∉ name.toList

variable {name : String} (hname : IsPlain name)
include hname

theorem IsPlain.isAbsolute : isAbsolute name = false :=
  decide_eq_false fun h => hname.2.2 (List.mem_of_mem_head? h)

theorem IsPlain.components : components name = [name] := by
  rw [Path.components, Text.fields_eq_singleton hname.2.2]
  simp [hname.1, hname.2.1]

theorem IsPlain.namesDirectory : namesDirectory name = false := by
  rw [Path.namesDirectory, Text.fields_eq_singleton hname.2.2]
  simp [hname.1, hname.2.1]

end Path

/-! ### Files -/

namespace Disk

/-- The working directory is a folder. -/
def IsRooted (d : Disk) : Prop := d.tree.IsFolder d.home

/-- The same working directory, and everything kept. -/
structure Kept (d d' : Disk) : Prop where
  home : d'.home = d.home
  tree : d.tree.Kept d'.tree

theorem Kept.refl (d : Disk) : Kept d d := ⟨rfl, Tree.Kept.refl _⟩

theorem Kept.trans {d d' d'' : Disk} (h : Kept d d') (h' : Kept d' d'') : Kept d d'' :=
  ⟨h'.home.trans h.home, h.tree.trans h'.tree⟩

variable {d d' : Disk}

theorem IsRooted.of_kept (hrooted : d.IsRooted) (h : Kept d d') : d'.IsRooted := by
  unfold IsRooted
  rw [h.home]
  exact h.tree.isFolder hrooted

/-- Every path is followed from a folder. -/
theorem IsRooted.isFolder_start (hrooted : d.IsRooted) (path : String) : d.tree.IsFolder (d.start path) := by
  unfold start
  split
  · -- the root is above every folder
    obtain ⟨contents, hcontents⟩ := hrooted
    cases htree : d.tree with
    | folder entries => exact ⟨entries, rfl⟩
    | file text =>
      rw [htree] at hcontents
      cases hhome : d.home with
      | nil =>
        rw [hhome] at hcontents
        cases hcontents
      | cons name rest =>
        rw [hhome] at hcontents
        cases hcontents
  · exact hrooted

theorem start_join {path : String} (hpath : Path.isAbsolute path = false) (directory : String) :
    d.start (Path.join directory path) = d.start directory := by
  rw [start, start, Path.isAbsolute_join hpath]

/-- Where a path that names a file leads. -/
theorem locate_eq_ok {path : String} {place : List String} :
    d.locate path = .ok place ↔ Path.check path = .ok () ∧ ∃ above name,
      (Path.components path).getLast? = some name ∧
      d.tree.walk (d.start path) (Path.components path).dropLast = .ok above ∧ name ≠ ".." ∧
      Tree.isLongName name = false ∧ place = above ++ [name] := by
  unfold locate
  cases Path.check path with
  | error cause => simp
  | ok _ =>
    cases (Path.components path).getLast? with
    | none => simp
    | some name =>
      simp only [Outcome.ok_bind, Outcome.bind_eq_ok_iff, true_and, Option.some.injEq]
      constructor
      · rintro ⟨above, hwalk, h⟩
        split at h
        · cases h
        split at h
        · cases h
        rename_i hup hlong
        cases h
        exact ⟨above, name, rfl, hwalk, hup, by simpa using hlong, rfl⟩
      · rintro ⟨above, _, rfl, hwalk, hup, hlong, rfl⟩
        refine ⟨above, hwalk, ?_⟩
        rw [if_neg hup, hlong]
        rfl

theorem Kept.locate (h : Kept d d') {path : String} {place : List String} (hlocate : d.locate path = .ok place) :
    d'.locate path = .ok place := by
  obtain ⟨hcheck, above, name, hlast, hwalk, hrest⟩ := locate_eq_ok.mp hlocate
  have hstart : d'.start path = d.start path := by rw [start, start, h.home]
  refine locate_eq_ok.mpr ⟨hcheck, above, name, hlast, ?_, hrest⟩
  rw [hstart]
  exact h.tree.walk hwalk

theorem textOf_eq_ok {path text : String} :
    d.textOf path = .ok text ↔ ∃ place, d.locate path = .ok place ∧ d.tree.get? place = some (.file text) ∧
      Path.namesDirectory path = false := by
  unfold textOf
  rw [Outcome.bind_eq_ok_iff]
  refine exists_congr fun place => and_congr_right fun _ => ?_
  cases d.tree.get? place with
  | none => simp
  | some x => cases x <;> cases Path.namesDirectory path <;> simp

theorem isFile_iff {path : String} : d.isFile path = true ↔ ∃ text, d.textOf path = .ok text := by
  unfold isFile
  cases d.textOf path with
  | ok text => simp [Except.isOk, Except.toBool]
  | error cause => simp [Except.isOk, Except.toBool]

/-- A file is still a file. -/
theorem isFile_of_kept (h : Kept d d') {path : String} (hfile : d.isFile path = true) : d'.isFile path = true := by
  obtain ⟨text, htext⟩ := isFile_iff.mp hfile
  obtain ⟨place, hlocate, hget, hname⟩ := textOf_eq_ok.mp htext
  obtain ⟨x, hx, hkind⟩ := h.tree place _ hget
  cases x with
  | folder contents => cases hkind
  | file text' => exact isFile_iff.mpr ⟨text', textOf_eq_ok.mpr ⟨place, h.locate hlocate, hx, hname⟩⟩

/-- Making folders keeps everything, and if it succeeds the last one can be reached. -/
theorem of_makeFolders (hrooted : d.IsRooted) (path : String) :
    Kept d (d.makeFolders path).1 ∧
      ((d.makeFolders path).2 = .ok () →
        ∃ place, (d.makeFolders path).1.tree.walk (d.start path) (Path.components path) = .ok place) := by
  unfold makeFolders
  cases Path.check path with
  | error cause => exact ⟨Kept.refl d, fun h => nomatch h⟩
  | ok _ =>
    have hmade := Tree.of_makeFolders (hrooted.isFolder_start path) (Path.components path).reverse
    rw [List.reverse_reverse] at hmade
    exact ⟨⟨rfl, hmade.1⟩, hmade.2⟩

/-- What writing a file does: it puts the file at its place, where there was no folder. -/
theorem putText_eq_ok {path text : String} :
    d.putText path text = .ok d' ↔ ∃ place, d.locate path = .ok place ∧ Path.namesDirectory path = false ∧
      (∀ contents, d.tree.get? place ≠ some (.folder contents)) ∧ d.putFile place text = d' := by
  unfold putText
  rw [Outcome.bind_eq_ok_iff]
  refine exists_congr fun place => and_congr_right fun _ => ?_
  cases d.tree.get? place with
  | none => cases Path.namesDirectory path <;> simp
  | some x => cases x <;> cases Path.namesDirectory path <;> simp

/-- A file that is written keeps everything, and it is read back. -/
theorem of_putText (hrooted : d.IsRooted) {path text : String} (h : d.putText path text = .ok d') :
    Kept d d' ∧ d'.textOf path = .ok text := by
  obtain ⟨place, hlocate, hname, hfolder, rfl⟩ := putText_eq_ok.mp h
  obtain ⟨-, above, name, -, hwalk, -, -, rfl⟩ := locate_eq_ok.mp hlocate
  have hkept : Kept d (d.putFile (above ++ [name]) text) := by
    refine ⟨rfl, Tree.kept_put (Tree.isFolder_of_walk (hrooted.isFolder_start path) hwalk) fun old hold => ?_⟩
    cases old with
    | folder contents => exact absurd hold (hfolder contents)
    | file old => exact Tree.kept_file_file old text
  exact ⟨hkept, textOf_eq_ok.mpr ⟨_, hkept.locate hlocate, Tree.get?_put_self _ _ _, hname⟩⟩

theorem isFolder_iff {path : String} :
    d.isFolder path = true ↔ Path.check path = .ok () ∧ path ≠ "" ∧
      ∃ place, d.tree.walk (d.start path) (Path.components path) = .ok place := by
  unfold isFolder openFolder
  cases Path.check path with
  | error cause => simp [Except.isOk, Except.toBool]
  | ok _ =>
    by_cases hpath : path = ""
    · simp [hpath, Except.isOk, Except.toBool]
    · cases d.tree.walk (d.start path) (Path.components path) <;> simp [hpath, Except.isOk, Except.toBool]

/-- A file with a plain name can be written into a folder exactly if its path is accepted and no
folder has the name. -/
theorem exists_putText_iff {directory name : String} (text : String) (hname : Path.IsPlain name) (hup : name ≠ "..")
    (hlong : Tree.isLongName name = false) {place : List String}
    (hwalk : d.tree.walk (d.start directory) (Path.components directory) = .ok place) :
    (∃ d', d.putText (Path.join directory name) text = .ok d') ↔
      Path.check (Path.join directory name) = .ok () ∧ d.isFolder (Path.join directory name) = false := by
  have hcomponents : Path.components (Path.join directory name) = Path.components directory ++ [name] := by
    rw [Path.components_join hname.isAbsolute, hname.components]
  have hstart : d.start (Path.join directory name) = d.start directory := start_join hname.isAbsolute directory
  have hlocate : d.locate (Path.join directory name) = .ok (place ++ [name]) ↔
      Path.check (Path.join directory name) = .ok () := by
    rw [locate_eq_ok, and_iff_left_iff_imp, hcomponents, hstart]
    exact fun _ => ⟨place, name, by simp, by rw [List.dropLast_concat]; exact hwalk, hup, hlong, rfl⟩
  have hfolder : d.isFolder (Path.join directory name) = true ↔
      Path.check (Path.join directory name) = .ok () ∧ d.tree.IsFolder (place ++ [name]) := by
    have hne : Path.join directory name ≠ "" := by
      intro hempty
      rw [hempty] at hcomponents
      exact absurd hcomponents (by simp [show Path.components "" = [] from rfl])
    rw [isFolder_iff, hcomponents, hstart]
    refine and_congr_right fun _ => ⟨?_, fun h => ⟨hne, _, Tree.walk_append_eq_ok.mpr
      ⟨place, hwalk, Tree.walk_cons_eq_ok.mpr (Or.inr ⟨hup, hlong, h, rfl⟩)⟩⟩⟩
    rintro ⟨-, last, hlast⟩
    obtain ⟨between, hbetween, hstep⟩ := Tree.walk_append_eq_ok.mp hlast
    obtain rfl : place = between := Except.ok.inj (hwalk.symm.trans hbetween)
    rcases Tree.walk_cons_eq_ok.mp hstep with ⟨hup', -⟩ | ⟨-, -, h, -⟩
    · exact absurd hup' hup
    · exact h
  cases hcheck : Path.check (Path.join directory name) with
  | error cause => simp [putText, locate, hcheck]
  | ok _ =>
    rw [← Bool.not_eq_true, hfolder, hcheck, putText, hlocate.mpr hcheck, Outcome.ok_bind,
      Path.namesDirectory_join hname.isAbsolute, hname.namesDirectory]
    cases hget : d.tree.get? (place ++ [name]) with
    | none => simp [Tree.IsFolder, hget]
    | some x => cases x <;> simp [Tree.IsFolder, hget]

end Disk

end QuantNet
