import Mathlib.Logic.Function.Basic
import QuantNet.Output.Manifest
import QuantNet.Proofs.Disk

/-!
# Stored files

What storing files below a directory changes, and what it leaves alone.

A disk is looked at as the map from places to the texts of the files there (`Tree.text?`). Making folders
does not change this map at all (`Disk.text?_makeFolders`), and writing a file changes it at one place
(`Disk.text?_putText`). Paths that lead down from the directory lead to a place each, and different paths
to different places (`Disk.locate_join_injective`), so files that are stored one after the other do not
touch each other. What is true after any number of them is the relation `Disk.Stored`: the files are read
back, and everywhere else the files are as they were. It also holds of the files before a refusal
(`FileSet.stored_storeAll`).
-/

namespace QuantNet

/-! ### Texts of trees -/

namespace Tree

/-- The text of the file that names lead to. -/
def text? (t : Tree) (place : List String) : Option String :=
  match t.get? place with
  | some (file text) => some text
  | _ => none

theorem text?_eq_some_iff {t : Tree} {place : List String} {text : String} :
    t.text? place = some text ↔ t.get? place = some (file text) := by
  unfold text?
  split <;> simp_all

theorem get?_append (t : Tree) (first second : List String) :
    t.get? (first ++ second) = (t.get? first).bind fun x => x.get? second := by
  induction first generalizing t with
  | nil => rfl
  | cons name rest ih =>
    rw [List.cons_append, get?, get?]
    cases t.children.lookup name with
    | none => rfl
    | some child => exact ih child

theorem text?_append (t : Tree) (first second : List String) :
    t.text? (first ++ second) = (t.get? first).bind fun x => x.text? second := by
  rw [text?, get?_append]
  cases t.get? first <;> rfl

theorem text?_cons (t : Tree) (name : String) (rest : List String) :
    t.text? (name :: rest) = (t.children.lookup name).bind fun x => x.text? rest := by
  rw [text?, get?]
  cases t.children.lookup name <;> rfl

theorem text?_folder (contents : List (String × Tree)) : (folder contents).text? [] = none := rfl

/-- A file has nothing below it. -/
theorem text?_file_cons (text name : String) (rest : List String) : (file text).text? (name :: rest) = none := rfl

theorem text?_empty (place : List String) : empty.text? place = none := by
  cases place <;> rfl

/-- The files in a folder are as they were, but for those below a replaced entry. -/
theorem text?_setChild {name : String} {contents : List (String × Tree)} {new : Tree} {place : List String}
    (h : ∀ rest, place = name :: rest → new.text? rest = (folder contents).text? place) :
    (folder (setChild name new contents)).text? place = (folder contents).text? place := by
  cases place with
  | nil => rw [text?_folder, text?_folder]
  | cons n rest =>
    rw [text?_cons, children, lookup_setChild]
    split
    · rename_i hn
      exact h rest (by rw [hn])
    · rw [text?_cons, children]

/-- What is put into a folder changes no file elsewhere. -/
theorem text?_put_of_not_prefix {t : Tree} {place other : List String} {name : String} (hfolder : t.IsFolder place)
    (new : Tree) (h : ¬ place ++ [name] <+: other) : (put new t (place ++ [name])).text? other = t.text? other := by
  induction place generalizing t other with
  | nil =>
    obtain ⟨contents, hcontents⟩ := hfolder
    cases hcontents
    refine text?_setChild fun rest hrest => absurd ?_ h
    exact ⟨rest, hrest.symm⟩
  | cons first place ih =>
    obtain ⟨contents, hcontents⟩ := hfolder
    obtain ⟨child, hchild, hplace⟩ := get?_cons_eq_some.mp hcontents
    cases t with
    | file text => cases hchild
    | folder entries =>
      rw [List.cons_append, put, hchild, Option.getD_some]
      refine text?_setChild fun rest hrest => ?_
      subst hrest
      have hsame : (folder entries).text? (first :: rest) = child.text? rest := by
        rw [text?_cons, hchild, Option.bind_some]
      refine Eq.trans ?_ hsame.symm
      refine ih ⟨contents, hplace⟩ fun hprefix => h ?_
      rw [List.cons_append]
      exact List.cons_prefix_cons.mpr ⟨rfl, hprefix⟩

/-- A new folder changes no file. -/
theorem text?_put_empty {t : Tree} {place : List String} {name : String} (hfolder : t.IsFolder place)
    (hnone : t.get? (place ++ [name]) = none) : (put empty t (place ++ [name])).text? = t.text? := by
  funext other
  by_cases hprefix : place ++ [name] <+: other
  · obtain ⟨rest, rfl⟩ := hprefix
    rw [text?_append, text?_append, get?_put_self, hnone]
    exact text?_empty rest
  · exact text?_put_of_not_prefix hfolder empty hprefix

/-- A file that is put where no folder is changes one text. -/
theorem text?_put_file {t : Tree} {place : List String} {name : String} (hfolder : t.IsFolder place)
    (hfree : ∀ contents, t.get? (place ++ [name]) ≠ some (folder contents)) (text : String) :
    (put (file text) t (place ++ [name])).text? = Function.update t.text? (place ++ [name]) (some text) := by
  funext other
  by_cases hprefix : place ++ [name] <+: other
  · obtain ⟨rest, rfl⟩ := hprefix
    rw [text?_append, get?_put_self, Option.bind_some]
    cases rest with
    | nil =>
      rw [List.append_nil, Function.update_self]
      rfl
    | cons n rest =>
      have hne : place ++ [name] ++ n :: rest ≠ place ++ [name] := by simp
      rw [Function.update_of_ne hne, text?_append, text?_file_cons]
      cases hget : t.get? (place ++ [name]) with
      | none => rfl
      | some x =>
        cases x with
        | folder contents => exact absurd hget (hfree contents)
        | file old => exact (text?_file_cons old n rest).symm
  · have hne : other ≠ place ++ [name] := fun heq => hprefix (heq ▸ List.prefix_rfl)
    rw [Function.update_of_ne hne, text?_put_of_not_prefix hfolder _ hprefix]

section Folders

variable {t : Tree} {start : List String} (hstart : t.IsFolder start)
include hstart

theorem text?_ensureFolder (parents : List String) (name : String) :
    (t.ensureFolder start parents name).1.text? = t.text? := by
  unfold ensureFolder
  cases hmake : t.makeFolder start parents name with
  | error cause => rfl
  | ok made =>
    obtain ⟨place, hwalk, -, -, hnone, rfl⟩ := makeFolder_eq_ok.mp hmake
    exact text?_put_empty (isFolder_of_walk hstart hwalk) hnone

/-- Making a chain of folders changes no file, however far it gets. -/
theorem text?_makeFolders (names : List String) : (t.makeFolders start names).1.text? = t.text? := by
  induction names with
  | nil => rfl
  | cons name parents ih =>
    rw [makeFolders]
    split
    · split
      · rename_i made hmade
        have hkept := (of_makeFolders hstart parents).1
        rw [hmade] at ih hkept
        rw [text?_ensureFolder (hkept.isFolder hstart), ih]
      · exact ih
    · exact text?_ensureFolder hstart parents.reverse name

end Folders

end Tree

/-! ### Paths that lead down -/

namespace Path

/-- The path leads down from wherever it starts: between its slashes are plain names, and none of them
leads back up. -/
def IsBelow (path : String) : Prop := ∀ name ∈ Text.fields '/' path, IsPlain name ∧ name ≠ ".."

variable {path : String} (hpath : IsBelow path)
include hpath

theorem IsBelow.isAbsolute : isAbsolute path = false := by
  refine decide_eq_false fun hhead => ?_
  obtain ⟨cs, hcs⟩ := List.head?_eq_some_iff.mp hhead
  have hslash : path = "" ++ "/" ++ String.ofList cs := by
    rw [← String.toList_inj, hcs]
    simp
  -- the field in front of the first slash would be empty
  have hempty : "" ∈ Text.fields '/' path := by
    rw [hslash, Text.fields_append '/' rfl]
    exact List.mem_append_left _ List.mem_cons_self
  exact (hpath "" hempty).1.1 rfl

theorem IsBelow.components : components path = Text.fields '/' path := by
  refine List.filter_eq_self.mpr fun name hname => ?_
  obtain ⟨⟨hempty, hdot, -⟩, -⟩ := hpath name hname
  simp [hempty, hdot]

end Path

/-- Names that do not lead back up lead down. -/
theorem Tree.eq_append_of_walk {t : Tree} {start place names : List String} (hnames : ∀ name ∈ names, name ≠ "..")
    (h : t.walk start names = .ok place) : place = start ++ names := by
  induction names generalizing start with
  | nil =>
    cases h
    exact (List.append_nil place).symm
  | cons name rest ih =>
    rcases walk_cons_eq_ok.mp h with ⟨hup, -⟩ | ⟨-, -, -, hrest⟩
    · exact absurd hup (hnames name List.mem_cons_self)
    · rw [ih (fun n hn => hnames n (List.mem_cons_of_mem _ hn)) hrest, List.append_assoc, List.singleton_append]

namespace Disk

variable {d d' : Disk} {dir : String}

/-- Where a path leads that leads down from a directory. -/
theorem of_locate_join {path : String} (hpath : Path.IsBelow path) {place : List String}
    (h : d.locate (Path.join dir path) = .ok place) :
    ∃ base, d.tree.walk (d.start dir) (Path.components dir) = .ok base ∧ place = base ++ Text.fields '/' path := by
  have hne := Text.fields_ne_nil '/' path
  obtain ⟨-, above, name, hlast, hwalk, -, -, rfl⟩ := locate_eq_ok.mp h
  rw [Path.components_join hpath.isAbsolute, hpath.components] at hlast hwalk
  rw [List.getLast?_append_of_ne_nil _ hne] at hlast
  rw [List.dropLast_append_of_ne_nil hne, start_join hpath.isAbsolute] at hwalk
  obtain ⟨base, hbase, hdown⟩ := Tree.walk_append_eq_ok.mp hwalk
  have habove : above = base ++ (Text.fields '/' path).dropLast :=
    Tree.eq_append_of_walk (fun n hn => (hpath n (List.dropLast_subset _ hn)).2) hdown
  refine ⟨base, hbase, ?_⟩
  obtain ⟨names, hnames⟩ := List.getLast?_eq_some_iff.mp hlast
  rw [habove, hnames, List.dropLast_concat, List.append_assoc]

/-- Different paths lead to different places. -/
theorem locate_join_injective {path path' : String} (hpath : Path.IsBelow path) (hpath' : Path.IsBelow path')
    {place : List String} (h : d.locate (Path.join dir path) = .ok place)
    (h' : d.locate (Path.join dir path') = .ok place) : path = path' := by
  obtain ⟨base, hbase, hplace⟩ := of_locate_join hpath h
  obtain ⟨base', hbase', hplace'⟩ := of_locate_join hpath' h'
  obtain rfl : base = base' := Except.ok.inj (hbase.symm.trans hbase')
  have hfields : Text.fields '/' path = Text.fields '/' path' := List.append_cancel_left (hplace.symm.trans hplace')
  have hslash : "/".toList = ['/'] := rfl
  rw [← Text.intercalate_fields hslash path, hfields, Text.intercalate_fields hslash]

/-- A file does not lie below a file. -/
theorem not_textOf_below {path rest text text' : String} (hpath : Path.IsBelow path)
    (hbelow : Path.IsBelow (path ++ "/" ++ rest)) (h : d.textOf (Path.join dir path) = .ok text) :
    d.textOf (Path.join dir (path ++ "/" ++ rest)) ≠ .ok text' := by
  intro h'
  obtain ⟨place, hlocate, hget, -⟩ := textOf_eq_ok.mp h
  obtain ⟨place', hlocate', hget', -⟩ := textOf_eq_ok.mp h'
  obtain ⟨base, hbase, rfl⟩ := of_locate_join hpath hlocate
  obtain ⟨base', hbase', rfl⟩ := of_locate_join hbelow hlocate'
  obtain rfl : base = base' := Except.ok.inj (hbase.symm.trans hbase')
  rw [Text.fields_append '/' rfl, ← List.append_assoc, Tree.get?_append, hget, Option.bind_some] at hget'
  cases hfields : Text.fields '/' rest with
  | nil => exact Text.fields_ne_nil '/' rest hfields
  | cons name names =>
    rw [hfields] at hget'
    cases hget'

/-! ### Texts of disks -/

theorem text?_makeFolders (hrooted : d.IsRooted) (path : String) : (d.makeFolders path).1.tree.text? = d.tree.text? := by
  unfold makeFolders
  cases Path.check path with
  | error cause => rfl
  | ok _ => exact Tree.text?_makeFolders (hrooted.isFolder_start path) _

theorem text?_putText (hrooted : d.IsRooted) {path text : String} (h : d.putText path text = .ok d') :
    ∃ place, d.locate path = .ok place ∧ d'.tree.text? = Function.update d.tree.text? place (some text) := by
  obtain ⟨place, hlocate, -, hfree, rfl⟩ := putText_eq_ok.mp h
  obtain ⟨-, above, name, -, hwalk, -, -, rfl⟩ := locate_eq_ok.mp hlocate
  exact ⟨_, hlocate, Tree.text?_put_file (Tree.isFolder_of_walk (hrooted.isFolder_start path) hwalk) hfree text⟩

/-- The text at the place of a file. -/
theorem text?_of_textOf {path text : String} (h : d.textOf path = .ok text) :
    ∃ place, d.locate path = .ok place ∧ d.tree.text? place = some text := by
  obtain ⟨place, hlocate, hget, -⟩ := textOf_eq_ok.mp h
  exact ⟨place, hlocate, Tree.text?_eq_some_iff.mpr hget⟩

/-- A file that is still there with its text is read as before. -/
theorem Kept.textOf (h : Kept d d') {path text : String} (htext : d.textOf path = .ok text)
    (hsame : ∀ place, d.locate path = .ok place → d'.tree.text? place = d.tree.text? place) :
    d'.textOf path = .ok text := by
  obtain ⟨place, hlocate, hget, hname⟩ := textOf_eq_ok.mp htext
  have hget' : d'.tree.text? place = some text := by
    rw [hsame place hlocate]
    exact Tree.text?_eq_some_iff.mpr hget
  exact textOf_eq_ok.mpr ⟨place, h.locate hlocate, Tree.text?_eq_some_iff.mp hget', hname⟩

/-! ### Storing files -/

/-- The second disk is the first one with files stored below a directory: everything is kept, the files
are read back, and everywhere else the files are as they were. -/
structure Stored (dir : String) (d d' : Disk) (files : List (String × String)) : Prop where
  kept : Kept d d'
  text : ∀ f ∈ files, d'.textOf (Path.join dir f.1) = .ok f.2
  others : ∀ place, (∀ f ∈ files, d'.locate (Path.join dir f.1) ≠ .ok place) →
    d'.tree.text? place = d.tree.text? place

/-- Nothing is stored if no text changes. -/
theorem stored_nil (hkept : Kept d d') (h : d'.tree.text? = d.tree.text?) : Stored dir d d' [] :=
  ⟨hkept, fun _ hf => absurd hf List.not_mem_nil, fun place _ => congrFun h place⟩

theorem stored_makeFolders (hrooted : d.IsRooted) (dir path : String) : Stored dir d (d.makeFolders path).1 [] :=
  stored_nil (of_makeFolders hrooted path).1 (text?_makeFolders hrooted path)

theorem stored_putText (hrooted : d.IsRooted) {path text : String} (h : d.putText (Path.join dir path) text = .ok d') :
    Stored dir d d' [(path, text)] := by
  obtain ⟨hkept, htext⟩ := of_putText hrooted h
  obtain ⟨place, hlocate, hupdate⟩ := text?_putText hrooted h
  refine ⟨hkept, List.forall_mem_singleton.mpr htext, fun other hother => ?_⟩
  have hne : other ≠ place := by
    rintro rfl
    exact hother _ List.mem_cons_self (hkept.locate hlocate)
  rw [hupdate, Function.update_of_ne hne]

/-- What stores nothing afterwards changes nothing. -/
theorem Stored.trans {d'' : Disk} {files : List (String × String)} (h : Stored dir d d' files)
    (h' : Stored dir d' d'' []) : Stored dir d d'' files := by
  have hsame : ∀ place, d''.tree.text? place = d'.tree.text? place := fun place =>
    h'.others place (List.forall_mem_nil _)
  refine ⟨h.kept.trans h'.kept, fun f hf => ?_, fun place hplace => ?_⟩
  · exact h'.kept.textOf (h.text f hf) fun place _ => hsame place
  · rw [hsame place]
    exact h.others place fun f hf hlocate => hplace f hf (h'.kept.locate hlocate)

/-- Files are stored after other files, if files with one path have one text. -/
theorem Stored.append_of_agree {d'' : Disk} {files files' : List (String × String)} (h : Stored dir d d' files)
    (h' : Stored dir d' d'' files') (hbelow : ∀ f ∈ files ++ files', Path.IsBelow f.1)
    (hagree : ∀ f ∈ files, ∀ f' ∈ files', f.1 = f'.1 → f.2 = f'.2) : Stored dir d d'' (files ++ files') := by
  refine ⟨h.kept.trans h'.kept, fun f hf => ?_, fun place hplace => ?_⟩
  · rcases List.mem_append.mp hf with hfirst | hsecond
    · by_cases hagain : ∃ f' ∈ files', f.1 = f'.1
      · obtain ⟨f', hf', hpath⟩ := hagain
        rw [hpath, hagree f hfirst f' hf' hpath]
        exact h'.text f' hf'
      · refine h'.kept.textOf (h.text f hfirst) fun place hlocate => h'.others place fun f' hf' hlocate' => ?_
        exact hagain ⟨f', hf', locate_join_injective (hbelow f hf) (hbelow f' (List.mem_append_right _ hf'))
          (h'.kept.locate hlocate) hlocate'⟩
    · exact h'.text f hsecond
  · rw [h'.others place fun f hf => hplace f (List.mem_append_right _ hf)]
    exact h.others place fun f hf hlocate => hplace f (List.mem_append_left _ hf) (h'.kept.locate hlocate)

/-- Files are stored after other files, if their paths are different. -/
theorem Stored.append {d'' : Disk} {files files' : List (String × String)} (h : Stored dir d d' files)
    (h' : Stored dir d' d'' files') (hbelow : ∀ f ∈ files ++ files', Path.IsBelow f.1)
    (hdiffer : ∀ f ∈ files, ∀ f' ∈ files', f.1 ≠ f'.1) : Stored dir d d'' (files ++ files') :=
  h.append_of_agree h' hbelow fun f hf f' hf' heq => absurd heq (hdiffer f hf f' hf')

/-- It does not matter in which order the files are listed, or how often. -/
theorem Stored.of_mem_iff {files files' : List (String × String)} (h : Stored dir d d' files)
    (hsame : ∀ f, f ∈ files' ↔ f ∈ files) : Stored dir d d' files' :=
  ⟨h.kept, fun f hf => h.text f ((hsame f).mp hf), fun place hplace => h.others place fun f hf =>
    hplace f ((hsame f).mpr hf)⟩

/-- The files are those from before exactly if each stored one was there with its text. -/
theorem Stored.text?_eq_iff {files : List (String × String)} (h : Stored dir d d' files) :
    d'.tree.text? = d.tree.text? ↔
      ∀ f ∈ files, ∀ place, d'.locate (Path.join dir f.1) = .ok place → d.tree.text? place = some f.2 := by
  constructor
  · intro hsame f hf place hlocate
    obtain ⟨place', hlocate', htext⟩ := text?_of_textOf (h.text f hf)
    obtain rfl : place = place' := Except.ok.inj (hlocate.symm.trans hlocate')
    rw [← hsame, htext]
  · intro hthere
    funext place
    by_cases hplace : ∀ f ∈ files, d'.locate (Path.join dir f.1) ≠ .ok place
    · exact h.others place hplace
    · obtain ⟨f, hf, hlocate⟩ : ∃ f ∈ files, d'.locate (Path.join dir f.1) = .ok place := by simpa using hplace
      obtain ⟨place', hlocate', htext⟩ := text?_of_textOf (h.text f hf)
      obtain rfl : place = place' := Except.ok.inj (hlocate.symm.trans hlocate')
      rw [htext, hthere f hf place hlocate]

/-- A file that is written after folders are made. -/
theorem stored_after_makeFolders {made : Disk} {folder path text : String} {outcome : Except IoError Unit}
    (hrooted : d.IsRooted) (hpath : Path.IsBelow path) (hmakes : d.makeFolders folder = (made, outcome))
    (h : made.putText (Path.join dir path) text = .ok d') : Stored dir d d' [(path, text)] := by
  have hmade := stored_makeFolders hrooted dir folder
  rw [hmakes] at hmade
  refine hmade.append (stored_putText (hrooted.of_kept hmade.kept) h) (List.forall_mem_singleton.mpr hpath) ?_
  exact fun _ hf => absurd hf List.not_mem_nil

/-- A file that is stored with its folders, or refused. -/
theorem stored_store (hrooted : d.IsRooted) (dir : String) {path : String} (hpath : Path.IsBelow path) (text : String) :
    ((d.store (Path.join dir path) text).2 = .ok () →
        Stored dir d (d.store (Path.join dir path) text).1 [(path, text)]) ∧
      ((d.store (Path.join dir path) text).2 ≠ .ok () → Stored dir d (d.store (Path.join dir path) text).1 []) := by
  have hmade := stored_makeFolders hrooted dir (Path.parent (Path.join dir path))
  unfold store
  split
  · rename_i made cause hmakes
    rw [hmakes] at hmade
    exact ⟨fun h => (nomatch h), fun _ => hmade⟩
  · rename_i made hmakes
    rw [hmakes] at hmade
    split
    · exact ⟨fun h => (nomatch h), fun _ => hmade⟩
    · rename_i written hwritten
      exact ⟨fun _ => stored_after_makeFolders hrooted hpath hmakes hwritten, fun h => absurd rfl h⟩

end Disk

/-! ### Storing file sets -/

namespace FileSet

/-- The paths of files with their texts. -/
def texts (entries : List (String × List String)) : List (String × String) :=
  entries.map fun e => (e.1, Text.ofLines e.2)

variable {d : Disk} {dir : String}

theorem storeAll_nil (dir : String) (d : Disk) : storeAll dir d [] = (d, .ok ()) := rfl

seal Disk.store in
theorem storeAll_cons (dir : String) (d : Disk) (e : String × List String) (rest : List (String × List String)) :
    storeAll dir d (e :: rest) =
      match d.store (Path.join dir e.1) (Text.ofLines e.2) with
      | (written, .ok ()) => storeAll dir written rest
      | (left, .error cause) => (left, .error cause) := rfl

/-- Files of which each has its own path are stored one after the other, all of them or those before a
refusal. -/
theorem stored_storeAll (hrooted : d.IsRooted) {entries : List (String × List String)}
    (hbelow : ∀ e ∈ entries, Path.IsBelow e.1) (hdiffer : entries.Pairwise fun a b => a.1 ≠ b.1) :
    ∃ stored rest, entries = stored ++ rest ∧ Disk.Stored dir d (storeAll dir d entries).1 (texts stored) ∧
      ((storeAll dir d entries).2 = .ok () → rest = []) ∧
      ∀ e ∈ entries.head?, (d.store (Path.join dir e.1) (Text.ofLines e.2)).2 = .ok () → e ∈ stored := by
  induction entries generalizing d with
  | nil =>
    rw [storeAll_nil]
    exact ⟨[], [], rfl, Disk.stored_nil (Disk.Kept.refl d) rfl, fun _ => rfl, fun _ he => nomatch he⟩
  | cons e entries ih =>
    obtain ⟨hfirst, hothers⟩ := List.forall_mem_cons.mp hbelow
    obtain ⟨hne, hrest⟩ := List.pairwise_cons.mp hdiffer
    obtain ⟨hstored, hrefused⟩ := Disk.stored_store hrooted dir hfirst (Text.ofLines e.2)
    rw [storeAll_cons]
    split
    · rename_i written hwritten
      have hone := hstored (congrArg Prod.snd hwritten)
      rw [hwritten] at hone
      obtain ⟨stored, rest, rfl, hmore, hall, -⟩ := ih (hrooted.of_kept hone.kept) hothers hrest
      refine ⟨e :: stored, rest, rfl, hone.append hmore ?_ ?_, hall, fun f hf _ => ?_⟩
      · intro f hf
        obtain ⟨e', he', rfl⟩ := List.mem_map.mp (show f ∈ texts (e :: stored) from hf)
        exact hbelow e' (List.mem_append_left rest he')
      · intro f hf f' hf'
        obtain ⟨e', he', rfl⟩ := List.mem_map.mp hf'
        rw [List.mem_singleton.mp hf]
        exact hne e' (List.mem_append_left rest he')
      · cases hf
        exact List.mem_cons_self
    · rename_i left cause hcause
      have hnothing := hrefused (by rw [hcause]; exact fun h => nomatch h)
      rw [hcause] at hnothing
      refine ⟨[], e :: entries, rfl, hnothing, fun h => (nomatch h), fun f hf hok => ?_⟩
      cases hf
      rw [hcause] at hok
      cases hok

end FileSet

end QuantNet
