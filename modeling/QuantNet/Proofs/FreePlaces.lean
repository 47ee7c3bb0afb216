import Mathlib.Data.List.Induction
import Mathlib.Data.Prod.Basic
import QuantNet.Proofs.StoredFiles

/-!
# Free places

When a file can be stored, and what else appears then.

A file is stored after the folders above it are made, and both can be refused. Nothing is refused below a directory
if the file system takes the names, no file stands where a folder is needed, and no folder stands in the place of the
file (`Disk.store_eq_ok`). The folders that appear are those above the file (`Disk.isFolder_of_store`). So files can be
stored one after the other in a directory that holds nothing else (`Disk.HoldsOnly`), as long as none of their paths
is a folder on the way to another one (`Disk.Fits`): what one file adds never stands in the way of the next
(`Disk.HoldsOnly.exists_store`).

How a chain of folders is made looks complicated, because the folders above are made only if the last one is refused
for want of them. Both results go by induction on the chain from its end, as the definition does.
-/

namespace QuantNet

/-! ### The directory of a file -/

namespace Path

theorem check_of_prefix {path whole : String} (h : path.toList <+: whole.toList) (hwhole : check whole = .ok ()) :
    check path = .ok () := by
  obtain ⟨rest, hrest⟩ := h
  obtain rfl : path ++ String.ofList rest = whole := by
    rw [← String.toList_inj, String.toList_append, String.toList_ofList, hrest]
  unfold check at hwhole ⊢
  split_ifs at hwhole with hzero hlong
  have hzero' : path.toList.contains '\x00' = false := by
    simp only [String.toList_append, List.contains_iff_mem, List.mem_append, not_or] at hzero
    simpa using hzero.1
  have hlong' : ¬ 4096 ≤ path.utf8ByteSize := by
    rw [String.utf8ByteSize_append] at hlong
    omega
  rw [hzero', if_neg Bool.false_ne_true, if_neg hlong']

/-- What a path in a directory is accepted for, the directory is accepted for. -/
theorem check_of_join {dir path : String} (hpath : isAbsolute path = false) (hcheck : check (join dir path) = .ok ()) :
    check dir = .ok () := by
  refine check_of_prefix ?_ hcheck
  rw [join_eq_ite hpath]
  split_ifs with hdir
  · rw [hdir]
    exact List.nil_prefix
  · rw [String.toList_append]
    exact List.prefix_append _ _
  · rw [String.toList_append, String.toList_append, List.append_assoc]
    exact List.prefix_append _ _

/-- An extension is added to a path before or after the path is joined to a directory. -/
theorem join_append {tail extension : String} (h : isAbsolute (tail ++ extension) = false) (base : String) :
    join base tail ++ extension = join base (tail ++ extension) := by
  have htail : isAbsolute tail = false := by
    by_cases hempty : tail = ""
    · rw [hempty]
      rfl
    · have hne : tail.toList ≠ [] := by simpa using hempty
      rw [isAbsolute, String.toList_append, List.head?_append_of_ne_nil _ hne] at h
      exact h
  rw [join_eq_ite htail, join_eq_ite h]
  split_ifs <;> simp only [String.append_assoc]

/-- A name and what follows it are joined to a directory one after the other. -/
theorem join_join {name tail : String} (hname : IsPlain name) (htail : isAbsolute tail = false) (base : String) :
    join (join base name) tail = join base (name ++ "/" ++ tail) := by
  obtain ⟨hempty, -, hslash⟩ := hname
  have hne : name.toList ≠ [] := by simpa using hempty
  have hhead : name.toList.head? ≠ some '/' := fun h => hslash (List.mem_of_mem_head? h)
  have hlast : name.toList.getLast? ≠ some '/' := fun h => hslash (List.mem_of_getLast? h)
  have hrelative : isAbsolute name = false := decide_eq_false hhead
  have hwhole : isAbsolute (name ++ "/" ++ tail) = false := by
    rw [String.append_assoc]
    refine decide_eq_false ?_
    rwa [String.toList_append, List.head?_append_of_ne_nil _ hne]
  -- whatever stands before a plain name, more can be joined to it after a slash
  have hnext : ∀ before : String, join (before ++ name) tail = before ++ name ++ "/" ++ tail := by
    intro before
    have hfull : before ++ name ≠ "" := fun h => hempty (String.append_eq_empty_iff.mp h).2
    have hend : (before ++ name).toList.getLast? ≠ some '/' := by
      rwa [String.toList_append, List.getLast?_append_of_ne_nil _ hne]
    rw [join_eq_ite htail, if_neg hfull, if_neg hend]
  rw [join_eq_ite hrelative, join_eq_ite hwhole]
  split_ifs
  · have hfirst := hnext ""
    rwa [String.empty_append] at hfirst
  · rw [hnext]
    simp only [String.append_assoc]
  · rw [hnext]
    simp only [String.append_assoc]

/-- Names that are joined to a directory one after the other are joined to it at once. -/
theorem foldl_join {names : List String} (hne : names ≠ []) (h : ∀ name ∈ names, IsPlain name) (base : String) :
    names.foldl join base = join base ("/".intercalate names) := by
  induction names generalizing base with
  | nil => exact absurd rfl hne
  | cons name rest ih =>
    obtain ⟨hname, hrest⟩ := List.forall_mem_cons.mp h
    cases rest with
    | nil => rw [List.foldl_cons, List.foldl_nil, String.intercalate_singleton]
    | cons next rest =>
      have hnext : next.toList ≠ [] := by simpa using (hrest next List.mem_cons_self).1
      have hhead : next.toList.head? ≠ some '/' := fun hslash =>
        (hrest next List.mem_cons_self).2.2 (List.mem_of_mem_head? hslash)
      have htail : isAbsolute ("/".intercalate (next :: rest)) = false := by
        refine decide_eq_false ?_
        cases rest with
        | nil => rwa [String.intercalate_singleton]
        | cons =>
          rw [String.intercalate_cons_cons, String.append_assoc, String.toList_append,
            List.head?_append_of_ne_nil _ hnext]
          exact hhead
      rw [List.foldl_cons, ih (List.cons_ne_nil _ _) hrest, join_join hname htail, String.intercalate_cons_cons]

theorem trimEnd_suffix (fields : List String) : trimEnd fields <:+ fields := by
  induction fields using trimEnd.induct with
  | case1 => exact List.suffix_rfl
  | case2 first => exact List.suffix_rfl
  | case3 field rest hne hblank ih =>
    rw [trimEnd, if_pos hblank]
    · exact ih.trans (List.suffix_cons field rest)
    · exact hne
  | case4 field rest hne hblank =>
    have hall : trimEnd (field :: rest) = field :: rest := by
      rw [trimEnd, if_neg hblank]
      exact hne
    exact ⟨[], by rw [hall, List.nil_append]⟩

/-- Only fields that are no components are left out. -/
theorem filter_trimEnd (fields : List String) :
    ((trimEnd fields).filter fun c => c ≠ "" && c ≠ ".") = fields.filter fun c => c ≠ "" && c ≠ "." := by
  induction fields using trimEnd.induct with
  | case1 => rfl
  | case2 first => rfl
  | case3 field rest hne hblank ih =>
    rw [trimEnd, if_pos hblank, ih, List.filter_cons_of_neg]
    · rcases hblank with rfl | rfl <;> decide
    · exact hne
  | case4 field rest hne hblank =>
    rw [trimEnd, if_neg hblank]
    exact hne

theorem namesDirectory_eq_false_iff {path : String} :
    namesDirectory path = false ↔
      ∃ folders name, Text.fields '/' path = folders ++ [name] ∧ name ≠ "" ∧ name ≠ "." := by
  unfold namesDirectory
  cases hlast : (Text.fields '/' path).getLast? with
  | none => exact absurd (List.getLast?_eq_none_iff.mp hlast) (Text.fields_ne_nil '/' path)
  | some last =>
    obtain ⟨folders, hfolders⟩ := List.getLast?_eq_some_iff.mp hlast
    simp [hfolders]

section File

variable {path : String} (hfile : namesDirectory path = false)
include hfile

/-- The directory of a file is the path without its last field, and without fields before it that are no
components; what is left of a path from the root is the root. -/
theorem exists_parent_eq : ∃ kept rest name, Text.fields '/' path = kept ++ rest ++ [name] ∧
    components path = (kept.filter fun c => c ≠ "" && c ≠ ".") ++ [name] ∧
    parent path = if "/".intercalate kept = "" ∧ isAbsolute path then "/" else "/".intercalate kept := by
  obtain ⟨folders, name, hfields, hempty, hdot⟩ := namesDirectory_eq_false_iff.mp hfile
  obtain ⟨dropped, hdropped⟩ := trimEnd_suffix folders.reverse
  refine ⟨(trimEnd folders.reverse).reverse, dropped.reverse, name, ?_, ?_, ?_⟩
  · rw [hfields, ← List.reverse_append, hdropped, List.reverse_reverse]
  · rw [components, hfields, List.filter_append, List.filter_reverse, filter_trimEnd, List.filter_reverse,
      List.reverse_reverse]
    simp [hempty, hdot]
  · have hlast : trimEnd (Text.fields '/' path).reverse = name :: folders.reverse := by
      rw [hfields, List.reverse_concat]
      cases hfolders : folders.reverse with
      | nil => rfl
      | cons field more =>
        rw [trimEnd, if_neg (not_or_intro hempty hdot)]
        exact List.cons_ne_nil _ _
    simp only [parent, parent?, hlast, if_neg hempty, Option.getD_some]

theorem parent_prefix_toList : (parent path).toList <+: path.toList := by
  obtain ⟨kept, rest, name, hfields, -, hparent⟩ := exists_parent_eq hfile
  rw [hparent]
  split_ifs with hroot
  · obtain ⟨cs, hcs⟩ := List.head?_eq_some_iff.mp (of_decide_eq_true hroot.2)
    exact ⟨cs, by rw [hcs]; rfl⟩
  · have hslash : "/".toList = ['/'] := rfl
    rw [← Text.intercalate_fields hslash path, hfields, List.append_assoc]
    by_cases hkept : kept = []
    · rw [hkept]
      exact List.nil_prefix
    · rw [String.intercalate_append_of_ne_nil hkept (List.concat_ne_nil _ _), String.toList_append,
        String.toList_append, List.append_assoc]
      exact List.prefix_append _ _

/-- What the path of a file is accepted for, its directory is accepted for. -/
theorem check_parent (hcheck : check path = .ok ()) : check (parent path) = .ok () :=
  check_of_prefix (parent_prefix_toList hfile) hcheck

theorem components_parent : components (parent path) = (components path).dropLast := by
  obtain ⟨kept, rest, name, hfields, hcomponents, hparent⟩ := exists_parent_eq hfile
  rw [hcomponents, List.dropLast_concat]
  have hfolder : components ("/".intercalate kept) = kept.filter fun c => c ≠ "" && c ≠ "." := by
    by_cases hkept : kept = []
    · rw [hkept]
      rfl
    · rw [components, Text.fields_intercalate rfl hkept]
      intro field hfield
      have hmem : field ∈ Text.fields '/' path := by
        rw [hfields]
        exact List.mem_append_left _ (List.mem_append_left _ hfield)
      exact Text.not_mem_of_mem_fields hmem
  rw [hparent, ← hfolder]
  split_ifs with hroot
  · rw [hroot.1]
    rfl
  · rfl

theorem isAbsolute_parent : isAbsolute (parent path) = isAbsolute path := by
  obtain ⟨kept, rest, name, -, -, hparent⟩ := exists_parent_eq hfile
  have hprefix := parent_prefix_toList hfile
  by_cases hempty : parent path = ""
  · -- only a path that does not start at the root has nothing left
    have hrelative : isAbsolute path = false := by
      rw [hparent] at hempty
      split_ifs at hempty with hroot
      · exact absurd hempty (by decide)
      · simpa [hempty] using hroot
    rw [hempty, hrelative]
    rfl
  · obtain ⟨more, hmore⟩ := hprefix
    have hne : (parent path).toList ≠ [] := by simpa using hempty
    rw [isAbsolute, isAbsolute, ← hmore, List.head?_append_of_ne_nil _ hne]

end File

end Path

/-! ### Folders that can be made -/

namespace Tree

/-- A name that the file system takes and that does not lead back up. -/
def IsEntryName (name : String) : Prop := name ≠ ".." ∧ isLongName name = false

section Free

variable {t : Tree} {start base : List String}

theorem get?_of_text?_eq_none {place : List String} (h : t.text? place = none) :
    t.get? place = none ∨ t.IsFolder place := by
  unfold text? at h
  split at h
  · cases h
  · rename_i hfile
    cases hget : t.get? place with
    | none => exact Or.inl rfl
    | some x =>
      cases x with
      | file text => exact absurd hget (hfile text)
      | folder contents => exact Or.inr ⟨contents, hget⟩

/-- Names that lead down past no file lead to a folder, unless a folder is missing. -/
theorem walk_down {names : List String} (hnames : ∀ name ∈ names, IsEntryName name)
    (hfree : ∀ above, above <+: names → t.text? (base ++ above) = none) :
    t.walk base names = .ok (base ++ names) ∨ t.walk base names = .error .notFound := by
  induction names generalizing base with
  | nil => exact Or.inl (by rw [walk, List.append_nil])
  | cons name rest ih =>
    obtain ⟨⟨hup, hlong⟩, hrest⟩ := List.forall_mem_cons.mp hnames
    have hbelow : ∀ above, above <+: rest → t.text? (base ++ [name] ++ above) = none := by
      intro above habove
      rw [List.append_assoc]
      exact hfree _ ((List.prefix_append_right_inj [name]).mpr habove)
    have hhere := hbelow [] List.nil_prefix
    rw [List.append_nil] at hhere
    rw [walk, if_neg hup, hlong, if_neg Bool.false_ne_true]
    rcases get?_of_text?_eq_none hhere with hnone | ⟨contents, hfolder⟩
    · rw [hnone]
      exact Or.inr rfl
    · rw [hfolder, show base ++ name :: rest = base ++ [name] ++ rest by simp]
      exact ih hrest hbelow

/-- A path leads on into a folder by its name. -/
theorem walk_concat {parents : List String} {name : String} (hname : IsEntryName name)
    (hwalk : t.walk start parents = .ok base) (hfolder : t.IsFolder (base ++ [name])) :
    t.walk start (parents ++ [name]) = .ok (base ++ [name]) :=
  walk_append_eq_ok.mpr ⟨base, hwalk, walk_cons_eq_ok.mpr (Or.inr ⟨hname.1, hname.2, hfolder, rfl⟩)⟩

/-- A folder that can be reached is made again without refusal. -/
theorem ensureFolder_of_walk {parents : List String} {name : String}
    (hwalk : t.walk start (parents ++ [name]) = .ok base) : (t.ensureFolder start parents name).2 = .ok () := by
  unfold ensureFolder
  cases t.makeFolder start parents name with
  | ok made => rfl
  | error cause =>
    rw [hwalk]
    rfl

/-- A folder is made, or it is there already, where no file has its name. -/
theorem ensureFolder_eq_ok {parents : List String} {name : String} (hname : IsEntryName name)
    (hwalk : t.walk start parents = .ok base) (hfree : t.text? (base ++ [name]) = none) :
    (t.ensureFolder start parents name).2 = .ok () := by
  rcases get?_of_text?_eq_none hfree with hnone | hthere
  · rw [ensureFolder, makeFolder_eq_ok.mpr ⟨base, hwalk, hname.1, hname.2, hnone, rfl⟩]
  · exact ensureFolder_of_walk (walk_concat hname hwalk hthere)

/-- A folder whose parents cannot be found is not made. -/
theorem ensureFolder_of_notFound {parents : List String} (name : String)
    (hwalk : t.walk start parents = .error .notFound) :
    t.ensureFolder start parents name = (t, .error .notFound) := by
  have hmake : t.makeFolder start parents name = .error .notFound := by
    rw [makeFolder, hwalk]
    rfl
  have hreach : (t.walk start (parents ++ [name])).isOk = false := by
    cases hok : t.walk start (parents ++ [name]) with
    | error cause => rfl
    | ok place =>
      obtain ⟨between, hbetween, -⟩ := walk_append_eq_ok.mp hok
      cases hwalk.symm.trans hbetween
  rw [ensureFolder, hmake, hreach]
  rfl

theorem walk_append_of_ok {first : List String} (hwalk : t.walk start first = .ok base) (second : List String) :
    t.walk start (first ++ second) = t.walk base second := by
  induction first generalizing start with
  | nil =>
    cases hwalk
    rfl
  | cons name rest ih =>
    rcases walk_cons_eq_ok.mp hwalk with ⟨hup, hrest⟩ | ⟨hup, hlong, ⟨contents, hfolder⟩, hrest⟩
    · rw [List.cons_append, walk, if_pos hup, ih hrest]
    · rw [List.cons_append, walk, if_neg hup, hlong, if_neg Bool.false_ne_true, hfolder]
      exact ih hrest

/-- A folder that can be reached is made again with the folders above it. -/
theorem makeFolders_of_walk {components : List String} (hwalk : t.walk start components = .ok base) :
    (t.makeFolders start components.reverse).2 = .ok () := by
  rcases List.eq_nil_or_concat' components with rfl | ⟨parents, name, rfl⟩
  · rfl
  · rw [List.reverse_concat, makeFolders, List.reverse_reverse, Prod.snd_eq_iff.mp (ensureFolder_of_walk hwalk)]

/-- A chain of folders can be made below a folder if there is no file on the way. -/
theorem makeFolders_eq_ok (hstart : t.IsFolder start) {components names : List String}
    (hbase : t.walk start components = .ok base) (hnames : ∀ name ∈ names, IsEntryName name)
    (hfree : ∀ above, above <+: names → t.text? (base ++ above) = none) :
    (t.makeFolders start (components ++ names).reverse).2 = .ok () := by
  induction names using List.reverseRecOn with
  | nil =>
    rw [List.append_nil]
    exact makeFolders_of_walk hbase
  | append_singleton names name ih =>
    obtain ⟨hparents, hlast⟩ := List.forall_mem_append.mp hnames
    have hname := hlast name List.mem_cons_self
    have hhere := hfree (names ++ [name]) List.prefix_rfl
    rw [← List.append_assoc] at hhere
    have hmade := ih hparents fun above habove => hfree above (habove.trans (List.prefix_append names [name]))
    rw [← List.append_assoc, List.reverse_concat, makeFolders, List.reverse_reverse]
    have hdown := walk_append_of_ok hbase names
    rcases walk_down hparents fun above habove => hfree above (habove.trans (List.prefix_append names [name]))
      with hreach | hmissing
    · -- the folder above is there
      rw [Prod.snd_eq_iff.mp (ensureFolder_eq_ok hname (hdown.trans hreach) hhere)]
    · -- it is not, so it is made first
      rw [ensureFolder_of_notFound name (hdown.trans hmissing), Prod.snd_eq_iff.mp hmade]
      obtain ⟨hkept, hreach⟩ := of_makeFolders hstart (components ++ names).reverse
      obtain ⟨place, hplace⟩ := hreach hmade
      rw [List.reverse_reverse] at hplace
      have hbelow := hplace
      rw [walk_append_of_ok (hkept.walk hbase)] at hbelow
      obtain rfl := eq_append_of_walk (fun n hn => (hparents n hn).1) hbelow
      exact ensureFolder_eq_ok hname hplace (by rw [text?_makeFolders hstart]; exact hhere)

end Free

/-! ### Folders that appear -/

/-- A folder with one entry replaced has new folders below this entry only. -/
theorem isFolder_of_setChild {name : String} {contents : List (String × Tree)} {new : Tree} {place : List String}
    (hnew : ∀ rest, place = name :: rest → new.IsFolder rest → (folder contents).IsFolder place)
    (h : (folder (setChild name new contents)).IsFolder place) : (folder contents).IsFolder place := by
  cases place with
  | nil => exact ⟨contents, rfl⟩
  | cons n rest =>
    obtain ⟨inside, hinside⟩ := h
    obtain ⟨child, hchild, hrest⟩ := get?_cons_eq_some.mp hinside
    rw [children, lookup_setChild] at hchild
    split at hchild
    · rename_i hn
      cases hchild
      exact hnew rest (by rw [hn]) ⟨inside, hrest⟩
    · exact ⟨inside, get?_cons_eq_some.mpr ⟨child, hchild, hrest⟩⟩

/-- What is put into a folder adds no folder elsewhere. -/
theorem isFolder_of_put {t new : Tree} {place other : List String} {name : String} (hfolder : t.IsFolder place)
    (hother : ¬ place ++ [name] <+: other) (h : (put new t (place ++ [name])).IsFolder other) : t.IsFolder other := by
  induction place generalizing t other with
  | nil =>
    obtain ⟨contents, hcontents⟩ := hfolder
    cases hcontents
    refine isFolder_of_setChild (fun rest hrest _ => absurd ?_ hother) h
    exact ⟨rest, hrest.symm⟩
  | cons first place ih =>
    obtain ⟨contents, hcontents⟩ := hfolder
    obtain ⟨child, hchild, hplace⟩ := get?_cons_eq_some.mp hcontents
    cases t with
    | file text => cases hchild
    | folder entries =>
      rw [List.cons_append, put, hchild, Option.getD_some] at h
      refine isFolder_of_setChild (fun rest hrest hnew => ?_) h
      subst hrest
      obtain ⟨inside, hinside⟩ := ih ⟨contents, hplace⟩
        (fun hprefix => hother (by rw [List.cons_append]; exact List.cons_prefix_cons.mpr ⟨rfl, hprefix⟩)) hnew
      exact ⟨inside, get?_cons_eq_some.mpr ⟨child, hchild, hinside⟩⟩

/-- How a chain of folders is made: the last one at once, or the folders above it first, and then the last
one unless they are refused. -/
theorem makeFolders_cons_cases (t : Tree) (start : List String) (name : String) (parents : List String) :
    t.makeFolders start (name :: parents) = t.ensureFolder start parents.reverse name ∨
      t.makeFolders start (name :: parents) = t.makeFolders start parents ∨
      t.makeFolders start (name :: parents) =
        (t.makeFolders start parents).1.ensureFolder start parents.reverse name := by
  rw [makeFolders]
  split
  · split
    · rename_i made hmade
      rw [hmade]
      exact Or.inr (Or.inr rfl)
    · exact Or.inr (Or.inl rfl)
  · exact Or.inl rfl

section Folders

variable {t : Tree} {start : List String} (hstart : t.IsFolder start)
include hstart

theorem isFolder_of_ensureFolder {parents other : List String} {name : String}
    (h : (t.ensureFolder start parents name).1.IsFolder other) :
    t.IsFolder other ∨ (t.ensureFolder start parents name).1.walk start (parents ++ [name]) = .ok other := by
  unfold ensureFolder at h ⊢
  cases hmake : t.makeFolder start parents name with
  | error cause =>
    rw [hmake] at h
    exact Or.inl h
  | ok made =>
    rw [hmake] at h
    obtain ⟨hkept, -⟩ := of_makeFolder hstart hmake
    obtain ⟨place, hwalk, hup, hlong, -, rfl⟩ := makeFolder_eq_ok.mp hmake
    by_cases hbelow : place ++ [name] <+: other
    · -- the new folder is empty, so it is the only one
      obtain ⟨rest, rfl⟩ := hbelow
      obtain ⟨inside, hinside⟩ := h
      rw [get?_append, get?_put_self, Option.bind_some] at hinside
      cases rest with
      | cons n rest => cases hinside
      | nil =>
        rw [List.append_nil]
        exact Or.inr (walk_concat ⟨hup, hlong⟩ (hkept.walk hwalk) ⟨[], get?_put_self _ _ _⟩)
    · exact Or.inl (isFolder_of_put (isFolder_of_walk hstart hwalk) hbelow h)

/-- The folders that appear when a chain of folders is made are those of the chain. -/
theorem isFolder_of_makeFolders {names other : List String} (h : (t.makeFolders start names).1.IsFolder other) :
    t.IsFolder other ∨
      ∃ first, first <+: names.reverse ∧ (t.makeFolders start names).1.walk start first = .ok other := by
  induction names generalizing other with
  | nil => exact Or.inl h
  | cons name parents ih =>
    have hchain : parents.reverse ++ [name] <+: (name :: parents).reverse :=
      ⟨[], by rw [List.append_nil, List.reverse_cons]⟩
    have habove : parents.reverse <+: (name :: parents).reverse := (List.prefix_append _ _).trans hchain
    rcases makeFolders_cons_cases t start name parents with heq | heq | heq <;> rw [heq] at h ⊢
    · exact (isFolder_of_ensureFolder hstart h).imp_right fun hwalk => ⟨_, hchain, hwalk⟩
    · exact (ih h).imp_right fun ⟨first, hfirst, hwalk⟩ => ⟨first, hfirst.trans habove, hwalk⟩
    · -- what was made before the last folder is still there
      have hmade := (of_makeFolders hstart parents).1.isFolder hstart
      have hkept := (of_ensureFolder hmade parents.reverse name).1
      rcases isFolder_of_ensureFolder hmade h with hbefore | hwalk
      · exact (ih hbefore).imp_right fun ⟨first, hfirst, hwalk⟩ => ⟨first, hfirst.trans habove, hkept.walk hwalk⟩
      · exact Or.inr ⟨_, hchain, hwalk⟩

end Folders

end Tree

/-! ### Files that can be stored -/

namespace Path

variable {path : String} (hpath : IsBelow path)
include hpath

/-- A path that leads down names a file, wherever it starts. -/
theorem IsBelow.namesDirectory_join (dir : String) : namesDirectory (join dir path) = false := by
  rw [Path.namesDirectory_join hpath.isAbsolute, namesDirectory_eq_false_iff]
  obtain ⟨folders, name, hfields⟩ := (List.eq_nil_or_concat' _).resolve_left (Text.fields_ne_nil '/' path)
  obtain ⟨⟨hempty, hdot, -⟩, -⟩ := hpath name (hfields ▸ List.mem_append_right folders List.mem_cons_self)
  exact ⟨folders, name, hfields, hempty, hdot⟩

theorem IsBelow.components_parent_join (dir : String) :
    Path.components (parent (join dir path)) = Path.components dir ++ (Text.fields '/' path).dropLast := by
  rw [components_parent (hpath.namesDirectory_join dir), components_join hpath.isAbsolute, hpath.components,
    List.dropLast_append_of_ne_nil (Text.fields_ne_nil '/' path)]

end Path

namespace Disk

variable {d : Disk} {dir : String} {base : List String}

/-- The file system takes the names of a path in a directory. -/
structure Accepts (dir path : String) : Prop where
  check : Path.check (Path.join dir path) = .ok ()
  names : ∀ name ∈ Text.fields '/' path, Tree.isLongName name = false

/-- The directory is a folder of the disk, at a place. -/
structure IsDirectory (d : Disk) (dir : String) (base : List String) : Prop where
  rooted : d.IsRooted
  walk : d.tree.walk (d.start dir) (Path.components dir) = .ok base

theorem IsDirectory.of_kept {d' : Disk} (h : d.IsDirectory dir base) (hkept : Kept d d') : d'.IsDirectory dir base := by
  refine ⟨h.rooted.of_kept hkept, ?_⟩
  have hstart : d'.start dir = d.start dir := by rw [start, start, hkept.home]
  rw [hstart]
  exact hkept.tree.walk h.walk

/-- Where a path below the directory leads. -/
theorem IsDirectory.eq_of_locate (h : d.IsDirectory dir base) {path : String} (hpath : Path.IsBelow path)
    {place : List String} (hlocate : d.locate (Path.join dir path) = .ok place) :
    place = base ++ Text.fields '/' path := by
  obtain ⟨base', hbase', rfl⟩ := of_locate_join hpath hlocate
  rw [Except.ok.inj (h.walk.symm.trans hbase')]

/-- The folders on the way to a directory were there before. -/
theorem IsDirectory.isFolder_on_way (h : d.IsDirectory dir base) {t : Tree} (hkept : d.tree.Kept t)
    {first place : List String} (hfirst : first <+: Path.components dir)
    (hwalk : t.walk (d.start dir) first = .ok place) : d.tree.IsFolder place := by
  obtain ⟨rest, hrest⟩ := hfirst
  have hway := h.walk
  rw [← hrest] at hway
  obtain ⟨between, hbetween, -⟩ := Tree.walk_append_eq_ok.mp hway
  obtain rfl : between = place := Except.ok.inj ((hkept.walk hbetween).symm.trans hwalk)
  exact Tree.isFolder_of_walk (h.rooted.isFolder_start dir) hbetween

/-- Where the directory of a file below another directory is looked for. -/
theorem start_parent_join (d : Disk) {path : String} (hpath : Path.IsBelow path) (dir : String) :
    d.start (Path.parent (Path.join dir path)) = d.start dir := by
  rw [start, start, Path.isAbsolute_parent (hpath.namesDirectory_join dir), Path.isAbsolute_join hpath.isAbsolute]

/-- A directory is made again without refusal, and no folder appears. -/
theorem IsDirectory.exists_makeFolders (h : d.IsDirectory dir base) (hcheck : Path.check dir = .ok ()) :
    ∃ made, d.makeFolders dir = (made, .ok ()) ∧ made.IsDirectory dir base ∧
      ∀ place, made.tree.IsFolder place → d.tree.IsFolder place := by
  have hkept := (of_makeFolders h.rooted dir).1
  have hok : (d.makeFolders dir).2 = .ok () := by
    rw [makeFolders, hcheck]
    exact Tree.makeFolders_of_walk h.walk
  refine ⟨_, Prod.snd_eq_iff.mp hok, h.of_kept hkept, fun place hplace => ?_⟩
  rw [makeFolders, hcheck] at hkept hplace
  rcases Tree.isFolder_of_makeFolders (h.rooted.isFolder_start dir) hplace with hbefore | ⟨first, hfirst, hwalk⟩
  · exact hbefore
  · rw [List.reverse_reverse] at hfirst
    exact h.isFolder_on_way hkept.tree hfirst hwalk

/-- A file that is written adds no folder. -/
theorem isFolder_of_putText {d' : Disk} (hrooted : d.IsRooted) {path text : String}
    (h : d.putText path text = .ok d') {place : List String} (hplace : d'.tree.IsFolder place) :
    d.tree.IsFolder place := by
  obtain ⟨_, hlocate, -, -, rfl⟩ := putText_eq_ok.mp h
  obtain ⟨-, above, name, -, hwalk, -, -, rfl⟩ := locate_eq_ok.mp hlocate
  refine Tree.isFolder_of_put (Tree.isFolder_of_walk (hrooted.isFolder_start path) hwalk) ?_ hplace
  rintro ⟨rest, rfl⟩
  obtain ⟨contents, hcontents⟩ := hplace
  rw [putFile, Tree.get?_append, Tree.get?_put_self, Option.bind_some] at hcontents
  cases rest with
  | nil => cases hcontents
  | cons n rest => cases hcontents

section Store

variable (hdir : d.IsDirectory dir base) {path : String} (hpath : Path.IsBelow path)
include hdir hpath

/-- The folders that appear when the directory of a file is made are those above the file. -/
theorem isFolder_of_makeFolders_parent {names : List String}
    (h : (d.makeFolders (Path.parent (Path.join dir path))).1.tree.IsFolder (base ++ names)) :
    d.tree.IsFolder (base ++ names) ∨ names <+: (Text.fields '/' path).dropLast := by
  have hkept := (of_makeFolders hdir.rooted (Path.parent (Path.join dir path))).1.tree
  unfold makeFolders at h hkept
  cases hcheck : Path.check (Path.parent (Path.join dir path)) with
  | error cause =>
    rw [hcheck] at h
    exact Or.inl h
  | ok _ =>
    rw [hcheck] at h hkept
    rw [start_parent_join d hpath, hpath.components_parent_join] at h hkept
    rcases Tree.isFolder_of_makeFolders (hdir.rooted.isFolder_start dir) h with hbefore | ⟨first, hfirst, hwalk⟩
    · exact Or.inl hbefore
    rw [List.reverse_reverse] at hfirst
    rcases List.prefix_or_prefix_of_prefix hfirst (List.prefix_append _ _) with hway | ⟨more, rfl⟩
    · exact Or.inl (hdir.isFolder_on_way hkept hway hwalk)
    · obtain ⟨between, hbetween, hdown⟩ := Tree.walk_append_eq_ok.mp hwalk
      obtain rfl : base = between := Except.ok.inj ((hkept.walk hdir.walk).symm.trans hbetween)
      have hmore := (List.prefix_append_right_inj _).mp hfirst
      have hplace := Tree.eq_append_of_walk (fun n hn => (hpath n (List.dropLast_subset _ (hmore.subset hn))).2) hdown
      rw [List.append_cancel_left hplace]
      exact Or.inr hmore

/-- The directory of a file can be made below a directory if the file system takes its names and no file is on
its way. -/
theorem exists_makeFolders_parent (haccepts : Accepts dir path)
    (hfree : ∀ above, above <+: (Text.fields '/' path).dropLast → d.tree.text? (base ++ above) = none) :
    ∃ made, d.makeFolders (Path.parent (Path.join dir path)) = (made, .ok ()) ∧ made.IsDirectory dir base ∧
      made.tree.walk base (Text.fields '/' path).dropLast = .ok (base ++ (Text.fields '/' path).dropLast) := by
  have hparents : ∀ name ∈ (Text.fields '/' path).dropLast, Tree.IsEntryName name := fun name hname =>
    ⟨(hpath name (List.dropLast_subset _ hname)).2, haccepts.names name (List.dropLast_subset _ hname)⟩
  obtain ⟨hkept, hreach⟩ := of_makeFolders hdir.rooted (Path.parent (Path.join dir path))
  rw [start_parent_join d hpath, hpath.components_parent_join] at hreach
  have hmade : (d.makeFolders (Path.parent (Path.join dir path))).2 = .ok () := by
    rw [makeFolders, Path.check_parent (hpath.namesDirectory_join dir) haccepts.check, start_parent_join d hpath,
      hpath.components_parent_join]
    exact Tree.makeFolders_eq_ok (hdir.rooted.isFolder_start dir) hdir.walk hparents hfree
  obtain ⟨place, hplace⟩ := hreach hmade
  rw [Tree.walk_append_of_ok (hkept.tree.walk hdir.walk)] at hplace
  refine ⟨_, Prod.snd_eq_iff.mp hmade, hdir.of_kept hkept, ?_⟩
  rw [hplace, Tree.eq_append_of_walk (fun name hname => (hparents name hname).1) hplace]

/-- A file can be written into a folder below a directory if no folder is in its place. -/
theorem putText_of_walk (haccepts : Accepts dir path)
    (hwalk : d.tree.walk base (Text.fields '/' path).dropLast = .ok (base ++ (Text.fields '/' path).dropLast))
    (hfolder : ¬ d.tree.IsFolder (base ++ Text.fields '/' path)) (text : String) :
    d.putText (Path.join dir path) text = .ok (d.putFile (base ++ Text.fields '/' path) text) := by
  obtain ⟨folders, name, hfields⟩ := (List.eq_nil_or_concat' _).resolve_left (Text.fields_ne_nil '/' path)
  have hname : name ∈ Text.fields '/' path := hfields ▸ List.mem_append_right folders List.mem_cons_self
  refine putText_eq_ok.mpr ⟨_, locate_eq_ok.mpr ⟨haccepts.check, base ++ folders, name, ?_, ?_, (hpath name hname).2,
    haccepts.names name hname, ?_⟩, hpath.namesDirectory_join dir, fun contents hget => hfolder ⟨contents, hget⟩, rfl⟩
  · rw [Path.components_join hpath.isAbsolute, hpath.components, hfields, ← List.append_assoc, List.getLast?_concat]
  · rw [hfields, List.dropLast_concat] at hwalk
    rw [Path.components_join hpath.isAbsolute, hpath.components, hfields, ← List.append_assoc, List.dropLast_concat,
      start_join hpath.isAbsolute, Tree.walk_append_of_ok hdir.walk, hwalk]
  · rw [hfields, List.append_assoc]

/-- A file can be stored below a directory if the file system takes its names, no file is on its way and no
folder is in its place. -/
theorem store_eq_ok (haccepts : Accepts dir path)
    (hfree : ∀ above, above <+: (Text.fields '/' path).dropLast → d.tree.text? (base ++ above) = none)
    (hfolder : ¬ d.tree.IsFolder (base ++ Text.fields '/' path)) (text : String) :
    (d.store (Path.join dir path) text).2 = .ok () := by
  obtain ⟨made, hmade, hmadeDir, hwalk⟩ := exists_makeFolders_parent hdir hpath haccepts hfree
  have hfolders : (d.makeFolders (Path.parent (Path.join dir path))).1.tree.IsFolder (base ++ Text.fields '/' path) →
      _ := isFolder_of_makeFolders_parent hdir hpath
  rw [hmade] at hfolders
  have hput := putText_of_walk hmadeDir hpath haccepts hwalk
    (fun h => (hfolders h).elim hfolder (Text.not_fields_prefix_dropLast path)) text
  simp only [store, hmade, hput]

/-- The folders that appear when a file is stored are those above it. -/
theorem isFolder_of_store {text : String} {names : List String}
    (h : (d.store (Path.join dir path) text).1.tree.IsFolder (base ++ names)) :
    d.tree.IsFolder (base ++ names) ∨ names <+: (Text.fields '/' path).dropLast := by
  have hfolders : (d.makeFolders (Path.parent (Path.join dir path))).1.tree.IsFolder (base ++ names) → _ :=
    isFolder_of_makeFolders_parent hdir hpath
  have hkept := (of_makeFolders hdir.rooted (Path.parent (Path.join dir path))).1
  unfold store at h
  split at h
  · rename_i made cause hmade
    rw [hmade] at hfolders
    exact hfolders h
  · rename_i made hmade
    rw [hmade] at hfolders hkept
    split at h
    · exact hfolders h
    · rename_i written hwritten
      exact hfolders (isFolder_of_putText (hdir.rooted.of_kept hkept) hwritten h)

end Store

/-! ### Directories with nothing else in them -/

/-- The paths can all be files below a directory: they lead down, the file system takes their names, and none of
them is a folder on the way to another one. -/
structure Fits (dir : String) (paths : List String) : Prop where
  below : ∀ path ∈ paths, Path.IsBelow path
  accepts : ∀ path ∈ paths, Accepts dir path
  free : ∀ path ∈ paths, ∀ other ∈ paths, Text.fields '/' path <+: Text.fields '/' other → path = other

/-- Below a place there are no files but those of the paths, and no folders but those above them. -/
structure HoldsOnly (d : Disk) (base : List String) (paths : List String) : Prop where
  files : ∀ names text, d.tree.text? (base ++ names) = some text → ∃ path ∈ paths, names = Text.fields '/' path
  folders : ∀ names, names ≠ [] → d.tree.IsFolder (base ++ names) →
    ∃ path ∈ paths, names <+: (Text.fields '/' path).dropLast

theorem holdsOnly_of_empty (hempty : d.tree.get? base = some Tree.empty) (paths : List String) :
    d.HoldsOnly base paths := by
  refine ⟨fun names text htext => ?_, fun names hne hfolder => ?_⟩
  · rw [Tree.text?_append, hempty, Option.bind_some, Tree.text?_empty] at htext
    cases htext
  · obtain ⟨contents, hcontents⟩ := hfolder
    rw [Tree.get?_append, hempty, Option.bind_some] at hcontents
    cases names with
    | nil => exact absurd rfl hne
    | cons name rest => cases hcontents

/-- What storing one file leaves elsewhere below the directory. -/
theorem Stored.text?_of_ne {d' : Disk} {path text : String} (hdir : d.IsDirectory dir base)
    (hstored : Stored dir d d' [(path, text)]) (hpath : Path.IsBelow path) {names : List String}
    (hne : names ≠ Text.fields '/' path) : d'.tree.text? (base ++ names) = d.tree.text? (base ++ names) := by
  refine hstored.others _ fun f hf hlocate => hne ?_
  obtain rfl := List.mem_singleton.mp hf
  exact List.append_cancel_left ((hdir.of_kept hstored.kept).eq_of_locate hpath hlocate)

section Holds

variable {paths : List String} (hfits : Fits dir paths) (hdir : d.IsDirectory dir base)
  (hholds : d.HoldsOnly base paths) {path : String} (hpath : path ∈ paths)
include hfits hholds hpath

/-- No file is on the way to another one. -/
theorem HoldsOnly.text?_above {above : List String} (habove : above <+: (Text.fields '/' path).dropLast) :
    d.tree.text? (base ++ above) = none := by
  cases htext : d.tree.text? (base ++ above) with
  | none => rfl
  | some text =>
    obtain ⟨other, hother, rfl⟩ := hholds.files above text htext
    obtain rfl := hfits.free other hother path hpath (habove.trans (List.dropLast_prefix _))
    exact absurd habove (Text.not_fields_prefix_dropLast other)

/-- No folder is in the place of a file. -/
theorem HoldsOnly.not_isFolder : ¬ d.tree.IsFolder (base ++ Text.fields '/' path) := by
  intro hfolder
  obtain ⟨other, hother, habove⟩ := hholds.folders _ (Text.fields_ne_nil '/' path) hfolder
  obtain rfl := hfits.free path hpath other hother (habove.trans (List.dropLast_prefix _))
  exact Text.not_fields_prefix_dropLast path habove

include hdir

/-- Any of the files can be stored, and then there are still no others. -/
theorem HoldsOnly.exists_store (text : String) :
    ∃ written, d.store (Path.join dir path) text = (written, .ok ()) ∧ Stored dir d written [(path, text)] ∧
      written.HoldsOnly base paths := by
  have hbelow := hfits.below path hpath
  have hok := store_eq_ok hdir hbelow (hfits.accepts path hpath)
    (fun above habove => hholds.text?_above hfits hpath habove) (hholds.not_isFolder hfits hpath) text
  have hstored := (stored_store hdir.rooted dir hbelow text).1 hok
  refine ⟨_, Prod.snd_eq_iff.mp hok, hstored, fun names other hother => ?_, fun names hne hfolder => ?_⟩
  · by_cases hnames : names = Text.fields '/' path
    · exact ⟨path, hpath, hnames⟩
    · rw [hstored.text?_of_ne hdir hbelow hnames] at hother
      exact hholds.files names other hother
  · rcases isFolder_of_store hdir hbelow hfolder with hbefore | habove
    · exact hholds.folders names hne hbefore
    · exact ⟨path, hpath, habove⟩

end Holds

end Disk

end QuantNet
