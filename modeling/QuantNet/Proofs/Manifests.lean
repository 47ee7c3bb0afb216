import QuantNet.Output.Session
import QuantNet.Proofs.BuildDigest
import QuantNet.Proofs.JsonText
import QuantNet.Proofs.StoredFiles

/-!
# Manifests

The manifest is the last file that is stored, and it is read back as the manifest that was stored
(`Manifest.ofOutcome?_pretty`). It describes what is on the disk: the files of a set are stored each at
its own place, so no later file touches an earlier one, and the manifest touches none of them.

That needs paths that lead down from the directory. The names of a place are checked when it is opened,
and an extension without a slash adds to the last name only, so whatever is requested of an output, its
paths lead down (`Session.IsBelow.run`).
-/

namespace QuantNet

/-! ### Manifests as data -/

namespace Table

variable {α : Type}

/-- The last of the entries with a key counts, and sorted entries have each key once. -/
theorem get?_foldl_insert {es : List (String × α)} (hes : es.Pairwise fun a b => a.1 < b.1) (t : Table α)
    (key : String) :
    (es.foldl (fun t e => t.insert e.1 e.2) t).get? key = (es.lookup key).or (t.get? key) := by
  induction es generalizing t with
  | nil => rfl
  | cons e es ih =>
    obtain ⟨hfirst, hrest⟩ := List.pairwise_cons.mp hes
    rw [List.foldl_cons, ih hrest, get?_insert, Outcome.lookup_cons_eq]
    split
    · rename_i hkey
      rw [hkey, lookup_eq_none_of_lt hfirst]
      rfl
    · rfl

theorem ofList_entries (t : Table α) : ofList t.entries = t := by
  refine eq_of_get?_eq fun key => ?_
  rw [ofList, get?_foldl_insert t.sorted]
  exact Option.or_none

end Table

namespace ContentHash

theorem ofJson?_toJson (h : ContentHash) : ofJson? h.toJson = some h := by
  have hbytes : h.toJson.items? (fun b => (b.natural? 256).map UInt8.ofNat) = some h.bytes.toList := by
    refine Json.items?_map fun b _ => ?_
    rw [Json.natural?_natCast b.toNat_lt, Option.map_some, UInt8.ofNat_toNat]
  simp only [ofJson?, hbytes, Option.bind_eq_bind, Option.bind_some, Vector.length_toList, dite_true,
    Option.some.injEq]
  exact bytes_toList_inj rfl

theorem plain_toJson (h : ContentHash) : h.toJson.Plain := by
  refine .array fun v hv => ?_
  obtain ⟨b, -, rfl⟩ := List.mem_map.mp hv
  exact .integer _

end ContentHash

namespace Manifest

theorem filesOfJson?_toJson (files : Table ContentHash) :
    filesOfJson? (.object (files.entries.map fun e => (e.1, e.2.toJson))) = some files := by
  have hentries : (files.entries.map fun e => (e.1, e.2.toJson)).mapM
      (fun m => (ContentHash.ofJson? m.2).map fun h => (m.1, h)) = some files.entries := by
    refine Json.mapM_map_eq_some fun e _ => ?_
    rw [ContentHash.ofJson?_toJson]
    rfl
  rw [filesOfJson?, hentries]
  exact congrArg some files.ofList_entries

theorem ofJson?_toJson (m : Manifest) : ofJson? m.toJson = some m := by
  have hfields : m.toJson.fields? ["kiln_version", "digest", "files"] =
      some [.string m.version, m.digest.toJson, .object (m.files.entries.map fun e => (e.1, e.2.toJson))] := rfl
  simp only [ofJson?, hfields, Option.bind_eq_bind, Option.bind_some, Json.string?, ContentHash.ofJson?_toJson,
    filesOfJson?_toJson]
  rfl

theorem plain_toJson (m : Manifest) : m.toJson.Plain := by
  have hfiles : Json.Plain (.object (m.files.entries.map fun e => (e.1, e.2.toJson))) := by
    refine .object fun member hmember => ?_
    obtain ⟨e, -, rfl⟩ := List.mem_map.mp hmember
    exact e.2.plain_toJson
  refine .object ?_
  simp only [List.forall_mem_cons]
  exact ⟨.string _, m.digest.plain_toJson, hfiles, List.forall_mem_nil _⟩

/-- The text of a manifest is read back. -/
theorem ofOutcome?_pretty (m : Manifest) : ofOutcome? (.ok m.toJson.pretty) = some m := by
  rw [ofOutcome?, m.plain_toJson.parse?_pretty, Option.bind_some, ofJson?_toJson]

end Manifest

/-! ### Paths of outputs -/

theorem isComponent_iff {name : String} :
    isComponent name = true ↔ (Path.IsPlain name ∧ name ≠ "..") ∧ '\\' ∉ name.toList := by
  simp only [isComponent, Path.IsPlain, Bool.and_eq_true, decide_eq_true_eq, List.all_eq_true]
  constructor
  · rintro ⟨⟨⟨hempty, hdot⟩, hup⟩, hchars⟩
    exact ⟨⟨⟨hempty, hdot, fun h => (hchars _ h).1 rfl⟩, hup⟩, fun h => (hchars _ h).2 rfl⟩
  · rintro ⟨⟨⟨hempty, hdot, hslash⟩, hup⟩, hback⟩
    exact ⟨⟨⟨hempty, hdot⟩, hup⟩, fun c hc => ⟨fun h => hslash (h ▸ hc), fun h => hback (h ▸ hc)⟩⟩

/-- A name stays a name with an extension behind it. -/
theorem Path.IsPlain.append {name extension : String} (hname : IsPlain name) (hup : name ≠ "..")
    (hext : '/' ∉ extension.toList) : IsPlain (name ++ extension) ∧ name ++ extension ≠ ".." := by
  obtain ⟨hempty, hdot, hslash⟩ := hname
  have hne : name.toList ≠ [] := by simpa using hempty
  have hchars : ∀ s : String, name ++ extension = s → name.toList ++ extension.toList = s.toList := by
    rintro s rfl
    rw [String.toList_append]
  refine ⟨⟨fun h => ?_, fun h => ?_, ?_⟩, fun h => ?_⟩
  · exact hne (List.append_eq_nil_iff.mp (hchars _ h)).1
  · rcases List.append_eq_singleton_iff.mp (hchars _ h) with ⟨hnil, -⟩ | ⟨hone, -⟩
    · exact hne hnil
    · exact hdot (String.toList_inj.mp hone)
  · rw [String.toList_append, List.mem_append]
    exact not_or_intro hslash hext
  · -- one dot or two dots of the whole belong to the name
    rcases List.append_eq_cons_iff.mp (hchars _ h) with ⟨hnil, -⟩ | ⟨rest, hrest, htail⟩
    · exact hne hnil
    · rcases List.append_eq_singleton_iff.mp htail.symm with ⟨rfl, -⟩ | ⟨rfl, -⟩
      · exact hdot (String.toList_inj.mp hrest)
      · exact hup (String.toList_inj.mp hrest)

namespace Place

/-- Every name of the place was checked. -/
def IsChecked (place : Place) : Prop := ∀ name ∈ place, isComponent name = true

theorem IsChecked.sub {place below : Place} {name : String} (h : place.IsChecked) (hsub : place.sub name = .ok below) :
    below.IsChecked := by
  obtain ⟨hname, rfl⟩ := Outcome.ite_eq_ok_iff.mp hsub
  exact List.forall_mem_append.mpr ⟨h, List.forall_mem_singleton.mpr hname⟩

/-- An extension adds to the last name. -/
theorem text_append (parents : Place) (name extension : String) :
    text (parents ++ [name]) ++ extension = "/".intercalate (parents ++ [name ++ extension]) := by
  unfold text
  by_cases hparents : parents = []
  · rw [hparents, List.nil_append, List.nil_append, String.intercalate_singleton, String.intercalate_singleton]
  · rw [String.intercalate_append_of_ne_nil hparents (List.cons_ne_nil _ _), String.intercalate_singleton,
      String.intercalate_append_of_ne_nil hparents (List.cons_ne_nil _ _), String.intercalate_singleton,
      String.append_assoc]

/-- A file at a checked place has a path that leads down. -/
theorem IsChecked.isBelow {place : Place} {extension : String} (h : place.IsChecked) (hne : place ≠ [])
    (hext : '/' ∉ extension.toList) : Path.IsBelow (place.text ++ extension) := by
  obtain ⟨parents, name, rfl⟩ := (List.eq_nil_or_concat' place).resolve_left hne
  have hlast := (isComponent_iff.mp (h name (List.mem_append_right _ List.mem_cons_self))).1
  have hnames : ∀ n ∈ parents ++ [name ++ extension], Path.IsPlain n ∧ n ≠ ".." := by
    intro n hn
    rcases List.mem_append.mp hn with hn | hn
    · exact (isComponent_iff.mp (h n (List.mem_append_left _ hn))).1
    · rw [List.mem_singleton.mp hn]
      exact hlast.1.append hlast.2 hext
  intro n hn
  rw [text_append, Text.fields_intercalate rfl (by simp) fun m hm => (hnames m hm).1.2.2] at hn
  exact hnames n hn

end Place

namespace FileSet

/-- All paths lead down. -/
def IsBelow (files : FileSet) : Prop := ∀ e ∈ files.entries, Path.IsBelow e.1

theorem isBelow_empty : IsBelow Table.empty := List.forall_mem_nil _

/-- A file that is there after a write was there before, or it is the one that was written. -/
theorem path_of_mem_write {files written : FileSet} {place : Place} {extension : String} {lines : List String}
    (h : files.write place extension lines = .ok written) {e : String × List String} (he : e ∈ written.entries) :
    e ∈ files.entries ∨ place ≠ [] ∧ e.1 = place.text ++ extension := by
  unfold FileSet.write at h
  split at h
  · cases h
  · rename_i hne
    simp only at h
    split at h
    · -- the file was there, so nothing was added
      split at h
      · cases h
        exact Or.inl he
      · cases h
    · cases h
      rcases Table.key_of_mem_insertEntry he with rfl | he
      · exact Or.inr ⟨hne, rfl⟩
      · exact Or.inl he

theorem IsBelow.write {files written : FileSet} {place : Place} {extension : String} {lines : List String}
    (h : files.IsBelow) (hplace : place.IsChecked) (hext : '/' ∉ extension.toList)
    (hwrite : files.write place extension lines = .ok written) : written.IsBelow := by
  intro e he
  rcases path_of_mem_write hwrite he with he | ⟨hne, hpath⟩
  · exact h e he
  · rw [hpath]
    exact hplace.isBelow hne hext

end FileSet

namespace Session

/-- All known places were checked, and all paths lead down. -/
structure IsBelow (s : Session FileSet) : Prop where
  places : ∀ place ∈ s.places, place.IsChecked
  files : s.target.IsBelow

theorem isBelow_start : IsBelow (start Table.empty) :=
  ⟨List.forall_mem_singleton.mpr (List.forall_mem_nil _), FileSet.isBelow_empty⟩

/-- If all known places were checked, then so was that of a handle. -/
theorem isChecked_place {s : Session FileSet} (h : ∀ place ∈ s.places, place.IsChecked) (handle : Nat) :
    (s.place handle).IsChecked := by
  unfold Session.place
  cases hplace : s.places[handle]? with
  | none =>
    rw [List.getD_eq_getElem?_getD, hplace]
    exact List.forall_mem_nil _
  | some place =>
    rw [List.getD_eq_getElem?_getD, hplace]
    exact h place (List.mem_of_getElem? hplace)

/-- A request whose extension has no slash keeps it so. -/
theorem IsBelow.step {s : Session FileSet} (h : s.IsBelow) {r : Request}
    (hext : ∀ handle extension lines, r = .write handle extension lines → '/' ∉ extension.toList) :
    (s.step Store.memory r).1.IsBelow := by
  cases r with
  | sub handle name =>
    rw [Session.step]
    split
    · rename_i place hplace
      refine ⟨List.forall_mem_append.mpr ⟨h.places, List.forall_mem_singleton.mpr ?_⟩, h.files⟩
      exact (isChecked_place h.places handle).sub hplace
    · exact h
  | write handle extension lines =>
    refine ⟨h.places, ?_⟩
    rw [Session.step, Store.memory]
    dsimp only
    split
    · rename_i written hwritten
      exact h.files.write (isChecked_place h.places handle) (hext _ _ _ rfl) hwritten
    · exact h.files

/-- Requests whose extensions have no slash keep it so. -/
theorem IsBelow.run {s : Session FileSet} (h : s.IsBelow) {requests : List Request}
    (hext : ∀ handle extension lines, Request.write handle extension lines ∈ requests → '/' ∉ extension.toList) :
    (s.run Store.memory requests).IsBelow := by
  induction requests generalizing s with
  | nil => exact h
  | cons r rest ih =>
    have hstep := h.step fun handle extension lines heq => hext handle extension lines (heq ▸ List.mem_cons_self)
    exact ih hstep fun handle extension lines hmem => hext handle extension lines (List.mem_cons_of_mem _ hmem)

end Session

/-! ### Storing a file set with its manifest -/

theorem Manifest.isBelow_fileName : Path.IsBelow fileName := by
  unfold Path.IsBelow Path.IsPlain
  decide +kernel

/-- A manifest that is stored, or refused. -/
theorem Manifest.stored_save {d : Disk} (hrooted : d.IsRooted) (m : Manifest) (dir : String) :
    ((m.save d dir).2 = .ok () → Disk.Stored dir d (m.save d dir).1 [(fileName, m.toJson.pretty)]) ∧
      ((m.save d dir).2 ≠ .ok () → Disk.Stored dir d (m.save d dir).1 []) := by
  have hmade := Disk.stored_makeFolders hrooted dir dir
  unfold save
  split
  · rename_i made cause hmakes
    rw [hmakes] at hmade
    exact ⟨fun h => (nomatch h), fun _ => hmade⟩
  · rename_i made hmakes
    rw [hmakes] at hmade
    dsimp only
    split
    · exact ⟨fun h => (nomatch h), fun _ => hmade⟩
    · rename_i written hwritten
      exact ⟨fun _ => Disk.stored_after_makeFolders hrooted isBelow_fileName hmakes hwritten, fun h => absurd rfl h⟩

namespace FileSet

variable {files : FileSet} {d d' : Disk} {dir version : String}

theorem IsBelow.stored_storeAll (h : files.IsBelow) (hrooted : d.IsRooted) (dir : String) :
    ∃ stored rest, files.entries = stored ++ rest ∧
      Disk.Stored dir d (storeAll dir d files.entries).1 (texts stored) ∧
      ((storeAll dir d files.entries).2 = .ok () → rest = []) ∧
      ∀ e ∈ files.entries.head?, (d.store (Path.join dir e.1) (Text.ofLines e.2)).2 = .ok () → e ∈ stored := by
  refine FileSet.stored_storeAll hrooted h (files.sorted.imp ?_)
  intro a b hlt heq
  rw [heq] at hlt
  exact String.lt_irrefl _ hlt

/-- How storing a file set succeeds: all its files are stored, and then its manifest. -/
theorem of_flush_eq_ok {manifest : Manifest} (h : files.flush d dir version = (d', .ok manifest)) :
    ∃ written, storeAll dir d files.entries = (written, .ok ()) ∧
      (Manifest.ofFiles files version).save written dir = (d', .ok ()) ∧ manifest = Manifest.ofFiles files version := by
  rw [flush] at h
  split at h
  · cases h
  · rename_i written hwritten
    cases hsave : (Manifest.ofFiles files version).save written dir with
    | mk left outcome =>
      simp only [hsave] at h
      cases outcome with
      | error cause => cases h
      | ok _ =>
        cases h
        exact ⟨written, hwritten, hsave, rfl⟩

/-- How it fails: one of the files is refused, or the manifest after all of them. -/
theorem of_flush_eq_error {cause : OutputError} (h : files.flush d dir version = (d', .error cause)) :
    storeAll dir d files.entries = (d', .error cause) ∨ ∃ written,
      storeAll dir d files.entries = (written, .ok ()) ∧
        (Manifest.ofFiles files version).save written dir = (d', .error cause) := by
  rw [flush] at h
  split at h
  · rename_i left cause' hleft
    cases h
    exact Or.inl hleft
  · rename_i written hwritten
    cases hsave : (Manifest.ofFiles files version).save written dir with
    | mk left outcome =>
      simp only [hsave] at h
      cases outcome with
      | ok _ => cases h
      | error cause' =>
        cases h
        exact Or.inr ⟨written, hwritten, hsave⟩

/-- All files of a set whose files are all stored are read back. -/
theorem IsBelow.stored_of_storeAll (h : files.IsBelow) (hrooted : d.IsRooted) {written : Disk}
    (hwritten : storeAll dir d files.entries = (written, .ok ())) : Disk.Stored dir d written (texts files.entries) := by
  obtain ⟨stored, rest, hentries, hstored, hall, -⟩ := h.stored_storeAll hrooted dir
  rw [hwritten] at hstored hall
  rw [hall rfl, List.append_nil] at hentries
  rw [hentries]
  exact hstored

/-- A file set that is stored: its files are read back, and its manifest. -/
theorem IsBelow.stored_flush {manifest : Manifest} (h : files.IsBelow) (hfree : files.get? Manifest.fileName = none)
    (hrooted : d.IsRooted) (hflush : files.flush d dir version = (d', .ok manifest)) :
    manifest = Manifest.ofFiles files version ∧
      Disk.Stored dir d d' (texts files.entries ++ [(Manifest.fileName, manifest.toJson.pretty)]) := by
  obtain ⟨written, hwritten, hsave, rfl⟩ := of_flush_eq_ok hflush
  have hstored := h.stored_of_storeAll hrooted hwritten
  have hsaved := (Manifest.stored_save (hrooted.of_kept hstored.kept) (Manifest.ofFiles files version) dir).1
  rw [hsave] at hsaved
  refine ⟨rfl, hstored.append (hsaved rfl) ?_ ?_⟩
  · refine List.forall_mem_append.mpr ⟨fun f hf => ?_, List.forall_mem_singleton.mpr Manifest.isBelow_fileName⟩
    obtain ⟨e, he, rfl⟩ := List.mem_map.mp hf
    exact h e he
  · -- no file of the set has the name of the manifest
    intro f hf f' hf' heq
    obtain ⟨e, he, rfl⟩ := List.mem_map.mp hf
    rw [List.mem_singleton.mp hf'] at heq
    exact bne_iff_ne.mp (List.lookup_eq_none_iff.mp hfree e he) heq.symm

/-- A file set that is refused: the files before the refusal are read back, the first one among them
unless it is refused itself. -/
theorem IsBelow.stored_of_flush_error {cause : OutputError} (h : files.IsBelow) (hrooted : d.IsRooted)
    (hflush : files.flush d dir version = (d', .error cause)) :
    ∃ stored rest, files.entries = stored ++ rest ∧ Disk.Stored dir d d' (texts stored) ∧
      ∀ e ∈ files.entries.head?, (d.store (Path.join dir e.1) (Text.ofLines e.2)).2 = .ok () → e ∈ stored := by
  rcases of_flush_eq_error hflush with hleft | ⟨written, hwritten, hsave⟩
  · obtain ⟨stored, rest, hentries, hstored, -, hfirst⟩ := h.stored_storeAll hrooted dir
    rw [hleft] at hstored
    exact ⟨stored, rest, hentries, hstored, hfirst⟩
  · -- all files are stored, and the manifest adds none
    have hstored := h.stored_of_storeAll hrooted hwritten
    have hsaved := (Manifest.stored_save (hrooted.of_kept hstored.kept) (Manifest.ofFiles files version) dir).2
    rw [hsave] at hsaved
    refine ⟨files.entries, [], (List.append_nil _).symm, ?_, fun e he _ => List.mem_of_mem_head? he⟩
    exact hstored.trans (hsaved fun hok => nomatch hok)

/-- No disk takes a file set with a file below another one. -/
theorem IsBelow.flush_ne_ok {manifest : Manifest} (h : files.IsBelow) (hrooted : d.IsRooted)
    {path rest : String} {lines lines' : List String} (hpath : (path, lines) ∈ files.entries)
    (hbelow : (path ++ "/" ++ rest, lines') ∈ files.entries) :
    files.flush d dir version ≠ (d', .ok manifest) := by
  intro hflush
  obtain ⟨written, hwritten, -, -⟩ := of_flush_eq_ok hflush
  have hstored := h.stored_of_storeAll hrooted hwritten
  have hfile := hstored.text (path, Text.ofLines lines) (List.mem_map_of_mem hpath)
  have hinside := hstored.text (path ++ "/" ++ rest, Text.ofLines lines') (List.mem_map_of_mem hbelow)
  exact Disk.not_textOf_below (h (path, lines) hpath) (h (path ++ "/" ++ rest, lines') hbelow) hfile hinside

/-- **A stored file set is on the disk, and its manifest describes it.** For the output of any requests
whose extensions have no slash, without a file that has the name of the manifest: if the disk takes it, then
every file of the output is read back with its lines, each ended by a line feed; the manifest is read back;
it has a fingerprint for every path of the output and no other, that of the bytes that are read there; its
digest is that of the output; and at every place but those of the output and the manifest the disk holds
the text that it held before, if any. -/
theorem flush_spec {requests : List Request} {manifest : Manifest}
    (hext : ∀ handle extension lines, Request.write handle extension lines ∈ requests → '/' ∉ extension.toList)
    (houtput : (Session.run Store.memory (Session.start Table.empty) requests).target = files)
    (hfree : files.get? Manifest.fileName = none) (hrooted : d.IsRooted)
    (hflush : files.flush d dir version = (d', .ok manifest)) :
    (∀ path lines, files.get? path = some lines → d'.textOf (Path.join dir path) = .ok (Text.ofLines lines)) ∧
    Manifest.load? d' dir = some manifest ∧
    manifest.files.keys = files.keys ∧
    (∀ path hash, manifest.files.get? path = some hash →
      ∃ text, d'.textOf (Path.join dir path) = .ok text ∧ hash = ContentHash.ofBytes text.toUTF8) ∧
    manifest.digest = files.digest ∧
    (∀ place, (∀ path ∈ Manifest.fileName :: files.keys, d'.locate (Path.join dir path) ≠ .ok place) →
      d'.tree.text? place = d.tree.text? place) := by
  have hbelow : files.IsBelow := houtput ▸ (Session.isBelow_start.run hext).files
  obtain ⟨rfl, hstored⟩ := hbelow.stored_flush hfree hrooted hflush
  obtain ⟨htexts, hmanifest⟩ := List.forall_mem_append.mp hstored.text
  have hread : ∀ path lines, files.get? path = some lines →
      d'.textOf (Path.join dir path) = .ok (Text.ofLines lines) := fun path lines hlines =>
    htexts (path, Text.ofLines lines) (List.mem_map.mpr ⟨(path, lines), Table.mem_of_get?_eq_some hlines, rfl⟩)
  refine ⟨hread, ?_, ?_, ?_, rfl, ?_⟩
  · rw [Manifest.load?, hmanifest _ List.mem_cons_self, Manifest.ofOutcome?_pretty]
  · exact List.map_map
  · intro path hash hhash
    obtain ⟨lines, hlines, rfl⟩ := Option.map_eq_some_iff.mp ((Table.get?_map _ files path).symm.trans hhash)
    exact ⟨Text.ofLines lines, hread path lines hlines, ContentHash.ofLines_eq lines⟩
  · intro place hplace
    refine hstored.others place fun f hf => ?_
    rcases List.mem_append.mp hf with hf | hf
    · obtain ⟨e, he, rfl⟩ := List.mem_map.mp hf
      exact hplace e.1 (List.mem_cons_of_mem _ (List.mem_map_of_mem he))
    · rw [List.mem_singleton.mp hf]
      exact hplace _ List.mem_cons_self

/-- Requests for a layer and for the network around it. -/
def layerInNetwork : List Request :=
  [.sub 0 "net", .sub 1 "fc", .write 2 ".vhd" ["entity fc is", "end fc;"], .write 1 ".vhd" ["entity net is", "end net;"]]

/-- The output of the requests. -/
def layerAndNetwork : FileSet := (Session.run Store.memory (Session.start Table.empty) layerInNetwork).target

/-- A disk on which an older network and a note are in the directory. -/
def usedDirectory : Disk :=
  ⟨.folder [("out", .folder [("net.vhd", .file "stale\n"), ("notes.txt", .file "keep\n")])], []⟩

/-- The layer is stored, the older network is replaced, and the note stays. -/
theorem flush_layerAndNetwork :
    ∃ d' manifest, layerAndNetwork.flush usedDirectory "out" "0.1.0" = (d', .ok manifest) ∧
      d'.textOf (Path.join "out" "net/fc.vhd") = .ok "entity fc is\nend fc;\n" ∧
      d'.textOf (Path.join "out" "net.vhd") = .ok "entity net is\nend net;\n" ∧
      Manifest.load? d' "out" = some manifest ∧ d'.tree.text? ["out", "notes.txt"] = some "keep\n" := by
  have hext : ∀ handle extension lines, Request.write handle extension lines ∈ layerInNetwork →
      '/' ∉ extension.toList := by
    intro handle extension lines hmem
    simp only [layerInNetwork, List.mem_cons, List.not_mem_nil, or_false, reduceCtorEq, false_or,
      Request.write.injEq] at hmem
    rcases hmem with ⟨-, rfl, -⟩ | ⟨-, rfl, -⟩ <;> decide
  have hok : (layerAndNetwork.flush usedDirectory "out" "0.1.0").2.isOk = true := by decide +kernel
  have hfrom : ∀ path ∈ Manifest.fileName :: layerAndNetwork.keys,
      (layerAndNetwork.flush usedDirectory "out" "0.1.0").1.locate (Path.join "out" path) ≠ .ok ["out", "notes.txt"] := by
    decide +kernel
  have hrooted : usedDirectory.IsRooted := ⟨_, rfl⟩
  obtain ⟨manifest, hmanifest⟩ := Outcome.exists_eq_ok_of_isOk hok
  have hflush : layerAndNetwork.flush usedDirectory "out" "0.1.0" =
      ((layerAndNetwork.flush usedDirectory "out" "0.1.0").1, .ok manifest) := Prod.ext rfl hmanifest
  obtain ⟨htexts, hload, -, -, -, hothers⟩ := flush_spec hext rfl (by decide +kernel) hrooted hflush
  refine ⟨_, manifest, hflush, htexts _ ["entity fc is", "end fc;"] (by decide +kernel),
    htexts _ ["entity net is", "end net;"] (by decide +kernel), hload, ?_⟩
  rw [hothers _ hfrom]
  rfl

end FileSet

end QuantNet
