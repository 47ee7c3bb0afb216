import QuantNet.Proofs.FileSets

/-!
# Digests of builds

The digest of a build is a hash of hashes: the contents of every file are hashed, and the names of the
files with these fingerprints, one after the other, are hashed again. Nothing separates the entries but
a zero behind each name. That is enough (`combinedBytes_injective`): a name without the character zero
has no zero byte, so the first zero ends the name, and the sixteen bytes behind it are the fingerprint,
whatever they are. A file is hashed line by line, and its fingerprint is that of the text that is
written for the lines (`ContentHash.ofLines_eq`).

Hence two builds with one digest have the same files, or else two of the byte strings that went into
the digests collide (`FileSet.digest_identifies`). The hash itself is never looked into.
-/

namespace QuantNet

/-! ### Bytes of names -/

theorem toList_loop_eq (data : ByteArray) (i : Nat) (read : List UInt8) :
    ByteArray.toList.loop data i read = read.reverse ++ data.data.toList.drop i := by
  induction i, read using ByteArray.toList.loop.induct data with
  | case1 i read hi ih =>
    have hlt : i < data.data.toList.length := by
      rw [Array.length_toList]
      exact hi
    have hbyte : data.get! i = data.data.toList[i] := by
      rw [Array.getElem_toList]
      exact getElem!_pos data.data i hi
    rw [ByteArray.toList.loop, if_pos hi, ih, hbyte, List.reverse_cons, List.append_assoc, List.singleton_append,
      ← List.drop_eq_getElem_cons hlt]
  | case2 i read hi =>
    have hsize : data.data.toList.length ≤ i := by
      rw [Array.length_toList]
      exact Nat.not_lt.mp hi
    rw [ByteArray.toList.loop, if_neg hi, List.drop_of_length_le hsize, List.append_nil]

/-- The bytes of a byte string, one by one. -/
theorem byteArray_toList_eq (data : ByteArray) : data.toList = data.data.toList := toList_loop_eq data 0 []

/-- The bytes of a text are those of its characters. -/
theorem toList_toUTF8 (s : String) : s.toUTF8.toList = s.toList.flatMap String.utf8EncodeChar := by
  rw [byteArray_toList_eq, String.toUTF8, ← String.utf8Encode_toList, List.utf8Encode, List.toList_data_toByteArray]

/-- Only the character zero has a zero among its bytes. -/
theorem eq_zero_of_zero_mem_utf8EncodeChar {c : Char} (h : 0 ∈ String.utf8EncodeChar c) : c = '\x00' := by
  have hbyte : ∀ n, 0 < n → n < 256 → UInt8.ofNat n ≠ 0 := by
    intro n hpos hlt heq
    have hn := congrArg UInt8.toNat heq
    rw [UInt8.toNat_ofNat', UInt8.toNat_zero, Nat.mod_eq_of_lt hlt] at hn
    exact absurd hn (Nat.pos_iff_ne_zero.mp hpos)
  by_cases hzero : c.val.toNat = 0
  · exact Char.ext (UInt32.toNat_inj.mp hzero)
  · -- every other character has bytes with a bit set
    exfalso
    rw [String.utf8EncodeChar] at h
    split_ifs at h with hone htwo hthree <;> simp only [List.mem_cons, List.not_mem_nil, or_false] at h
    · exact hbyte _ (by omega) (by omega) h.symm
    · rcases h with h | h <;> exact hbyte _ (by omega) (by omega) h.symm
    · rcases h with h | h | h <;> exact hbyte _ (by omega) (by omega) h.symm
    · rcases h with h | h | h | h <;> exact hbyte _ (by omega) (by omega) h.symm

theorem zero_not_mem_toUTF8 {s : String} (h : '\x00' ∉ s.toList) : 0 ∉ s.toUTF8.toList := by
  rw [toList_toUTF8, List.mem_flatMap]
  rintro ⟨c, hc, hzero⟩
  exact h (eq_zero_of_zero_mem_utf8EncodeChar hzero ▸ hc)

/-! ### Entries one after the other -/

/-- Parts up to the first mark are determined by the whole. -/
theorem append_mark_inj {α : Type} {mark : α} {first second rest rest' : List α} (hfirst : mark ∉ first)
    (hsecond : mark ∉ second) (h : first ++ mark :: rest = second ++ mark :: rest') : first = second ∧ rest = rest' := by
  induction first generalizing second with
  | nil =>
    cases second with
    | nil => exact ⟨rfl, (List.cons.inj h).2⟩
    | cons s second => exact absurd ((List.cons.inj h).1 ▸ List.mem_cons_self) hsecond
  | cons f first ih =>
    cases second with
    | nil => exact absurd ((List.cons.inj h).1 ▸ List.mem_cons_self) hfirst
    | cons s second =>
      obtain ⟨hhead, htail⟩ := List.cons.inj h
      obtain ⟨hparts, hrest⟩ := ih (fun hmem => hfirst (List.mem_cons_of_mem _ hmem))
        (fun hmem => hsecond (List.mem_cons_of_mem _ hmem)) htail
      exact ⟨by rw [hhead, hparts], hrest⟩

namespace ContentHash

theorem bytes_toList_inj {h h' : ContentHash} (heq : h.bytes.toList = h'.bytes.toList) : h = h' := by
  cases h
  cases h'
  exact congrArg _ (Vector.toList_inj.mp heq)

/-- An entry is determined by its bytes, whatever follows them. -/
theorem entryBytes_append_inj {name name' : String} {hash hash' : ContentHash} {rest rest' : List UInt8}
    (hname : '\x00' ∉ name.toList) (hname' : '\x00' ∉ name'.toList)
    (h : entryBytes name hash ++ rest = entryBytes name' hash' ++ rest') :
    name = name' ∧ hash = hash' ∧ rest = rest' := by
  simp only [entryBytes, List.append_assoc, List.cons_append] at h
  obtain ⟨hbytes, htail⟩ := append_mark_inj (zero_not_mem_toUTF8 hname) (zero_not_mem_toUTF8 hname') h
  obtain ⟨hhash, hrest⟩ := List.append_inj htail (by simp)
  refine ⟨?_, bytes_toList_inj hhash, hrest⟩
  rw [byteArray_toList_eq, byteArray_toList_eq, Array.toList_inj] at hbytes
  exact String.toByteArray_inj.mp (ByteArray.ext hbytes)

theorem entryBytes_ne_nil (name : String) (hash : ContentHash) : entryBytes name hash ≠ [] := by
  simp [entryBytes]

/-- Named fingerprints are determined by the bytes that stand for them. -/
theorem combinedBytes_injective {entries entries' : List (String × ContentHash)}
    (hnames : ∀ e ∈ entries, '\x00' ∉ e.1.toList) (hnames' : ∀ e ∈ entries', '\x00' ∉ e.1.toList)
    (h : combinedBytes entries = combinedBytes entries') : entries = entries' := by
  induction entries generalizing entries' with
  | nil =>
    cases entries' with
    | nil => rfl
    | cons e' rest' =>
      have hempty := List.append_eq_nil_iff.mp (h.symm.trans List.flatMap_nil)
      exact absurd hempty.1 (entryBytes_ne_nil _ _)
  | cons e rest ih =>
    cases entries' with
    | nil =>
      have hempty := List.append_eq_nil_iff.mp (h.trans List.flatMap_nil)
      exact absurd hempty.1 (entryBytes_ne_nil _ _)
    | cons e' rest' =>
      obtain ⟨hname, hnamesRest⟩ := List.forall_mem_cons.mp hnames
      obtain ⟨hname', hnamesRest'⟩ := List.forall_mem_cons.mp hnames'
      rw [combinedBytes, combinedBytes, List.flatMap_cons, List.flatMap_cons] at h
      obtain ⟨hsame, hhash, hrest⟩ := entryBytes_append_inj hname hname' h
      rw [ih hnamesRest hnamesRest' hrest, Prod.ext hsame hhash]

end ContentHash

/-! ### Tables -/

namespace Table

variable {α β : Type}

theorem lookup_eq_none_of_lt {key : String} {es : List (String × α)} (h : ∀ e ∈ es, key < e.1) :
    es.lookup key = none := by
  rw [List.lookup_eq_none_iff]
  intro e he
  exact bne_iff_ne.mpr fun heq => String.lt_irrefl _ (heq ▸ h e he)

/-- The key in front of one list is not behind the key in front of another one with the same look-ups. -/
theorem not_lt_of_lookup_eq {k k' : String} {v : α} {es fs : List (String × α)} {v' : α}
    (hfs : ∀ e ∈ fs, k' < e.1) (h : ((k, v) :: es).lookup k = ((k', v') :: fs).lookup k) : ¬ k < k' := by
  intro hlt
  have hnone : ((k', v') :: fs).lookup k = none := by
    refine lookup_eq_none_of_lt fun e he => ?_
    rcases List.mem_cons.mp he with rfl | he
    · exact hlt
    · exact String.lt_trans hlt (hfs e he)
  rw [hnone, Outcome.lookup_cons_eq, if_pos rfl] at h
  cases h

/-- Sorted lists with the same look-ups are equal. -/
theorem eq_of_lookup_eq {es fs : List (String × α)} (hes : es.Pairwise fun a b => a.1 < b.1)
    (hfs : fs.Pairwise fun a b => a.1 < b.1) (h : ∀ key, es.lookup key = fs.lookup key) : es = fs := by
  induction es generalizing fs with
  | nil =>
    cases fs with
    | nil => rfl
    | cons f fs =>
      have hfound := h f.1
      rw [Outcome.lookup_cons_eq, if_pos rfl] at hfound
      cases hfound
  | cons e es ih =>
    cases fs with
    | nil =>
      have hfound := h e.1
      rw [Outcome.lookup_cons_eq, if_pos rfl] at hfound
      cases hfound
    | cons f fs =>
      obtain ⟨he, hes⟩ := List.pairwise_cons.mp hes
      obtain ⟨hf, hfs⟩ := List.pairwise_cons.mp hfs
      have hkey : e.1 = f.1 := String.le_antisymm
        (String.not_lt.mp (not_lt_of_lookup_eq he (h f.1).symm)) (String.not_lt.mp (not_lt_of_lookup_eq hf (h e.1)))
      have hvalue : e.2 = f.2 := by
        have hfound := h e.1
        rw [Outcome.lookup_cons_eq, if_pos rfl, Outcome.lookup_cons_eq, if_pos hkey] at hfound
        exact Option.some.inj hfound
      have hrest : es = fs := by
        refine ih hes hfs fun key => ?_
        by_cases hfront : key = e.1
        · -- the key in front does not come a second time
          rw [hfront, lookup_eq_none_of_lt he, hkey, lookup_eq_none_of_lt hf]
        · have hbehind := h key
          rwa [Outcome.lookup_cons_eq, if_neg hfront, Outcome.lookup_cons_eq, if_neg (hkey ▸ hfront)] at hbehind
      rw [hrest, Prod.ext hkey hvalue]

/-- A table is determined by what it holds under every key. -/
theorem eq_of_get?_eq {t u : Table α} (h : ∀ key, t.get? key = u.get? key) : t = u := by
  cases t with
  | mk es hes =>
    cases u with
    | mk fs hfs =>
      obtain rfl : es = fs := eq_of_lookup_eq hes hfs h
      rfl

theorem get?_map (f : α → β) (t : Table α) (key : String) : (t.map f).get? key = (t.get? key).map f := by
  cases t with
  | mk es hes =>
    change (es.map fun e => (e.1, f e.2)).lookup key = (es.lookup key).map f
    clear hes
    induction es with
    | nil => rfl
    | cons e es ih =>
      rw [List.map_cons, Outcome.lookup_cons_eq, Outcome.lookup_cons_eq, ih]
      split_ifs <;> rfl

theorem mem_of_get?_eq_some {t : Table α} {key : String} {value : α} (h : t.get? key = some value) :
    (key, value) ∈ t.entries := by
  obtain ⟨before, after, heq, -⟩ := List.lookup_eq_some_iff.mp h
  rw [heq]
  exact List.mem_append_right _ List.mem_cons_self

theorem get?_eq_some_iff {t : Table α} {key : String} {value : α} :
    t.get? key = some value ↔ (key, value) ∈ t.entries := by
  refine ⟨mem_of_get?_eq_some, fun hmem => ?_⟩
  obtain ⟨before, after, hentries⟩ := List.append_of_mem hmem
  refine List.lookup_eq_some_iff.mpr ⟨before, after, hentries, fun e he => ?_⟩
  -- the entries before it have smaller keys
  have hsorted := t.sorted
  rw [hentries] at hsorted
  have hlt : e.1 < key := (List.pairwise_append.mp hsorted).2.2 e he (key, value) List.mem_cons_self
  rw [bne_iff_ne]
  rintro rfl
  exact String.lt_irrefl _ hlt

end Table

/-! ### Digests -/

/-! ### Bytes of files -/

namespace ContentHash

/-- The bytes of lines are those of the text that is written for them. -/
theorem lineBytes_eq (lines : List String) : lineBytes lines = (Text.ofLines lines).toUTF8 := by
  have hfold : ∀ start : String,
      lines.foldl (fun buffer line => (buffer ++ line.toUTF8).push 10) start.toUTF8 =
        (lines.foldl (fun text line => text ++ (line ++ "\n")) start).toUTF8 := by
    induction lines with
    | nil => exact fun _ => rfl
    | cons line rest ih =>
      intro start
      have hend : (start.toUTF8 ++ line.toUTF8).push 10 = (start ++ (line ++ "\n")).toUTF8 := by
        rw [← String.append_assoc]
        simp only [String.toUTF8, String.toByteArray_append]
        apply ByteArray.ext
        simp only [ByteArray.data_push, ByteArray.data_append, Array.push_eq_append]
        rfl
      rw [List.foldl_cons, hend, ih, List.foldl_cons]
  rw [lineBytes, Text.ofLines, String.join, List.foldl_map]
  exact hfold ""

/-- The fingerprint of lines is that of the text that is written for them. -/
theorem ofLines_eq (lines : List String) : ofLines lines = ofText (Text.ofLines lines) := by
  rw [ofLines, ofText, lineBytes_eq]

end ContentHash

namespace FileSet

/-- The bytes of a file. -/
def contents? (files : FileSet) (path : String) : Option ByteArray := (files.text? path).map String.toUTF8

/-- The same paths, with the same bytes under each. -/
def SameContents (a b : FileSet) : Prop := ∀ path, a.contents? path = b.contents? path

/-- The byte strings that are hashed for the digest of a file set: the bytes that stand for all entries,
and the contents of every file. -/
def hashed (files : FileSet) : List ByteArray :=
  ⟨(ContentHash.combinedBytes files.hashes.entries).toArray⟩ ::
    files.entries.map fun e => (Text.ofLines e.2).toUTF8

theorem get?_hashes (files : FileSet) (path : String) :
    files.hashes.get? path = (files.contents? path).map ContentHash.ofBytes := by
  rw [hashes, Table.get?_map, contents?, text?, Option.map_map, Option.map_map]
  exact congrFun (congrArg Option.map (funext ContentHash.ofLines_eq)) _

theorem mem_hashed_of_contents? {files : FileSet} {path : String} {data : ByteArray}
    (h : files.contents? path = some data) : data ∈ files.hashed := by
  rw [contents?, text?, Option.map_map] at h
  obtain ⟨lines, hlines, rfl⟩ := Option.map_eq_some_iff.mp h
  exact List.mem_cons_of_mem _ (List.mem_map.mpr ⟨_, Table.mem_of_get?_eq_some hlines, rfl⟩)

/-- The names of the fingerprints are those of the files. -/
theorem exists_of_mem_hashes {files : FileSet} {e : String × ContentHash} (h : e ∈ files.hashes.entries) :
    e.1 ∈ files.keys := by
  obtain ⟨file, hfile, rfl⟩ := List.mem_map.mp h
  exact List.mem_map.mpr ⟨file, hfile, rfl⟩

/-- Two different byte strings among those that are hashed for two file sets have one fingerprint. -/
def Collide (a b : FileSet) : Prop :=
  ∃ x ∈ a.hashed ++ b.hashed, ∃ y ∈ a.hashed ++ b.hashed, x ≠ y ∧ ContentHash.ofBytes x = ContentHash.ofBytes y

/-- With one table of fingerprints the files are the same, or contents collide. -/
theorem sameContents_or_collide {a b : FileSet} (h : a.hashes = b.hashes) : SameContents a b ∨ Collide a b := by
  by_cases hcollide : Collide a b
  · exact Or.inr hcollide
  · refine Or.inl fun path => ?_
    have hpath : a.hashes.get? path = b.hashes.get? path := by rw [h]
    rw [get?_hashes, get?_hashes] at hpath
    cases ha : a.contents? path with
    | none =>
      rw [ha, Option.map_none] at hpath
      exact (Option.map_eq_none_iff.mp hpath.symm).symm
    | some x =>
      rw [ha, Option.map_some] at hpath
      obtain ⟨y, hb, hhash⟩ := Option.map_eq_some_iff.mp hpath.symm
      rw [hb, Option.some_inj]
      by_contra hne
      exact hcollide ⟨x, List.mem_append_left _ (mem_hashed_of_contents? ha), y,
        List.mem_append_right _ (mem_hashed_of_contents? hb), hne, hhash.symm⟩

/-- **The digest identifies the build.** File sets with the same paths and the same bytes under each have
one digest. If file sets whose paths are free of the character zero have one digest, they have the same
paths and the same bytes under each, or two different byte strings have one fingerprint, each of them the
contents of a file or the combined entries of one of the two sets. -/
theorem digest_identifies {a b : FileSet} (ha : ∀ path ∈ a.keys, '\x00' ∉ path.toList)
    (hb : ∀ path ∈ b.keys, '\x00' ∉ path.toList) :
    (SameContents a b → a.digest = b.digest) ∧ (a.digest = b.digest → SameContents a b ∨ Collide a b) := by
  constructor
  · intro hsame
    have hhashes : a.hashes = b.hashes := Table.eq_of_get?_eq fun path => by
      rw [get?_hashes, get?_hashes, hsame path]
    rw [digest, digest, hhashes]
  · intro hdigest
    by_cases hbytes : ContentHash.combinedBytes a.hashes.entries = ContentHash.combinedBytes b.hashes.entries
    · have hentries : a.hashes.entries = b.hashes.entries := ContentHash.combinedBytes_injective
        (fun e he => ha _ (exists_of_mem_hashes he)) (fun e he => hb _ (exists_of_mem_hashes he)) hbytes
      exact sameContents_or_collide (Table.eq_of_get?_eq fun path => by rw [Table.get?, Table.get?, hentries])
    · -- the two hashes of hashes collide themselves
      refine Or.inr ⟨_, List.mem_append_left _ List.mem_cons_self, _, List.mem_append_right _ List.mem_cons_self, ?_,
        hdigest⟩
      intro hsame
      exact hbytes (by simpa using congrArg ByteArray.data hsame)

/-- A file whose two lines are given as one. -/
def joinedLines : FileSet := Table.empty.insert "net/fc.vhd" ["entity fc is\nend fc;"]

/-- The same file, line by line. -/
def splitLines : FileSet := Table.empty.insert "net/fc.vhd" ["entity fc is", "end fc;"]

/-- Different lines that make the same bytes give one digest. -/
theorem digest_joinedLines : joinedLines.digest = splitLines.digest := by
  refine (digest_identifies (by decide +kernel) (by decide +kernel)).1 fun path => ?_
  have htext : Text.ofLines ["entity fc is\nend fc;"] = Text.ofLines ["entity fc is", "end fc;"] := by decide +kernel
  rw [contents?, contents?, text?, text?, joinedLines, splitLines, Table.get?_insert, Table.get?_insert]
  split_ifs
  · rw [Option.map_some, Option.map_some, htext]
    rfl
  · rfl

end FileSet

end QuantNet
