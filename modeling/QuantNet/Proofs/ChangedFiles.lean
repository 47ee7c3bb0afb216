import Mathlib.Data.List.Sort
import Mathlib.Data.String.Basic
import QuantNet.Proofs.EmittedFiles

/-!
# Files that changed between builds

The comparison of two manifests takes the entries of one that the other does not have, adds the paths that only the
other has, and sorts. Neither filter is symmetric, but what they find together is: a path is found exactly if the two
manifests differ there, where no fingerprint counts as a fingerprint of its own (`mem_changedSince_iff`). No path is
found twice (`nodup_changedSince`), so the list increases strictly and is determined by its members, and what holds of
a difference holds of the list: it does not depend on which manifest comes first, it is empty for equal tables only,
and a change between two builds is seen against any third one.
-/

namespace QuantNet.Manifest

variable {a b c : Manifest} {path : String}

/-- Two manifests differ at a path: they have different fingerprints there, or only one has any. -/
def DifferAt (a b : Manifest) (path : String) : Prop := a.files.get? path ≠ b.files.get? path

theorem DifferAt.symm (h : DifferAt a b path) : DifferAt b a path := Ne.symm h

/-- Where two manifests differ, one of them differs from any third. -/
theorem DifferAt.via (h : DifferAt a c path) (b : Manifest) : DifferAt a b path ∨ DifferAt b c path :=
  (Ne.ne_or_ne _ h).imp_right Ne.symm

/-- The tables of fingerprints are equal exactly if the manifests differ nowhere. -/
theorem forall_not_differAt_iff : (∀ path, ¬ DifferAt a b path) ↔ a.files = b.files := by
  constructor
  · intro h
    exact Table.eq_of_get?_eq fun path => not_not.mp (h path)
  · intro h path hdiffer
    exact hdiffer (by rw [h])

/-! ### The two filters -/

/-- The paths of the entries that the other manifest does not have. -/
def edited (a b : Manifest) : List String := (a.files.entries.filter fun e => b.files.get? e.1 ≠ some e.2).map (·.1)

/-- The paths that only the other manifest has. -/
def removed (a b : Manifest) : List String := b.files.keys.filter fun path => !a.files.contains path

theorem changedSince_eq (a b : Manifest) :
    a.changedSince b = (edited a b ++ removed a b).mergeSort (fun p q => p ≤ q) := rfl

theorem mem_edited_iff : path ∈ edited a b ↔ ∃ hash, a.files.get? path = some hash ∧ b.files.get? path ≠ some hash := by
  simp only [edited, List.mem_map, List.mem_filter, decide_eq_true_eq]
  constructor
  · rintro ⟨e, ⟨he, hother⟩, rfl⟩
    exact ⟨e.2, Table.get?_eq_some_iff.mpr he, hother⟩
  · rintro ⟨hash, hown, hother⟩
    exact ⟨(path, hash), ⟨Table.get?_eq_some_iff.mp hown, hother⟩, rfl⟩

theorem mem_removed_iff : path ∈ removed a b ↔ a.files.get? path = none ∧ ∃ hash, b.files.get? path = some hash := by
  rw [removed, List.mem_filter, Table.mem_keys_iff, Table.contains, Bool.not_eq_true', Option.isSome_eq_false_iff,
    Option.isNone_iff_eq_none, and_comm]

/-- Together the filters find every difference: an entry of the first manifest is looked up in the other, and where the
first has none, the other has to have one. -/
theorem mem_edited_or_removed_iff : path ∈ edited a b ∨ path ∈ removed a b ↔ DifferAt a b path := by
  rw [mem_edited_iff, mem_removed_iff, DifferAt]
  cases hown : a.files.get? path with
  | some hash => simp [eq_comm]
  | none =>
    rw [ne_comm, Option.ne_none_iff_exists']
    simp

theorem nodup_edited (a b : Manifest) : (edited a b).Nodup :=
  a.files.nodup_keys.sublist (List.filter_sublist.map _)

theorem nodup_removed (a b : Manifest) : (removed a b).Nodup := b.files.nodup_keys.filter _

theorem disjoint_edited_removed (a b : Manifest) : (edited a b).Disjoint (removed a b) := by
  intro path hedited hremoved
  obtain ⟨hash, hown, -⟩ := mem_edited_iff.mp hedited
  obtain ⟨hnone, -⟩ := mem_removed_iff.mp hremoved
  rw [hnone] at hown
  cases hown

/-! ### The sorted list -/

theorem mem_changedSince_iff : path ∈ a.changedSince b ↔ DifferAt a b path := by
  rw [changedSince_eq, List.mem_mergeSort, List.mem_append, mem_edited_or_removed_iff]

theorem nodup_changedSince (a b : Manifest) : (a.changedSince b).Nodup := by
  rw [changedSince_eq, (List.mergeSort_perm _ _).nodup_iff]
  exact (nodup_edited a b).append (nodup_removed a b) (disjoint_edited_removed a b)

theorem sorted_changedSince (a b : Manifest) : (a.changedSince b).Pairwise (· < ·) :=
  (List.sortedLE_mergeSort.sortedLT_of_nodup (nodup_changedSince a b)).pairwise

/-- **What changed between two builds.** The list is strictly increasing, and its members are the paths at which the
tables of fingerprints differ, where a missing file counts as a value. So it is the same in both directions, it is
empty exactly if the tables are equal, and every change between two builds is a change from the one or to the other
of any third build. -/
theorem changedSince_lists_differences (a b : Manifest) :
    (a.changedSince b).Pairwise (· < ·) ∧
    (∀ path, path ∈ a.changedSince b ↔ a.files.get? path ≠ b.files.get? path) ∧
    a.changedSince b = b.changedSince a ∧
    (a.changedSince b = [] ↔ a.files = b.files) ∧
    ∀ c : Manifest, ∀ path ∈ a.changedSince c, path ∈ a.changedSince b ∨ path ∈ b.changedSince c := by
  refine ⟨sorted_changedSince a b, fun path => mem_changedSince_iff, ?_, ?_, fun c path h => ?_⟩
  · refine (sorted_changedSince a b).eq_of_mem_iff (sorted_changedSince b a) fun path => ?_
    rw [mem_changedSince_iff, mem_changedSince_iff]
    exact ⟨DifferAt.symm, DifferAt.symm⟩
  · simp only [List.eq_nil_iff_forall_not_mem, mem_changedSince_iff, forall_not_differAt_iff]
  · rw [mem_changedSince_iff, mem_changedSince_iff]
    exact (mem_changedSince_iff.mp h).via b

/-- One file was edited and one is gone; without any files in between, the edit is one to nothing. -/
theorem changedSince_lists_edit :
    let hash : UInt8 → ContentHash := fun b => ⟨Vector.replicate 16 b⟩
    let old : Manifest := ⟨"0.1.0", hash 0, ⟨[("a.vhd", hash 1), ("b.vhd", hash 2), ("gone.vhd", hash 3)], by decide⟩⟩
    let new : Manifest := ⟨"0.1.0", hash 0, ⟨[("a.vhd", hash 1), ("b.vhd", hash 4)], by decide⟩⟩
    let bare : Manifest := ⟨"0.1.0", hash 0, Table.empty⟩
    "b.vhd" ∈ new.changedSince old ∧ "gone.vhd" ∈ new.changedSince old ∧ "a.vhd" ∉ new.changedSince old ∧
      ("b.vhd" ∈ new.changedSince bare ∨ "b.vhd" ∈ bare.changedSince old) := by
  intro hash old new bare
  have hiff := (changedSince_lists_differences new old).2.1
  have hmem : "b.vhd" ∈ new.changedSince old := (hiff _).mpr (by decide)
  exact ⟨hmem, (hiff _).mpr (by decide), fun h => (hiff _).mp h (by decide),
    (changedSince_lists_differences new bare).2.2.2.2 old "b.vhd" hmem⟩

end QuantNet.Manifest
