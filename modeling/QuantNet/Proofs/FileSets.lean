import QuantNet.Proofs.Templates

/-!
# Files that are written once

A file set only grows: what a step writes is there afterwards, and what was there before is still there
with the same lines (`FileSet.of_write`). So after steps that all succeed every file holds the lines
that its own step wrote (`Emission.of_runAll`), whatever the other steps are.
-/

namespace QuantNet

/-- Every file of the first set is in the second one, with the same lines. -/
def FileSet.Kept (files written : FileSet) : Prop :=
  ∀ path lines, files.get? path = some lines → written.get? path = some lines

theorem FileSet.Kept.trans {first second third : FileSet} (h : Kept first second) (h' : Kept second third) :
    Kept first third := fun path lines hlines => h' path lines (h path lines hlines)

/-- A file that is written is there, and all others are kept. -/
theorem FileSet.of_write {files written : FileSet} {place : Place} {extension : String} {lines : List String}
    (h : files.write place extension lines = .ok written) :
    Kept files written ∧ written.get? (place.text ++ extension) = some lines := by
  unfold FileSet.write at h
  split at h
  · cases h
  · simp only at h
    split at h
    · -- the file is there already
      rename_i existing hexisting
      split at h
      · rename_i hsame
        cases h
        exact ⟨fun _ _ hlines => hlines, hsame ▸ hexisting⟩
      · cases h
    · rename_i hnew
      cases h
      refine ⟨fun path others hothers => ?_, ?_⟩
      · have hne : path ≠ place.text ++ extension := by
          rintro rfl
          rw [hnew] at hothers
          cases hothers
        rw [Table.get?_insert, if_neg hne, hothers]
      · rw [Table.get?_insert, if_pos rfl]

namespace Emission

/-- The path of a source file that is written at a place. -/
def pathOf (parent : Place) (name : String) : String := Place.text (parent ++ [name]) ++ extension

theorem pathOf_root (name : String) : pathOf [] name = name ++ extension := by
  rw [pathOf, List.nil_append, Place.text, String.intercalate_singleton]

/-- A step that succeeds keeps all files, and a step that writes a file has written it. -/
theorem of_run {e : Emission} {files written : FileSet} (h : e.run files = .ok written) :
    FileSet.Kept files written ∧
      ∀ parent name lines, e = .file parent name lines → written.get? (pathOf parent name) = some lines := by
  cases e with
  | folder parent name =>
    unfold run at h
    obtain ⟨_, -, rfl⟩ := Outcome.map_eq_ok_iff.mp h
    exact ⟨fun _ _ hlines => hlines, fun _ _ _ he => by cases he⟩
  | file parent name lines =>
    obtain ⟨place, hplace, hwritten⟩ := Outcome.bind_eq_ok_iff.mp (Outcome.mapError_eq_ok_iff.mp h)
    obtain rfl : parent ++ [name] = place := (Outcome.ite_eq_ok_iff.mp hplace).2
    obtain ⟨hkept, hlines⟩ := FileSet.of_write hwritten
    refine ⟨hkept, fun _ _ _ he => ?_⟩
    cases he
    exact hlines
  | refuse cause => cases h

/-- After steps that succeed every file that one of them writes holds the lines of this step. -/
theorem of_runAll {es : List Emission} {files written : FileSet} (h : runAll files es = (written, .ok ())) :
    FileSet.Kept files written ∧
      ∀ parent name lines, .file parent name lines ∈ es → written.get? (pathOf parent name) = some lines := by
  induction es generalizing files with
  | nil =>
    cases h
    exact ⟨fun _ _ hlines => hlines, fun _ _ _ he => absurd he List.not_mem_nil⟩
  | cons e rest ih =>
    rw [runAll] at h
    cases hrun : e.run files with
    | error cause =>
      rw [hrun] at h
      cases h
    | ok next =>
      rw [hrun] at h
      obtain ⟨hfirst, hwrites⟩ := of_run hrun
      obtain ⟨hkept, hrest⟩ := ih h
      refine ⟨hfirst.trans hkept, fun parent name lines he => ?_⟩
      rcases List.mem_cons.mp he with he | he
      · exact hkept _ _ (hwrites parent name lines he.symm)
      · exact hrest parent name lines he

end Emission

end QuantNet
