import QuantNet.Proofs.ReportDecoding

/-!
# Results that a report loses

What every line of a report contributes to its groups. A line is trimmed at both ends before the mark is
looked for, and the mark itself ends in a blank: a line with nothing but blanks behind the mark is trimmed
to a text that is shorter than the mark, and is taken for a line without results (`isBare_iff`). Such a line
is ignored as long as another one has results, while a blank field next to others has no value and makes the
decoding fail. All other lines that start with the mark contribute at least one value each
(`contributions_of_decode`).

The two conventions differ in what stands between the commas, not in how values are collected: values without
a batch all belong to the first one, and make the one group that they should (`groups_of_first`). So a
report is decoded exactly if every line contributes something to one list of entries
(`decode_eq_ok_iff_contributions`).
-/

namespace QuantNet.Report

variable {f : QFormat} {convention : ReportConvention} {line : String} {lines : List String}

/-- A line that starts with the mark, blanks in front of it apart. -/
def IsMarked (line : String) : Prop := mark.toList <+: Text.dropBlanks line.toList

instance (line : String) : Decidable (IsMarked line) := inferInstanceAs (Decidable (_ <+: _))

/-- A line with nothing but blanks behind the mark. -/
def IsBare (line : String) : Prop :=
  ∃ blanks, (∀ c ∈ blanks, Text.isBlank c = true) ∧ Text.dropBlanks line.toList = mark.toList ++ blanks

theorem isResult_iff_trimChars : IsResult line ↔ mark.toList <+: Text.trimChars line.toList := by
  rw [IsResult, Text.trim, String.toList_ofList]

/-- The marked lines without a result are those with nothing but blanks behind the mark: the mark loses its own
blank when they are trimmed. -/
theorem isBare_iff : IsBare line ↔ IsMarked line ∧ ¬ IsResult line := by
  have hmark : mark.toList = "result:".toList ++ [' '] := by decide
  have hkept : ∀ tail, Text.dropBlanks line.toList = mark.toList ++ tail →
      (IsResult line ↔ ¬ ∀ c ∈ tail, Text.isBlank c = true) := by
    intro tail htail
    rw [hmark] at htail
    rw [isResult_iff_trimChars, hmark, Text.prefix_trimChars_iff (by decide) htail]
  constructor
  · rintro ⟨tail, hblank, htail⟩
    exact ⟨⟨tail, htail.symm⟩, fun hresult => (hkept tail htail).mp hresult hblank⟩
  · rintro ⟨⟨tail, htail⟩, hnot⟩
    exact ⟨tail, by_contra fun hblank => hnot ((hkept tail htail.symm).mpr hblank), htail.symm⟩

/-! ### Contributions -/

/-- The value of a field without a batch belongs to the first batch. -/
def IsField (f : QFormat) (field : String) (entry : Nat × ReportedValue) : Prop := entry.1 = 0 ∧ IsValue f field entry.2

/-- What a line contributes to the entries of a report: one entry for each of its fields, or its only one, if it has a
result, and else nothing. -/
inductive Contributes (f : QFormat) : ReportConvention → String → List (Nat × ReportedValue) → Prop
  | nothing {convention : ReportConvention} {line : String} (hline : ¬ IsResult line) : Contributes f convention line []
  | fields {line result : String} {entries : List (Nat × ReportedValue)} (hline : Text.trim line = mark ++ result)
    (hfields : List.Forall₂ (IsField f) (Text.fields ',' result) entries) : Contributes f .perLine line entries
  | entry {line result : String} {entry : Nat × ReportedValue} (hline : Text.trim line = mark ++ result)
    (hentry : IsEntry f result entry) : Contributes f .batched line [entry]

/-- Exactly the lines with results contribute something. -/
theorem Contributes.eq_nil_iff {part : List (Nat × ReportedValue)} (h : Contributes f convention line part) :
    part = [] ↔ ¬ IsResult line := by
  cases h with
  | nothing hline => exact iff_of_true rfl hline
  | @fields _ result _ hline hfields =>
    refine iff_of_false ?_ (not_not_intro (isResult_iff.mpr ⟨_, hline⟩))
    rintro rfl
    exact Text.fields_ne_nil ',' result (List.forall₂_nil_right_iff.mp hfields)
  | entry hline _ => exact iff_of_false (List.cons_ne_nil _ _) (not_not_intro (isResult_iff.mpr ⟨_, hline⟩))

/-- What stands behind the mark in a line, if it has the mark. -/
def found (line : String) : List String := (Text.dropStart? mark (Text.trim line)).toList

theorem found_of_trim {result : String} (h : Text.trim line = mark ++ result) : found line = [result] := by
  rw [found, Text.dropStart?_eq_some_iff.mpr h, Option.toList_some]

/-- A line without a result, and no other one, shows nothing. -/
theorem found_eq_nil_iff : found line = [] ↔ ¬ IsResult line := by
  rw [isResult_iff, found]
  cases hline : Text.dropStart? mark (Text.trim line) with
  | some result => exact iff_of_false (List.cons_ne_nil _ _) (not_not_intro ⟨result, Text.dropStart?_eq_some_iff.mp hline⟩)
  | none =>
    refine iff_of_true rfl ?_
    rintro ⟨result, hresult⟩
    rw [Text.dropStart?_eq_some_iff.mpr hresult] at hline
    cases hline

theorem found_cases (line : String) :
    (¬ IsResult line ∧ found line = []) ∨ ∃ result, Text.trim line = mark ++ result ∧ found line = [result] := by
  by_cases h : IsResult line
  · obtain ⟨result, hresult⟩ := isResult_iff.mp h
    exact .inr ⟨result, hresult, found_of_trim hresult⟩
  · exact .inl ⟨h, found_eq_nil_iff.mpr h⟩

theorem results_eq_flatMap (lines : List String) : results lines = lines.flatMap found := by
  induction lines with
  | nil => rfl
  | cons line rest ih =>
    rw [results, List.filterMap_cons, List.flatMap_cons, ← ih, found]
    cases Text.dropStart? mark (Text.trim line) <;> rfl

theorem contributes_perLine_iff {part : List (Nat × ReportedValue)} :
    Contributes f .perLine line part ↔ List.Forall₂ (IsField f) ((found line).flatMap (Text.fields ',')) part := by
  constructor
  · intro h
    cases h with
    | nothing hline =>
      rw [found_eq_nil_iff.mpr hline]
      exact .nil
    | fields hline hfields => rwa [found_of_trim hline, List.flatMap_singleton]
  · intro h
    obtain ⟨hline, hnone⟩ | ⟨result, hresult, hone⟩ := found_cases line
    · rw [hnone, List.flatMap_nil, List.forall₂_nil_left_iff] at h
      exact h ▸ .nothing hline
    · rw [hone, List.flatMap_singleton] at h
      exact .fields hresult h

theorem contributes_batched_iff {part : List (Nat × ReportedValue)} :
    Contributes f .batched line part ↔ List.Forall₂ (IsEntry f) (found line) part := by
  constructor
  · intro h
    cases h with
    | nothing hline =>
      rw [found_eq_nil_iff.mpr hline]
      exact .nil
    | entry hline hentry =>
      rw [found_of_trim hline]
      exact .cons hentry .nil
  · intro h
    obtain ⟨hline, hnone⟩ | ⟨result, hresult, hone⟩ := found_cases line
    · rw [hnone, List.forall₂_nil_left_iff] at h
      exact h ▸ .nothing hline
    · rw [hone] at h
      cases h with
      | cons hentry hrest =>
        cases hrest
        exact .entry hresult hentry

/-- Values of the first batch only make one group. -/
theorem groups_of_first {entries : List (Nat × ReportedValue)} (h : ∀ e ∈ entries, e.1 = 0) (hne : entries ≠ []) :
    groups entries = [(0, entries.map Prod.snd)] := by
  induction entries using List.reverseRecOn with
  | nil => exact absurd rfl hne
  | append_singleton entries e ih =>
    have he : e.1 = 0 := h e (List.mem_append_right _ (List.mem_singleton_self e))
    rw [groups_concat, he]
    by_cases hnone : entries = []
    · rw [hnone]
      rfl
    · rw [ih (fun e he => h e (List.mem_append_left _ he)) hnone, addTo, if_pos rfl, List.map_append]
      rfl

theorem results_ne_nil_iff : results lines ≠ [] ↔ ∃ line ∈ lines, IsResult line := by
  simp [results_eq_flatMap, found_eq_nil_iff]

/-- With one value per field, the contributions of the lines are the fields of all results. -/
theorem exists_contributions_perLine_iff {entries : List (Nat × ReportedValue)} :
    (∃ parts, List.Forall₂ (Contributes f .perLine) lines parts ∧ parts.flatten = entries) ↔
      List.Forall₂ (IsField f) ((results lines).flatMap (Text.fields ',')) entries := by
  have hpart : Contributes f .perLine = fun line => List.Forall₂ (IsField f) ((found line).flatMap (Text.fields ',')) :=
    funext₂ fun _ _ => propext contributes_perLine_iff
  rw [results_eq_flatMap, List.flatMap_assoc, Outcome.forall₂_flatMap_left_iff, hpart]

/-- With batches, the contributions of the lines are the entries of all results. -/
theorem exists_contributions_batched_iff {entries : List (Nat × ReportedValue)} :
    (∃ parts, List.Forall₂ (Contributes f .batched) lines parts ∧ parts.flatten = entries) ↔
      List.Forall₂ (IsEntry f) (results lines) entries := by
  have hpart : Contributes f .batched = fun line => List.Forall₂ (IsEntry f) (found line) :=
    funext₂ fun _ _ => propext contributes_batched_iff
  rw [results_eq_flatMap, Outcome.forall₂_flatMap_left_iff, hpart]

/-- The fields of all results make one group. -/
theorem groups_of_fields (hfound : results lines ≠ []) {entries : List (Nat × ReportedValue)}
    (h : List.Forall₂ (IsField f) ((results lines).flatMap (Text.fields ',')) entries) :
    groups entries = [(0, entries.map Prod.snd)] := by
  refine groups_of_first (fun e he => ?_) ?_
  · obtain ⟨field, -, hfield⟩ := Outcome.exists_left_of_mem h he
    exact hfield.1
  · rintro rfl
    obtain ⟨result, hresult⟩ := List.exists_mem_of_ne_nil _ hfound
    exact Text.fields_ne_nil ',' result (List.flatMap_eq_nil_iff.mp (List.forall₂_nil_right_iff.mp h) result hresult)

/-- A report with results is decoded exactly if every line of it contributes something or has no result. -/
theorem decode_eq_ok_iff_contributions {gs : List (List ReportedValue)} :
    decode f convention lines = .ok gs ↔ (∃ line ∈ lines, IsResult line) ∧
      ∃ parts, List.Forall₂ (Contributes f convention) lines parts ∧ gs = (groups parts.flatten).map (·.2) := by
  rw [← results_ne_nil_iff]
  by_cases hfound : results lines = []
  · rw [decode_eq_noResults_iff.mpr ⟨hfound, rfl⟩]
    simp [hfound]
  rw [and_iff_right hfound]
  cases convention with
  | perLine =>
    rw [decode_perLine_eq_ok_iff hfound]
    constructor
    · rintro ⟨group, hgroup, rfl⟩
      have hfields : List.Forall₂ (IsField f) ((results lines).flatMap (Text.fields ',')) (group.map fun v => (0, v)) :=
        List.forall₂_map_right_iff.mpr (hgroup.imp fun field v hv => ⟨rfl, hv⟩)
      obtain ⟨parts, hparts, hflatten⟩ := exists_contributions_perLine_iff.mpr hfields
      refine ⟨parts, hparts, ?_⟩
      rw [hflatten, groups_of_fields hfound hfields]
      simp [Function.comp_def]
    · rintro ⟨parts, hparts, rfl⟩
      have hfields := exists_contributions_perLine_iff.mp ⟨parts, hparts, rfl⟩
      refine ⟨parts.flatten.map Prod.snd, List.forall₂_map_right_iff.mpr (hfields.imp fun _ _ h => h.2), ?_⟩
      rw [groups_of_fields hfound hfields]
      rfl
  | batched =>
    rw [decode_batched_eq_ok_iff hfound]
    constructor
    · rintro ⟨entries, hentries, rfl⟩
      obtain ⟨parts, hparts, rfl⟩ := exists_contributions_batched_iff.mpr hentries
      exact ⟨parts, hparts, rfl⟩
    · rintro ⟨parts, hparts, rfl⟩
      exact ⟨_, exists_contributions_batched_iff.mp ⟨parts, hparts, rfl⟩, rfl⟩

/-- A field with nothing but blanks has no value. -/
theorem not_isValue_of_blank {field : String} (h : Text.trim field = "") (v : ReportedValue) : ¬ IsValue f field v := by
  have hrefused : IsRefused f field (.widthMismatch f.totalBits 0 "") := by
    have hbits : Bits.parse (Text.trim field) = .ok ⟨[]⟩ := by
      rw [h]
      rfl
    exact .width hbits rfl (Nat.ne_of_lt f.total_pos)
  intro hv
  have hok := decodeValue_of_isValue hv
  rw [decodeValue_of_isRefused hrefused] at hok
  cases hok

/-- **What a report loses.** In a report that is decoded, every line contributes the entries of its results, and the
groups partition the contributions of all lines. Among the lines that start with the mark, blanks in front of it
apart, those that contribute nothing are the ones with nothing but blanks behind the mark. In a line that contributes
one value per field no field is blank. -/
theorem contributions_of_decode {gs : List (List ReportedValue)} (h : decode f convention lines = .ok gs) :
    ∃ parts batches, List.Forall₂ (Contributes f convention) lines parts ∧ IsPartition parts.flatten batches ∧
      gs = batches.map (·.2) ∧
      (∀ p ∈ lines.zip parts, IsMarked p.1 → (p.2 = [] ↔ IsBare p.1)) ∧
      (convention = .perLine → ∀ line ∈ lines, ∀ result, Text.trim line = mark ++ result →
        ∀ field ∈ Text.fields ',' result, Text.trim field ≠ "") := by
  obtain ⟨-, parts, hparts, rfl⟩ := decode_eq_ok_iff_contributions.mp h
  refine ⟨parts, groups parts.flatten, hparts, isPartition_groups _, rfl, fun p hp hmarked => ?_, ?_⟩
  · have hpart : Contributes f convention p.1 p.2 := List.forall₂_zip hparts hp
    rw [hpart.eq_nil_iff, isBare_iff, and_iff_right hmarked]
  · rintro rfl line hline result hresult field hfield hblank
    obtain ⟨part, -, hpart⟩ := Outcome.exists_right_of_mem hparts hline
    rw [contributes_perLine_iff, found_of_trim hresult, List.flatMap_singleton] at hpart
    obtain ⟨e, -, he⟩ := Outcome.exists_right_of_mem hpart hfield
    exact not_isValue_of_blank hblank _ he.2

/-- A line with a blank value next to one with a number. -/
theorem contributions_bareLine :
    let f : QFormat := { totalBits := 3, fracBits := 0 }
    let lines := ["result: 001, 010", "done", "\tresult:  ", "result: 0X1"]
    let gs : List (List ReportedValue) := [[.number (.ofInt 1), .number (.ofInt 2), .raw "0X1"]]
    decode f .perLine lines = .ok gs ∧
      ∃ parts batches, List.Forall₂ (Contributes f .perLine) lines parts ∧ IsPartition parts.flatten batches ∧
        gs = batches.map (·.2) ∧ ∀ part, ("\tresult:  ", part) ∈ lines.zip parts → part = [] := by
  intro f lines gs
  have hdecoded : decode f .perLine lines = .ok gs := by decide +kernel
  obtain ⟨parts, batches, hparts, hpartition, hgs, hbare, -⟩ := contributions_of_decode hdecoded
  have hmarked : IsMarked "\tresult:  " := by decide
  have hline : IsBare "\tresult:  " := ⟨[' '], List.forall_mem_singleton.mpr rfl, by decide +kernel⟩
  refine ⟨hdecoded, parts, batches, hparts, hpartition, hgs, fun part hpart => ?_⟩
  exact (hbare ("\tresult:  ", part) hpart hmarked).mpr hline

/-- If every line that starts with the mark contributed a value, a report that is decoded would have at least as many
values as such lines. One with a bare line has fewer. -/
theorem not_forall_marked_le :
    ¬ ∀ (f : QFormat) (convention : ReportConvention) (lines : List String) (gs : List (List ReportedValue)),
      decode f convention lines = .ok gs →
        (lines.filter fun line => IsMarked line).length ≤ (gs.map List.length).sum := by
  intro hall
  have hdecoded : decode { totalBits := 3, fracBits := 0 } .perLine ["result: ", "result: 010"] =
      .ok [[.number (.ofInt 2)]] := by
    decide +kernel
  have hle := hall _ _ _ _ hdecoded
  revert hle
  decide +kernel

end QuantNet.Report
