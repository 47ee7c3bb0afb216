import Mathlib.Algebra.Group.Nat.Defs
import Mathlib.Data.List.TakeWhile
import QuantNet.Text

/-!
# Text that reads back

What is written with separators, line feeds and decimal digits is read back unchanged, as long as
the parts hold none of the separators. The pieces of a text are those of the general `List.splitOn`
(`pieces_eq_splitOn`), so that taking apart what was put together needs no new induction.
-/

namespace QuantNet.Text

/-! ### Pieces -/

theorem pieces_eq_splitOn (sep : Char) (cs : List Char) : pieces sep cs = cs.splitOn sep := by
  induction cs with
  | nil => rfl
  | cons c cs ih =>
    have hne := List.splitOn_ne_nil sep cs
    rw [pieces, ih, List.splitOn_cons_eq_if_modifyHead]
    by_cases h : c = sep
    · rw [if_pos h, if_pos (by simp [h])]
    · rw [if_neg h, if_neg (by simpa using h)]
      cases hpieces : cs.splitOn sep with
      | nil => exact absurd hpieces hne
      | cons p ps => rfl

theorem fields_ne_nil (sep : Char) (s : String) : fields sep s ≠ [] := by
  rw [fields, pieces_eq_splitOn]
  simp

/-- The fields of a text that was put together from fields. -/
theorem fields_intercalate {sep : Char} {mark : String} (hmark : mark.toList = [sep]) {items : List String}
    (hne : items ≠ []) (h : ∀ item ∈ items, sep ∉ item.toList) : fields sep (mark.intercalate items) = items := by
  have hlists : ∀ l ∈ items.map String.toList, sep ∉ l := by
    intro l hl
    obtain ⟨item, hitem, rfl⟩ := List.mem_map.mp hl
    exact h item hitem
  rw [fields, String.toList_intercalate, hmark, pieces_eq_splitOn,
    List.splitOn_intercalate sep hlists (by simpa using hne), List.map_map]
  simp [Function.comp_def]

/-- The fields of a text make it up again. -/
theorem intercalate_fields {sep : Char} {mark : String} (hmark : mark.toList = [sep]) (s : String) :
    mark.intercalate (fields sep s) = s := by
  rw [← String.toList_inj, String.toList_intercalate, hmark, fields, pieces_eq_splitOn, List.map_map]
  simp [Function.comp_def]

/-- What comes before a separator and what comes after it are taken apart by themselves. -/
theorem fields_append (sep : Char) {mark : String} (hmark : mark.toList = [sep]) (s t : String) :
    fields sep (s ++ mark ++ t) = fields sep s ++ fields sep t := by
  have hlist : (s ++ mark ++ t).toList = s.toList ++ sep :: t.toList := by simp [hmark]
  rw [fields, fields, fields, hlist, pieces_eq_splitOn, pieces_eq_splitOn, pieces_eq_splitOn,
    List.splitOn_append_cons_self, List.map_append]

/-- A text without separators is one field. -/
theorem fields_eq_singleton {sep : Char} {s : String} (h : sep ∉ s.toList) : fields sep s = [s] := by
  rw [fields, pieces_eq_splitOn, List.splitOn_eq_singleton h]
  simp

/-- A field holds no separator. -/
theorem not_mem_of_mem_fields {sep : Char} {s field : String} (h : field ∈ fields sep s) : sep ∉ field.toList := by
  have hpieces : ∀ cs : List Char, ∀ piece ∈ pieces sep cs, sep ∉ piece := by
    intro cs
    induction cs with
    | nil => simp [pieces]
    | cons c cs ih =>
      rw [pieces]
      split
      · exact List.forall_mem_cons.mpr ⟨List.not_mem_nil, ih⟩
      · rename_i hc
        have hfirst : ∀ piece, sep ∉ piece → sep ∉ c :: piece := by
          intro piece hpiece
          rw [List.mem_cons]
          exact not_or_intro (Ne.symm hc) hpiece
        cases hsplit : pieces sep cs with
        | nil => exact List.forall_mem_singleton.mpr (hfirst [] List.not_mem_nil)
        | cons p ps =>
          rw [hsplit] at ih
          obtain ⟨hp, hps⟩ := List.forall_mem_cons.mp ih
          exact List.forall_mem_cons.mpr ⟨hfirst p hp, hps⟩
  obtain ⟨piece, hpiece, rfl⟩ := List.mem_map.mp h
  rw [String.toList_ofList]
  exact hpieces _ piece hpiece

theorem not_fields_prefix_dropLast (s : String) : ¬ fields '/' s <+: (fields '/' s).dropLast := by
  intro hprefix
  have hlength := hprefix.length_le
  have hpos := List.length_pos_iff.mpr (fields_ne_nil '/' s)
  rw [List.length_dropLast] at hlength
  omega

/-- A character of a text that was put together comes from a field or from the mark between them. -/
theorem mem_intercalate {mark : String} {items : List String} {c : Char} (h : c ∈ (mark.intercalate items).toList) :
    c ∈ mark.toList ∨ ∃ item ∈ items, c ∈ item.toList := by
  induction items with
  | nil => simp at h
  | cons item items ih =>
    cases items with
    | nil =>
      rw [String.intercalate_singleton] at h
      exact Or.inr ⟨item, List.mem_cons_self, h⟩
    | cons next items =>
      rw [String.intercalate_cons_cons, String.toList_append, String.toList_append, List.mem_append,
        List.mem_append] at h
      rcases h with (h | h) | h
      · exact Or.inr ⟨item, List.mem_cons_self, h⟩
      · exact Or.inl h
      · rcases ih h with h | ⟨other, hother, h⟩
        · exact Or.inl h
        · exact Or.inr ⟨other, List.mem_cons_of_mem _ hother, h⟩

/-! ### Lines -/

theorem dropReturn_eq_self {cs : List Char} (h : '\r' ∉ cs) : dropReturn cs = cs := by
  unfold dropReturn
  split
  · rename_i rest hrest
    have hmem : '\r' ∈ cs.reverse := by simp [hrest]
    exact absurd (List.mem_reverse.mp hmem) h
  · rfl

/-- Pieces before an empty last one are lines. -/
theorem linesOfPieces_append_nil {ps : List (List Char)} (h : ∀ p ∈ ps, '\r' ∉ p) :
    linesOfPieces (ps ++ [[]]) = ps := by
  induction ps with
  | nil => rfl
  | cons p ps ih =>
    have hrest : linesOfPieces (p :: (ps ++ [[]])) = dropReturn p :: linesOfPieces (ps ++ [[]]) := by
      cases ps <;> rfl
    rw [List.cons_append, hrest, dropReturn_eq_self (h p List.mem_cons_self),
      ih fun q hq => h q (List.mem_cons_of_mem _ hq)]

/-- The lines of a text that was put together from lines. -/
theorem lines_intercalate {rows : List String} (hne : rows ≠ [])
    (h : ∀ row ∈ rows, '\n' ∉ row.toList ∧ '\r' ∉ row.toList) : lines ("\n".intercalate rows ++ "\n") = rows := by
  have htext : "\n".intercalate rows ++ "\n" = "\n".intercalate (rows ++ [""]) := by
    rw [String.intercalate_append_of_ne_nil hne (List.cons_ne_nil _ _), String.intercalate_singleton,
      String.append_empty]
  have hpieces : pieces '\n' ("\n".intercalate (rows ++ [""])).toList = rows.map String.toList ++ [[]] := by
    have hlists : ∀ l ∈ (rows ++ [""]).map String.toList, '\n' ∉ l := by
      intro l hl
      obtain ⟨row, hrow, rfl⟩ := List.mem_map.mp hl
      rcases List.mem_append.mp hrow with hrow | hrow
      · exact (h row hrow).1
      · rw [List.mem_singleton.mp hrow]
        exact List.not_mem_nil
    rw [String.toList_intercalate, pieces_eq_splitOn]
    exact (List.splitOn_intercalate '\n' hlists (by simp)).trans (by simp)
  have hreturn : ∀ p ∈ rows.map String.toList, '\r' ∉ p := by
    intro p hp
    obtain ⟨row, hrow, rfl⟩ := List.mem_map.mp hp
    exact (h row hrow).2
  rw [lines, htext, hpieces, linesOfPieces_append_nil hreturn, List.map_map]
  simp [Function.comp_def]

/-! ### Blanks -/

theorem dropBlanks_cons {c : Char} (h : isBlank c = false) (cs : List Char) : dropBlanks (c :: cs) = c :: cs :=
  List.dropWhile_cons_of_neg (by simp [h])

/-- A text that starts with a character other than a blank keeps it. -/
theorem trimChars_cons {c : Char} (h : isBlank c = false) (cs : List Char) :
    ∃ rest, trimChars (c :: cs) = c :: rest := by
  have hkept : dropBlanks (cs.reverse ++ [c]) = dropBlanks cs.reverse ++ [c] := by
    unfold dropBlanks
    rw [List.dropWhile_append]
    split
    · rename_i hempty
      rw [List.isEmpty_iff.mp hempty]
      exact dropBlanks_cons h []
    · rfl
  refine ⟨(dropBlanks cs.reverse).reverse, ?_⟩
  rw [trimChars, dropBlanks_cons h, List.reverse_cons, hkept]
  simp

/-- A text without blanks at its ends is not trimmed. -/
theorem trim_eq_self {s : String} (hfirst : ∀ c ∈ s.toList.head?, isBlank c = false)
    (hlast : ∀ c ∈ s.toList.getLast?, isBlank c = false) : trim s = s := by
  have hends : ∀ cs : List Char, (∀ c ∈ cs.head?, isBlank c = false) → dropBlanks cs = cs := by
    intro cs hcs
    cases cs with
    | nil => rfl
    | cons c cs => exact dropBlanks_cons (hcs c rfl) cs
  have hreverse : dropBlanks s.toList.reverse = s.toList.reverse := by
    refine hends _ ?_
    rw [List.head?_reverse]
    exact hlast
  rw [trim, trimChars, hends _ hfirst, hreverse, List.reverse_reverse, String.ofList_toList]

/-- What is left of a text is followed by blanks and does not end in one. -/
theorem exists_trimChars (cs : List Char) :
    ∃ blanks, dropBlanks cs = trimChars cs ++ blanks ∧ (∀ c ∈ blanks, isBlank c = true) ∧
      ∀ c ∈ (trimChars cs).getLast?, isBlank c = false := by
  refine ⟨((dropBlanks cs).reverse.takeWhile isBlank).reverse, ?_, fun c hc => ?_, fun c hc => ?_⟩
  · rw [trimChars, dropBlanks, dropBlanks, ← List.reverse_append, List.takeWhile_append_dropWhile, List.reverse_reverse]
  · exact List.mem_takeWhile_imp (List.mem_reverse.mp hc)
  · rw [trimChars, List.getLast?_reverse] at hc
    have hfirst := List.head?_dropWhile_not isBlank (dropBlanks cs).reverse
    rw [show (List.dropWhile isBlank (dropBlanks cs).reverse).head? = some c from hc] at hfirst
    exact hfirst

/-- A start that ends in a blank is kept if something other than blanks follows. -/
theorem prefix_trimChars_iff {start tail cs : List Char} {b : Char} (hb : isBlank b = true)
    (h : dropBlanks cs = start ++ [b] ++ tail) : start ++ [b] <+: trimChars cs ↔ ¬ ∀ c ∈ tail, isBlank c = true := by
  obtain ⟨blanks, hdrop, hblanks, hlast⟩ := exists_trimChars cs
  rw [hdrop] at h
  constructor
  · rintro ⟨kept, hkept⟩ htail
    have hsplit : kept ++ blanks = tail := by
      rwa [← hkept, List.append_assoc, List.append_cancel_left_eq] at h
    -- what is kept ends in the blank or in the tail
    have hall : ∀ c ∈ b :: kept, isBlank c = true :=
      List.forall_mem_cons.mpr ⟨hb, fun c hc => htail c (hsplit ▸ List.mem_append_left _ hc)⟩
    have hend : (trimChars cs).getLast? = some ((b :: kept).getLast (List.cons_ne_nil _ _)) := by
      rw [← hkept, List.append_assoc, List.singleton_append, List.getLast?_append,
        List.getLast?_eq_some_getLast (List.cons_ne_nil _ _), Option.some_or]
    have hblank := hlast _ hend
    rw [hall _ (List.getLast_mem _)] at hblank
    cases hblank
  · intro htail
    by_contra hnot
    have hprefix : start ++ [b] <+: trimChars cs ++ blanks := h ▸ List.prefix_append _ _
    obtain ⟨rest, hrest⟩ := (List.prefix_or_prefix_of_prefix hprefix (List.prefix_append _ _)).resolve_left hnot
    have hsplit : blanks = rest ++ tail := by
      rwa [← hrest, List.append_assoc, List.append_cancel_left_eq] at h
    exact htail fun c hc => hblanks c (hsplit ▸ List.mem_append_right _ hc)

/-! ### Marks -/

theorem after?_eq_some_iff {start cs rest : List Char} : after? start cs = some rest ↔ cs = start ++ rest := by
  induction start generalizing cs with
  | nil => exact Option.some_inj
  | cons s start ih =>
    cases cs with
    | nil => simp [after?]
    | cons c cs =>
      by_cases hc : s = c
      · rw [after?, if_pos hc, ih, hc, List.cons_append, List.cons.injEq, and_iff_right rfl]
      · simp [after?, hc, Ne.symm hc]

/-- What is left of a text is what stands behind the mark. -/
theorem dropStart?_eq_some_iff {mark s rest : String} : dropStart? mark s = some rest ↔ s = mark ++ rest := by
  rw [dropStart?, Option.map_eq_some_iff]
  constructor
  · rintro ⟨cs, hcs, rfl⟩
    rw [← String.toList_inj, after?_eq_some_iff.mp hcs, String.toList_append, String.toList_ofList]
  · rintro rfl
    exact ⟨rest.toList, after?_eq_some_iff.mpr String.toList_append, String.ofList_toList⟩

/-- A mark in front of a text is taken off. -/
theorem dropStart?_append (mark s : String) : dropStart? mark (mark ++ s) = some s := dropStart?_eq_some_iff.mpr rfl

/-- A text that starts with another character than the mark does not have the mark. -/
theorem dropStart?_trim_eq_none {mark s : String} {m c : Char} {ms cs : List Char} (hmark : mark.toList = m :: ms)
    (hs : s.toList = c :: cs) (hblank : isBlank c = false) (hne : m ≠ c) : dropStart? mark (trim s) = none := by
  obtain ⟨rest, hrest⟩ := trimChars_cons hblank cs
  rw [dropStart?, trim, hs, hrest, String.toList_ofList, hmark, after?, if_neg hne]
  rfl

/-! ### Numerals -/

theorem toList_ofNat (n : Nat) : (ofNat n).toList = Nat.toDigits 10 n := String.toList_ofList

/-- Every character of a numeral is a digit. -/
theorem isDigit_of_mem_ofNat {n : Nat} {c : Char} (h : c ∈ (ofNat n).toList) : c.isDigit = true := by
  rw [toList_ofNat] at h
  exact Nat.isDigit_of_mem_toDigits (by decide) (by decide) h

theorem natural?_ofNat (n : Nat) : natural? (ofNat n).toList = some n := by
  have hdigits : (ofNat n).toList.all Char.isDigit = true := List.all_eq_true.mpr fun c => isDigit_of_mem_ofNat
  have hne : (ofNat n).toList.isEmpty = false := by
    rw [toList_ofNat]
    exact List.isEmpty_eq_false_iff.mpr Nat.toDigits_ne_nil
  have hvalue : decimal (ofNat n).toList = n := by
    rw [toList_ofNat]
    exact Nat.ofDigitChars_ten_toDigits
  rw [natural?, hdigits, hne, hvalue]
  rfl

/-- A numeral is read back exactly if it is that of a 64-bit word. -/
theorem size?_ofNat (n : Nat) : size? (ofNat n).toList = if n < 2 ^ 64 then some n else none := by
  have hplus : ∀ ds, (ofNat n).toList ≠ '+' :: ds := by
    intro ds hds
    have hdigit : '+'.isDigit = true := isDigit_of_mem_ofNat (n := n) (by simp [hds])
    exact absurd hdigit (by decide)
  have hnatural : size? (ofNat n).toList =
      (natural? (ofNat n).toList).bind fun n => if n < twoPow 64 then some n else none := by
    unfold size?
    split
    · rename_i ds hds
      exact absurd hds (hplus ds)
    · rfl
  rw [hnatural, natural?_ofNat]
  rfl

end QuantNet.Text
