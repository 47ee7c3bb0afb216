import QuantNet.Proofs.Outcome
import QuantNet.Proofs.Text
import QuantNet.Template

/-!
# What a template becomes

A line of a template is text with placeholders in it. It can be read in one way only: text without an opening `${`, a
name without a closing `}`, text, a name, and so on, up to text that no opening follows, or up to an opening that is
never closed (`Reading`, `existsUnique_reads`). Text ends at the first opening and a name at the first closing, so
a name may hold an opening, and what is inserted is not part of the reading.

From its reading a line gets its meaning without any order of steps. It becomes the text with the value of each name in
its place, and it fails at the first name that has no text, or else at the opening that is never closed (`Becomes`,
`Fails`). A line that is nothing but the place of a list becomes the elements of the list. These two are exclusive and
between them cover all lines, so it is enough to follow the computation into each of them: the other directions come
for free.
-/

namespace QuantNet

open Text

/-- The characters start a placeholder somewhere. -/
def Opens (cs : List Char) : Prop := ['$', '{'] <:+: cs

instance : DecidablePred Opens := fun cs => inferInstanceAs (Decidable (['$', '{'] <:+: cs))

/-- A placeholder with the text in front of it. -/
@[ext]
structure Slot where
  /-- The text in front. -/
  before : List Char
  /-- The name between the braces. -/
  name : String
deriving DecidableEq

/-- A line taken apart. -/
structure Reading where
  /-- The placeholders, in order. -/
  slots : List Slot
  /-- The text behind the last one. -/
  tail : List Char
  /-- What follows an opening behind this text, if there is one. -/
  unclosed? : Option (List Char)
deriving DecidableEq

namespace Slot

/-- The placeholder as it is written. -/
def chars (s : Slot) : List Char := s.before ++ '$' :: '{' :: (s.name.toList ++ ['}'])

/-- The placeholder with a text in its place. -/
def filled (s : Slot) (value : String) : List Char := s.before ++ value.toList

/-- The parts of a line that a placeholder accounts for. -/
def pieces (s : Slot) : List Piece := s.before.map .char ++ [.hole s.name]

/-- The text ends at the first opening, and the name at the first closing. -/
structure IsFirst (s : Slot) : Prop where
  before : ¬ Opens s.before
  name : '}' ∉ s.name.toList

end Slot

namespace Reading

/-- The line as it is written. -/
def chars (r : Reading) : List Char :=
  r.slots.flatMap Slot.chars ++ (r.tail ++ match r.unclosed? with
    | none => []
    | some cs => '$' :: '{' :: cs)

/-- The line with texts in the places of the names. -/
def filled (r : Reading) (values : List String) : List Char :=
  (List.zipWith Slot.filled r.slots values).flatten ++ r.tail

/-- The parts of the line. -/
def pieces (r : Reading) : List Piece :=
  r.slots.flatMap Slot.pieces ++ (r.tail.map .char ++ match r.unclosed? with
    | none => []
    | some _ => [.unclosed])

/-- The characters taken apart from left to right. -/
structure Reads (r : Reading) (cs : List Char) : Prop where
  spelled : r.chars = cs
  slots : ∀ s ∈ r.slots, s.IsFirst
  tail : ¬ Opens r.tail
  unclosed : ∀ cs ∈ r.unclosed?, '}' ∉ cs

end Reading

/-! ### The first opening -/

theorem opens_append_right {cs : List Char} (ds : List Char) (h : Opens cs) : Opens (ds ++ cs) := by
  obtain ⟨a, b, hab⟩ := h
  exact ⟨ds ++ a, b, by rw [← hab]; simp⟩

theorem opens_opening (cs ds : List Char) : Opens (cs ++ '$' :: '{' :: ds) := ⟨cs, ds, by simp⟩

theorem opens_cons_iff {c : Char} {cs : List Char} :
    Opens (c :: cs) ↔ (∃ rest, c = '$' ∧ cs = '{' :: rest) ∨ Opens cs := by
  rw [Opens, List.infix_cons_iff]
  refine or_congr ⟨?_, ?_⟩ Iff.rfl
  · rintro ⟨rest, hrest⟩
    simp only [List.cons_append, List.nil_append, List.cons.injEq] at hrest
    exact ⟨rest, hrest.1.symm, hrest.2.symm⟩
  · rintro ⟨rest, rfl, rfl⟩
    exact ⟨rest, rfl⟩

theorem opensHole_iff {cs : List Char} : opensHole cs = true ↔ Opens cs := by
  induction cs with
  | nil => simp [opensHole, Opens]
  | cons c cs ih =>
    rw [opens_cons_iff, ← ih]
    by_cases hhere : ∃ rest, c = '$' ∧ cs = '{' :: rest
    · obtain ⟨rest, rfl, rfl⟩ := hhere
      simp [opensHole]
    · rw [opensHole, or_iff_right hhere]
      exact fun rest hc hcs => hhere ⟨rest, hc, hcs⟩

/-- Characters that start a placeholder have a first opening. -/
theorem exists_first_opening {cs : List Char} (h : Opens cs) :
    ∃ before rest, cs = before ++ '$' :: '{' :: rest ∧ ¬ Opens before := by
  induction cs with
  | nil => simp [Opens] at h
  | cons c cs ih =>
    by_cases hhere : ∃ rest, c = '$' ∧ cs = '{' :: rest
    · obtain ⟨rest, rfl, rfl⟩ := hhere
      exact ⟨[], rest, rfl, by simp [Opens]⟩
    · obtain ⟨before, rest, rfl, hbefore⟩ := ih ((opens_cons_iff.mp h).resolve_left hhere)
      refine ⟨c :: before, rest, rfl, fun hopens => ?_⟩
      rcases opens_cons_iff.mp hopens with ⟨rest', hc, hcs⟩ | hopens
      · exact hhere ⟨rest' ++ '$' :: '{' :: rest, hc, by rw [hcs]; rfl⟩
      · exact hbefore hopens

/-- There is only one first opening. -/
theorem first_opening_unique {before before' rest rest' : List Char} (hbefore : ¬ Opens before)
    (hbefore' : ¬ Opens before') (h : before ++ '$' :: '{' :: rest = before' ++ '$' :: '{' :: rest') :
    before = before' ∧ rest = rest' := by
  -- the longer one of two texts in front would hold the other opening
  have hlonger : ∀ {more rest rest' : List Char}, '$' :: '{' :: rest = more ++ '$' :: '{' :: rest' →
      more = [] ∨ Opens more := by
    intro more rest rest' hmore
    match more with
    | [] => exact .inl rfl
    | [c] => simp at hmore
    | c :: d :: more =>
      simp only [List.cons_append, List.cons.injEq] at hmore
      exact .inr ⟨[], more, by rw [← hmore.1, ← hmore.2.1]; rfl⟩
  rcases List.append_eq_append_iff.mp h with ⟨more, rfl, hmore⟩ | ⟨more, rfl, hmore⟩
  · rcases hlonger hmore with rfl | hopens
    · simpa using hmore
    · exact absurd (opens_append_right before hopens) hbefore'
  · rcases hlonger hmore with rfl | hopens
    · simpa [eq_comm] using hmore
    · exact absurd (opens_append_right before' hopens) hbefore

/-- There is only one first closing. -/
theorem first_closing_unique {c : Char} {name name' rest rest' : List Char} (hname : c ∉ name) (hname' : c ∉ name')
    (h : name ++ c :: rest = name' ++ c :: rest') : name = name' ∧ rest = rest' := by
  rcases List.append_eq_append_iff.mp h with ⟨more, rfl, hmore⟩ | ⟨more, rfl, hmore⟩
  · cases more with
    | nil => simpa using hmore
    | cons d more =>
      rw [List.cons_append, List.cons.injEq] at hmore
      simp [hmore.1] at hname'
  · cases more with
    | nil => simpa [eq_comm] using hmore
    | cons d more =>
      rw [List.cons_append, List.cons.injEq] at hmore
      simp [hmore.1] at hname

/-! ### Readings -/

namespace Reading

variable {r r' : Reading} {cs : List Char}

theorem reads_nil_iff {tail : List Char} {unclosed? : Option (List Char)} :
    Reads ⟨[], tail, unclosed?⟩ cs ↔
      ¬ Opens tail ∧ ((unclosed? = none ∧ cs = tail) ∨
        ∃ rest, unclosed? = some rest ∧ '}' ∉ rest ∧ cs = tail ++ '$' :: '{' :: rest) := by
  constructor
  · rintro ⟨rfl, -, htail, hunclosed⟩
    refine ⟨htail, ?_⟩
    cases unclosed? with
    | none => exact .inl ⟨rfl, by simp [chars]⟩
    | some rest => exact .inr ⟨rest, rfl, hunclosed rest rfl, by simp [chars]⟩
  · rintro ⟨htail, ⟨rfl, rfl⟩ | ⟨rest, rfl, hrest, rfl⟩⟩
    · exact ⟨by simp [chars], by simp, htail, by simp⟩
    · exact ⟨by simp [chars], by simp, htail, by simpa using hrest⟩

theorem reads_cons_iff {s : Slot} {slots : List Slot} {tail : List Char} {unclosed? : Option (List Char)} :
    Reads ⟨s :: slots, tail, unclosed?⟩ cs ↔
      s.IsFirst ∧ ∃ rest, Reads ⟨slots, tail, unclosed?⟩ rest ∧
        cs = s.before ++ '$' :: '{' :: (s.name.toList ++ '}' :: rest) := by
  constructor
  · rintro ⟨rfl, hslots, htail, hunclosed⟩
    obtain ⟨hfirst, hslots⟩ := List.forall_mem_cons.mp hslots
    exact ⟨hfirst, _, ⟨rfl, hslots, htail, hunclosed⟩, by simp [chars, Slot.chars]⟩
  · rintro ⟨hfirst, rest, ⟨rfl, hslots, htail, hunclosed⟩, rfl⟩
    exact ⟨by simp [chars, Slot.chars], List.forall_mem_cons.mpr ⟨hfirst, hslots⟩, htail, hunclosed⟩

/-- All characters can be taken apart. -/
theorem exists_reads (cs : List Char) : ∃ r : Reading, r.Reads cs := by
  induction hn : cs.length using Nat.strong_induction_on generalizing cs with
  | _ n ih =>
    by_cases hopens : Opens cs
    · obtain ⟨before, rest, rfl, hbefore⟩ := exists_first_opening hopens
      by_cases hclosed : '}' ∈ rest
      · obtain ⟨name, rest, rfl, hname⟩ := List.eq_append_cons_of_mem hclosed
        obtain ⟨⟨slots, tail, unclosed?⟩, hrest⟩ := ih rest.length (by simp at hn; omega) rest rfl
        refine ⟨⟨⟨before, String.ofList name⟩ :: slots, tail, unclosed?⟩, reads_cons_iff.mpr ?_⟩
        exact ⟨⟨hbefore, by rwa [String.toList_ofList]⟩, rest, hrest, by rw [String.toList_ofList]⟩
      · exact ⟨⟨[], before, some rest⟩, reads_nil_iff.mpr ⟨hbefore, .inr ⟨rest, rfl, hclosed, rfl⟩⟩⟩
    · exact ⟨⟨[], cs, none⟩, reads_nil_iff.mpr ⟨hopens, .inl ⟨rfl, rfl⟩⟩⟩

/-- Characters with a placeholder cannot be read without one. -/
theorem not_reads_nil {s : Slot} {slots : List Slot} {tail tail' : List Char}
    {unclosed? unclosed?' : Option (List Char)} (h : Reads ⟨s :: slots, tail, unclosed?⟩ cs) :
    ¬ Reads ⟨[], tail', unclosed?'⟩ cs := by
  intro h'
  obtain ⟨hfirst, rest, -, rfl⟩ := reads_cons_iff.mp h
  obtain ⟨htail, ⟨-, hcs⟩ | ⟨rest', -, hclosed, hcs⟩⟩ := reads_nil_iff.mp h'
  · exact htail (hcs ▸ opens_opening _ _)
  · obtain ⟨-, hrest⟩ := first_opening_unique hfirst.before htail hcs
    exact hclosed (hrest ▸ List.mem_append_right _ List.mem_cons_self)

/-- They can be taken apart in one way only. -/
theorem Reads.unique (h : r.Reads cs) (h' : r'.Reads cs) : r = r' := by
  obtain ⟨slots, tail, unclosed?⟩ := r
  obtain ⟨slots', tail', unclosed?'⟩ := r'
  induction slots generalizing slots' cs with
  | nil =>
    cases slots' with
    | nil =>
      obtain ⟨htail, ⟨rfl, rfl⟩ | ⟨rest, rfl, -, rfl⟩⟩ := reads_nil_iff.mp h
      · obtain ⟨-, ⟨rfl, rfl⟩ | ⟨rest', -, -, rfl⟩⟩ := reads_nil_iff.mp h'
        · rfl
        · exact absurd (opens_opening _ _) htail
      · obtain ⟨htail', ⟨-, hcs⟩ | ⟨rest', rfl, -, hcs⟩⟩ := reads_nil_iff.mp h'
        · exact absurd (hcs ▸ opens_opening _ _) htail'
        · obtain ⟨rfl, rfl⟩ := first_opening_unique htail htail' hcs
          rfl
    | cons s' slots' => exact absurd h (not_reads_nil h')
  | cons s slots ih =>
    cases slots' with
    | nil => exact absurd h' (not_reads_nil h)
    | cons s' slots' =>
      obtain ⟨hfirst, rest, hrest, rfl⟩ := reads_cons_iff.mp h
      obtain ⟨hfirst', rest', hrest', hsame⟩ := reads_cons_iff.mp h'
      obtain ⟨hbefore, hsame⟩ := first_opening_unique hfirst.before hfirst'.before hsame
      obtain ⟨hname, rfl⟩ := first_closing_unique hfirst.name hfirst'.name hsame
      obtain ⟨rfl, rfl, rfl⟩ := Reading.mk.inj (ih hrest slots' hrest')
      obtain rfl : s = s' := Slot.ext hbefore (String.toList_inj.mp hname)
      rfl

theorem existsUnique_reads (cs : List Char) : ∃! r : Reading, r.Reads cs := by
  obtain ⟨r, hr⟩ := exists_reads cs
  exact ⟨r, hr, fun _ hr' => hr'.unique hr⟩

/-! ### Parts -/

theorem piecesFrom_cons {c : Char} (h : ¬ ∃ rest, c = '$' ∧ cs = '{' :: rest) :
    piecesFrom none (c :: cs) = .char c :: piecesFrom none cs := by
  rw [piecesFrom]
  exact fun rest hc hcs => h ⟨rest, hc, hcs⟩

/-- Text without an opening stands for itself, whatever opens behind it. -/
theorem piecesFrom_text {text : List Char} (h : ¬ Opens text) (rest : List Char) :
    piecesFrom none (text ++ '$' :: '{' :: rest) = text.map .char ++ piecesFrom (some []) rest := by
  induction text with
  | nil => rfl
  | cons c text ih =>
    rw [opens_cons_iff, not_or] at h
    rw [List.cons_append, piecesFrom_cons, ih h.2]
    · rfl
    · rintro ⟨rest', rfl, hrest'⟩
      cases text with
      | nil => simp at hrest'
      | cons d text => exact h.1 ⟨text, rfl, by rw [(List.cons.inj hrest').1]⟩

theorem piecesFrom_tail {text : List Char} (h : ¬ Opens text) : piecesFrom none text = text.map .char := by
  induction text with
  | nil => rfl
  | cons c text ih =>
    rw [opens_cons_iff, not_or] at h
    rw [piecesFrom_cons h.1, ih h.2, List.map_cons]

/-- A name ends at the first closing. -/
theorem piecesFrom_name {name : List Char} (h : '}' ∉ name) (read rest : List Char) :
    piecesFrom (some read) (name ++ '}' :: rest) =
      .hole (String.ofList (read.reverse ++ name)) :: piecesFrom none rest := by
  induction name generalizing read with
  | nil => simp [piecesFrom]
  | cons c name ih =>
    rw [List.mem_cons, not_or] at h
    rw [List.cons_append, piecesFrom, ih h.2, List.reverse_cons, List.append_assoc, List.singleton_append]
    exact fun hc => h.1 hc.symm

theorem piecesFrom_unclosed {name : List Char} (h : '}' ∉ name) (read : List Char) :
    piecesFrom (some read) name = [.unclosed] := by
  induction name generalizing read with
  | nil => rfl
  | cons c name ih =>
    rw [List.mem_cons, not_or] at h
    rw [piecesFrom, ih h.2]
    exact fun hc => h.1 hc.symm

/-- The parts of a line are those of its reading. -/
theorem Reads.piecesFrom_eq (h : r.Reads cs) : piecesFrom none cs = r.pieces := by
  obtain ⟨slots, tail, unclosed?⟩ := r
  induction slots generalizing cs with
  | nil =>
    obtain ⟨htail, ⟨rfl, rfl⟩ | ⟨rest, rfl, hclosed, rfl⟩⟩ := reads_nil_iff.mp h
    · simp [piecesFrom_tail htail, pieces]
    · simp [piecesFrom_text htail, piecesFrom_unclosed hclosed, pieces]
  | cons s slots ih =>
    obtain ⟨hfirst, rest, hrest, rfl⟩ := reads_cons_iff.mp h
    rw [piecesFrom_text hfirst.before, piecesFrom_name hfirst.name, ih hrest]
    simp [pieces, Slot.pieces]

theorem exists_slot_of_hole {name : String} (h : .hole name ∈ r.pieces) : ∃ s ∈ r.slots, s.name = name := by
  rcases List.mem_append.mp h with h | h
  · obtain ⟨s, hs, h⟩ := List.mem_flatMap.mp h
    simp only [Slot.pieces, List.mem_append, List.mem_map, reduceCtorEq, and_false, exists_false, false_or,
      List.mem_singleton, Piece.hole.injEq] at h
    exact ⟨s, hs, h.symm⟩
  · -- the text behind the last placeholder holds none
    cases hunclosed : r.unclosed? <;> simp [hunclosed] at h

end Reading

/-! ### Lists -/

/-- A line that is a placeholder between blanks; `indent` are the blanks in front. -/
structure StandsAlone (line name indent : String) : Prop where
  spelled : ∃ trail : List Char, (∀ c ∈ trail, isBlank c = true) ∧
    line.toList = indent.toList ++ '$' :: '{' :: (name.toList ++ '}' :: trail)
  blank : ∀ c ∈ indent.toList, isBlank c = true
  named : name ≠ ""
  closed : '}' ∉ name.toList
  plain : ¬ Opens name.toList

/-- Characters without a dollar sign start no placeholder. -/
theorem not_opens_of_not_mem {cs : List Char} (h : '$' ∉ cs) : ¬ Opens cs := fun hopens =>
  h (hopens.subset List.mem_cons_self)

theorem not_opens_of_blank {cs : List Char} (h : ∀ c ∈ cs, isBlank c = true) : ¬ Opens cs :=
  not_opens_of_not_mem fun hdollar => absurd (h '$' hdollar) (by decide)

namespace StandsAlone

variable {line name indent : String}

/-- A placeholder between blanks is the only one of its line. -/
theorem reads (h : StandsAlone line name indent) :
    ∃ trail, Reading.Reads ⟨[⟨indent.toList, name⟩], trail, none⟩ line.toList := by
  obtain ⟨trail, htrail, hline⟩ := h.spelled
  refine ⟨trail, Reading.reads_cons_iff.mpr ⟨⟨not_opens_of_blank h.blank, h.closed⟩, trail, ?_, hline⟩⟩
  exact Reading.reads_nil_iff.mpr ⟨not_opens_of_blank htrail, .inl ⟨rfl, rfl⟩⟩

theorem indentation_eq (h : StandsAlone line name indent) : indentation line = indent := by
  obtain ⟨trail, -, hline⟩ := h.spelled
  rw [indentation, hline, List.takeWhile_append_of_pos h.blank, List.takeWhile_cons_of_neg (by decide),
    List.append_nil, String.ofList_toList]

theorem trimChars_eq (h : StandsAlone line name indent) :
    trimChars line.toList = '$' :: '{' :: (name.toList ++ ['}']) := by
  obtain ⟨trail, htrail, hline⟩ := h.spelled
  have hfront : dropBlanks line.toList = '$' :: '{' :: (name.toList ++ '}' :: trail) := by
    rw [hline, dropBlanks, List.dropWhile_append_of_pos h.blank, List.dropWhile_cons_of_neg (by decide)]
  have hback : dropBlanks ('$' :: '{' :: (name.toList ++ '}' :: trail)).reverse =
      '}' :: ('$' :: '{' :: name.toList).reverse := by
    have hsplit : '$' :: '{' :: (name.toList ++ '}' :: trail) = ('$' :: '{' :: name.toList ++ ['}']) ++ trail := by
      simp
    rw [dropBlanks, hsplit, List.reverse_append, List.dropWhile_append_of_pos (by simpa using htrail),
      List.reverse_append, List.reverse_singleton, List.singleton_append, List.dropWhile_cons_of_neg (by decide)]
  rw [trimChars, hfront, hback]
  simp

end StandsAlone

/-- What the template looks for, once the blanks are taken off. -/
theorem trimChars_of_loneHole? {line name : String} (h : loneHole? line = some name) :
    trimChars line.toList = '$' :: '{' :: (name.toList ++ ['}']) ∧ name ≠ "" ∧ '}' ∉ name.toList ∧
      ¬ Opens name.toList := by
  unfold loneHole? at h
  split at h
  · cases h
  rename_i rest hrest
  split at h
  · rename_i reversed hreversed
    split_ifs at h with hname
    obtain rfl := Option.some.inj h
    simp only [Bool.or_eq_true, not_or, List.isEmpty_iff, List.contains_eq_mem, decide_eq_true_eq, opensHole_iff]
      at hname
    obtain ⟨⟨hnamed, hclosed⟩, hplain⟩ := hname
    have hrest' : rest = reversed.reverse ++ ['}'] := by
      rw [← List.reverse_reverse rest, hreversed, List.reverse_cons]
    rw [String.toList_ofList]
    refine ⟨by rw [after?_eq_some_iff.mp hrest, hrest']; rfl, ?_, by simpa using hclosed, hplain⟩
    rw [Ne, ← String.toList_inj, String.toList_ofList]
    simpa using hnamed
  · cases h

/-- The template recognises the lines that are a placeholder between blanks. -/
theorem loneHole?_eq_some_iff {line name : String} :
    loneHole? line = some name ↔ ∃ indent, StandsAlone line name indent := by
  constructor
  · intro h
    obtain ⟨htrim, hnamed, hclosed, hplain⟩ := trimChars_of_loneHole? h
    obtain ⟨trail, hdrop, htrail, -⟩ := exists_trimChars line.toList
    refine ⟨indentation line, ⟨trail, htrail, ?_⟩, ?_, hnamed, hclosed, hplain⟩
    · rw [indentation, String.toList_ofList]
      calc line.toList = line.toList.takeWhile isBlank ++ dropBlanks line.toList :=
            List.takeWhile_append_dropWhile.symm
        _ = line.toList.takeWhile isBlank ++ '$' :: '{' :: (name.toList ++ '}' :: trail) := by
            rw [hdrop, htrim]
            simp
    · rw [indentation, String.toList_ofList]
      exact fun c hc => List.mem_takeWhile_imp hc
  · rintro ⟨indent, h⟩
    have hafter : after? ['$', '{'] (trimChars line.toList) = some (name.toList ++ ['}']) :=
      after?_eq_some_iff.mpr h.trimChars_eq
    have hnamed : name.toList ≠ [] := by simpa using h.named
    have hplain : opensHole name.toList = false := Bool.eq_false_iff.mpr fun hopens => h.plain (opensHole_iff.mp hopens)
    simp [loneHole?, hafter, hnamed, hplain, h.closed]

/-! ### Lines -/

section Lines

variable {params : Parameters} {line : String} {t : Template} {number : Nat}

/-- The line is the place of a list; `indent` are the blanks in front. -/
def IsPlaceOf (params : Parameters) (line indent : String) (values : List String) : Prop :=
  ∃ name, StandsAlone line name indent ∧ params.get? name = some (.lines values)

/-- The placeholder has a text. -/
def Slot.HasText (params : Parameters) (s : Slot) (value : String) : Prop := params.get? s.name = some (.text value)

/-- What a line becomes: the elements of the list whose place it is, with the blanks in front of it, or else the line
with its text in the place of every name. -/
inductive Becomes (params : Parameters) (line : String) : List String → Prop
  | lines {indent : String} {values : List String} (hplace : IsPlaceOf params line indent values) :
      Becomes params line (values.map (indent ++ ·))
  | text {r : Reading} {values : List String} (hplace : ∀ indent values, ¬ IsPlaceOf params line indent values)
      (hr : r.Reads line.toList) (hclosed : r.unclosed? = none)
      (hvalues : List.Forall₂ (Slot.HasText params) r.slots values) :
      Becomes params line [String.ofList (r.filled values)]

/-- A line without placeholders becomes itself. -/
theorem becomes_self (h : ¬ Opens line.toList) : Becomes params line [line] := by
  have hreads : Reading.Reads ⟨[], line.toList, none⟩ line.toList :=
    Reading.reads_nil_iff.mpr ⟨h, .inl ⟨rfl, rfl⟩⟩
  have hplace : ∀ indent values, ¬ IsPlaceOf params line indent values := by
    rintro indent values ⟨name, hname, -⟩
    obtain ⟨trail, -, hline⟩ := hname.spelled
    rw [hline] at h
    exact h (opens_opening _ _)
  have hself := Becomes.text hplace hreads rfl List.Forall₂.nil
  simpa [Reading.filled] using hself

/-- How a line that is not the place of a list fails: at the first placeholder without a text, or at the opening that is
never closed. -/
inductive Fails (params : Parameters) (template : String) (number : Nat) (line : String) : OutputError → Prop
  | missing {r : Reading} {before after : List Slot} {s : Slot}
      (hplace : ∀ indent values, ¬ IsPlaceOf params line indent values) (hr : r.Reads line.toList)
      (hslots : r.slots = before ++ s :: after) (hbefore : ∀ b ∈ before, ∃ value, b.HasText params value)
      (hs : params.get? s.name = none) : Fails params template number line (.missingParameter template s.name)
  | list {r : Reading} {before after : List Slot} {s : Slot} {values : List String}
      (hplace : ∀ indent values, ¬ IsPlaceOf params line indent values) (hr : r.Reads line.toList)
      (hslots : r.slots = before ++ s :: after) (hbefore : ∀ b ∈ before, ∃ value, b.HasText params value)
      (hs : params.get? s.name = some (.lines values)) : Fails params template number line (.listInline template s.name)
  | unclosed {r : Reading} {rest : List Char} (hplace : ∀ indent values, ¬ IsPlaceOf params line indent values)
      (hr : r.Reads line.toList) (hopen : r.unclosed? = some rest)
      (hslots : ∀ s ∈ r.slots, ∃ value, s.HasText params value) :
      Fails params template number line (.unterminated template number)

/-- Everything in a list has a property, or there is a first thing that has it not. -/
theorem forall_or_exists_first {α : Type} (p : α → Prop) (xs : List α) :
    (∀ x ∈ xs, p x) ∨ ∃ before x after, xs = before ++ x :: after ∧ (∀ b ∈ before, p b) ∧ ¬ p x := by
  induction xs with
  | nil => exact .inl fun _ hx => absurd hx List.not_mem_nil
  | cons x xs ih =>
    by_cases hx : p x
    · rcases ih with hall | ⟨before, y, after, rfl, hbefore, hy⟩
      · exact .inl (List.forall_mem_cons.mpr ⟨hx, hall⟩)
      · exact .inr ⟨x :: before, y, after, rfl, List.forall_mem_cons.mpr ⟨hx, hbefore⟩, hy⟩
    · exact .inr ⟨[], x, xs, rfl, fun _ hb => absurd hb List.not_mem_nil, hx⟩

/-- Every line becomes something or fails. -/
theorem becomes_or_fails (params : Parameters) (template : String) (number : Nat) (line : String) :
    (∃ out, Becomes params line out) ∨ ∃ e, Fails params template number line e := by
  by_cases hplace : ∃ indent values, IsPlaceOf params line indent values
  · obtain ⟨indent, values, hplace⟩ := hplace
    exact .inl ⟨_, .lines hplace⟩
  · simp only [not_exists] at hplace
    obtain ⟨r, hr⟩ := Reading.exists_reads line.toList
    rcases forall_or_exists_first (fun s => ∃ value, Slot.HasText params s value) r.slots with htexts |
      ⟨before, s, after, hslots, hbefore, hs⟩
    · obtain ⟨values, hvalues⟩ := Outcome.exists_forall₂ htexts
      cases hclosed : r.unclosed? with
      | none => exact .inl ⟨_, .text hplace hr hclosed hvalues⟩
      | some rest => exact .inr ⟨_, .unclosed hplace hr hclosed htexts⟩
    · cases hvalue : params.get? s.name with
      | none => exact .inr ⟨_, .missing hplace hr hslots hbefore hvalue⟩
      | some param =>
        cases param with
        | text value => exact absurd ⟨value, hvalue⟩ hs
        | lines values => exact .inr ⟨_, .list hplace hr hslots hbefore hvalue⟩

namespace Template

theorem fill_text (text : List Char) (ps : List Piece) :
    t.fill params number (text.map .char ++ ps) = (t.fill params number ps).map (text ++ ·) := by
  induction text with
  | nil => cases hrest : t.fill params number ps <;> simp [hrest]
  | cons c text ih =>
    rw [List.map_cons, List.cons_append, fill, ih]
    cases t.fill params number ps <;> rfl

theorem fill_slot {s : Slot} {value : String} (h : s.HasText params value) (ps : List Piece) :
    t.fill params number (s.pieces ++ ps) = (t.fill params number ps).map (s.filled value ++ ·) := by
  rw [Slot.pieces, List.append_assoc, fill_text, List.singleton_append, fill, h]
  cases t.fill params number ps <;> simp [Slot.filled]

/-- Placeholders that have a text are filled with it. -/
theorem fill_slots {slots : List Slot} {values : List String} (h : List.Forall₂ (Slot.HasText params) slots values)
    (ps : List Piece) :
    t.fill params number (slots.flatMap Slot.pieces ++ ps) =
      (t.fill params number ps).map ((List.zipWith Slot.filled slots values).flatten ++ ·) := by
  induction h with
  | nil => cases hrest : t.fill params number ps <;> simp [hrest]
  | cons hfirst _ ih =>
    rw [List.flatMap_cons, List.append_assoc, fill_slot hfirst, ih]
    cases t.fill params number ps <;> simp

/-- The first placeholder without a text decides, whatever follows it. -/
theorem fill_first {before after : List Slot} {s : Slot} (hbefore : ∀ b ∈ before, ∃ value, b.HasText params value)
    {e : OutputError} (hs : ∀ ps, t.fill params number (.hole s.name :: ps) = .error e) (ps : List Piece) :
    t.fill params number ((before ++ s :: after).flatMap Slot.pieces ++ ps) = .error e := by
  obtain ⟨values, hvalues⟩ := Outcome.exists_forall₂ hbefore
  rw [List.flatMap_append, List.append_assoc, fill_slots hvalues, List.flatMap_cons, Slot.pieces, List.append_assoc,
    List.append_assoc, fill_text, List.singleton_append, hs]
  rfl

/-- A line that is not the place of a list is filled. -/
theorem renderLine_of_not_place (hplace : ∀ indent values, ¬ IsPlaceOf params line indent values) {r : Reading}
    (hr : r.Reads line.toList) :
    t.renderLine params number line = (t.fill params number r.pieces).map fun cs => [String.ofList cs] := by
  rw [← hr.piecesFrom_eq]
  unfold renderLine
  split
  · rename_i values hvalues
    obtain ⟨name, hname, hvalues⟩ := Option.bind_eq_some_iff.mp hvalues
    obtain ⟨indent, hindent⟩ := loneHole?_eq_some_iff.mp hname
    exact absurd ⟨name, hindent, hvalues⟩ (hplace indent values)
  · rfl

theorem renderLine_of_becomes {out : List String} (h : Becomes params line out) :
    t.renderLine params number line = .ok out := by
  cases h with
  | lines hplace =>
    obtain ⟨name, hname, hvalues⟩ := hplace
    rw [renderLine, loneHole?_eq_some_iff.mpr ⟨_, hname⟩, Option.bind_some, hvalues, ← hname.indentation_eq]
  | @text r values hplace hr hclosed hvalues =>
    rw [renderLine_of_not_place hplace hr, Reading.pieces, hclosed, fill_slots hvalues, fill_text]
    simp [fill, Reading.filled]

theorem renderLine_of_fails {e : OutputError} (h : Fails params t.name number line e) :
    t.renderLine params number line = .error e := by
  cases h with
  | missing hplace hr hslots hbefore hs =>
    rw [renderLine_of_not_place hplace hr, Reading.pieces, hslots, fill_first hbefore fun ps => by rw [fill, hs]]
    rfl
  | list hplace hr hslots hbefore hs =>
    rw [renderLine_of_not_place hplace hr, Reading.pieces, hslots, fill_first hbefore fun ps => by rw [fill, hs]]
    rfl
  | unclosed hplace hr hopen hslots =>
    obtain ⟨values, hvalues⟩ := Outcome.exists_forall₂ hslots
    rw [renderLine_of_not_place hplace hr, Reading.pieces, hopen, fill_slots hvalues, fill_text, fill]
    rfl

theorem renderLine_eq_ok_iff {out : List String} :
    t.renderLine params number line = .ok out ↔ Becomes params line out := by
  refine ⟨fun h => ?_, renderLine_of_becomes⟩
  rcases becomes_or_fails params t.name number line with ⟨out', hout⟩ | ⟨e, he⟩
  · rw [renderLine_of_becomes hout, Except.ok.injEq] at h
    exact h ▸ hout
  · rw [renderLine_of_fails he] at h
    cases h

theorem renderLine_eq_error_iff {e : OutputError} :
    t.renderLine params number line = .error e ↔ Fails params t.name number line e := by
  refine ⟨fun h => ?_, renderLine_of_fails⟩
  rcases becomes_or_fails params t.name number line with ⟨out, hout⟩ | ⟨e', he⟩
  · rw [renderLine_of_becomes hout] at h
    cases h
  · rw [renderLine_of_fails he, Except.error.injEq] at h
    exact h ▸ he

/-! ### Templates -/

/-- Lines become what each of them becomes, in order. -/
theorem renderFrom_eq_ok_iff {sources out : List String} :
    t.renderFrom params number sources = .ok out ↔
      ∃ parts, List.Forall₂ (Becomes params) sources parts ∧ parts.flatten = out := by
  induction sources generalizing number out with
  | nil => simp [renderFrom, eq_comm]
  | cons source sources ih =>
    simp only [renderFrom, Outcome.bind_eq_ok_iff, Outcome.pure_eq_ok, Except.ok.injEq, renderLine_eq_ok_iff, ih]
    constructor
    · rintro ⟨first, hfirst, others, ⟨parts, hparts, rfl⟩, rfl⟩
      exact ⟨first :: parts, .cons hfirst hparts, rfl⟩
    · rintro ⟨parts, hparts, rfl⟩
      cases hparts with
      | cons hfirst hrest => exact ⟨_, hfirst, _, ⟨_, hrest, rfl⟩, rfl⟩

/-- Lines fail as the first of them that does. -/
theorem renderFrom_eq_error_iff {sources : List String} {e : OutputError} :
    t.renderFrom params number sources = .error e ↔
      ∃ before source after, sources = before ++ source :: after ∧ (∀ b ∈ before, ∃ part, Becomes params b part) ∧
        Fails params t.name (number + before.length) source e := by
  constructor
  · induction sources generalizing number with
    | nil => exact fun h => by cases h
    | cons source sources ih =>
      intro h
      rw [renderFrom] at h
      cases hline : t.renderLine params number source with
      | error cause =>
        rw [hline, Outcome.error_bind, Except.error.injEq] at h
        have hfails := renderLine_eq_error_iff.mp hline
        exact ⟨[], source, sources, rfl, fun _ hb => absurd hb List.not_mem_nil, h ▸ hfails⟩
      | ok part =>
        rw [hline, Outcome.ok_bind] at h
        have hpart := renderLine_eq_ok_iff.mp hline
        cases hrest : t.renderFrom params (number + 1) sources with
        | ok others =>
          rw [hrest] at h
          cases h
        | error cause =>
          rw [hrest, Outcome.error_bind, Except.error.injEq] at h
          obtain ⟨before, failing, after, rfl, hbefore, hfails⟩ := ih (h ▸ hrest)
          refine ⟨source :: before, failing, after, rfl, List.forall_mem_cons.mpr ⟨⟨part, hpart⟩, hbefore⟩, ?_⟩
          rwa [List.length_cons, Nat.add_comm before.length, ← Nat.add_assoc]
  · rintro ⟨before, source, after, rfl, hbefore, hfails⟩
    induction before generalizing number with
    | nil =>
      have hline : t.renderLine params number source = .error e := renderLine_eq_error_iff.mpr hfails
      rw [List.nil_append, renderFrom, hline, Outcome.error_bind]
    | cons b before ih =>
      obtain ⟨⟨part, hpart⟩, hbefore⟩ := List.forall_mem_cons.mp hbefore
      rw [List.length_cons, Nat.add_comm before.length, ← Nat.add_assoc] at hfails
      rw [List.cons_append, renderFrom, renderLine_eq_ok_iff.mpr hpart, Outcome.ok_bind, ih hbefore hfails,
        Outcome.error_bind]

/-! ### Names -/

theorem fill_congr {params' : Parameters} {ps : List Piece}
    (h : ∀ name, .hole name ∈ ps → params'.get? name = params.get? name) :
    t.fill params' number ps = t.fill params number ps := by
  induction ps with
  | nil => rfl
  | cons p ps ih =>
    have hrest := ih fun name hname => h name (List.mem_cons_of_mem _ hname)
    cases p with
    | char c => rw [fill, fill, hrest]
    | unclosed => rfl
    | hole name => rw [fill, fill, h name List.mem_cons_self, hrest]

theorem renderLine_congr {params' : Parameters}
    (h : ∀ r : Reading, r.Reads line.toList → ∀ s ∈ r.slots, params'.get? s.name = params.get? s.name) :
    t.renderLine params' number line = t.renderLine params number line := by
  obtain ⟨r, hr⟩ := Reading.exists_reads line.toList
  have hfill : t.fill params' number (pieces line) = t.fill params number (pieces line) := by
    refine fill_congr fun name hname => ?_
    rw [pieces, hr.piecesFrom_eq] at hname
    obtain ⟨s, hs, rfl⟩ := Reading.exists_slot_of_hole hname
    exact h r hr s hs
  have hlone : (loneHole? line).bind params'.get? = (loneHole? line).bind params.get? := by
    cases hname : loneHole? line with
    | none => rfl
    | some name =>
      obtain ⟨indent, hindent⟩ := loneHole?_eq_some_iff.mp hname
      obtain ⟨trail, hreads⟩ := hindent.reads
      exact h _ hreads ⟨indent.toList, name⟩ List.mem_cons_self
  rw [renderLine, renderLine, hfill, hlone]

theorem renderFrom_congr {params' : Parameters} {sources : List String}
    (h : ∀ line ∈ sources, ∀ r : Reading, r.Reads line.toList →
      ∀ s ∈ r.slots, params'.get? s.name = params.get? s.name) :
    t.renderFrom params' number sources = t.renderFrom params number sources := by
  induction sources generalizing number with
  | nil => rfl
  | cons source sources ih =>
    rw [renderFrom, renderFrom, renderLine_congr (h source List.mem_cons_self),
      ih fun line hline => h line (List.mem_cons_of_mem _ hline)]

end Template

end Lines

/-- A name that stands in a placeholder of the text. -/
def Mentions (body name : String) : Prop :=
  ∃ line ∈ Text.lines body, ∃ r : Reading, r.Reads line.toList ∧ ∃ s ∈ r.slots, s.name = name

/-- **What a template becomes.** Every line can be taken apart in one way. The template becomes the lines that each of
its lines becomes, in order, and it fails as the first of its lines that fails. Names that it does not mention do not
matter. -/
theorem Template.render_iff_becomes (name body : String) (params : Parameters) :
    (∀ line : String, ∃! r : Reading, r.Reads line.toList) ∧
    (∀ out, (ofText name body).render params = .ok out ↔
      ∃ parts, List.Forall₂ (Becomes params) (Text.lines body) parts ∧ parts.flatten = out) ∧
    (∀ e, (ofText name body).render params = .error e ↔
      ∃ before line after, Text.lines body = before ++ line :: after ∧
        (∀ b ∈ before, ∃ part, Becomes params b part) ∧ Fails params name (before.length + 1) line e) ∧
    ∀ params' : Parameters, (∀ n, Mentions body n → params'.get? n = params.get? n) →
      (ofText name body).render params' = (ofText name body).render params := by
  refine ⟨fun line => Reading.existsUnique_reads line.toList, fun out => renderFrom_eq_ok_iff, fun e => ?_,
    fun params' h => ?_⟩
  · simp only [Nat.add_comm _ 1]
    exact renderFrom_eq_error_iff
  · exact renderFrom_congr fun line hline r hr s hs => h s.name ⟨line, hline, r, hr, s, hs, rfl⟩

/-- A value is inserted as it is: a placeholder in it stays, and its name does not matter. -/
theorem Template.render_iff_becomes_verbatim :
    let params := Parameters.none.withText "width" "$\x7bdepth\x7d"
    (∀ n, Mentions "  $\x7bwidth\x7d bits" n → (params.withText "depth" "2").get? n = params.get? n) ∧
      (Template.ofText "t" "  $\x7bwidth\x7d bits").render (params.withText "depth" "2") =
        .ok ["  $\x7bdepth\x7d bits"] := by
  intro params
  have hspec := Template.render_iff_becomes "t" "  $\x7bwidth\x7d bits" params
  have hline : Text.lines "  $\x7bwidth\x7d bits" = ["  $\x7bwidth\x7d bits"] := by decide +kernel
  have hreads : Reading.Reads ⟨[⟨"  ".toList, "width"⟩], " bits".toList, none⟩ "  $\x7bwidth\x7d bits".toList :=
    ⟨by decide +kernel, List.forall_mem_singleton.mpr ⟨by decide +kernel, by decide +kernel⟩, by decide +kernel,
      by simp⟩
  have hmentions : ∀ n, Mentions "  $\x7bwidth\x7d bits" n → (params.withText "depth" "2").get? n = params.get? n := by
    rintro n ⟨line, hmem, r, hr, s, hs, rfl⟩
    rw [hline, List.mem_singleton] at hmem
    subst hmem
    obtain rfl := hr.unique hreads
    rw [List.mem_singleton.mp hs]
    decide +kernel
  exact ⟨hmentions, (hspec.2.2.2 _ hmentions).trans (by decide +kernel)⟩

end QuantNet
