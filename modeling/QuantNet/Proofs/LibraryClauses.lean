import Mathlib.Data.List.Induction
import Mathlib.Data.List.Nodup
import QuantNet.Vhdl.Unit

/-!
# Library clauses

The library clause of a design unit is described by what it lists: every library once, in the order of first
appearance, and below it every package of this library once, in the order of first appearance. It can be collected as
well, in one pass over the packages: each is put at the end of the clause of its library, unless it is there already,
and a library that is new gets a clause of its own at the end. A package more changes the description as it changes the
collection (`clauses_append_singleton`), so both are the same for every interleaving of the libraries
(`clauses_eq_collected`).
-/

namespace QuantNet.Vhdl

/-! ### Order of first appearance -/

section FirstAppearances

variable {α : Type} [DecidableEq α] {xs : List α} {a : α}

/-- The values of the first list, each once, in the order in which they first appear there. -/
structure FirstAppearances (xs ys : List α) : Prop where
  mem_iff : ∀ a, a ∈ ys ↔ a ∈ xs
  ordered : ys.Pairwise fun a b => xs.idxOf a < xs.idxOf b

theorem FirstAppearances.nodup {ys : List α} (h : FirstAppearances xs ys) : ys.Nodup :=
  h.ordered.imp fun {_ _} hlt hsame => Nat.ne_of_lt hlt (congrArg xs.idxOf hsame)

@[simp]
theorem mem_distinct : a ∈ distinct xs ↔ a ∈ xs := by
  induction xs with
  | nil => rfl
  | cons x xs ih =>
    by_cases h : a = x <;> simp [distinct, ih, h]

theorem firstAppearances_distinct (xs : List α) : FirstAppearances xs (distinct xs) where
  mem_iff _ := mem_distinct
  ordered := by
    induction xs with
    | nil => exact .nil
    | cons x xs ih =>
      have hbehind : ∀ {b}, b ∈ (distinct xs).filter (· ≠ x) → (x :: xs).idxOf b = xs.idxOf b + 1 := by
        intro b hb
        have hne : b ≠ x := by simpa using (List.mem_filter.mp hb).2
        exact List.idxOf_cons_ne _ hne.symm
      refine List.pairwise_cons.mpr ⟨fun b hb => ?_, (ih.filter _).imp_of_mem fun hb hc hlt => ?_⟩
      · rw [List.idxOf_cons_self, hbehind hb]
        exact Nat.succ_pos _
      · rw [hbehind hb, hbehind hc]
        exact Nat.succ_lt_succ hlt

theorem distinct_filter (p : α → Bool) (xs : List α) : distinct (xs.filter p) = (distinct xs).filter p := by
  induction xs with
  | nil => rfl
  | cons x xs ih =>
    rw [distinct, List.filter_cons, List.filter_cons]
    split
    · rw [distinct, ih, List.filter_comm]
    · rename_i hx
      -- the value that is dropped in front is among those that are dropped behind it
      rw [ih, List.filter_filter]
      refine List.filter_congr fun b _ => ?_
      by_cases hb : b = x <;> simp [hb, hx]

/-- A value more is listed at the end, unless it appeared before. -/
theorem distinct_append_singleton (xs : List α) (a : α) :
    distinct (xs ++ [a]) = if a ∈ xs then distinct xs else distinct xs ++ [a] := by
  induction xs with
  | nil => rfl
  | cons x xs ih =>
    rw [List.cons_append, distinct, ih, distinct]
    by_cases hx : a = x
    · subst hx
      rw [if_pos List.mem_cons_self]
      split_ifs <;> simp
    · simp only [List.mem_cons, hx, false_or]
      split_ifs
      · rfl
      · simp [hx]

end FirstAppearances

/-! ### Clauses -/

/-- A library with packages of it. -/
structure LibraryClause where
  /-- The library. -/
  library : String
  /-- The packages. -/
  packages : List Package
deriving DecidableEq

namespace LibraryClause

/-- The lines of a clause: the library, then the packages. -/
def lines (c : LibraryClause) : List String :=
  ("library " ++ c.library ++ ";") :: c.packages.map fun p => "    use " ++ c.library ++ "." ++ p.name ++ ".all;"

/-- The names that the lines of a clause show. -/
def names (c : LibraryClause) : List (String × String) := c.packages.map fun p => (c.library, p.name)

/-- The clause with a package at the end, unless it is there already. -/
def insert (c : LibraryClause) (p : Package) : LibraryClause :=
  { c with packages := if p ∈ c.packages then c.packages else c.packages ++ [p] }

end LibraryClause

/-- The clauses with a package more: in the clause of its library, or in a new one at the end. -/
def collect : List LibraryClause → Package → List LibraryClause
  | [], p => [⟨p.library, [p]⟩]
  | c :: cs, p => if c.library = p.library then c.insert p :: cs else c :: collect cs p

/-- The clauses of packages, collected in one pass. -/
def collected (packages : List Package) : List LibraryClause := packages.foldl collect []

/-- The clauses of packages, described by what they list. -/
def clauses (packages : List Package) : List LibraryClause :=
  (libraries packages).map fun library => ⟨library, members packages library⟩

theorem libraryLines_eq (packages : List Package) :
    libraryLines packages = (clauses packages).flatMap LibraryClause.lines := by
  rw [libraryLines, clauses, List.flatMap_map]
  rfl

theorem members_eq (packages : List Package) (library : String) :
    members packages library = distinct (packages.filter (·.library = library)) := (distinct_filter _ _).symm

/-- A package more belongs to its own library and to no other. -/
theorem members_append_singleton (packages : List Package) (p : Package) (library : String) :
    members (packages ++ [p]) library =
      if p.library = library then ((LibraryClause.mk library (members packages library)).insert p).packages
      else members packages library := by
  rw [members_eq, members_eq, List.filter_append, List.filter_singleton]
  split_ifs with h <;> simp [distinct_append_singleton, LibraryClause.insert, h]

/-- A library more is listed at the end, unless it was mentioned before. -/
theorem libraries_append_singleton (packages : List Package) (p : Package) :
    libraries (packages ++ [p]) =
      if p.library ∈ libraries packages then libraries packages else libraries packages ++ [p.library] := by
  rw [libraries, List.map_append, List.map_singleton, distinct_append_singleton, libraries]
  simp only [mem_distinct]

theorem mem_libraries {packages : List Package} {library : String} :
    library ∈ libraries packages ↔ ∃ p ∈ packages, p.library = library := by
  rw [libraries, mem_distinct, List.mem_map]

theorem nodup_libraries (packages : List Package) : (libraries packages).Nodup := (firstAppearances_distinct _).nodup

/-! ### One pass -/

/-- A package of a library without a clause gets a new one. -/
theorem collect_of_new {cs : List LibraryClause} {p : Package} (h : ∀ c ∈ cs, c.library ≠ p.library) :
    collect cs p = cs ++ [⟨p.library, [p]⟩] := by
  induction cs with
  | nil => rfl
  | cons c cs ih =>
    obtain ⟨hc, hcs⟩ := List.forall_mem_cons.mp h
    rw [collect, if_neg hc, ih hcs, List.cons_append]

/-- A package of a library with a clause goes there, and the other clauses stay. -/
theorem collect_of_known {known : List String} (hnodup : known.Nodup) (listed : String → List Package) {p : Package}
    (h : p.library ∈ known) :
    collect (known.map fun library => ⟨library, listed library⟩) p =
      known.map fun library => if p.library = library then (LibraryClause.mk library (listed library)).insert p
        else ⟨library, listed library⟩ := by
  induction known with
  | nil => cases h
  | cons library known ih =>
    obtain ⟨hnew, hnodup⟩ := List.nodup_cons.mp hnodup
    rw [List.map_cons, List.map_cons, collect]
    by_cases hlibrary : library = p.library
    · rw [if_pos hlibrary, if_pos hlibrary.symm]
      refine congrArg _ (List.map_congr_left fun other hother => ?_)
      -- the library stands in front and does not come again
      rw [if_neg]
      rintro rfl
      exact hnew (hlibrary ▸ hother)
    · rw [if_neg hlibrary, if_neg (Ne.symm hlibrary),
        ih hnodup ((List.mem_cons.mp h).resolve_left (Ne.symm hlibrary))]

/-- The clauses with a package more are those that collect it. -/
theorem clauses_append_singleton (packages : List Package) (p : Package) :
    clauses (packages ++ [p]) = collect (clauses packages) p := by
  rw [clauses, libraries_append_singleton]
  have hclause : ∀ library, LibraryClause.mk library (members (packages ++ [p]) library) =
      if p.library = library then (LibraryClause.mk library (members packages library)).insert p
        else ⟨library, members packages library⟩ := by
    intro library
    rw [members_append_singleton]
    split_ifs <;> rfl
  simp only [hclause]
  split_ifs with h
  · rw [clauses, collect_of_known (nodup_libraries packages) _ h]
  · have hnew : ∀ c ∈ clauses packages, c.library ≠ p.library := by
      intro c hc hsame
      obtain ⟨library, hlibrary, rfl⟩ := List.mem_map.mp hc
      exact h (hsame ▸ hlibrary)
    have hempty : members packages p.library = [] := by
      rw [members_eq, List.filter_eq_nil_iff.mpr]
      · rfl
      · intro q hq hlibrary
        exact h (mem_libraries.mpr ⟨q, hq, by simpa using hlibrary⟩)
    rw [collect_of_new hnew, List.map_append, clauses, List.map_singleton, if_pos rfl, hempty]
    refine congrArg (· ++ _) (List.map_congr_left fun library hlibrary => ?_)
    rw [if_neg]
    rintro rfl
    exact h hlibrary

/-- Collecting the packages in one pass gives the clauses that are described. -/
theorem clauses_eq_collected (packages : List Package) : clauses packages = collected packages := by
  induction packages using List.reverseRecOn with
  | nil => rfl
  | append_singleton packages p ih =>
    rw [clauses_append_singleton, ih, collected, collected, List.foldl_append]
    rfl

/-! ### Names -/

/-- The clauses show the packages of the list, each below its library. -/
theorem mem_names_iff {packages : List Package} {library name : String} :
    (library, name) ∈ (clauses packages).flatMap LibraryClause.names ↔ ⟨name, library⟩ ∈ packages := by
  simp only [clauses, List.flatMap_map, List.mem_flatMap, LibraryClause.names, List.mem_map, Prod.mk.injEq]
  constructor
  · rintro ⟨_, -, q, hq, rfl, rfl⟩
    rw [members_eq, mem_distinct, List.mem_filter, decide_eq_true_eq] at hq
    obtain ⟨hq, rfl⟩ := hq
    exact hq
  · intro h
    refine ⟨library, mem_libraries.mpr ⟨_, h, rfl⟩, ⟨name, library⟩, ?_, rfl, rfl⟩
    rw [members_eq, mem_distinct]
    exact List.mem_filter.mpr ⟨h, by simp⟩

/-- No package is shown twice: the libraries differ between clauses, and within a clause the names do. -/
theorem nodup_names (packages : List Package) : ((clauses packages).flatMap LibraryClause.names).Nodup := by
  rw [clauses, List.flatMap_map, List.nodup_flatMap]
  constructor
  · intro library _
    rw [LibraryClause.names, members_eq]
    refine (firstAppearances_distinct _).nodup.map_on fun p hp q hq hsame => ?_
    rw [mem_distinct, List.mem_filter, decide_eq_true_eq] at hp hq
    obtain ⟨-, hp⟩ := hp
    obtain ⟨-, hq⟩ := hq
    cases p
    cases q
    simp_all
  · refine (nodup_libraries packages).imp fun {first second} hne => ?_
    rintro ⟨library, name⟩ hfirst hsecond
    obtain ⟨_, -, hfirst⟩ := List.mem_map.mp hfirst
    obtain ⟨_, -, hsecond⟩ := List.mem_map.mp hsecond
    exact hne ((congrArg Prod.fst hfirst).trans (congrArg Prod.fst hsecond).symm)

/-- **What the library clause lists.** A design unit starts with one clause for each library of its packages, in the
order of first appearance. A clause names the library and then the packages of this library, each once and in the
order of first appearance. So the pairs of library and package that are shown are those of the list, each shown once.
The clauses are those that are collected in one pass over the packages, in whatever order the libraries come. -/
theorem DesignUnit.starts_with_clauses (u : DesignUnit) :
    u.lines = (collected u.packages).flatMap LibraryClause.lines ++ u.entity.lines ++ u.architecture.lines ∧
    FirstAppearances (u.packages.map Package.library) ((collected u.packages).map LibraryClause.library) ∧
    (∀ c ∈ collected u.packages, FirstAppearances (u.packages.filter (·.library = c.library)) c.packages) ∧
    (∀ library name, (library, name) ∈ (collected u.packages).flatMap LibraryClause.names ↔
      ⟨name, library⟩ ∈ u.packages) ∧
    ((collected u.packages).flatMap LibraryClause.names).Nodup := by
  rw [← clauses_eq_collected]
  refine ⟨by rw [lines, libraryLines_eq], ?_, ?_, fun library name => mem_names_iff, nodup_names _⟩
  · have hlibraries : (clauses u.packages).map LibraryClause.library = libraries u.packages := by
      rw [clauses, List.map_map]
      exact List.map_id _
    rw [hlibraries]
    exact firstAppearances_distinct _
  · intro c hc
    obtain ⟨library, -, rfl⟩ := List.mem_map.mp hc
    simp only [members_eq]
    exact firstAppearances_distinct _

/-- Packages of two libraries in turns, one of them twice. -/
theorem DesignUnit.starts_with_clauses_interleaved :
    let fixedPoint : Package := ⟨"fxp_pkg", "work"⟩
    let u : DesignUnit :=
      { DesignUnit.ofEntity ⟨"e", []⟩ with packages := [stdLogic1164, fixedPoint, numericStd, stdLogic1164] }
    LibraryClause.mk "ieee" [stdLogic1164, numericStd] ∈ collected u.packages ∧
      FirstAppearances (u.packages.filter (·.library = "ieee")) [stdLogic1164, numericStd] ∧
      u.lines = ["library ieee;", "    use ieee.std_logic_1164.all;", "    use ieee.numeric_std.all;", "library work;",
        "    use work.fxp_pkg.all;"] ++ u.entity.lines ++ u.architecture.lines := by
  intro fixedPoint u
  obtain ⟨hlines, -, hpackages, -, -⟩ := starts_with_clauses u
  have hmem : LibraryClause.mk "ieee" [stdLogic1164, numericStd] ∈ collected u.packages := by decide
  exact ⟨hmem, hpackages _ hmem, hlines.trans (by decide)⟩

end QuantNet.Vhdl
