import QuantNet.Proofs.EmittedFiles

/-!
# Declarations of entities

Which entities a file declares is read off its lines: a declaration is a line of the form `entity n is`. Every file
holds one component, and it declares the entity of this component and no other. For a unit that is put together
from its parts this follows from the form of the lines. A template is another matter, since what is put in place of
its placeholders could be anything. But every line of a template other than the declaration is moved in or
starts with characters that no declaration starts with (`neverDeclares`), whatever is filled in behind them.

What a file is there for can be told from its lines as well. The templates differ in lines that have no
placeholders, so the role of a component is a function of the lines (`Role.ofLines`).
-/

namespace QuantNet

open Outcome

/-! ### Lines that declare an entity -/

/-- The lines of a file declare an entity. -/
def DeclaresEntity (lines : List String) (entity : String) : Prop := "entity " ++ entity ++ " is" ∈ lines

/-- The characters that every declaration of an entity starts with. -/
def entityStart : List Char := ['e', 'n', 't', 'i', 't', 'y', ' ']

theorem starts_entity (entity : String) : entityStart <+: ("entity " ++ entity ++ " is").toList := by
  rw [String.toList_append, String.toList_append, List.append_assoc]
  exact List.prefix_append _ _

theorem entity_inj {entity entity' : String} (h : "entity " ++ entity ++ " is" = "entity " ++ entity' ++ " is") :
    entity = entity' := (String.append_right_inj _).mp ((String.append_left_inj _).mp h)

/-- Whether the parts of a line may be filled with a text that starts with the characters. -/
def mayStart : List Char → List Piece → Bool
  | [], _ => true
  | _ :: _, [] => false
  | c :: cs, .char c' :: ps => c = c' && mayStart cs ps
  | _ :: _, .hole _ :: _ => true
  | _ :: _, .unclosed :: _ => true

/-- Whether a line of a template, given by its characters, becomes only lines that declare no entity. -/
def neverDeclares (cs : List Char) : Bool :=
  cs.head? = some ' ' ||
    Text.after? ['$', '{'] (Text.trimChars cs) = none && !mayStart entityStart (piecesFrom none cs)

namespace Template

variable {t : Template} {params : Parameters}

theorem fill_cons_eq_ok_iff {number : Nat} {c : Char} {ps : List Piece} {filled : List Char} :
    t.fill params number (.char c :: ps) = .ok filled ↔ ∃ cs, t.fill params number ps = .ok cs ∧ c :: cs = filled :=
  map_eq_ok_iff

/-- Parts are filled one after the other. -/
theorem fill_append {number : Nat} {ps qs : List Piece} {cs ds : List Char} (hps : t.fill params number ps = .ok cs)
    (hqs : t.fill params number qs = .ok ds) : t.fill params number (ps ++ qs) = .ok (cs ++ ds) := by
  induction ps generalizing cs with
  | nil =>
    cases hps
    exact hqs
  | cons p rest ih =>
    cases p with
    | char c =>
      obtain ⟨others, hothers, rfl⟩ := fill_cons_eq_ok_iff.mp hps
      exact fill_cons_eq_ok_iff.mpr ⟨_, ih hothers, rfl⟩
    | unclosed => cases hps
    | hole name =>
      simp only [fill] at hps
      split at hps
      · rename_i value hvalue
        obtain ⟨others, hothers, rfl⟩ := map_eq_ok_iff.mp hps
        simp only [List.cons_append, fill, hvalue, ih hothers, map_ok_eq, List.append_assoc]
      · cases hps
      · cases hps

theorem mayStart_of_fill {number : Nat} {ps : List Piece} {start filled : List Char}
    (h : t.fill params number ps = .ok filled) (hstart : start <+: filled) : mayStart start ps = true := by
  induction ps generalizing start filled with
  | nil =>
    cases h
    rw [List.prefix_nil.mp hstart]
    rfl
  | cons p rest ih =>
    cases start with
    | nil => rfl
    | cons c cs =>
      cases p with
      | char c' =>
        obtain ⟨others, hothers, rfl⟩ := fill_cons_eq_ok_iff.mp h
        obtain ⟨rfl, hrest⟩ := List.cons_prefix_cons.mp hstart
        simpa [mayStart] using ih hothers hrest
      | hole name => rfl
      | unclosed => rfl

/-- The lines that a list of lines becomes are those that each of them becomes. -/
theorem exists_source_of_mem {sources lines : List String} {number : Nat}
    (h : t.renderFrom params number sources = .ok lines) {line : String} (hline : line ∈ lines) :
    ∃ source ∈ sources, ∃ n own, t.renderLine params n source = .ok own ∧ line ∈ own := by
  induction sources generalizing number lines with
  | nil =>
    cases h
    cases hline
  | cons source rest ih =>
    obtain ⟨first, hfirst, hrest⟩ := bind_eq_ok_iff.mp h
    obtain ⟨others, hothers, hall⟩ := bind_eq_ok_iff.mp hrest
    cases hall
    rcases List.mem_append.mp hline with hline | hline
    · exact ⟨source, List.mem_cons_self, number, first, hfirst, hline⟩
    · obtain ⟨source', hsource', hown⟩ := ih hothers hline
      exact ⟨source', List.mem_cons_of_mem _ hsource', hown⟩

theorem subset_of_mem_sources {sources lines : List String} {number : Nat}
    (h : t.renderFrom params number sources = .ok lines) {source : String} (hsource : source ∈ sources) :
    ∃ n own, t.renderLine params n source = .ok own ∧ own ⊆ lines := by
  induction sources generalizing number lines with
  | nil => cases hsource
  | cons source' rest ih =>
    obtain ⟨first, hfirst, hrest⟩ := bind_eq_ok_iff.mp h
    obtain ⟨others, hothers, hall⟩ := bind_eq_ok_iff.mp hrest
    cases hall
    rcases List.mem_cons.mp hsource with rfl | hsource
    · exact ⟨number, first, hfirst, List.subset_append_left _ _⟩
    · obtain ⟨n, own, hown, hsubset⟩ := ih hothers hsource
      exact ⟨n, own, hown, List.subset_append_of_subset_right _ hsubset⟩

/-- A line that is moved in becomes lines that are moved in. -/
theorem head?_of_renderLine {number : Nat} {cs : List Char} {own : List String} (hcs : cs.head? = some ' ')
    (h : t.renderLine params number (String.ofList cs) = .ok own) : ∀ line ∈ own, line.toList.head? = some ' ' := by
  obtain ⟨rest, rfl⟩ : ∃ rest, cs = ' ' :: rest := by
    cases cs with
    | nil => cases hcs
    | cons c rest => exact ⟨rest, by rw [Option.some.inj hcs]⟩
  unfold renderLine at h
  split at h
  · cases h
    have hindentation :
        indentation (String.ofList (' ' :: rest)) = String.ofList (' ' :: rest.takeWhile Text.isBlank) := by
      rw [indentation, String.toList_ofList, List.takeWhile_cons_of_pos (by decide)]
    intro line hline
    obtain ⟨value, -, rfl⟩ := List.mem_map.mp hline
    rw [hindentation, String.toList_append, String.toList_ofList]
    rfl
  · obtain ⟨filled, hfilled, rfl⟩ := map_eq_ok_iff.mp h
    rw [pieces, String.toList_ofList] at hfilled
    obtain ⟨others, -, rfl⟩ := fill_cons_eq_ok_iff.mp hfilled
    rw [List.forall_mem_singleton, String.toList_ofList]
    rfl

/-- A line that never declares an entity becomes lines that do not start as a declaration does. -/
theorem not_prefix_of_neverDeclares {number : Nat} {cs : List Char} {own : List String} (hcs : neverDeclares cs = true)
    (h : t.renderLine params number (String.ofList cs) = .ok own) : ∀ line ∈ own, ¬ entityStart <+: line.toList := by
  rw [neverDeclares, Bool.or_eq_true, Bool.and_eq_true, decide_eq_true_eq, decide_eq_true_eq, Bool.not_eq_true'] at hcs
  rcases hcs with hindented | ⟨hlone, hstart⟩
  · intro line hline hprefix
    have hhead := head?_of_renderLine hindented h line hline
    obtain ⟨rest, hrest⟩ := hprefix
    rw [← hrest] at hhead
    cases hhead
  · have hnone : loneHole? (String.ofList cs) = none := by
      rw [loneHole?, String.toList_ofList, hlone]
    rw [renderLine_of_loneHole?_eq_none hnone, pieces, String.toList_ofList] at h
    obtain ⟨filled, hfilled, rfl⟩ := map_eq_ok_iff.mp h
    rw [List.forall_mem_singleton, String.toList_ofList]
    intro hprefix
    rw [mayStart_of_fill hfilled hprefix] at hstart
    cases hstart

/-- The line declares an entity whose name the parts are filled with. -/
def IsEntityLine (name : List Piece) (line : String) : Prop :=
  loneHole? line = none ∧ pieces line = entityStart.map .char ++ name ++ [' ', 'i', 's'].map .char

/-- The template declares one entity, whose name the parts are filled with. -/
structure NamesEntity (t : Template) (name : List Piece) : Prop where
  exists_line : ∃ line ∈ t.lines, IsEntityLine name line
  others : ∀ line ∈ t.lines, IsEntityLine name line ∨ neverDeclares line.toList = true

theorem renderLine_of_isEntityLine {name : List Piece} {number : Nat} {line entity : String}
    (hname : t.fill params number name = .ok entity.toList) (h : IsEntityLine name line) :
    t.renderLine params number line = .ok ["entity " ++ entity ++ " is"] := by
  have hstart : t.fill params number (entityStart.map .char) = .ok entityStart := fill_map_char number entityStart
  have hfilled := fill_append (fill_append hstart hname) (fill_map_char number [' ', 'i', 's'])
  rw [renderLine_of_loneHole?_eq_none h.1, h.2, hfilled, map_ok_eq, Except.ok.injEq, List.singleton_inj,
    ← String.toList_inj]
  simp [entityStart]

/-- What such a template renders declares the entity of its name and no other. -/
theorem NamesEntity.declares_iff {name : List Piece} (h : t.NamesEntity name) {entity : String}
    (hname : ∀ number, t.fill params number name = .ok entity.toList) {lines : List String}
    (hrender : t.render params = .ok lines) (e : String) : DeclaresEntity lines e ↔ e = entity := by
  constructor
  · intro hdeclares
    obtain ⟨source, hsource, number, own, hown, hmem⟩ := exists_source_of_mem hrender hdeclares
    rcases h.others source hsource with hentity | hnever
    · rw [renderLine_of_isEntityLine (hname number) hentity] at hown
      cases hown
      exact entity_inj (List.mem_singleton.mp hmem)
    · rw [← String.ofList_toList (s := source)] at hown
      exact absurd (starts_entity e) (not_prefix_of_neverDeclares hnever hown _ hmem)
  · rintro rfl
    obtain ⟨source, hsource, hentity⟩ := h.exists_line
    obtain ⟨number, own, hown, hsubset⟩ := subset_of_mem_sources hrender hsource
    rw [renderLine_of_isEntityLine (hname number) hentity] at hown
    cases hown
    exact hsubset List.mem_cons_self

/-- Whether the characters are those of a line that declares an entity whose name the parts are filled with. -/
def isEntityChars (name : List Piece) (cs : List Char) : Bool :=
  Text.after? ['$', '{'] (Text.trimChars cs) = none &&
    piecesFrom none cs = entityStart.map .char ++ name ++ [' ', 'i', 's'].map .char

/-- Whether a template declares one entity is read off its characters. -/
theorem namesEntity_of_spelled {name : List Piece} {css : List (List Char)} (h : Spelled t.lines css)
    (hany : css.any (isEntityChars name) = true)
    (hall : css.all (fun cs => isEntityChars name cs || neverDeclares cs) = true) : t.NamesEntity name := by
  have hline : ∀ cs, isEntityChars name cs = true → IsEntityLine name (String.ofList cs) := by
    intro cs hcs
    rw [isEntityChars, Bool.and_eq_true, decide_eq_true_eq, decide_eq_true_eq] at hcs
    exact ⟨by rw [loneHole?, String.toList_ofList, hcs.1], by rw [pieces, String.toList_ofList, hcs.2]⟩
  have hlines : t.lines = css.map String.ofList := h.eq_map
  refine ⟨?_, ?_⟩
  · obtain ⟨cs, hmem, hcs⟩ := List.any_eq_true.mp hany
    exact ⟨_, hlines ▸ List.mem_map_of_mem hmem, hline cs hcs⟩
  · rw [hlines, List.forall_mem_map]
    intro cs hmem
    have hcs := List.all_eq_true.mp hall cs hmem
    rw [Bool.or_eq_true] at hcs
    rw [String.toList_ofList]
    exact hcs.imp_left (hline cs)

end Template

namespace Source

theorem namesEntity_linear : linear.NamesEntity [.hole "layer_name"] := by
  apply Template.namesEntity_of_spelled
  · repeat constructor
  · decide
  · decide

theorem namesEntity_conv1d : conv1d.NamesEntity [.hole "name"] := by
  apply Template.namesEntity_of_spelled
  · repeat constructor
  · decide
  · decide

theorem namesEntity_hardSigmoid : hardSigmoid.NamesEntity [.hole "layer_name"] := by
  apply Template.namesEntity_of_spelled
  · repeat constructor
  · decide
  · decide

theorem namesEntity_silu : silu.NamesEntity [.hole "layer_name"] := by
  apply Template.namesEntity_of_spelled
  · repeat constructor
  · decide
  · decide

theorem namesEntity_fxpMac : fxpMac.NamesEntity (['f', 'x', 'p', '_', 'm', 'a', 'c'].map .char) := by
  apply Template.namesEntity_of_spelled
  · repeat constructor
  · decide
  · decide

theorem namesEntity_network : network.NamesEntity [.hole "layer_name"] := by
  apply Template.namesEntity_of_spelled
  · repeat constructor
  · decide
  · decide

theorem namesEntity_skeleton (version : SkeletonVersion) : version.source.NamesEntity [.hole "name"] := by
  cases version with
  | v1 =>
    apply Template.namesEntity_of_spelled
    · simp only [SkeletonVersion.source, skeletonV1, skeletonLines, String.reduceAppend]
      repeat constructor
    · decide
    · decide
  | v2 =>
    apply Template.namesEntity_of_spelled
    · simp only [SkeletonVersion.source, skeletonV2, skeletonLines, String.reduceAppend]
      repeat constructor
    · decide
    · decide

theorem namesEntity_conv1dTestbench : conv1dTestbench.NamesEntity [.hole "testbench_name"] := by
  apply Template.namesEntity_of_spelled
  · repeat constructor
  · decide
  · decide

end Source

namespace Vhdl

theorem not_prefix_of_mem_indent {lines : List String} {line : String} (h : line ∈ indent lines) :
    ¬ entityStart <+: line.toList := by
  obtain ⟨own, -, rfl⟩ := List.mem_map.mp h
  simp [entityStart, List.cons_prefix_cons]

theorem not_prefix_of_mem_libraryLines {packages : List Package} {line : String} (h : line ∈ libraryLines packages) :
    ¬ entityStart <+: line.toList := by
  obtain ⟨library, -, hline⟩ := List.mem_flatMap.mp h
  rcases List.mem_cons.mp hline with rfl | hline
  · simp [entityStart, List.cons_prefix_cons]
  · obtain ⟨p, -, rfl⟩ := List.mem_map.mp hline
    simp [entityStart, List.cons_prefix_cons]

theorem not_prefix_of_mem_architecture {a : Architecture} {line : String} (h : line ∈ a.lines) :
    ¬ entityStart <+: line.toList := by
  simp only [Architecture.lines, List.mem_append, List.mem_singleton] at h
  rcases h with (((rfl | hindent) | rfl) | hindent) | rfl
  · simp [entityStart, List.cons_prefix_cons]
  · exact not_prefix_of_mem_indent hindent
  · simp [entityStart, List.cons_prefix_cons]
  · exact not_prefix_of_mem_indent hindent
  · simp [entityStart, List.cons_prefix_cons]

/-- But for its first line, an interface has no line that starts as a declaration does. -/
theorem not_prefix_of_mem_entity {e : Entity} {line : String} (h : line ∈ e.lines) :
    line = "entity " ++ e.name ++ " is" ∨ ¬ entityStart <+: line.toList := by
  simp only [Entity.lines, List.mem_append, List.mem_singleton] at h
  rcases h with (hfirst | hports) | rfl
  · exact Or.inl hfirst
  · refine Or.inr ?_
    split at hports
    · cases hports
    · simp only [List.mem_append, List.mem_singleton] at hports
      rcases hports with (rfl | hindent) | rfl
      · simp [entityStart, List.cons_prefix_cons]
      · exact not_prefix_of_mem_indent hindent
      · simp [entityStart, List.cons_prefix_cons]
  · exact Or.inr (by simp [entityStart, List.cons_prefix_cons])

/-- A design unit declares its entity and no other. -/
theorem DesignUnit.declares_iff (u : DesignUnit) (e : String) : DeclaresEntity u.lines e ↔ e = u.entity.name := by
  constructor
  · intro hdeclares
    have hstart := starts_entity e
    rcases List.mem_append.mp hdeclares with hbefore | harchitecture
    · rcases List.mem_append.mp hbefore with hlibrary | hentity
      · exact absurd hstart (not_prefix_of_mem_libraryLines hlibrary)
      · exact entity_inj ((not_prefix_of_mem_entity hentity).resolve_right (not_not.mpr hstart))
    · exact absurd hstart (not_prefix_of_mem_architecture harchitecture)
  · rintro rfl
    simp [DeclaresEntity, lines, Entity.lines]

end Vhdl

/-! ### What a file holds -/

/-- What the component of a file is there for. -/
inductive Role where
  /-- It is a layer. -/
  | layer
  /-- It holds the trained parameters of a layer. -/
  | memory
  /-- It is shared by the convolutions. -/
  | shared
  /-- It is the network. -/
  | network
  /-- It is the wrapper of the network. -/
  | wrapper
  /-- It is the testbench. -/
  | testbench
deriving DecidableEq

/-- What the component of a file is there for, read off lines that have no placeholders. -/
def Role.ofLines (lines : List String) : Role :=
  if lines[1]? = some "    use ieee.std_logic_1164.all;" then memory
  else if lines[3]? = some "use std.textio.all;" then testbench
  else if lines[5]? = some "    port (" then
    if lines[7]? = some "        reset : in std_logic;" then wrapper else network
  else if lines[14]? = some "        x2 : in signed(TOTAL_WIDTH-1 downto 0);" then shared
  else layer

namespace Source

/-- The templates of layers. -/
def layers : List Template := [linear, conv1d, hardSigmoid, silu]

/-- All templates but that of the testbench. -/
def synthesized : List Template := fxpMac :: network :: skeletonV1 :: skeletonV2 :: layers

theorem fixes_package : ∀ t ∈ conv1dTestbench :: synthesized, t.Fixes 1 "use ieee.std_logic_1164.all;" := by decide

theorem fixes_textio : conv1dTestbench.Fixes 3 "use std.textio.all;" := by decide

theorem fixes_blank : ∀ t ∈ synthesized, t.Fixes 3 "" := by decide

theorem fixes_generic : ∀ t ∈ fxpMac :: layers, t.Fixes 5 "    generic (" := by decide

theorem fixes_port : ∀ t ∈ [network, skeletonV1, skeletonV2], t.Fixes 5 "    port (" := by decide

theorem fixes_linear : linear.Fixes 14 "        enable : in std_logic;" := by
  apply Template.fixes_of_spelled
  · repeat constructor
  · decide
  · rfl
  · decide

theorem fixes_hardSigmoid : hardSigmoid.Fixes 14 "" := by
  apply Template.fixes_of_spelled
  · repeat constructor
  · decide
  · rfl
  · decide

theorem fixes_silu : silu.Fixes 14 "" := by
  apply Template.fixes_of_spelled
  · repeat constructor
  · decide
  · rfl
  · decide

end Source

namespace Role

variable {t : Template} {params : Parameters} {lines : List String}

theorem ofLines_rom (name style : String) (width : Nat) (values : List Int) :
    ofLines ((Rom.plain name width values).withStyle style).render = memory := rfl

/-- The lines of a template that is neither that of a memory nor that of the testbench. -/
theorem ofLines_synthesized (ht : t ∈ Source.synthesized) (h : t.render params = .ok lines) :
    ofLines lines =
      if lines[5]? = some "    port (" then
        if lines[7]? = some "        reset : in std_logic;" then wrapper else network
      else if lines[14]? = some "        x2 : in signed(TOTAL_WIDTH-1 downto 0);" then shared
      else layer := by
  have hpackage := (Source.fixes_package t (List.mem_cons_of_mem _ ht)).getElem?_of_render h
  have hblank := (Source.fixes_blank t ht).getElem?_of_render h
  rw [ofLines, hpackage, hblank, if_neg (by decide), if_neg (by decide)]

theorem ofLines_testbench (h : Source.conv1dTestbench.render params = .ok lines) : ofLines lines = testbench := by
  have hpackage := (Source.fixes_package _ List.mem_cons_self).getElem?_of_render h
  have htextio := Source.fixes_textio.getElem?_of_render h
  rw [ofLines, hpackage, htextio, if_neg (by decide), if_pos rfl]

theorem ofLines_network (h : Source.network.render params = .ok lines) : ofLines lines = network := by
  have hport := (Source.fixes_port _ (by simp)).getElem?_of_render h
  have hclock := Source.fixes_network.getElem?_of_render h
  rw [ofLines_synthesized (by simp [Source.synthesized]) h, hport, hclock, if_pos rfl, if_neg (by decide)]

theorem ofLines_wrapper (version : SkeletonVersion) (h : version.source.render params = .ok lines) :
    ofLines lines = wrapper := by
  have hversion : version.source ∈ [Source.network, Source.skeletonV1, Source.skeletonV2] ∧
      version.source ∈ Source.synthesized := by
    cases version <;> simp [SkeletonVersion.source, Source.synthesized]
  have hport := (Source.fixes_port _ hversion.1).getElem?_of_render h
  have hreset := (Source.fixes_skeleton version).getElem?_of_render h
  rw [ofLines_synthesized hversion.2 h, hport, hreset, if_pos rfl, if_pos rfl]

theorem ofLines_mac (h : Source.fxpMac.render params = .ok lines) : ofLines lines = shared := by
  have hgeneric := (Source.fixes_generic _ List.mem_cons_self).getElem?_of_render h
  have hmac := Source.fixes_fxpMac.getElem?_of_render h
  rw [ofLines_synthesized (by simp [Source.synthesized]) h, hgeneric, hmac, if_neg (by decide), if_pos rfl]

theorem ofLines_layer (ht : t ∈ Source.layers) (h : t.render params = .ok lines) : ofLines lines = layer := by
  have hgeneric := (Source.fixes_generic t (List.mem_cons_of_mem _ ht)).getElem?_of_render h
  have hother : lines[14]? ≠ some "        x2 : in signed(TOTAL_WIDTH-1 downto 0);" := by
    simp only [Source.layers, List.mem_cons, List.not_mem_nil, or_false] at ht
    rcases ht with rfl | rfl | rfl | rfl
    · rw [Source.fixes_linear.getElem?_of_render h]
      decide
    · rw [Source.fixes_conv1d.getElem?_of_render h]
      decide
    · rw [Source.fixes_hardSigmoid.getElem?_of_render h]
      decide
    · rw [Source.fixes_silu.getElem?_of_render h]
      decide
  have hmem : t ∈ Source.synthesized := List.mem_append_right [Source.fxpMac, Source.network, Source.skeletonV1,
    Source.skeletonV2] ht
  rw [ofLines_synthesized hmem h, hgeneric, if_neg (by decide), if_neg hother]

end Role

/-- The lines of a file hold one component, which is there for a role and declares its own name. -/
structure HoldsComponent (lines : List String) (role : Role) (name : String) : Prop where
  role_eq : Role.ofLines lines = role
  declares_iff : ∀ entity, DeclaresEntity lines entity ↔ entity = name

namespace HoldsComponent

variable {t : Template} {params : Parameters} {lines : List String} {role : Role} {name : String}

theorem of_hole {hole : String} (hentity : t.NamesEntity [.hole hole]) (hname : params.get? hole = some (.text name))
    (h : t.render params = .ok lines) (hrole : Role.ofLines lines = role) : HoldsComponent lines role name := by
  refine ⟨hrole, hentity.declares_iff (fun number => ?_) h⟩
  simp [Template.fill, hname]

theorem linear {l : Linear} (h : Source.linear.render l.parameters = .ok lines) : HoldsComponent lines .layer l.name :=
  of_hole Source.namesEntity_linear (by simp [Linear.parameters]) h (Role.ofLines_layer (by simp [Source.layers]) h)

theorem conv1d {l : Conv1d} (h : Source.conv1d.render l.parameters = .ok lines) :
    HoldsComponent lines .layer l.name := by
  refine of_hole Source.namesEntity_conv1d ?_ h (Role.ofLines_layer (by simp [Source.layers]) h)
  rw [Conv1d.parameters, Conv1d.present_port]
  simp [Conv1d.port, Port.ofCounts, Port.standard, Port.signals, Signal.input, Signal.output]

theorem hardSigmoid {l : HardSigmoid} (h : Source.hardSigmoid.render l.parameters = .ok lines) :
    HoldsComponent lines .layer l.name :=
  of_hole Source.namesEntity_hardSigmoid (by simp [HardSigmoid.parameters]) h
    (Role.ofLines_layer (by simp [Source.layers]) h)

theorem silu {l : Silu} (h : Source.silu.render l.parameters = .ok lines) : HoldsComponent lines .layer l.name :=
  of_hole Source.namesEntity_silu (by simp [Silu.parameters]) h (Role.ofLines_layer (by simp [Source.layers]) h)

theorem rom (name style : String) (width : Nat) (values : List Int) :
    HoldsComponent ((Rom.plain name width values).withStyle style).render .memory name :=
  ⟨Role.ofLines_rom name style width values, Vhdl.DesignUnit.declares_iff _⟩

theorem mac (h : Source.fxpMac.render params = .ok lines) : HoldsComponent lines .shared Mac.name := by
  refine ⟨Role.ofLines_mac h, Source.namesEntity_fxpMac.declares_iff (fun number => ?_) h⟩
  rw [Template.fill_map_char]
  rfl

theorem network {s : Sequential} (h : s.render = .ok lines) : HoldsComponent lines .network s.name := by
  obtain ⟨connections, -, h⟩ := bind_eq_ok_iff.mp h
  rw [mapError_eq_ok_iff] at h
  exact of_hole Source.namesEntity_network (by simp [Sequential.parameters]) h (Role.ofLines_network h)

theorem wrapper {s : Skeleton} (h : s.render = .ok lines) : HoldsComponent lines .wrapper Skeleton.name :=
  of_hole (Source.namesEntity_skeleton s.version) (by simp [Skeleton.parameters]) h (Role.ofLines_wrapper s.version h)

theorem testbench {t : Testbench} (h : Source.conv1dTestbench.render t.parameters = .ok lines) :
    HoldsComponent lines .testbench t.name :=
  of_hole Source.namesEntity_conv1dTestbench (by simp [Testbench.parameters]) h (Role.ofLines_testbench h)

end HoldsComponent

end QuantNet
