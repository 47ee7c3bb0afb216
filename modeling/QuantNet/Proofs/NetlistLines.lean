import QuantNet.Proofs.TemplateLines
import QuantNet.Proofs.Templates

/-!
# The lines of a netlist

Three parts of the text of a network speak of its internal signals: their declarations, the port maps of the instances,
and the assignments. Each part is a list of lines, and what a line says can be told from its characters. The line of a
declaration tells the name and the width (`Declaration.line_injective`). The lines of a port map and of the assignments
have readers that find the parts around the arrow (`association?`, `Connection.ofLine?`).

The name of a layer is any text, so an internal signal may hold an arrow, a comma or a blank itself. But the formal
signals, the inputs and the outputs of a network have plain names, and there is one at one side of every arrow: the
arrow is the first one of its line if the plain name stands in front of it, and the last one if it stands behind it.
-/

namespace QuantNet

/-- A mark is found behind a text that does not hold its first character. -/
theorem dropInfix?_of_not_mem {m : Char} {front mark back : List Char} (h : m ∉ front) :
    (front ++ (m :: mark ++ back)).dropInfix? (m :: mark) = some (front, back) := by
  rw [List.dropInfix?_eq_some_iff]
  refine ⟨⟨_, by rw [List.append_assoc], beq_self_eq_true _⟩, fun front' mark' back' hsplit hmark => ?_⟩
  obtain rfl := eq_of_beq hmark
  by_contra hshort
  -- a mark that starts earlier would have its first character in the text
  have hprefix : front' ++ [m] <+: front ++ (m :: mark ++ back) := ⟨mark ++ back', by simpa using hsplit.symm⟩
  have hlength : (front' ++ [m]).length ≤ front.length := by
    rw [List.length_append, List.length_singleton]
    omega
  have hinside := (List.prefix_of_prefix_length_le hprefix (List.prefix_append _ _) hlength).subset
  exact h (hinside (List.mem_append_right _ List.mem_cons_self))

namespace Vhdl

/-! ### Declarations -/

/-- An internal signal as it is declared. -/
structure Declaration where
  /-- The name. -/
  name : String
  /-- The number of wires. -/
  width : Nat
deriving DecidableEq

/-- The line of a declaration. -/
def Declaration.line (d : Declaration) : String := signalDefinition d.name d.width

/-- What comes before a numeral after a bracket, and the numeral itself, can be told from the text. -/
theorem append_ofNat_inj {s t : String} {m n : Nat} (h : s ++ "(" ++ Text.ofNat m = t ++ "(" ++ Text.ofNat n) :
    s = t ∧ m = n := by
  have hfields : ∀ (u : String) (k : Nat), Text.fields '(' (u ++ "(" ++ Text.ofNat k) =
      Text.fields '(' u ++ [Text.ofNat k] := by
    intro u k
    have hplain : '(' ∉ (Text.ofNat k).toList := fun hmem => absurd (Text.isDigit_of_mem_ofNat hmem) (by decide)
    rw [Text.fields_append '(' rfl, Text.fields_eq_singleton hplain]
  have hnumeral : Text.ofNat m = Text.ofNat n := by
    have hparts := congrArg (Text.fields '(') h
    rw [hfields, hfields] at hparts
    exact List.singleton_inj.mp (List.append_inj_right' hparts rfl)
  have hvalue : some m = some n := by rw [← Text.natural?_ofNat m, hnumeral, Text.natural?_ofNat n]
  rw [hnumeral] at h
  exact ⟨(String.append_left_inj _).mp ((String.append_left_inj _).mp h), Option.some.inj hvalue⟩

/-- The line of a declaration tells its name and its width. -/
theorem Declaration.line_injective : Function.Injective line := by
  rintro ⟨name, width⟩ ⟨name', width'⟩ h
  simp only [line, signalDefinition] at h
  split_ifs at h with hwidth hwidth' hwidth'
  · simp only [String.append_left_inj, String.append_right_inj] at h
    rw [h, hwidth, hwidth']
  · -- a line without a bracket at its end is no line of a vector
    have hend := congrArg (fun s => s.toList.reverse) h
    simp at hend
  · have hend := congrArg (fun s => s.toList.reverse) h
    simp at hend
  · have hbracket : " : std_logic_vector(" = " : std_logic_vector" ++ "(" := rfl
    simp only [String.append_left_inj, hbracket, ← String.append_assoc] at h
    obtain ⟨hname, hvalue⟩ := append_ofNat_inj h
    simp only [String.append_left_inj, String.append_right_inj] at hname
    rw [hname, hvalue]

/-! ### Port maps -/

/-- The text without the comma at its end, if there is one. -/
def dropComma (s : String) : String := String.ofList ((s.toList.dropSuffix? [',']).getD s.toList)

theorem dropComma_append (s : String) : dropComma (s ++ ",") = s := by
  have hend : (s ++ ",").toList.dropSuffix? [','] = some s.toList :=
    List.dropSuffix?_eq_some_iff.mpr ⟨[','], String.toList_append, rfl⟩
  rw [dropComma, hend, Option.getD_some, String.ofList_toList]

theorem dropComma_eq_self {s : String} (h : s.toList.getLast? ≠ some ',') : dropComma s = s := by
  have hend : s.toList.dropSuffix? [','] = none := by
    rw [Option.eq_none_iff_forall_ne_some]
    intro front hfront
    obtain ⟨_, hsplit, hcomma⟩ := List.dropSuffix?_eq_some_iff.mp hfront
    obtain rfl := eq_of_beq hcomma
    exact h (by rw [hsplit, List.getLast?_append, List.getLast?_singleton, Option.some_or])
  rw [dropComma, hend, Option.getD_none, String.ofList_toList]

/-- The formal and the actual signal of a line of a port map; no other line of an instance has any. -/
def association? (line : String) : Option (String × String) := do
  let text ← Text.dropStart? "    " line
  let (formal, actual) ← text.toList.dropInfix? " => ".toList
  return (String.ofList formal, dropComma (String.ofList actual))

/-- The formal signal has no blank, and the actual one does not end in a comma. -/
structure IsReadable (m : String × String) : Prop where
  formal : ' ' ∉ m.1.toList
  actual : m.2.toList.getLast? ≠ some ','

theorem association?_line {formal : String} (h : ' ' ∉ formal.toList) (text : String) :
    association? ("    " ++ (formal ++ " => " ++ text)) = some (formal, dropComma text) := by
  have hcut : (formal ++ " => " ++ text).toList.dropInfix? " => ".toList = some (formal.toList, text.toList) := by
    rw [String.toList_append, String.toList_append, List.append_assoc]
    exact dropInfix?_of_not_mem h
  simp only [association?, Text.dropStart?_append, hcut, Option.bind_eq_bind, Option.bind_some, String.ofList_toList]
  rfl

theorem association?_eq_none {line : String} (h : line.toList.head? ≠ some ' ') : association? line = none := by
  have hstart : Text.dropStart? "    " line = none := by
    rw [Option.eq_none_iff_forall_ne_some]
    intro rest hrest
    rw [Text.dropStart?_eq_some_iff.mp hrest] at h
    exact h (by simp)
  rw [association?, hstart]
  rfl

/-- The lines between the brackets of a port map read back; all but the last of them end in a comma. -/
theorem filterMap_association?_separated {ms : List (String × String)} (h : ∀ m ∈ ms, IsReadable m) :
    (indent (separated "," (ms.map fun m => m.1 ++ " => " ++ m.2))).filterMap association? = ms := by
  induction ms with
  | nil => rfl
  | cons m rest ih =>
    obtain ⟨hm, hrest⟩ := List.forall_mem_cons.mp h
    cases rest with
    | nil =>
      have hline : association? ("    " ++ (m.1 ++ " => " ++ m.2)) = some m := by
        rw [association?_line hm.formal, dropComma_eq_self hm.actual]
      exact List.filterMap_cons_some hline
    | cons m' rest' =>
      have hline : association? ("    " ++ (m.1 ++ " => " ++ m.2 ++ ",")) = some m := by
        rw [String.append_assoc, association?_line hm.formal, dropComma_append]
      exact (List.filterMap_cons_some hline).trans (congrArg (m :: ·) (ih hrest))

/-- The lines of an instance tell its port map. -/
theorem Instance.filterMap_association?_lines {i : Instance} (hlabel : ∃ c ∈ i.label.toList.head?, c ≠ ' ')
    (h : ∀ m ∈ i.mapping, IsReadable m) : i.lines.filterMap association? = i.mapping := by
  have hfirst : association? (i.label ++ " : entity " ++ i.library ++ "." ++ i.entity ++ "(" ++ i.architecture ++ ")")
      = none := by
    obtain ⟨c, hc, hblank⟩ := hlabel
    refine association?_eq_none ?_
    simp only [String.toList_append, List.append_assoc]
    rw [List.head?_append, Option.mem_def.mp hc]
    simpa using hblank
  have hothers : ∀ line ∈ [";", "port map(", ");"], association? line = none := fun line hline =>
    association?_eq_none (by revert line; decide)
  rw [lines, List.filterMap_append, List.filterMap_cons_none hfirst, List.filterMap_nil, List.nil_append]
  split_ifs with hempty
  · rw [List.isEmpty_iff.mp hempty, List.filterMap_cons_none (hothers _ (by simp)), List.filterMap_nil]
  · rw [List.filterMap_append, List.filterMap_append, List.filterMap_cons_none (hothers _ (by simp)),
      filterMap_association?_separated h, List.filterMap_cons_none (hothers _ (by simp))]
    simp

end Vhdl

/-! ### Assignments -/

namespace Connection

/-- The assignment of a connection. -/
def line (c : Connection) : String := c.sink ++ " <= " ++ c.source ++ ";"

/-- The connection of an assignment. An internal signal starts with an `i`, and what it is assigned has a plain name, so
the arrow is the last one; else the arrow is the first one. -/
def ofLine? (text : String) : Option Connection := do
  let cs ← text.toList.dropSuffix? [';']
  if cs.head? = some 'i' then
    let (source, sink) ← cs.reverse.dropInfix? " <= ".toList.reverse
    return ⟨String.ofList sink.reverse, String.ofList source.reverse⟩
  else
    let (sink, source) ← cs.dropInfix? " <= ".toList
    return ⟨String.ofList sink, String.ofList source⟩

/-- The sink starts as an internal signal does and the source has a plain name, or the sink has one. -/
def IsReadable (c : Connection) : Prop :=
  c.sink.toList.head? = some 'i' ∧ ' ' ∉ c.source.toList ∨
    c.sink ≠ "" ∧ c.sink.toList.head? ≠ some 'i' ∧ ' ' ∉ c.sink.toList

/-- The assignment of a connection reads back. -/
theorem ofLine?_line {c : Connection} (h : c.IsReadable) : ofLine? c.line = some c := by
  have hend : c.line.toList.dropSuffix? [';'] = some (c.sink.toList ++ (" <= ".toList ++ c.source.toList)) := by
    refine List.dropSuffix?_eq_some_iff.mpr ⟨[';'], ?_, rfl⟩
    simp only [line, String.toList_append, List.append_assoc]
    rfl
  rw [ofLine?, hend, Option.bind_eq_bind, Option.bind_some]
  rcases h with ⟨hinternal, hsource⟩ | ⟨hnamed, hfirst, hsink⟩
  · have hhead : (c.sink.toList ++ (" <= ".toList ++ c.source.toList)).head? = some 'i' := by
      rw [List.head?_append, hinternal, Option.some_or]
    have hcut : (c.sink.toList ++ (" <= ".toList ++ c.source.toList)).reverse.dropInfix? " <= ".toList.reverse =
        some (c.source.toList.reverse, c.sink.toList.reverse) := by
      rw [List.reverse_append, List.reverse_append, List.append_assoc]
      exact dropInfix?_of_not_mem (mt List.mem_reverse.mp hsource)
    rw [if_pos hhead, hcut]
    simp
  · have hhead : (c.sink.toList ++ (" <= ".toList ++ c.source.toList)).head? ≠ some 'i' := by
      rwa [List.head?_append_of_ne_nil _ (mt String.toList_eq_nil_iff.mp hnamed)]
    have hcut : (c.sink.toList ++ (" <= ".toList ++ c.source.toList)).dropInfix? " <= ".toList =
        some (c.sink.toList, c.source.toList) := dropInfix?_of_not_mem hsink
    rw [if_neg hhead, hcut]
    simp

/-- The name of the layer holds an arrow. -/
example : ofLine? "i_a <= b_x <= x;" = some ⟨"i_a <= b_x", "x"⟩ := by decide +kernel

end Connection

namespace Connections

theorem lines_eq (cs : Connections) : cs.lines = Vhdl.sortLines (cs.entries.map Connection.line) := by
  rw [lines, Vhdl.connectionLines, pairs, List.map_map]
  rfl

/-- The assignments read back as the connections, in the order of their lines. -/
theorem filterMap_ofLine?_lines {cs : Connections} (h : ∀ c ∈ cs.entries, c.IsReadable) :
    (cs.lines.filterMap Connection.ofLine?).Perm cs.entries := by
  have hread : (cs.entries.map Connection.line).filterMap Connection.ofLine? = cs.entries := by
    rw [List.filterMap_map]
    exact (List.filterMap_congr fun c hc => Connection.ofLine?_line (h c hc)).trans List.filterMap_some
  have hsorted := (List.mergeSort_perm (cs.entries.map Connection.line) fun a b => a ≤ b).filterMap Connection.ofLine?
  rw [lines_eq]
  exact hsorted.trans (List.Perm.of_eq hread)

end Connections

/-! ### The text -/

/-- The places of the declarations, the connections and the instances in the text of a network. -/
theorem standsAlone_of_network {line name : String}
    (h : (line, name) ∈ [("    ${signal_definitions}", "signal_definitions"),
      ("    ${layer_connections}", "layer_connections"), ("    ${layer_instantiations}", "layer_instantiations")]) :
    StandsAlone line name "    " := by
  have hnames : ∀ name ∈ ["signal_definitions", "layer_connections", "layer_instantiations"],
      name ≠ "" ∧ '}' ∉ name.toList ∧ '$' ∉ name.toList := by decide
  have hname : name ∈ ["signal_definitions", "layer_connections", "layer_instantiations"] :=
    List.mem_map_of_mem (f := Prod.snd) h
  obtain ⟨hnamed, hclosed, hplain⟩ := hnames name hname
  refine ⟨⟨[], List.forall_mem_nil _, ?_⟩, List.all_eq_true.mp (by decide), hnamed, hclosed,
    not_opens_of_not_mem hplain⟩
  simp only [List.mem_cons, List.not_mem_nil, or_false, Prod.mk.injEq] at h
  rcases h with ⟨rfl, rfl⟩ | ⟨rfl, rfl⟩ | ⟨rfl, rfl⟩ <;> simp

namespace Sequential

/-- What the last lines of the text of a network become. -/
theorem becomes_last (s : Sequential) (connections : Connections) :
    List.Forall₂ (Becomes (s.parameters connections)) (Source.network.lines.drop 17)
      [Vhdl.indent s.signalDefinitions, ["begin"], Vhdl.indent connections.lines, Vhdl.indent s.instantiations,
        ["end rtl;"]] := by
  have hlines : Source.network.lines.drop 17 = ["    ${signal_definitions}", "begin", "    ${layer_connections}",
    "    ${layer_instantiations}", "end rtl;"] := by simp [Source.network]
  have hplace : ∀ (name : String) {line : String} {values : List String}, StandsAlone line name "    " →
      (s.parameters connections).get? name = some (.lines values) →
      Becomes (s.parameters connections) line (Vhdl.indent values) := fun name _ _ halone hvalues =>
    .lines ⟨name, halone, hvalues⟩
  have hplain : ∀ line ∈ ["begin", "end rtl;"], Becomes (s.parameters connections) line [line] := fun line hline =>
    becomes_self (not_opens_of_not_mem (by revert line; decide))
  rw [hlines]
  refine .cons (hplace "signal_definitions" (standsAlone_of_network (by simp)) ?_) <|
    .cons (hplain _ (by simp)) <|
    .cons (hplace "layer_connections" (standsAlone_of_network (by simp)) ?_) <|
    .cons (hplace "layer_instantiations" (standsAlone_of_network (by simp)) ?_) <|
    .cons (hplain _ (by simp)) .nil
  all_goals simp [parameters]

/-- The text of a network ends in the declarations, the assignments and the instances. -/
theorem exists_render_eq {s : Sequential} {connections : Connections} (h : s.connections = .ok connections) :
    ∃ boundary, s.render = .ok (boundary ++ Vhdl.indent s.signalDefinitions ++ ["begin"] ++
      Vhdl.indent connections.lines ++ Vhdl.indent s.instantiations ++ ["end rtl;"]) := by
  obtain ⟨lines, hlines⟩ := s.render_parameters connections
  obtain ⟨parts, hparts, -⟩ := Template.renderFrom_eq_ok_iff.mp hlines
  have hfirst : ∀ line ∈ Source.network.lines.take 17, ∃ part, Becomes (s.parameters connections) line part := by
    intro line hline
    obtain ⟨part, -, hpart⟩ := Outcome.exists_right_of_mem hparts (List.mem_of_mem_take hline)
    exact ⟨part, hpart⟩
  obtain ⟨boundary, hboundary⟩ := Outcome.exists_forall₂ hfirst
  have hall : List.Forall₂ (Becomes (s.parameters connections)) (Source.network.lines.take 17 ++ _) _ :=
    List.rel_append hboundary (s.becomes_last connections)
  rw [List.take_append_drop] at hall
  refine ⟨boundary.flatten, ?_⟩
  rw [render, h, Outcome.ok_bind, Template.render, Template.renderFrom_eq_ok_iff.mpr ⟨_, hall, rfl⟩,
    Outcome.mapError_ok_eq]
  simp

end Sequential

end QuantNet
