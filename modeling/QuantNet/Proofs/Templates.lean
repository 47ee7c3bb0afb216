import QuantNet.Build
import QuantNet.Proofs.NetworkWiring

/-!
# Templates and their parameters

The source text of every component is a template, and what it is filled with is put together somewhere
else. A template can be filled if every placeholder in it is closed and names a text, but for those
that stand alone on their line, which may name lists of lines (`IsFilledBy.render_eq_ok`). Whether the
placeholders of a template are among given names is a matter of its characters; whether the parameters
of a component have these names follows from how they are made. Both are settled here for each of the
components, so that no text is ever refused.

The characters of a text are best read off as they are written. `Spelled` relates lines to their
characters without decoding them.
-/

namespace QuantNet

/-! ### Parameters -/

namespace Table

variable {α : Type}

theorem lookup_insertEntry (key name : String) (value : α) (es : List (String × α)) :
    (insertEntry key value es).lookup name = if name = key then some value else es.lookup name := by
  induction es with
  | nil => exact Outcome.lookup_cons_eq name key value []
  | cons entry rest ih =>
    obtain ⟨k, v⟩ := entry
    unfold insertEntry
    by_cases hlt : key < k
    · rw [if_pos hlt, Outcome.lookup_cons_eq]
    · by_cases hkey : key = k
      · rw [if_neg hlt, if_pos hkey, Outcome.lookup_cons_eq, Outcome.lookup_cons_eq, ← hkey]
        split_ifs <;> rfl
      · rw [if_neg hlt, if_neg hkey, Outcome.lookup_cons_eq, Outcome.lookup_cons_eq, ih]
        -- the entry in front has another key, so it does not matter which of the two is asked for first
        by_cases hname : name = k
        · rw [if_pos hname, if_neg fun hsame => hkey (hsame.symm.trans hname), if_pos hname]
        · rw [if_neg hname, if_neg hname]

/-- What a table holds after an entry is added. -/
theorem get?_insert (t : Table α) (key name : String) (value : α) :
    (t.insert key value).get? name = if name = key then some value else t.get? name :=
  lookup_insertEntry key name value t.entries

end Table

namespace Parameters

/-- The parameters hold texts and lists of lines under the given names. -/
structure Provides (ps : Parameters) (texts lists : List String) : Prop where
  text : ∀ name ∈ texts, ∃ value, ps.get? name = some (.text value)
  lines : ∀ name ∈ lists, ∃ values, ps.get? name = some (.lines values)

variable (ps : Parameters) (name other : String)

@[simp] theorem get?_withText (value : String) :
    (ps.withText name value).get? other = if other = name then some (.text value) else ps.get? other :=
  ps.get?_insert name other _

@[simp] theorem get?_withNat (value : Nat) :
    (ps.withNat name value).get? other = if other = name then some (.text (Text.ofNat value)) else ps.get? other :=
  ps.get?_insert name other _

@[simp] theorem get?_withInt (value : Int) :
    (ps.withInt name value).get? other = if other = name then some (.text (Text.ofInt value)) else ps.get? other :=
  ps.get?_insert name other _

@[simp] theorem get?_withLines (values : List String) :
    (ps.withLines name values).get? other = if other = name then some (.lines values) else ps.get? other :=
  ps.get?_insert name other _

end Parameters

/-! ### Rendering -/

namespace Piece

/-- A part of a line that one of the texts can be put in place of, or that stands for itself. -/
def IsFilled (texts : List String) : Piece → Prop
  | char _ => True
  | hole name => name ∈ texts
  | unclosed => False

instance (texts : List String) (p : Piece) : Decidable (p.IsFilled texts) :=
  match p with
  | char _ => inferInstanceAs (Decidable True)
  | hole name => inferInstanceAs (Decidable (name ∈ texts))
  | unclosed => inferInstanceAs (Decidable False)

end Piece

namespace Template

/-- The texts fill every placeholder of a line, or the line is the place of a list. -/
def IsFilledLine (texts lists : List String) (line : String) : Prop :=
  (∀ p ∈ pieces line, p.IsFilled texts) ∨ ∃ name ∈ lists, loneHole? line = some name

/-- Parameters with the given names fill the template. -/
def IsFilledBy (t : Template) (texts lists : List String) : Prop := ∀ line ∈ t.lines, IsFilledLine texts lists line

variable {t : Template} {params : Parameters} {texts lists : List String}

/-- Parts that can be filled are filled. -/
theorem fill_eq_ok (hparams : params.Provides texts lists) (line : Nat) {ps : List Piece}
    (h : ∀ p ∈ ps, p.IsFilled texts) : ∃ cs, t.fill params line ps = .ok cs := by
  induction ps with
  | nil => exact ⟨[], rfl⟩
  | cons p rest ih =>
    obtain ⟨cs, hcs⟩ := ih fun q hq => h q (List.mem_cons_of_mem _ hq)
    have hfirst := h p List.mem_cons_self
    cases p with
    | char c => exact ⟨c :: cs, by rw [fill, hcs, Outcome.map_ok_eq]⟩
    | hole name =>
      obtain ⟨value, hvalue⟩ := hparams.text name hfirst
      exact ⟨value.toList ++ cs, by simp only [fill, hvalue, hcs, Outcome.map_ok_eq]⟩
    | unclosed => exact hfirst.elim

theorem renderLine_eq_ok (hparams : params.Provides texts lists) (line : Nat) {source : String}
    (h : IsFilledLine texts lists source) : ∃ lines, t.renderLine params line source = .ok lines := by
  unfold renderLine
  rcases h with hpieces | ⟨name, hname, hlone⟩
  · obtain ⟨cs, hcs⟩ := fill_eq_ok (t := t) hparams line hpieces
    split
    · exact ⟨_, rfl⟩
    · exact ⟨_, by rw [hcs, Outcome.map_ok_eq]⟩
  · obtain ⟨values, hvalues⟩ := hparams.lines name hname
    rw [hlone, Option.bind_some, hvalues]
    exact ⟨_, rfl⟩

/-- A template is filled by parameters that hold what it asks for. -/
theorem IsFilledBy.render_eq_ok (h : t.IsFilledBy texts lists) (hparams : params.Provides texts lists) :
    ∃ lines, t.render params = .ok lines := by
  have hfrom : ∀ (sources : List String) (line : Nat), (∀ s ∈ sources, IsFilledLine texts lists s) →
      ∃ lines, t.renderFrom params line sources = .ok lines := by
    intro sources
    induction sources with
    | nil => exact fun _ _ => ⟨[], rfl⟩
    | cons source rest ih =>
      intro line hall
      obtain ⟨first, hfirst⟩ := renderLine_eq_ok (t := t) hparams line (hall source List.mem_cons_self)
      obtain ⟨others, hothers⟩ := ih (line + 1) fun s hs => hall s (List.mem_cons_of_mem _ hs)
      exact ⟨first ++ others, by rw [renderFrom, hfirst, hothers]; rfl⟩
  exact hfrom t.lines 1 h

end Template

/-! ### Characters -/

/-- The lines consist of the given characters. -/
inductive Spelled : List String → List (List Char) → Prop
  | nil : Spelled [] []
  | cons {cs : List Char} {lines : List String} {css : List (List Char)} (h : Spelled lines css) :
    Spelled (String.ofList cs :: lines) (cs :: css)

/-- Whether the texts fill every placeholder in the characters, or the characters are the place of a list. -/
def fillsChars (texts lists : List String) (cs : List Char) : Bool :=
  (piecesFrom none cs).all (fun p => decide (p.IsFilled texts)) ||
    lists.any fun name => loneHole? (String.ofList cs) = some name

/-- Whether a template can be filled is read off its characters. -/
theorem isFilledLine_of_spelled {lines texts lists : List String} {css : List (List Char)} (h : Spelled lines css)
    (hcss : css.all (fillsChars texts lists) = true) : ∀ line ∈ lines, Template.IsFilledLine texts lists line := by
  induction h with
  | nil => exact fun _ hline => absurd hline List.not_mem_nil
  | cons _ ih =>
    rw [List.all_cons, Bool.and_eq_true] at hcss
    refine List.forall_mem_cons.mpr ⟨?_, ih hcss.2⟩
    have hfirst := hcss.1
    simp only [fillsChars, Bool.or_eq_true, List.all_eq_true, decide_eq_true_eq, List.any_eq_true] at hfirst
    rw [Template.IsFilledLine, pieces, String.toList_ofList]
    exact hfirst

/-! ### Components -/

theorem Linear.render_parameters (l : Linear) : ∃ lines, Source.linear.render l.parameters = .ok lines := by
  have hfilled : Source.linear.IsFilledBy ["layer_name", "data_width", "frac_width", "x_address_width",
      "y_address_width", "in_feature_num", "out_feature_num", "weights_rom_name", "bias_rom_name", "w_address_width",
      "b_address_width"] [] := by
    apply isFilledLine_of_spelled
    · repeat constructor
    · decide
  exact hfilled.render_eq_ok ⟨by simp [parameters], by simp⟩

/-- No signal on the boundary of a convolution is absent, so each of them gives its width. -/
theorem Conv1d.present_port (l : Conv1d) : l.port.present = l.port.signals := by
  have hbits : 0 < l.format.totalBits := l.format.total_pos
  simp [Port.present, port, Port.ofCounts, Port.standard, Port.signals, Signal.isPresent, Signal.input,
    Signal.output, hbits, addressWidth_pos]

theorem Conv1d.render_parameters (l : Conv1d) : ∃ lines, Source.conv1d.render l.parameters = .ok lines := by
  have hfilled : Source.conv1d.IsFilledBy ["name", "frac_width", "in_channels", "out_channels", "kernel_size",
      "vector_width", "w_address_width", "b_address_width", "x_width", "y_width", "x_address_width",
      "y_address_width"] [] := by
    apply isFilledLine_of_spelled
    · repeat constructor
    · decide
  refine hfilled.render_eq_ok ⟨?_, by simp⟩
  rw [parameters, present_port]
  simp [port, Port.ofCounts, Port.standard, Port.signals, Signal.input, Signal.output]

theorem Mac.render_none : ∃ lines, Source.fxpMac.render Parameters.none = .ok lines := by
  have hfilled : Source.fxpMac.IsFilledBy [] [] := by
    apply isFilledLine_of_spelled
    · repeat constructor
    · decide
  exact hfilled.render_eq_ok ⟨by simp, by simp⟩

theorem HardSigmoid.render_parameters (l : HardSigmoid) :
    ∃ lines, Source.hardSigmoid.render l.parameters = .ok lines := by
  have hfilled : Source.hardSigmoid.IsFilledBy ["layer_name", "data_width", "frac_width", "one", "half", "slope",
      "three_threshold", "minus_three_threshold"] [] := by
    apply isFilledLine_of_spelled
    · repeat constructor
    · decide
  exact hfilled.render_eq_ok ⟨by simp [parameters], by simp⟩

theorem Silu.render_parameters (l : Silu) : ∃ lines, Source.silu.render l.parameters = .ok lines := by
  have hfilled : Source.silu.IsFilledBy ["layer_name", "data_width", "frac_width", "three_threshold",
      "minus_three_threshold"] [] := by
    apply isFilledLine_of_spelled
    · repeat constructor
    · decide
  exact hfilled.render_eq_ok ⟨by simp [parameters], by simp⟩

theorem Sequential.render_parameters (s : Sequential) (connections : Connections) :
    ∃ lines, Source.network.render (s.parameters connections) = .ok lines := by
  have hfilled : Source.network.IsFilledBy ["x_width", "y_width", "x_address_width", "y_address_width", "layer_name"]
      ["layer_connections", "layer_instantiations", "signal_definitions"] := by
    apply isFilledLine_of_spelled
    · repeat constructor
    · decide
  exact hfilled.render_eq_ok ⟨by simp [parameters], by simp [parameters]⟩

theorem Skeleton.exists_render (s : Skeleton) : ∃ lines, s.render = .ok lines := by
  have hfilled : s.version.source.IsFilledBy ["name", "network_name", "data_width_in", "x_addr_width", "x_num_values",
      "y_num_values", "data_width_out", "y_addr_width", "id"] [] := by
    cases s.version with
    | v1 =>
      apply isFilledLine_of_spelled
      · simp only [SkeletonVersion.source, Source.skeletonV1, Source.skeletonLines, String.reduceAppend]
        repeat constructor
      · decide
    | v2 =>
      apply isFilledLine_of_spelled
      · simp only [SkeletonVersion.source, Source.skeletonV2, Source.skeletonLines, String.reduceAppend]
        repeat constructor
      · decide
  exact hfilled.render_eq_ok ⟨by simp [parameters], by simp⟩

theorem Testbench.render_parameters (t : Testbench) :
    ∃ lines, Source.conv1dTestbench.render t.parameters = .ok lines := by
  have hfilled : Source.conv1dTestbench.IsFilledBy ["testbench_name", "signal_length", "total_bits", "x_address_width",
      "y_address_width", "uut_name", "in_channels", "output_values", "inputs_file"] [] := by
    apply isFilledLine_of_spelled
    · repeat constructor
    · decide
  exact hfilled.render_eq_ok ⟨by simp [parameters], by simp⟩

end QuantNet
