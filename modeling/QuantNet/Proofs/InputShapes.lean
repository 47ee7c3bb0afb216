import QuantNet.Proofs.DecodedNumbers
import QuantNet.Proofs.Simulation

/-!
# Inputs of any shape

A simulation is given a list of inputs and never asks for their shape. The table has the signal names of the
first input, the simulator puts the fields of every row under these names, one by one, and what it has no
field for is zero. So what it computes with is the input laid out over the cells of the first one
(`Conv1d.laidOut`, `ReferenceSimulator.of_samplesOf`). Inputs of the shape of the layer are laid out as they
are (`Conv1d.laidOut_eq_self`), and only these are accepted by the reference function itself.
-/

namespace QuantNet

/-! ### Shapes -/

namespace Conv1d

/-- An input as a table under the names of another one gives it: its values are put one by one into the cells
of the other input, and a cell without a value is zero. -/
def laidOut (l : Conv1d) (first sample : Sample) : Sample :=
  l.gridOf fun cell => (((Stimulus.cells 0 (first.map List.length)).zip sample.flatten).lookup cell).getD (.zero false)

/-- Inputs of the shape of a layer are laid out as they are. -/
theorem laidOut_eq_self {l : Conv1d} {first sample : Sample} (hfirst : l.HasShape first) (h : l.HasShape sample) :
    l.laidOut first sample = sample := by
  rw [laidOut, hfirst.map_length, ← h.map_length, h.gridOf_lookup]

/-- Only inputs of the shape of a layer have outputs. -/
theorem hasShape_of_forward {l : Conv1d} {sample outputs : List (List Binary64)} (h : l.forward sample = .ok outputs) :
    l.HasShape sample := by
  obtain ⟨hlength, hchannels, -⟩ := forward_eq_ok_iff.mp h
  exact ⟨hlength, hchannels⟩

theorem alike_gridOf (l : Conv1d) {value value' : Nat × Nat → Binary64}
    (h : ∀ cell, l.format.quantize (value cell) = l.format.quantize (value' cell)) :
    List.Forall₂ l.format.Alike (l.gridOf value) (l.gridOf value') := by
  simp only [gridOf, QFormat.Alike, List.forall₂_map_left_iff, List.forall₂_map_right_iff, List.forall₂_same]
  exact fun channel _ step _ => h (channel, step)

end Conv1d

/-! ### Reading -/

/-- Values that are related are related in every cell. -/
theorem lookup_zip_rel {κ α β : Type} [BEq κ] [LawfulBEq κ] [DecidableEq κ] {r : α → β → Prop} {xs : List α}
    {ys : List β} (h : List.Forall₂ r xs ys) {a : α} {b : β} (hab : r a b) (keys : List κ) (k : κ) :
    r (((keys.zip xs).lookup k).getD a) (((keys.zip ys).lookup k).getD b) := by
  induction h generalizing keys with
  | nil => simpa using hab
  | cons hxy _ ih =>
    cases keys with
    | nil => exact hab
    | cons key keys =>
      simp only [List.zip_cons_cons, Outcome.lookup_cons_eq]
      split_ifs
      · exact hxy
      · exact ih keys

namespace ReferenceSimulator

open Stimulus

variable {s : ReferenceSimulator}

/-- A header that is read names cells of the layer, and at least one. -/
theorem of_mapM_header {f : QFormat} {qss : List (List Int)} {positions : List (Nat × Nat)}
    (h : (Text.fields ',' (ofStored f qss).header).mapM s.position = .ok positions) :
    positions = cells 0 (qss.map List.length) ∧ positions ≠ [] ∧
      ∀ cell ∈ positions, cell.1 < s.layer.inChannels ∧ cell.2 < s.layer.signalLength := by
  rw [header_ofStored] at h
  by_cases hcells : cells 0 (qss.map List.length) = []
  · -- an empty header is read as a name without meaning
    rw [hcells] at h
    cases h
  · have hne : (cells 0 (qss.map List.length)).map (fun cell => signalName cell.1 cell.2) ≠ [] := by simpa using hcells
    rw [fields_of_fields hne fun item => isField_of_mem_names, Outcome.mapM_eq_ok_iff, List.forall₂_map_left_iff] at h
    have hsame : cells 0 (qss.map List.length) = positions := by
      rw [← List.forall₂_eq_eq_eq]
      exact h.imp fun cell found hfound => (of_position_signalName hfound).1
    refine ⟨hsame.symm, hsame ▸ hcells, fun cell hcell => ?_⟩
    obtain ⟨found, -, hfound⟩ := Outcome.exists_right_of_mem h (hsame ▸ hcell)
    exact (of_position_signalName hfound).2

/-- A field without a character is no bit string of a format. -/
theorem decodeText_empty (f : QFormat) : f.decodeText "" = .error (.widthMismatch f.totalBits 0 "") := by
  have hparse : Bits.parse (Text.trim "") = .ok ⟨[]⟩ := rfl
  have hwidth : Bits.width ⟨[]⟩ ≠ f.totalBits := Nat.ne_of_lt f.total_pos
  rw [QFormat.decodeText, hparse, Outcome.mapError_ok_eq, Outcome.ok_bind, QFormat.decode, QFormat.decodeInt,
    if_neg hwidth]
  rfl

/-- A row that is read gives its values to the cells, one by one. -/
theorem of_sampleOf_row {qss : List (List Int)} (hqss : ∀ q ∈ qss.flatten, s.layer.format.contains q = true)
    {positions : List (Nat × Nat)} (hne : positions ≠ []) (hnodup : positions.Nodup) {sample : Sample}
    (h : s.sampleOf positions (ofStored s.layer.format qss).row = .ok sample) :
    sample = s.layer.gridOf fun cell =>
      ((positions.zip (qss.flatten.map s.layer.format.toRational)).lookup cell).getD (.zero false) := by
  obtain ⟨_, -, h⟩ := Outcome.bind_eq_ok_iff.mp h
  rw [Outcome.lift_eq_ok_iff, row_ofStored, silence_eq_gridOf] at h
  by_cases hflat : qss.flatten = []
  · obtain ⟨first, rest, rfl⟩ := List.exists_cons_of_ne_nil hne
    have hfields : Text.fields ',' (",".intercalate (textsOf s.layer.format [])) = [""] := rfl
    rw [hflat, hfields, List.zip_cons_cons, placeSignals, decodeText_empty] at h
    cases h
  · have htexts : textsOf s.layer.format qss.flatten ≠ [] := by simpa [textsOf] using hflat
    rw [fields_of_fields htexts fun item => isField_of_mem_textsOf, placeSignals_gridOf s.layer hnodup hqss,
      Except.ok.injEq] at h
    exact h.symm

/-- What the simulator computes with: every input is laid out over the cells of the first one. -/
theorem of_samplesOf {qsss : List (List (List Int))} {read : List Sample}
    (h : s.samplesOf (tableText (qsss.map (ofStored s.layer.format))) = .ok read)
    (hqsss : ∀ qss ∈ qsss, ∀ q ∈ qss.flatten, s.layer.format.contains q = true) :
    ∃ first ∈ qsss.head?,
      (∀ cell ∈ cells 0 (first.map List.length), cell.1 < s.layer.inChannels ∧ cell.2 < s.layer.signalLength) ∧
      read = qsss.map fun qss => s.layer.gridOf fun cell =>
        (((cells 0 (first.map List.length)).zip (qss.flatten.map s.layer.format.toRational)).lookup cell).getD
          (.zero false) := by
  cases qsss with
  | nil =>
    have hlines : Text.lines (tableText []) = [""] := rfl
    rw [List.map_nil, samplesOf, hlines] at h
    cases h
  | cons first others =>
    rw [samplesOf, lines_tableText] at h
    obtain ⟨positions, hpositions, hrows⟩ := Outcome.bind_eq_ok_iff.mp h
    obtain ⟨rfl, hne, hbounds⟩ := of_mapM_header (Outcome.lift_eq_ok_iff.mp hpositions)
    refine ⟨first, rfl, hbounds, ?_⟩
    rw [Outcome.mapM_eq_ok_iff, List.forall₂_map_left_iff] at hrows
    rw [← List.forall₂_eq_eq_eq, List.forall₂_map_right_iff]
    refine ((List.forall₂_and_left _ _).mpr ⟨hqsss, hrows⟩).flip.imp fun sample qss hrow => ?_
    exact of_sampleOf_row hrow.1 hne (nodup_cells 0 _) hrow.2

/-! ### Answering -/

theorem stores_of_linesOf {batch : Bits} {index : Nat} {ys : List Binary64} {lines : List String}
    (h : s.linesOf batch index ys = .ok lines) : ∃ qs, s.layer.format.Stores ys qs := by
  induction ys generalizing index lines with
  | nil => exact ⟨[], .nil⟩
  | cons y ys ih =>
    obtain ⟨bits, hbits, h⟩ := Outcome.bind_eq_ok_iff.mp h
    obtain ⟨others, hothers, -⟩ := Outcome.bind_eq_ok_iff.mp h
    obtain ⟨q, hq, -⟩ := Outcome.map_eq_ok_iff.mp hbits
    obtain ⟨qs, hqs⟩ := ih hothers
    exact ⟨q :: qs, .cons hq hqs⟩

/-- Inputs that are answered have outputs that are stored, and there are batch indices for them. -/
theorem of_answers {index : Nat} (hindex : index ≤ 256) {samples : List Sample} {lines : List String}
    (h : s.answers index samples = .ok lines) : index + samples.length ≤ 256 ∧
      ∃ qss, List.Forall₂ (fun sample qs => ∃ outputs, s.layer.forward sample = .ok outputs ∧
        s.layer.format.Stores outputs.flatten qs) samples qss := by
  induction samples generalizing index lines with
  | nil => exact ⟨hindex, [], .nil⟩
  | cons sample rest ih =>
    obtain ⟨first, hfirst, h⟩ := Outcome.bind_eq_ok_iff.mp h
    obtain ⟨others, hothers, -⟩ := Outcome.bind_eq_ok_iff.mp h
    obtain ⟨batch, hbatch, hfirst⟩ := Outcome.bind_eq_ok_iff.mp hfirst
    obtain ⟨outputs, hforward, hlines⟩ := Outcome.bind_eq_ok_iff.mp hfirst
    have hlt : index ≤ 255 := (Outcome.ite_eq_ok_iff.mp (Outcome.lift_eq_ok_iff.mp hbatch)).1
    obtain ⟨hcount, qss, hqss⟩ := ih (Nat.succ_le_succ hlt) hothers
    obtain ⟨qs, hqs⟩ := stores_of_linesOf (Outcome.lift_eq_ok_iff.mp hlines)
    refine ⟨?_, qs :: qss, .cons ⟨outputs, Outcome.within_eq_ok_iff.mp hforward, hqs⟩ hqss⟩
    rw [List.length_cons]
    omega

/-- A run that succeeds has read the table and answered its inputs. -/
theorem of_run {d : Disk} {finished : ReferenceSimulator} (h : s.run d = .ok finished) :
    ∃ table read lines, d.textOf (Path.join s.directory Stimulus.fileName) = .ok table ∧
      s.samplesOf table = .ok read ∧ s.answers 0 read = .ok lines ∧
      finished.output = ["simulating " ++ s.top] ++ lines ++ ["simulation finished"] := by
  obtain ⟨-, h⟩ := Outcome.refuse_guard_eq_ok_iff.mp h
  obtain ⟨table, htable, h⟩ := Outcome.bind_eq_ok_iff.mp h
  obtain ⟨read, hread, h⟩ := Outcome.bind_eq_ok_iff.mp h
  obtain ⟨lines, hlines, h⟩ := Outcome.bind_eq_ok_iff.mp h
  cases h
  exact ⟨table, read, lines, Outcome.lift_eq_ok_iff.mp htable, hread, hlines, rfl⟩

end ReferenceSimulator

/-! ### Simulations -/

namespace Stimulus

variable {f : QFormat}

theorem stores_of_encodeChannel {channel step : Nat} {values : List Binary64} {signals : List (String × Bits)}
    (h : encodeChannel f channel step values = .ok signals) : ∃ qs, f.Stores values qs := by
  induction values generalizing step signals with
  | nil => exact ⟨[], .nil⟩
  | cons x values ih =>
    obtain ⟨bits, hbits, h⟩ := Outcome.bind_eq_ok_iff.mp h
    obtain ⟨others, hothers, -⟩ := Outcome.bind_eq_ok_iff.mp h
    obtain ⟨q, hq, -⟩ := Outcome.map_eq_ok_iff.mp hbits
    obtain ⟨qs, hqs⟩ := ih hothers
    exact ⟨q :: qs, .cons hq hqs⟩

theorem stores_of_encodeChannels {channel : Nat} {sample : Sample} {signals : List (String × Bits)}
    (h : encodeChannels f channel sample = .ok signals) : ∃ qss, List.Forall₂ f.Stores sample qss := by
  induction sample generalizing channel signals with
  | nil => exact ⟨[], .nil⟩
  | cons values sample ih =>
    obtain ⟨first, hfirst, h⟩ := Outcome.bind_eq_ok_iff.mp h
    obtain ⟨others, hothers, -⟩ := Outcome.bind_eq_ok_iff.mp h
    obtain ⟨qs, hqs⟩ := stores_of_encodeChannel hfirst
    obtain ⟨qss, hqss⟩ := ih hothers
    exact ⟨qs :: qss, .cons hqs hqss⟩

/-- Only inputs that are stored have stimuli. -/
theorem stores_of_ofSamples {samples : List Sample} {stimuli : List Stimulus} (h : ofSamples f samples = .ok stimuli) :
    ∃ qsss, List.Forall₂ (List.Forall₂ f.Stores) samples qsss ∧ stimuli = qsss.map (ofStored f) := by
  have hstimuli := Outcome.mapM_eq_ok_iff.mp (Outcome.mapError_eq_ok_iff.mp h)
  have hstored : ∀ sample ∈ samples, ∃ qss, List.Forall₂ f.Stores sample qss := by
    intro sample hsample
    obtain ⟨stimulus, -, hstimulus⟩ := Outcome.exists_right_of_mem hstimuli hsample
    obtain ⟨signals, hsignals, -⟩ := Outcome.map_eq_ok_iff.mp hstimulus
    exact stores_of_encodeChannels hsignals
  obtain ⟨qsss, hqsss⟩ := Outcome.exists_forall₂ hstored
  refine ⟨qsss, hqsss, ?_⟩
  rw [ofSamples_eq_ok hqsss, Except.ok.injEq] at h
  exact h.symm

end Stimulus

/-- Outputs that are stored are what their stored integers mean, however wide the format is. -/
theorem Conv1d.flatten_eq_map {l : Conv1d} {sample outputs : List (List Binary64)} {qs : List Int}
    (hforward : l.forward sample = .ok outputs) (h : l.format.Stores outputs.flatten qs) :
    outputs.flatten = qs.map l.format.toRational := by
  rw [← List.forall₂_eq_eq_eq, List.forall₂_map_right_iff]
  refine ((List.forall₂_and_left _ _).mpr ⟨stored_of_mem_outputs hforward, h⟩).imp fun y q hy => ?_
  obtain ⟨⟨held, hheld, rfl⟩, hq⟩ := hy
  exact (QFormat.toRational_of_quantize hheld hq).symm

namespace Testbench

variable {layer : Conv1d} {undefined : List Nat}

/-- A group that answers an input answers every input with the same stored integers. -/
theorem Answers.congr {sample other : Sample} {group : List ReportedValue} (h : Answers layer undefined sample group)
    (halike : List.Forall₂ layer.format.Alike sample other) : Answers layer undefined other group := by
  obtain ⟨outputs, hforward, hgroup⟩ := h
  exact ⟨outputs, Conv1d.forward_congr halike hforward, hgroup⟩

/-- The groups of a report answer the inputs that the simulator has read. -/
theorem answers_of_decode {s : ReferenceSimulator} {read : List Sample} {lines : List String}
    (hlines : s.answers 0 read = .ok lines) (hwell : s.layer.WellFormed) (hne : read ≠ []) (top : String)
    {groups : List (List ReportedValue)}
    (h : Report.decode s.layer.format .batched (["simulating " ++ top] ++ lines ++ ["simulation finished"]) =
      .ok groups) :
    List.Forall₂ (Answers s.layer s.undefined) read groups := by
  obtain ⟨hcount, qss, hqss⟩ := ReferenceSimulator.of_answers (Nat.zero_le _) hlines
  obtain ⟨printed, hprinted, hdecodes⟩ := ReferenceSimulator.decodes_answers hqss 0 hcount
  rw [hlines, Except.ok.injEq] at hprinted
  have hqss_ne : qss ≠ [] := by
    rintro rfl
    exact hne (List.forall₂_nil_right_iff.mp hqss)
  have hqs_ne : ∀ qs ∈ qss, qs ≠ [] := by
    rintro qs hqs rfl
    obtain ⟨sample, -, outputs, hforward, hstored⟩ := Outcome.exists_left_of_mem hqss hqs
    exact Conv1d.flatten_ne_nil hwell hforward (List.forall₂_nil_right_iff.mp hstored)
  rw [hprinted, ReferenceSimulator.decode_report top hqss_ne hqs_ne hdecodes, Except.ok.injEq] at h
  rw [← h, List.forall₂_map_right_iff]
  refine hqss.imp fun sample qs hsample => ?_
  obtain ⟨outputs, hforward, hstored⟩ := hsample
  exact answers_valuesFrom hforward hstored (Conv1d.flatten_eq_map hforward hstored) s.undefined

/-- What happened in a simulation that succeeds: the inputs are stored, the simulator has read the table of their
stored integers and answered what it read, and its report was decoded. -/
theorem of_simulate {t : Testbench} (hformat : t.format = layer.format) (hconvention : t.convention = .batched)
    {d : Disk} (hrooted : d.IsRooted) {directory : String} {samples : List Sample} {groups : List (List ReportedValue)}
    (h : (t.simulate d directory layer undefined samples).2 = .ok groups) :
    ∃ qsss read lines, List.Forall₂ (List.Forall₂ layer.format.Stores) samples qsss ∧
      (ReferenceSimulator.mk directory t.name layer undefined true []).samplesOf
        (Stimulus.tableText (qsss.map (Stimulus.ofStored layer.format))) = .ok read ∧
      (ReferenceSimulator.mk directory t.name layer undefined true []).answers 0 read = .ok lines ∧
      Report.decode layer.format .batched (["simulating " ++ t.name] ++ lines ++ ["simulation finished"]) =
        .ok groups := by
  unfold simulate at h
  cases hstimuli : t.stimuli samples with
  | error cause =>
    rw [hstimuli] at h
    cases h
  | ok stimuli =>
    obtain ⟨qsss, hqsss, rfl⟩ := Stimulus.stores_of_ofSamples hstimuli
    simp only [hstimuli] at h
    by_cases hstorable : Stimulus.Storable d directory
    · obtain ⟨written, hstore, -, htext⟩ := Stimulus.store_of_storable hrooted
        (qsss.map (Stimulus.ofStored t.format)) hstorable
      simp only [hstore] at h
      obtain ⟨ready, hready, h⟩ := Outcome.bind_eq_ok_iff.mp h
      obtain ⟨finished, hrun, hdecode⟩ := Outcome.bind_eq_ok_iff.mp h
      obtain ⟨-, rfl⟩ := Outcome.ite_eq_ok_iff.mp (Outcome.lift_eq_ok_iff.mp hready)
      obtain ⟨table, read, lines, htable, hread, hlines, houtput⟩ := ReferenceSimulator.of_run hrun
      rw [htext, Except.ok.injEq] at htable
      rw [Outcome.lift_eq_ok_iff, decode, hconvention, houtput] at hdecode
      rw [← htable] at hread
      rw [hformat] at hqsss hread hdecode
      exact ⟨qsss, read, lines, hqsss, hread, hlines, hdecode⟩
    · obtain ⟨made, cause, hstore⟩ := Stimulus.store_of_not_storable hrooted
        (qsss.map (Stimulus.ofStored t.format)) hstorable
      simp only [hstore] at h
      cases h

/-- What is read from a table is an input laid out, as far as stored integers can tell. -/
theorem alike_laidOut (l : Conv1d) {first sample : Sample} {lengths : List Nat} {qss : List (List Int)}
    (hfirst : lengths = first.map List.length) (h : List.Forall₂ l.format.Stores sample qss) :
    List.Forall₂ l.format.Alike (l.gridOf fun cell =>
      (((Stimulus.cells 0 lengths).zip (qss.flatten.map l.format.toRational)).lookup cell).getD (.zero false))
      (l.laidOut first sample) := by
  have hvalues : l.format.Alike (qss.flatten.map l.format.toRational) sample.flatten := by
    rw [QFormat.Alike, List.forall₂_map_left_iff]
    refine List.Forall₂.flip ((List.rel_flatten h).imp fun x q hx => ?_)
    exact (QFormat.quantize_toRational_of_quantize hx).trans hx.symm
  subst hfirst
  exact l.alike_gridOf fun cell => lookup_zip_rel hvalues rfl _ cell

/-- The first input has the channels of its stored integers. -/
theorem exists_head_of_stored {f : QFormat} {samples : List Sample} {qsss : List (List (List Int))}
    (h : List.Forall₂ (List.Forall₂ f.Stores) samples qsss) {qss : List (List Int)} (hhead : qss ∈ qsss.head?) :
    ∃ first ∈ samples.head?, qss.map List.length = first.map List.length := by
  cases h with
  | nil => cases hhead
  | cons hfirst _ =>
    obtain rfl := Option.some.inj hhead
    refine ⟨_, rfl, ?_⟩
    rw [← List.forall₂_eq_eq_eq, List.forall₂_map_left_iff, List.forall₂_map_right_iff]
    exact List.Forall₂.flip (hfirst.imp fun values qs hvalues => hvalues.length_eq.symm)

/-- **What a simulation that succeeds has computed.** The first input lies in the shape of the layer, and every group
answers an input laid out over the cells of the first one. The groups answer the inputs as they were given exactly if
all of these have the shape of the layer: a simulation also succeeds with inputs that lack values, and with inputs
whose channels differ from those of the first one. -/
theorem simulate_answers_laidOut {name bench : String} {f : QFormat}
    {inChannels outChannels signalLength kernelSize : Nat} {weights : List (List (List Binary64))}
    {bias : List Binary64} {t : Testbench} {d : Disk} {directory : String} {samples : List Sample}
    {groups : List (List ReportedValue)}
    (hlayer : Conv1d.make name f inChannels outChannels signalLength kernelSize weights bias = .ok layer)
    (hbench : (make bench layer.underTest f : Checked LayerError Testbench) = .ok t) (hrooted : d.IsRooted)
    (h : (t.simulate d directory layer undefined samples).2 = .ok groups) :
    ∃ first ∈ samples.head?,
      (∀ cell ∈ Stimulus.cells 0 (first.map List.length), cell.1 < layer.inChannels ∧ cell.2 < layer.signalLength) ∧
      List.Forall₂ (Answers layer undefined) (samples.map (layer.laidOut first)) groups ∧
      (List.Forall₂ (Answers layer undefined) samples groups ↔ ∀ sample ∈ samples, layer.HasShape sample) := by
  have hwell := Conv1d.wellFormed_of_make hlayer
  have hsame : layer.format = f := by
    obtain ⟨kernels, stored, rfl, -⟩ := Conv1d.of_make hlayer
    rfl
  obtain ⟨-, hformat, hconvention⟩ := of_make hbench
  obtain ⟨qsss, read, lines, hstored, hread, hlines, hdecode⟩ :=
    of_simulate (hformat.trans hsame.symm) hconvention hrooted h
  have hheld : ∀ qss ∈ qsss, ∀ q ∈ qss.flatten, layer.format.contains q = true := by
    intro qss hqss q hq
    obtain ⟨sample, -, hsample⟩ := Outcome.exists_left_of_mem hstored hqss
    obtain ⟨x, -, hx⟩ := Outcome.exists_left_of_mem (List.rel_flatten hsample) hq
    exact QFormat.contains_of_quantize hx
  obtain ⟨qss, hhead, hbounds, rfl⟩ := ReferenceSimulator.of_samplesOf hread hheld
  obtain ⟨first, hfirst, hlengths⟩ := exists_head_of_stored hstored hhead
  have hne : qsss ≠ [] := List.ne_nil_of_mem (List.mem_of_mem_head? hhead)
  have hanswers := answers_of_decode hlines hwell (by simpa using hne) t.name hdecode
  rw [List.forall₂_map_left_iff] at hanswers
  have hlaidOut : List.Forall₂ (Answers layer undefined) (samples.map (layer.laidOut first)) groups := by
    rw [List.forall₂_map_left_iff]
    exact Outcome.forall₂_trans hstored hanswers fun sample qss group hqss hgroup =>
      hgroup.congr (alike_laidOut layer hlengths hqss)
  refine ⟨first, hfirst, hlengths ▸ hbounds, hlaidOut, fun hgiven sample hsample => ?_, fun hshape => ?_⟩
  · obtain ⟨group, -, outputs, hforward, -⟩ := Outcome.exists_right_of_mem hgiven hsample
    exact Conv1d.hasShape_of_forward hforward
  · have hself : samples.map (layer.laidOut first) = samples := by
      rw [List.map_congr_left fun sample hsample =>
        Conv1d.laidOut_eq_self (hshape first (List.mem_of_mem_head? hfirst)) (hshape sample hsample), List.map_id']
    rwa [hself] at hlaidOut

/-- An input that lacks a value and one that has both: the simulation succeeds, but the second value of the second
input has no name in the table and is not seen. -/
theorem simulate_answers_laidOut_short :
    let samples : List Sample := [[[.ofQuotient 1 2]], [[.ofInt 1, .ofInt 2]]]
    ∃ groups, ((benchOf "conv").simulate ⟨.folder [("tb.vhd", .file "")], []⟩ "" (passingOn "conv") [] samples).2 =
        .ok groups ∧
      List.Forall₂ (Answers (passingOn "conv") []) [[[.ofQuotient 1 2, .zero false]], [[.ofInt 1, .zero false]]]
        groups ∧
      ¬ List.Forall₂ (Answers (passingOn "conv") []) samples groups := by
  intro samples
  have hlayer : Conv1d.make "conv" eightBits 1 1 2 1 [[[.ofInt 1]]] [] = .ok (passingOn "conv") := by
    decide +kernel
  have hbench : (make "tb" (passingOn "conv").underTest eightBits : Checked LayerError Testbench) =
      .ok (benchOf "conv") := by decide +kernel
  have hsimulate : ((benchOf "conv").simulate ⟨.folder [("tb.vhd", .file "")], []⟩ "" (passingOn "conv") [] samples).2 =
      .ok [[.number (.ofQuotient 1 2), .number (.zero false)], [.number (.ofInt 1), .number (.zero false)]] := by
    decide +kernel
  obtain ⟨first, hfirst, -, hlaidOut, hgiven⟩ := simulate_answers_laidOut hlayer hbench ⟨_, rfl⟩ hsimulate
  obtain rfl := Option.some.inj hfirst
  have hsamples : samples.map ((passingOn "conv").laidOut [[.ofQuotient 1 2]]) =
      [[[.ofQuotient 1 2, .zero false]], [[.ofInt 1, .zero false]]] := by decide +kernel
  refine ⟨_, hsimulate, hsamples ▸ hlaidOut, fun hall => ?_⟩
  exact absurd ((hgiven.mp hall _ List.mem_cons_self).2 _ List.mem_cons_self) (by decide)

/-- A simulation succeeds with an input that the reference function refuses. -/
theorem not_forward_of_simulate :
    ¬ ∀ (name bench : String) (f : QFormat) (inChannels outChannels signalLength kernelSize : Nat)
      (weights : List (List (List Binary64))) (bias : List Binary64) (layer : Conv1d) (t : Testbench) (d : Disk)
      (directory : String) (undefined : List Nat) (samples : List Sample) (groups : List (List ReportedValue)),
      Conv1d.make name f inChannels outChannels signalLength kernelSize weights bias = .ok layer →
      (make bench layer.underTest f : Checked LayerError Testbench) = .ok t → d.IsRooted →
      (t.simulate d directory layer undefined samples).2 = .ok groups →
      ∀ sample ∈ samples, ∃ outputs, layer.forward sample = .ok outputs := by
  intro h
  obtain ⟨outputs, houtputs⟩ := h "conv" "tb" eightBits 1 1 2 1 [[[.ofInt 1]]] [] (passingOn "conv") (benchOf "conv")
    ⟨.folder [("tb.vhd", .file "")], []⟩ "" [] [[[.ofQuotient 1 2]]]
    [[.number (.ofQuotient 1 2), .number (.zero false)]] (by decide +kernel) (by decide +kernel) ⟨_, rfl⟩
    (by decide +kernel) _ List.mem_cons_self
  have hrefused : (passingOn "conv").forward [[.ofQuotient 1 2]] =
      Checked.refuse (.shapeMismatch "conv" "input[0]" 2 1) := by decide +kernel
  rw [hrefused] at houtputs
  cases houtputs

end Testbench

end QuantNet
