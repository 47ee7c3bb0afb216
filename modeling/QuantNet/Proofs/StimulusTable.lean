import Mathlib.Logic.Function.Basic
import QuantNet.Proofs.Bits
import QuantNet.Proofs.Convolution
import QuantNet.Testbench.Reference

/-!
# The table of stimuli is read back

The inputs of a simulation are written as a table of bit strings under signal names, and the
reference simulator reads them from this table. Both sides go through the same cells, channel after
channel and step after step (`cells`): the writer names the cells (`encodeChannels_eq_ok`), the reader
finds the cell of every name (`indices?_signalName`) and puts the values back into their cells
(`placeSignals_gridOf`). What is read are the numbers that the stored integers mean
(`samplesOf_tableText`).
-/

namespace QuantNet

namespace Stimulus

/-! ### Cells -/

/-- The channel and time step of every value, for channels of the given lengths. -/
def cells : (channel : Nat) → (lengths : List Nat) → List (Nat × Nat)
  | _, [] => []
  | channel, n :: rest => (List.range n).map (fun step => (channel, step)) ++ cells (channel + 1) rest

theorem length_cells (channel : Nat) (lengths : List Nat) : (cells channel lengths).length = lengths.sum := by
  induction lengths generalizing channel with
  | nil => rfl
  | cons n rest ih => simp [cells, ih]

/-- A cell lies in one of the channels, and in its length. -/
theorem lt_of_mem_cells {channel count length : Nat} {cell : Nat × Nat}
    (h : cell ∈ cells channel (List.replicate count length)) : cell.1 < channel + count ∧ cell.2 < length := by
  induction count generalizing channel with
  | zero => cases h
  | succ count ih =>
    rw [List.replicate_succ, cells, List.mem_append] at h
    rcases h with h | h
    · obtain ⟨step, hstep, rfl⟩ := List.mem_map.mp h
      exact ⟨Nat.lt_add_of_pos_right count.succ_pos, List.mem_range.mp hstep⟩
    · obtain ⟨hchannel, hstep⟩ := ih h
      exact ⟨by omega, hstep⟩

theorem le_of_mem_cells {channel : Nat} {lengths : List Nat} {cell : Nat × Nat} (h : cell ∈ cells channel lengths) :
    channel ≤ cell.1 := by
  induction lengths generalizing channel with
  | nil => cases h
  | cons n rest ih =>
    rw [cells, List.mem_append] at h
    rcases h with h | h
    · obtain ⟨step, -, rfl⟩ := List.mem_map.mp h
      exact Nat.le_refl _
    · exact Nat.le_of_succ_le (ih h)

theorem nodup_cells (channel : Nat) (lengths : List Nat) : (cells channel lengths).Nodup := by
  induction lengths generalizing channel with
  | nil => exact List.nodup_nil
  | cons n rest ih =>
    have hinjective : Function.Injective fun step : Nat => (channel, step) := fun _ _ h => (Prod.mk.inj h).2
    refine List.nodup_append.mpr ⟨List.nodup_range.map hinjective, ih _, fun cell hcell other hother hsame => ?_⟩
    obtain ⟨step, -, rfl⟩ := List.mem_map.mp hcell
    have hle := le_of_mem_cells hother
    rw [← hsame] at hle
    exact Nat.not_succ_le_self _ hle

/-- The value of a cell in one channel, from a step on. -/
theorem lookup_channel (channel step t : Nat) (values : List Binary64) :
    (((List.range' step values.length).map fun s => (channel, s)).zip values).lookup (channel, step + t) =
      values[t]? := by
  induction values generalizing step t with
  | nil => rfl
  | cons x values ih =>
    rw [List.length_cons, List.range'_succ, List.map_cons, List.zip_cons_cons, Outcome.lookup_cons_eq]
    cases t with
    | zero => rw [Nat.add_zero, if_pos rfl, List.getElem?_cons_zero]
    | succ t =>
      have hnext : step + (t + 1) = step + 1 + t := by omega
      rw [if_neg (by simp), List.getElem?_cons_succ, hnext, ih]

/-- The value of a cell in an input. -/
theorem lookup_cells (channel c t : Nat) (sample : Sample) :
    ((cells channel (sample.map List.length)).zip sample.flatten).lookup (channel + c, t) =
      sample[c]?.bind (·[t]?) := by
  induction sample generalizing channel c with
  | nil => rfl
  | cons values rest ih =>
    rw [List.map_cons, cells, List.flatten_cons, List.zip_append (by simp), List.lookup_append, List.range_eq_range']
    cases c with
    | zero =>
      -- the cells of the other channels lie behind
      have hnone : ((cells (channel + 1) (rest.map List.length)).zip rest.flatten).lookup (channel + 0, t) = none := by
        rw [List.lookup_eq_none_iff]
        intro entry hentry
        have hle := le_of_mem_cells (List.of_mem_zip hentry).1
        refine bne_iff_ne.mpr fun hsame => ?_
        rw [← hsame] at hle
        exact Nat.not_succ_le_self _ hle
      have hfirst := lookup_channel channel 0 t values
      rw [Nat.zero_add] at hfirst
      rw [hnone, Option.or_none, List.getElem?_cons_zero, Option.bind_some, Nat.add_zero, hfirst]
    | succ c =>
      have hnone : (((List.range' 0 values.length).map fun s => (channel, s)).zip values).lookup
          (channel + (c + 1), t) = none := by
        rw [List.lookup_eq_none_iff]
        intro entry hentry
        obtain ⟨s, -, hs⟩ := List.mem_map.mp (List.of_mem_zip hentry).1
        rw [← hs]
        simp
      have hnext : channel + (c + 1) = channel + 1 + c := by omega
      rw [hnone, Option.none_or, hnext, ih, List.getElem?_cons_succ]

/-- The signals of stored integers in cells. -/
def signalsOf (f : QFormat) (cells : List (Nat × Nat)) (qs : List Int) : List (String × Bits) :=
  (cells.zip qs).map fun e => (signalName e.1.1 e.1.2, .ofInt e.2 f.totalBits)

/-- The stimulus of stored integers. -/
def ofStored (f : QFormat) (qss : List (List Int)) : Stimulus :=
  ⟨signalsOf f (cells 0 (qss.map List.length)) qss.flatten⟩

/-! ### Writing -/

variable {f : QFormat}

theorem encodeChannel_eq_ok {values : List Binary64} {qs : List Int} (h : f.Stores values qs) (channel step : Nat) :
    encodeChannel f channel step values =
      .ok (signalsOf f ((List.range' step qs.length).map fun s => (channel, s)) qs) := by
  induction h generalizing step with
  | nil => rfl
  | cons hx _ ih =>
    rw [encodeChannel, QFormat.encode_eq_ok hx, Outcome.ok_bind, ih, Outcome.ok_bind, Outcome.pure_eq_ok]
    rfl

theorem encodeChannels_eq_ok {sample : Sample} {qss : List (List Int)} (h : List.Forall₂ f.Stores sample qss)
    (channel : Nat) :
    encodeChannels f channel sample = .ok (signalsOf f (cells channel (qss.map List.length)) qss.flatten) := by
  induction h generalizing channel with
  | nil => rfl
  | @cons values qs sample qss hvalues _ ih =>
    have hzip : (cells channel ((qs :: qss).map List.length)).zip (qs :: qss).flatten =
        ((List.range' 0 qs.length).map fun s => (channel, s)).zip qs ++
          (cells (channel + 1) (qss.map List.length)).zip qss.flatten := by
      rw [List.map_cons, cells, List.flatten_cons, List.range_eq_range', List.zip_append (by simp)]
    rw [encodeChannels, encodeChannel_eq_ok hvalues, Outcome.ok_bind, ih, Outcome.ok_bind, Outcome.pure_eq_ok,
      signalsOf, signalsOf, signalsOf, hzip, List.map_append]

/-- The stimuli of inputs that are stored. -/
theorem ofSamples_eq_ok {samples : List Sample} {qsss : List (List (List Int))}
    (h : List.Forall₂ (List.Forall₂ f.Stores) samples qsss) : ofSamples f samples = .ok (qsss.map (ofStored f)) := by
  have hmapM : samples.mapM (ofSample f) = .ok (qsss.map (ofStored f)) := by
    rw [Outcome.mapM_eq_ok_iff, List.forall₂_map_right_iff]
    refine h.imp fun sample qss hsample => ?_
    rw [ofSample, encodeChannels_eq_ok hsample, Outcome.map_ok_eq, ofStored]
  rw [ofSamples, hmapM, Outcome.mapError_ok_eq]

section Rows

variable (f) (qss : List (List Int))

/-- There is a cell for every value. -/
theorem length_cells_eq : (cells 0 (qss.map List.length)).length = qss.flatten.length := by
  rw [length_cells, List.length_flatten]

theorem names_ofStored : (ofStored f qss).signals.map (·.1) =
    (cells 0 (qss.map List.length)).map fun cell => signalName cell.1 cell.2 := by
  have hcells := List.map_fst_zip (Nat.le_of_eq (length_cells_eq qss))
  rw [ofStored, signalsOf, List.map_map]
  nth_rewrite 2 [← hcells]
  rw [List.map_map]
  rfl

theorem texts_ofStored : ((ofStored f qss).signals.map fun e => e.2.text) =
    qss.flatten.map fun q => (Bits.ofInt q f.totalBits).text := by
  have hvalues := List.map_snd_zip (Nat.le_of_eq (length_cells_eq qss).symm)
  rw [ofStored, signalsOf, List.map_map]
  nth_rewrite 2 [← hvalues]
  rw [List.map_map]
  rfl

end Rows

/-! ### Names -/

/-- The characters of signal names are no separators. -/
theorem plain_of_mem_signalName {channel step : Nat} {c : Char} (h : c ∈ (signalName channel step).toList) :
    c ≠ ',' ∧ c ≠ '\n' ∧ c ≠ '\r' := by
  have hdigit : c.isDigit = true → c ≠ ',' ∧ c ≠ '\n' ∧ c ≠ '\r' := by
    intro hc
    refine ⟨?_, ?_, ?_⟩ <;> rintro rfl <;> exact absurd hc (by decide)
  simp only [signalName, String.toList_append, List.mem_append] at h
  rcases h with ((h | h) | h) | h
  · have hc : c = 'x' ∨ c = '_' := by simpa using h
    rcases hc with rfl | rfl <;> decide
  · exact hdigit (Text.isDigit_of_mem_ofNat h)
  · obtain rfl : c = '_' := by simpa using h
    decide
  · exact hdigit (Text.isDigit_of_mem_ofNat h)

end Stimulus

/-! ### Grids -/

namespace Conv1d

/-- An input has the shape that a layer takes. -/
def HasShape (l : Conv1d) (sample : Sample) : Prop :=
  sample.length = l.inChannels ∧ ∀ channel ∈ sample, channel.length = l.signalLength

/-- The input of a layer with a given value in every cell. -/
def gridOf (l : Conv1d) (value : Nat × Nat → Binary64) : Sample :=
  (List.range l.inChannels).map fun channel => (List.range l.signalLength).map fun step => value (channel, step)

theorem map_range_set {α : Type} (n t : Nat) (g : Nat → α) (a : α) :
    ((List.range n).map g).set t a = (List.range n).map (Function.update g t a) := by
  refine List.ext_getElem (by simp) fun i _ _ => ?_
  simp only [List.getElem_set, List.getElem_map, List.getElem_range, Function.update_apply, eq_comm]

theorem map_range_modify {α : Type} (n c : Nat) (g : Nat → α) (h : α → α) :
    ((List.range n).map g).modify c h = (List.range n).map (Function.update g c (h (g c))) := by
  refine List.ext_getElem (by simp) fun i _ _ => ?_
  simp only [List.getElem_modify, List.getElem_map, List.getElem_range, Function.update_apply]
  by_cases hi : i = c
  · rw [if_pos hi.symm, if_pos hi, hi]
  · rw [if_neg (Ne.symm hi), if_neg hi]

/-- A value that is put into a cell of a grid. -/
theorem gridOf_modify (l : Conv1d) (value : Nat × Nat → Binary64) (channel step : Nat) (x : Binary64) :
    (l.gridOf value).modify channel (·.set step x) = l.gridOf (Function.update value (channel, step) x) := by
  rw [gridOf, map_range_modify, gridOf]
  refine List.map_congr_left fun c _ => ?_
  by_cases hc : c = channel
  · subst hc
    rw [Function.update_self, map_range_set]
    refine List.map_congr_left fun s _ => ?_
    simp only [Function.update_apply, Prod.mk.injEq, true_and]
  · rw [Function.update_of_ne hc]
    refine List.map_congr_left fun s _ => ?_
    rw [Function.update_of_ne]
    exact fun hsame => hc (Prod.mk.inj hsame).1

theorem HasShape.map_length {l : Conv1d} {sample : Sample} (h : l.HasShape sample) :
    sample.map List.length = List.replicate l.inChannels l.signalLength := by
  rw [← h.1, List.eq_replicate_iff]
  exact ⟨List.length_map _, List.forall_mem_map.mpr h.2⟩

/-- An input of the shape of a layer is the grid of what stands in its cells. -/
theorem HasShape.gridOf_lookup {l : Conv1d} {sample : Sample} (h : l.HasShape sample) :
    (l.gridOf fun cell => (((Stimulus.cells 0 (sample.map List.length)).zip sample.flatten).lookup cell).getD
      (.zero false)) = sample := by
  refine List.ext_getElem (by simp [gridOf, h.1]) fun c _ hc => ?_
  have hlength := h.2 _ (List.getElem_mem hc)
  refine List.ext_getElem (by simp [gridOf, hlength]) fun t _ ht => ?_
  have hcell := Stimulus.lookup_cells 0 c t sample
  rw [Nat.zero_add, List.getElem?_eq_getElem hc, Option.bind_some, List.getElem?_eq_getElem ht] at hcell
  simp [gridOf, hcell]

end Conv1d

namespace ReferenceSimulator

open Stimulus

/-- The cell of a value is read off the name of its signal, if its indices are machine words. -/
theorem indices?_signalName (channel step : Nat) : indices? (signalName channel step) =
    if channel < 2 ^ 64 ∧ step < 2 ^ 64 then some (channel, step) else none := by
  have hunderscore : ∀ n, '_' ∉ (Text.ofNat n).toList := by
    intro n hn
    exact absurd (Text.isDigit_of_mem_ofNat hn) (by decide)
  have hlist : (signalName channel step).toList =
      ['x', '_'] ++ ((Text.ofNat channel).toList ++ '_' :: (Text.ofNat step).toList) := by
    simp [signalName]
  have hpieces : Text.pieces '_' ((Text.ofNat channel).toList ++ '_' :: (Text.ofNat step).toList) =
      [(Text.ofNat channel).toList, (Text.ofNat step).toList] := by
    rw [Text.pieces_eq_splitOn, List.splitOn_append_cons_self, List.splitOn_eq_singleton (hunderscore channel),
      List.splitOn_eq_singleton (hunderscore step), List.singleton_append]
  rw [indices?, hlist, Text.after?_eq_some_iff.mpr rfl, Option.map_some, hpieces]
  simp only [Text.size?_ofNat]
  by_cases hchannel : channel < 2 ^ 64
  · by_cases hstep : step < 2 ^ 64
    · rw [if_pos hchannel, if_pos hstep, if_pos ⟨hchannel, hstep⟩]
      rfl
    · have hwords : ¬ (channel < 2 ^ 64 ∧ step < 2 ^ 64) := fun h => hstep h.2
      rw [if_pos hchannel, if_neg hstep, if_neg hwords]
      rfl
  · have hwords : ¬ (channel < 2 ^ 64 ∧ step < 2 ^ 64) := fun h => hchannel h.1
    rw [if_neg hchannel, if_neg hwords]
    rfl

/-! ### Reading -/

variable {f : QFormat}

/-- The texts of stored integers. -/
def textsOf (f : QFormat) (qs : List Int) : List String := qs.map fun q => (Bits.ofInt q f.totalBits).text

/-- The texts of stored integers are put into their cells. -/
theorem placeSignals_gridOf {f : QFormat} (l : Conv1d) {cells : List (Nat × Nat)} (hnodup : cells.Nodup) {qs : List Int}
    (hqs : ∀ q ∈ qs, f.contains q = true) (value : Nat × Nat → Binary64) :
    placeSignals f (l.gridOf value) (cells.zip (textsOf f qs)) =
      .ok (l.gridOf fun cell => ((cells.zip (qs.map f.toRational)).lookup cell).getD (value cell)) := by
  induction cells generalizing qs value with
  | nil => rfl
  | cons first cells ih =>
    cases qs with
    | nil => rfl
    | cons q qs =>
      obtain ⟨hfirst, hrest⟩ := List.nodup_cons.mp hnodup
      obtain ⟨hq, hqs⟩ := List.forall_mem_cons.mp hqs
      have hplaced := ih hrest hqs (Function.update value first (f.toRational q))
      rw [textsOf, List.map_cons, List.zip_cons_cons, placeSignals, QFormat.decodeText_ofInt hq, Outcome.mapError_ok_eq,
        Outcome.ok_bind, Conv1d.gridOf_modify]
      refine hplaced.trans (congrArg Except.ok (congrArg l.gridOf (funext fun cell => ?_)))
      rw [List.map_cons, List.zip_cons_cons, Outcome.lookup_cons_eq]
      by_cases hcell : cell = first
      · -- no other text is put into this cell
        have hnone : (cells.zip (qs.map f.toRational)).lookup cell = none := by
          rw [List.lookup_eq_none_iff]
          intro entry hentry
          refine bne_iff_ne.mpr fun hsame => hfirst ?_
          rw [← hcell, hsame]
          exact (List.of_mem_zip hentry).1
        rw [hnone, if_pos hcell, hcell, Function.update_self]
        rfl
      · rw [if_neg hcell, Function.update_of_ne hcell]

theorem silence_eq_gridOf (s : ReferenceSimulator) : s.silence = s.layer.gridOf fun _ => .zero false := by
  simp [silence, Conv1d.gridOf, List.map_const']

/-- The name of every signal of a table leads to its cell. -/
theorem position_signalName {s : ReferenceSimulator} (hwords : s.layer.signalLength * s.layer.inChannels < 2 ^ 64)
    {cell : Nat × Nat} (hchannel : cell.1 < s.layer.inChannels) (hstep : cell.2 < s.layer.signalLength) :
    s.position (signalName cell.1 cell.2) = .ok cell := by
  have hcount : cell.1 < 2 ^ 64 := by
    have hle : s.layer.inChannels ≤ s.layer.signalLength * s.layer.inChannels :=
      Nat.le_mul_of_pos_left _ (Nat.zero_lt_of_lt hstep)
    omega
  have hlength : cell.2 < 2 ^ 64 := by
    have hle : s.layer.signalLength ≤ s.layer.signalLength * s.layer.inChannels :=
      Nat.le_mul_of_pos_right _ (Nat.zero_lt_of_lt hchannel)
    omega
  rw [position, indices?_signalName, if_pos ⟨hcount, hlength⟩]
  exact if_pos ⟨hchannel, hstep⟩

/-- A name that leads to a cell leads to its own, and the cell is one of the layer. -/
theorem of_position_signalName {s : ReferenceSimulator} {cell found : Nat × Nat}
    (h : s.position (signalName cell.1 cell.2) = .ok found) :
    cell = found ∧ cell.1 < s.layer.inChannels ∧ cell.2 < s.layer.signalLength := by
  rw [position, indices?_signalName] at h
  by_cases hwords : cell.1 < 2 ^ 64 ∧ cell.2 < 2 ^ 64
  · rw [if_pos hwords] at h
    obtain ⟨hbounds, hcell⟩ := Outcome.ite_eq_ok_iff.mp h
    exact ⟨hcell, hbounds⟩
  · rw [if_neg hwords] at h
    cases h

/-- The cells of the inputs of a layer. -/
def grid (l : Conv1d) : List (Nat × Nat) := cells 0 (List.replicate l.inChannels l.signalLength)

theorem grid_ne_nil {l : Conv1d} (hwell : l.WellFormed) : grid l ≠ [] := by
  have hpos : 0 < (grid l).length := by
    rw [grid, length_cells, List.sum_replicate_nat]
    exact Nat.mul_pos hwell.inChannels_pos (Nat.lt_of_lt_of_le hwell.kernelSize_pos hwell.kernelSize_le)
  exact List.ne_nil_of_length_pos hpos

/-- Stored integers have the shape of the inputs of a layer, and the format of the layer holds them. -/
structure Shaped (l : Conv1d) (qss : List (List Int)) : Prop where
  channels : qss.length = l.inChannels
  steps : ∀ qs ∈ qss, qs.length = l.signalLength
  held : ∀ qs ∈ qss, ∀ q ∈ qs, l.format.contains q = true

theorem Shaped.map_length {l : Conv1d} {qss : List (List Int)} (h : Shaped l qss) :
    qss.map List.length = List.replicate l.inChannels l.signalLength := by
  rw [← h.channels, List.eq_replicate_iff]
  refine ⟨List.length_map _, fun n hn => ?_⟩
  obtain ⟨qs, hqs, rfl⟩ := List.mem_map.mp hn
  exact h.steps qs hqs

section Reading

variable {s : ReferenceSimulator} {qss : List (List Int)}

theorem header_ofStored (f : QFormat) (qss : List (List Int)) : (ofStored f qss).header =
    ",".intercalate ((cells 0 (qss.map List.length)).map fun cell => signalName cell.1 cell.2) := by
  rw [header, names_ofStored]

theorem row_ofStored (f : QFormat) (qss : List (List Int)) :
    (ofStored f qss).row = ",".intercalate (textsOf f qss.flatten) := by
  rw [Stimulus.row, texts_ofStored, textsOf]

/-- A field of the table holds no character with a meaning in the table. -/
def IsField (item : String) : Prop := ∀ c ∈ item.toList, c ≠ ',' ∧ c ≠ '\n' ∧ c ≠ '\r'

theorem isField_of_mem_names {cells : List (Nat × Nat)} {item : String}
    (h : item ∈ cells.map fun cell => signalName cell.1 cell.2) : IsField item := by
  intro c hc
  obtain ⟨cell, -, rfl⟩ := List.mem_map.mp h
  exact plain_of_mem_signalName hc

theorem isField_of_mem_textsOf {f : QFormat} {qs : List Int} {item : String} (h : item ∈ textsOf f qs) :
    IsField item := by
  intro c hc
  obtain ⟨q, -, rfl⟩ := List.mem_map.mp h
  exact (Bits.plain_of_mem_text hc).2

/-- A row of fields is one line. -/
theorem line_of_fields {items : List String} (h : ∀ item ∈ items, IsField item) :
    '\n' ∉ (",".intercalate items).toList ∧ '\r' ∉ (",".intercalate items).toList := by
  refine ⟨fun hc => ?_, fun hc => ?_⟩
  · rcases Text.mem_intercalate hc with hc | ⟨item, hitem, hc⟩
    · exact absurd hc (by decide)
    · exact (h item hitem _ hc).2.1 rfl
  · rcases Text.mem_intercalate hc with hc | ⟨item, hitem, hc⟩
    · exact absurd hc (by decide)
    · exact (h item hitem _ hc).2.2 rfl

theorem fields_of_fields {items : List String} (hne : items ≠ []) (h : ∀ item ∈ items, IsField item) :
    Text.fields ',' (",".intercalate items) = items :=
  Text.fields_intercalate rfl hne fun item hitem hc => (h item hitem _ hc).1 rfl

/-- The lines of the table of stored inputs. -/
theorem lines_tableText (f : QFormat) (first : List (List Int)) (others : List (List (List Int))) :
    Text.lines (tableText ((first :: others).map (ofStored f))) =
      (ofStored f first).header :: (first :: others).map fun qss => (ofStored f qss).row := by
  have hrows : rows ((first :: others).map (ofStored f)) =
      (ofStored f first).header :: (first :: others).map fun qss => (ofStored f qss).row := by
    rw [List.map_cons, rows, ← List.map_cons, List.map_map]
    rfl
  rw [tableText, hrows]
  refine Text.lines_intercalate (List.cons_ne_nil _ _) fun row hrow => ?_
  rcases List.mem_cons.mp hrow with rfl | hrow
  · rw [header_ofStored]
    exact line_of_fields fun item => isField_of_mem_names
  · obtain ⟨qss, -, rfl⟩ := List.mem_map.mp hrow
    rw [row_ofStored]
    exact line_of_fields fun item => isField_of_mem_textsOf

variable (hwell : s.layer.WellFormed)
include hwell

/-- The header of the table leads to the cells. -/
theorem mapM_position_header (h : Shaped s.layer qss) :
    (Text.fields ',' (ofStored s.layer.format qss).header).mapM s.position = .ok (grid s.layer) := by
  have hne : (grid s.layer).map (fun cell => signalName cell.1 cell.2) ≠ [] := by simpa using grid_ne_nil hwell
  rw [header_ofStored, h.map_length, ← grid, fields_of_fields hne fun item => isField_of_mem_names,
    Outcome.mapM_eq_ok_iff, List.forall₂_map_left_iff, List.forall₂_same]
  intro cell hcell
  have hlt := lt_of_mem_cells hcell
  exact position_signalName hwell.inputs_lt (by omega) hlt.2

/-- A row of the table gives the numbers that its stored integers mean. -/
theorem sampleOf_row (hroom : 8 * s.layer.signalLength < 2 ^ 63) (h : Shaped s.layer qss) :
    s.sampleOf (grid s.layer) (ofStored s.layer.format qss).row =
      .ok (qss.map (List.map s.layer.format.toRational)) := by
  have hreserve : (Checked.reserve s.layer.signalLength : Checked TestbenchError Unit) = .ok () := if_pos hroom
  have hfields : Text.fields ',' (ofStored s.layer.format qss).row = textsOf s.layer.format qss.flatten := by
    have hlength : (textsOf s.layer.format qss.flatten).length = (grid s.layer).length := by
      rw [textsOf, List.length_map, List.length_flatten, h.map_length, grid, length_cells]
    have hpos := List.length_pos_iff.mpr (grid_ne_nil hwell)
    rw [row_ofStored, fields_of_fields (List.ne_nil_of_length_pos (by omega)) fun item => isField_of_mem_textsOf]
  have hshape : s.layer.HasShape (qss.map (List.map s.layer.format.toRational)) := by
    refine ⟨(List.length_map _).trans h.channels, List.forall_mem_map.mpr fun qs hqs => ?_⟩
    exact (List.length_map _).trans (h.steps qs hqs)
  have hheld : ∀ q ∈ qss.flatten, s.layer.format.contains q = true := by
    intro q hq
    obtain ⟨qs, hqs, hmem⟩ := List.mem_flatten.mp hq
    exact h.held qs hqs q hmem
  have hnodup : (grid s.layer).Nodup := nodup_cells 0 _
  have hread := hshape.gridOf_lookup
  rw [hshape.map_length, ← grid, ← List.map_flatten] at hread
  rw [sampleOf, hreserve, Outcome.ok_bind, hfields, silence_eq_gridOf, placeSignals_gridOf s.layer hnodup hheld,
    Outcome.lift_ok, hread]

/-- **The table of stimuli is read back.** The reference simulator reads from the table of stored
inputs the numbers that they mean, one input per row. -/
theorem samplesOf_tableText (hroom : 8 * s.layer.signalLength < 2 ^ 63) {qsss : List (List (List Int))}
    (hne : qsss ≠ []) (h : ∀ qss ∈ qsss, Shaped s.layer qss) :
    s.samplesOf (tableText (qsss.map (ofStored s.layer.format))) =
      .ok (qsss.map (List.map (List.map s.layer.format.toRational))) := by
  obtain ⟨first, others, rfl⟩ := List.exists_cons_of_ne_nil hne
  have hfirst := h first List.mem_cons_self
  have hsamples : ((first :: others).map fun qss => (ofStored s.layer.format qss).row).mapM
      (s.sampleOf (grid s.layer)) = .ok ((first :: others).map (List.map (List.map s.layer.format.toRational))) := by
    rw [Outcome.mapM_eq_ok_iff, List.forall₂_map_left_iff, List.forall₂_map_right_iff, List.forall₂_same]
    exact fun qss hqss => sampleOf_row hwell hroom (h qss hqss)
  rw [samplesOf, lines_tableText]
  simp only [mapM_position_header hwell hfirst, Outcome.lift_ok, Outcome.ok_bind, hsamples]

end Reading

end ReferenceSimulator

end QuantNet
