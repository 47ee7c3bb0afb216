import QuantNet.Proofs.Bits
import QuantNet.Testbench.Reference

/-!
# Reports of the reference simulator

The reference simulator prints one line per output, and the report is decoded line by line. A line
holds a batch index, a bit string and possibly a status, and each of these is read back
(`decodeEntry_result`), so that a run over several inputs decodes to their outputs, input after input
(`decode_answers`). The decoder collects values under their batch indices; since the runs of one index
are not interrupted, every input gets one group, in order (`groups_batches`).
-/

namespace QuantNet

namespace Report

/-! ### Groups -/

theorem addTo_new {n : Nat} {gs : List (Nat × List ReportedValue)} (h : n ∉ gs.map Prod.fst) (v : ReportedValue) :
    addTo n v gs = gs ++ [(n, [v])] := by
  induction gs with
  | nil => rfl
  | cons g gs ih =>
    obtain ⟨i, values⟩ := g
    simp only [List.map_cons, List.mem_cons, not_or] at h
    rw [addTo, if_neg (Ne.symm h.1), ih h.2, List.cons_append]

theorem addTo_last {n : Nat} {gs : List (Nat × List ReportedValue)} (h : n ∉ gs.map Prod.fst)
    (values : List ReportedValue) (v : ReportedValue) :
    addTo n v (gs ++ [(n, values)]) = gs ++ [(n, values ++ [v])] := by
  induction gs with
  | nil => exact if_pos rfl
  | cons g gs ih =>
    obtain ⟨i, others⟩ := g
    simp only [List.map_cons, List.mem_cons, not_or] at h
    rw [List.cons_append, addTo, if_neg (Ne.symm h.1), ih h.2, List.cons_append]

/-- The values of a new batch make the next group. -/
theorem foldl_addTo {n : Nat} {gs : List (Nat × List ReportedValue)} (h : n ∉ gs.map Prod.fst)
    {values : List ReportedValue} (hne : values ≠ []) :
    (values.map fun v => (n, v)).foldl (fun gs e => addTo e.1 e.2 gs) gs = gs ++ [(n, values)] := by
  -- the first value opens the group, and the others are added to it
  have hopen : ∀ (more done : List ReportedValue),
      (more.map fun v => (n, v)).foldl (fun gs e => addTo e.1 e.2 gs) (gs ++ [(n, done)]) =
        gs ++ [(n, done ++ more)] := by
    intro more
    induction more with
    | nil => simp
    | cons v more ih =>
      intro done
      rw [List.map_cons, List.foldl_cons, addTo_last h, ih, List.append_assoc, List.singleton_append]
  obtain ⟨v, more, rfl⟩ := List.exists_cons_of_ne_nil hne
  rw [List.map_cons, List.foldl_cons, addTo_new h, hopen, List.singleton_append]

/-- The entries of batches from an index on. -/
def entriesFrom (index : Nat) : List (List ReportedValue) → List (Nat × ReportedValue)
  | [] => []
  | values :: rest => (values.map fun v => (index, v)) ++ entriesFrom (index + 1) rest

/-- Every batch makes one group. -/
theorem groups_batches {batches : List (List ReportedValue)} (hne : ∀ values ∈ batches, values ≠ []) :
    (groups (entriesFrom 0 batches)).map (·.2) = batches := by
  have hfrom : ∀ (index : Nat) (gs : List (Nat × List ReportedValue)), (∀ g ∈ gs, g.1 < index) →
      ((entriesFrom index batches).foldl (fun gs e => addTo e.1 e.2 gs) gs).map (·.2) = gs.map (·.2) ++ batches := by
    induction batches with
    | nil => simp [entriesFrom]
    | cons values rest ih =>
      intro index gs hgs
      have hnew : index ∉ gs.map Prod.fst := by
        intro hmem
        obtain ⟨g, hg, rfl⟩ := List.mem_map.mp hmem
        exact Nat.lt_irrefl _ (hgs g hg)
      have hgs' : ∀ g ∈ gs ++ [(index, values)], g.1 < index + 1 := by
        intro g hg
        rcases List.mem_append.mp hg with hg | hg
        · exact Nat.lt_succ_of_lt (hgs g hg)
        · rw [List.mem_singleton.mp hg]
          exact Nat.lt_succ_self _
      rw [entriesFrom, List.foldl_append, foldl_addTo hnew (hne values List.mem_cons_self),
        ih (fun others hothers => hne others (List.mem_cons_of_mem _ hothers)) _ _ hgs', List.map_append,
        List.append_assoc]
      rfl
  exact hfrom 0 [] (by simp)

/-! ### Lines -/

/-- What a line with an output shows after the mark: the batch, the bits, and a status for some. -/
def shown (undefined : List Nat) (batch bits : Bits) (index : Nat) : String :=
  batch.text ++ "," ++ bits.text ++ (if index ∈ undefined then ",U" else "")

/-- The value that is reported for a stored integer at an index. -/
def valueOf (f : QFormat) (undefined : List Nat) (index : Nat) (q : Int) : ReportedValue :=
  if index ∈ undefined then .raw (Bits.ofInt q f.totalBits).text else .number (f.toRational q)

section Lines

variable (undefined : List Nat) (batch bits : Bits) (index : Nat)

variable {undefined batch bits index} in
theorem not_blank_of_mem_shown {c : Char} (h : c ∈ (shown undefined batch bits index).toList) :
    Text.isBlank c = false := by
  simp only [shown, String.toList_append, List.mem_append] at h
  rcases h with ((h | h) | h) | h
  · exact (Bits.plain_of_mem_text h).1
  · obtain rfl : c = ',' := by simpa using h
    decide
  · exact (Bits.plain_of_mem_text h).1
  · split at h
    · have hc : c = ',' ∨ c = 'U' := by simpa using h
      rcases hc with rfl | rfl <;> decide
    · cases h

/-- A line with an output is found by its mark. -/
theorem dropStart?_line : Text.dropStart? mark (Text.trim (mark ++ shown undefined batch bits index)) =
    some (shown undefined batch bits index) := by
  have hne : (shown undefined batch bits index).toList ≠ [] := by
    simp [shown]
  have htrim : Text.trim (mark ++ shown undefined batch bits index) = mark ++ shown undefined batch bits index := by
    refine Text.trim_eq_self (fun c hc => ?_) fun c hc => ?_
    · obtain rfl : 'r' = c := by simpa [mark] using hc
      decide
    · rw [String.toList_append, List.getLast?_append_of_ne_nil _ hne] at hc
      exact not_blank_of_mem_shown (List.mem_of_mem_getLast? hc)
  rw [htrim, Text.dropStart?_append]

theorem results_line : results [mark ++ shown undefined batch bits index] = [shown undefined batch bits index] := by
  simp only [results, List.filterMap_cons, dropStart?_line, List.filterMap_nil]

/-- The fields of a line with an output. -/
theorem fields_shown : Text.fields ',' (shown undefined batch bits index) =
    batch.text :: bits.text :: if index ∈ undefined then ["U"] else [] := by
  have hbatch : Text.fields ',' batch.text = [batch.text] :=
    Text.fields_eq_singleton fun h => (Bits.plain_of_mem_text h).2.1 rfl
  have hbits : Text.fields ',' bits.text = [bits.text] :=
    Text.fields_eq_singleton fun h => (Bits.plain_of_mem_text h).2.1 rfl
  unfold shown
  split
  · have hassoc : batch.text ++ "," ++ bits.text ++ ",U" = batch.text ++ "," ++ (bits.text ++ "," ++ "U") := by
      simp only [String.append_assoc]
      rfl
    have hstatus : Text.fields ',' "U" = ["U"] := rfl
    rw [hassoc, Text.fields_append ',' rfl, Text.fields_append ',' rfl, hbatch, hbits, hstatus]
    rfl
  · rw [String.append_empty, Text.fields_append ',' rfl, hbatch, hbits]
    rfl

end Lines

/-- A line with an output is decoded to the batch and the value. -/
theorem decodeEntry_shown {f : QFormat} {q : Int} (hq : f.contains q = true) {n : Nat} {batch : Bits}
    (hbatch : UnsignedCode.batchIndex.encode n = .ok batch) (undefined : List Nat) (index : Nat) :
    decodeEntry f (shown undefined batch (.ofInt q f.totalBits) index) = .ok (n, valueOf f undefined index q) := by
  have hindex := UnsignedCode.decodeText_encode (by decide) hbatch
  have hfields := fields_shown undefined batch (.ofInt q f.totalBits) index
  unfold decodeEntry valueOf
  by_cases hstatus : index ∈ undefined
  · rw [if_pos hstatus] at hfields ⊢
    simp only [hfields, hindex, Outcome.mapError_ok_eq, Outcome.ok_bind, Outcome.pure_eq_ok, Bits.trim_text]
  · have hvalue : decodeValue f (Bits.ofInt q f.totalBits).text = .ok (.number (f.toRational q)) := by
      rw [decodeValue, Bits.trim_text, Bits.parse_text, Outcome.mapError_ok_eq, Outcome.ok_bind,
        Bits.isDefined_ofInt, if_pos rfl, QFormat.decode_ofInt hq, Outcome.ok_bind, Outcome.pure_eq_ok]
    rw [if_neg hstatus] at hfields ⊢
    simp only [hfields, hindex, hvalue, Outcome.mapError_ok_eq, Outcome.ok_bind, Outcome.pure_eq_ok]

/-- A line that starts with another character than the mark holds no results. -/
theorem results_other {line : String} {c : Char} {cs : List Char} (hline : line.toList = c :: cs)
    (hblank : Text.isBlank c = false) (hne : 'r' ≠ c) : results [line] = [] := by
  have hmark : mark.toList = 'r' :: "esult: ".toList := rfl
  simp only [results, List.filterMap_cons, Text.dropStart?_trim_eq_none hmark hline hblank hne, List.filterMap_nil]

theorem results_append (first second : List String) : results (first ++ second) = results first ++ results second :=
  List.filterMap_append

end Report

namespace ReferenceSimulator

open Report

variable {s : ReferenceSimulator}

/-- The lines of a simulator decode to entries. -/
def Decodes (s : ReferenceSimulator) (lines : List String) (entries : List (Nat × ReportedValue)) : Prop :=
  (results lines).mapM (decodeEntry s.layer.format) = .ok entries

theorem Decodes.append {first second : List String} {entries others : List (Nat × ReportedValue)}
    (h : s.Decodes first entries) (h' : s.Decodes second others) : s.Decodes (first ++ second) (entries ++ others) := by
  unfold Decodes at h h' ⊢
  rw [results_append, List.mapM_append, h, Outcome.ok_bind, h', Outcome.ok_bind, Outcome.pure_eq_ok]

/-- The line of a stored output. -/
theorem decodes_line {q : Int} (hq : s.layer.format.contains q = true) {n : Nat} {batch : Bits}
    (hbatch : UnsignedCode.batchIndex.encode n = .ok batch) (index : Nat) :
    s.Decodes [s.line batch (.ofInt q s.layer.format.totalBits) index]
      [(n, valueOf s.layer.format s.undefined index q)] := by
  have hline : s.line batch (.ofInt q s.layer.format.totalBits) index =
      mark ++ shown s.undefined batch (.ofInt q s.layer.format.totalBits) index := by
    simp only [line, shown, String.append_assoc]
  unfold Decodes
  rw [hline, results_line, List.mapM_cons, decodeEntry_shown hq hbatch]
  rfl

/-- The values that are reported for stored outputs, from an index on. -/
def valuesFrom (f : QFormat) (undefined : List Nat) (index : Nat) (qs : List Int) : List ReportedValue :=
  (qs.zipIdx index).map fun e => valueOf f undefined e.2 e.1

/-- The lines of the outputs of one input. -/
theorem decodes_linesOf {ys : List Binary64} {qs : List Int} (h : s.layer.format.Stores ys qs) {n : Nat} {batch : Bits}
    (hbatch : UnsignedCode.batchIndex.encode n = .ok batch) (index : Nat) :
    ∃ lines, s.linesOf batch index ys = .ok lines ∧
      s.Decodes lines ((valuesFrom s.layer.format s.undefined index qs).map fun v => (n, v)) := by
  induction h generalizing index with
  | nil => exact ⟨[], rfl, rfl⟩
  | cons hy _ ih =>
    obtain ⟨lines, hlines, hdecodes⟩ := ih (index + 1)
    refine ⟨_, ?_, (decodes_line (QFormat.contains_of_quantize hy) hbatch index).append hdecodes⟩
    rw [linesOf, QFormat.encode_eq_ok hy, Outcome.ok_bind, hlines, Outcome.ok_bind]
    rfl

/-- A run over inputs, from a batch index on, decodes to their outputs. -/
theorem decodes_answers {samples : List Sample} {qss : List (List Int)}
    (h : List.Forall₂ (fun sample qs => ∃ outputs, s.layer.forward sample = .ok outputs ∧
      s.layer.format.Stores outputs.flatten qs) samples qss) (index : Nat) (hcount : index + samples.length ≤ 256) :
    ∃ lines, s.answers index samples = .ok lines ∧
      s.Decodes lines (entriesFrom index (qss.map (valuesFrom s.layer.format s.undefined 0))) := by
  induction h generalizing index with
  | nil => exact ⟨[], rfl, rfl⟩
  | cons hsample _ ih =>
    obtain ⟨outputs, hforward, hstored⟩ := hsample
    rw [List.length_cons] at hcount
    have hbatch : UnsignedCode.batchIndex.encode index = .ok (.ofNat index 8) :=
      (UnsignedCode.encode_eq_ok_iff (by decide)).mpr ⟨show index < 2 ^ 8 by omega, rfl⟩
    obtain ⟨first, hfirst, hdecodes⟩ := decodes_linesOf (s := s) hstored hbatch 0
    obtain ⟨others, hothers, hdecodes'⟩ := ih (index + 1) (by omega)
    refine ⟨first ++ others, ?_, hdecodes.append hdecodes'⟩
    rw [answers, answer, hbatch, hforward, hothers]
    simp only [Outcome.lift_ok, Outcome.ok_bind, Outcome.within_ok, hfirst, Outcome.pure_eq_ok]

/-- **Reports are read back.** The report of a run over inputs decodes to one group per input, in
order, of the values reported for its outputs. -/
theorem decode_report {qss : List (List Int)} {lines : List String} (top : String) (hne : qss ≠ [])
    (hqss : ∀ qs ∈ qss, qs ≠ [])
    (hdecodes : s.Decodes lines (entriesFrom 0 (qss.map (valuesFrom s.layer.format s.undefined 0)))) :
    Report.decode s.layer.format .batched (["simulating " ++ top] ++ lines ++ ["simulation finished"]) =
      .ok (qss.map (valuesFrom s.layer.format s.undefined 0)) := by
  have hresults : results (["simulating " ++ top] ++ lines ++ ["simulation finished"]) = results lines := by
    have hstart : results ["simulating " ++ top] = [] := by
      have hlist : ("simulating " ++ top).toList = 's' :: ("imulating " ++ top).toList := by simp
      exact results_other hlist (by decide) (by decide)
    have hfinish : results ["simulation finished"] = [] := rfl
    rw [results_append, results_append, hstart, hfinish, List.nil_append, List.append_nil]
  have hvalues : ∀ values ∈ qss.map (valuesFrom s.layer.format s.undefined 0), values ≠ [] := by
    intro values hmem
    obtain ⟨qs, hqs, rfl⟩ := List.mem_map.mp hmem
    simpa [valuesFrom] using hqss qs hqs
  have hgroups := groups_batches hvalues
  have hfound : (results lines).isEmpty = false := by
    rw [List.isEmpty_eq_false_iff]
    intro hempty
    -- without lines there are no entries, hence no groups
    rw [Decodes, hempty] at hdecodes
    rw [← Except.ok.inj hdecodes] at hgroups
    exact hne (by simpa [groups] using hgroups.symm)
  unfold Decodes at hdecodes
  simp only [Report.decode, hresults, hfound, Bool.false_eq_true, if_false, hdecodes, Outcome.map_ok_eq, hgroups]

end ReferenceSimulator

end QuantNet
