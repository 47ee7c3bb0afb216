import QuantNet.Proofs.BitTexts
import QuantNet.Proofs.SimulationReport
import QuantNet.Proofs.TwosComplement

/-!
# What a report decodes to

Any list of lines can be given to the decoder, also one that no simulation prints. The fields that have a
value, the fields that are refused, and the lines that belong to a batch are described here without the
decoder (`IsValue`, `IsRefused`, `IsEntry`). Batches are collected one line after the other, and each
line adds its value to the group of its batch or opens a new one. What a step keeps is that the groups
partition the lines read so far, in the order of first appearance (`IsPartition.addTo`), so this holds of
the whole report, however its batches are interleaved (`isPartition_groups`).

Widths are measured in words of 32 bits. A field of fewer than `2 ^ 32` characters is as wide as it has
characters (`isIndex_iff_of_short`); a longer one may be measured as eight bits wide, and then it is an
index if its number is a machine word.
-/

namespace QuantNet.Report

variable {f : QFormat}

/-! ### Lines with results -/

/-- A line that starts with the mark, blanks apart. -/
def IsResult (line : String) : Prop := mark.toList <+: (Text.trim line).toList

instance (line : String) : Decidable (IsResult line) := inferInstanceAs (Decidable (_ <+: _))

theorem isResult_iff {line : String} : IsResult line ↔ ∃ result, Text.trim line = mark ++ result := by
  constructor
  · rintro ⟨cs, hcs⟩
    refine ⟨String.ofList cs, ?_⟩
    rw [← String.toList_inj, ← hcs, String.toList_append, String.toList_ofList]
  · rintro ⟨result, hresult⟩
    exact ⟨result.toList, by rw [hresult, String.toList_append]⟩

/-- The value of a field: a number if every bit is defined, else the field as it is written. -/
inductive IsValue (f : QFormat) (field : String) : ReportedValue → Prop
  | number {bits : Bits} {x : Binary64} (hbits : Bits.parse (Text.trim field) = .ok bits)
    (hdefined : bits.isDefined = true) (hx : f.decode bits = .ok x) : IsValue f field (.number x)
  | raw {bits : Bits} (hbits : Bits.parse (Text.trim field) = .ok bits) (hundefined : bits.isDefined = false) :
    IsValue f field (.raw (Text.trim field))

/-- Why a field has no value: it is no bit string, or its defined bits are of another width, or they have the
width of the format only because it has wrapped, and no machine word holds their number. -/
inductive IsRefused (f : QFormat) (field : String) : QError → Prop
  | text {cause : BitsError} (hbits : Bits.parse (Text.trim field) = .error cause) :
    IsRefused f field (.invalidBits cause)
  | width {bits : Bits} (hbits : Bits.parse (Text.trim field) = .ok bits) (hdefined : bits.isDefined = true)
    (hwidth : bits.width ≠ f.totalBits) : IsRefused f field (.widthMismatch f.totalBits bits.width bits.text)
  | overflow {bits : Bits} {levels : List Bool} (hbits : Bits.parse (Text.trim field) = .ok bits)
    (hwidth : bits.width = f.totalBits) (hlevels : bits.levels? = some levels)
    (hlarge : 2 ^ 64 ≤ Bits.natOfLevels levels) : IsRefused f field (.invalidBits .shiftOverflow)

theorem isDefined_iff {bits : Bits} : bits.isDefined = true ↔ ∃ levels, bits.levels? = some levels := by
  rw [Bits.exists_levels_iff]
  simp only [Bits.isDefined, List.all_eq_true, Logic.hasLevel_iff, Option.isSome_iff_exists]

/-- Defined bits of another width than the format has are refused. -/
theorem decode_of_width_ne {bits : Bits} (hwidth : bits.width ≠ f.totalBits) :
    f.decode bits = .error (.widthMismatch f.totalBits bits.width bits.text) := by
  rw [QFormat.decode, QFormat.decodeInt, if_neg hwidth, Outcome.map_error_eq]

/-- Levels of the width of the format are a number, unless no machine word holds it. -/
theorem decode_of_levels {bits : Bits} {levels : List Bool} (hwidth : bits.width = f.totalBits)
    (h : bits.levels? = some levels) :
    (Bits.natOfLevels levels < 2 ^ 64 ∧ ∃ x, f.decode bits = .ok x) ∨
      (2 ^ 64 ≤ Bits.natOfLevels levels ∧ f.decode bits = .error (.invalidBits .shiftOverflow)) := by
  have hle : bits.width ≤ 64 := hwidth ▸ f.total_le
  rw [QFormat.decode, QFormat.decodeInt, if_pos hwidth]
  rcases Nat.lt_or_ge (Bits.natOfLevels levels) (2 ^ 64) with hlt | hlarge
  · obtain ⟨k, hk⟩ := (Bits.exists_toInt_iff_of_width hle).mpr ⟨levels, h, hlt⟩
    exact .inl ⟨hlt, f.toRational k, by rw [hk, Outcome.mapError_ok_eq, Outcome.map_ok_eq]⟩
  · refine .inr ⟨hlarge, ?_⟩
    rw [Bits.toInt, Bits.toNat_of_width hle h, if_neg (Nat.not_lt.mpr hlarge), Outcome.map_error_eq,
      Outcome.mapError_error_eq, Outcome.map_error_eq]

theorem decodeValue_of_isValue {field : String} {v : ReportedValue} (h : IsValue f field v) :
    decodeValue f field = .ok v := by
  cases h with
  | number hbits hdefined hx =>
    rw [decodeValue, hbits, Outcome.mapError_ok_eq, Outcome.ok_bind, if_pos hdefined, hx, Outcome.ok_bind,
      Outcome.pure_eq_ok]
  | raw hbits hundefined =>
    rw [decodeValue, hbits, Outcome.mapError_ok_eq, Outcome.ok_bind, hundefined, if_neg Bool.false_ne_true,
      Outcome.pure_eq_ok]

theorem decodeValue_of_isRefused {field : String} {e : QError} (h : IsRefused f field e) :
    decodeValue f field = .error e := by
  cases h with
  | text hbits => rw [decodeValue, hbits, Outcome.mapError_error_eq, Outcome.error_bind]
  | width hbits hdefined hwidth =>
    rw [decodeValue, hbits, Outcome.mapError_ok_eq, Outcome.ok_bind, if_pos hdefined, decode_of_width_ne hwidth,
      Outcome.error_bind]
  | overflow hbits hwidth hlevels hlarge =>
    obtain ⟨hlt, -⟩ | ⟨-, herror⟩ := decode_of_levels hwidth hlevels
    · exact absurd hlt (Nat.not_lt.mpr hlarge)
    · rw [decodeValue, hbits, Outcome.mapError_ok_eq, Outcome.ok_bind, if_pos (isDefined_iff.mpr ⟨_, hlevels⟩), herror,
        Outcome.error_bind]

/-- Every field has a value or is refused. -/
theorem isValue_or_isRefused (f : QFormat) (field : String) : (∃ v, IsValue f field v) ∨ ∃ e, IsRefused f field e := by
  cases hbits : Bits.parse (Text.trim field) with
  | error cause => exact .inr ⟨_, .text hbits⟩
  | ok bits =>
    cases hdefined : bits.isDefined with
    | false => exact .inl ⟨_, .raw hbits hdefined⟩
    | true =>
      by_cases hwidth : bits.width = f.totalBits
      · obtain ⟨levels, hlevels⟩ := isDefined_iff.mp hdefined
        obtain ⟨-, x, hx⟩ | ⟨hlarge, -⟩ := decode_of_levels hwidth hlevels
        · exact .inl ⟨_, .number hbits hdefined hx⟩
        · exact .inr ⟨_, .overflow hbits hwidth hlevels hlarge⟩
      · exact .inr ⟨_, .width hbits hdefined hwidth⟩

theorem decodeValue_eq_ok_iff {field : String} {v : ReportedValue} :
    decodeValue f field = .ok v ↔ IsValue f field v := by
  refine ⟨fun h => ?_, decodeValue_of_isValue⟩
  rcases isValue_or_isRefused f field with ⟨w, hw⟩ | ⟨e, he⟩
  · rw [decodeValue_of_isValue hw, Except.ok.injEq] at h
    exact h ▸ hw
  · rw [decodeValue_of_isRefused he] at h
    cases h

/-- A field of eight defined bits, and the number that it means, which is a machine word. -/
def IsIndex (field : String) (n : Nat) : Prop :=
  ∃ bits levels, Bits.parse (Text.trim field) = .ok bits ∧ bits.width = 8 ∧ bits.levels? = some levels ∧
    Bits.natOfLevels levels = n ∧ n < 2 ^ 64

/-- The batch and the value of a line of two or three fields; a status keeps the value as it is written. -/
inductive IsEntry (f : QFormat) (result : String) : Nat × ReportedValue → Prop
  | value {batch field : String} {n : Nat} {v : ReportedValue} (hfields : Text.fields ',' result = [batch, field])
    (hbatch : IsIndex batch n) (hv : IsValue f field v) : IsEntry f result (n, v)
  | status {batch field status : String} {n : Nat} (hfields : Text.fields ',' result = [batch, field, status])
    (hbatch : IsIndex batch n) : IsEntry f result (n, .raw (Text.trim field))

theorem decodeText_eq_ok_iff {field : String} {n : Nat} :
    UnsignedCode.batchIndex.decodeText field = .ok n ↔ IsIndex field n := by
  have hdecode : ∀ bits : Bits, UnsignedCode.batchIndex.decode bits = .ok n ↔ bits.width = 8 ∧ bits.toNat = .ok n := by
    intro bits
    rw [UnsignedCode.decode, show UnsignedCode.batchIndex.width = 8 from rfl]
    by_cases hwidth : bits.width = 8
    · rw [if_pos hwidth, Outcome.mapError_eq_ok_iff, and_iff_right hwidth]
    · simp [hwidth]
  simp only [UnsignedCode.decodeText, Outcome.bind_eq_ok_iff, Outcome.mapError_eq_ok_iff, hdecode]
  constructor
  · rintro ⟨bits, hbits, hwidth, hn⟩
    obtain ⟨levels, hlevels, hn⟩ := (Bits.toNat_eq_ok_iff (by omega)).mp hn
    exact ⟨bits, levels, hbits, hwidth, hlevels, hn⟩
  · rintro ⟨bits, levels, hbits, hwidth, hlevels, hn⟩
    exact ⟨bits, hbits, hwidth, (Bits.toNat_eq_ok_iff (by omega)).mpr ⟨levels, hlevels, hn⟩⟩

/-- A line is decoded to the entry that it has. -/
theorem decodeEntry_eq_ok_iff {result : String} {entry : Nat × ReportedValue} :
    decodeEntry f result = .ok entry ↔ IsEntry f result entry := by
  unfold decodeEntry
  constructor
  · intro h
    split at h
    · rename_i batch field hfields
      obtain ⟨n, hn, h⟩ := Outcome.bind_eq_ok_iff.mp h
      obtain ⟨v, hv, h⟩ := Outcome.bind_eq_ok_iff.mp h
      cases h
      exact .value hfields (decodeText_eq_ok_iff.mp (Outcome.mapError_eq_ok_iff.mp hn))
        (decodeValue_eq_ok_iff.mp (Outcome.mapError_eq_ok_iff.mp hv))
    · rename_i batch field status hfields
      obtain ⟨n, hn, h⟩ := Outcome.bind_eq_ok_iff.mp h
      cases h
      exact .status hfields (decodeText_eq_ok_iff.mp (Outcome.mapError_eq_ok_iff.mp hn))
    · cases h
  · intro h
    cases h with
    | value hfields hbatch hv =>
      simp only [hfields, decodeText_eq_ok_iff.mpr hbatch, decodeValue_eq_ok_iff.mpr hv, Outcome.mapError_ok_eq,
        Outcome.ok_bind, Outcome.pure_eq_ok]
    | status hfields hbatch =>
      simp only [hfields, decodeText_eq_ok_iff.mpr hbatch, Outcome.mapError_ok_eq, Outcome.ok_bind, Outcome.pure_eq_ok]

/-! ### Groups -/

/-- Groups with their batches partition entries: every batch that occurs has one group, the groups stand in the
order in which their batches first appear, and each holds the values of its batch in order. -/
structure IsPartition (entries : List (Nat × ReportedValue)) (gs : List (Nat × List ReportedValue)) : Prop where
  nodup : (gs.map Prod.fst).Nodup
  mem : ∀ n, n ∈ gs.map Prod.fst ↔ n ∈ entries.map Prod.fst
  order : (gs.map Prod.fst).Pairwise fun m n => (entries.map Prod.fst).idxOf m < (entries.map Prod.fst).idxOf n
  values : ∀ g ∈ gs, g.2 = (entries.filter fun e => e.1 = g.1).map Prod.snd
  size : (gs.map fun g => g.2.length).sum = entries.length

section Step

variable {n : Nat} {v : ReportedValue} {gs : List (Nat × List ReportedValue)}

/-- The batches after a value is added: one more if its batch is new. -/
theorem map_fst_addTo : (addTo n v gs).map Prod.fst =
    if n ∈ gs.map Prod.fst then gs.map Prod.fst else gs.map Prod.fst ++ [n] := by
  induction gs with
  | nil => rfl
  | cons g rest ih =>
    obtain ⟨i, values⟩ := g
    by_cases hi : i = n
    · simp [addTo, hi]
    · rw [addTo, if_neg hi, List.map_cons, ih]
      split_ifs <;> simp_all

/-- The number of values after one is added. -/
theorem sum_length_addTo : ((addTo n v gs).map fun g => g.2.length).sum = (gs.map fun g => g.2.length).sum + 1 := by
  induction gs with
  | nil => rfl
  | cons g rest ih =>
    obtain ⟨i, values⟩ := g
    rw [addTo]
    split_ifs
    · simp only [List.map_cons, List.sum_cons, List.length_append, List.length_singleton]
      omega
    · rw [List.map_cons, List.sum_cons, ih, List.map_cons, List.sum_cons, Nat.add_assoc]

/-- A group after a value is added: one of another batch is as before, and that of the batch ends with the value. -/
theorem of_mem_addTo (hnodup : (gs.map Prod.fst).Nodup) {g : Nat × List ReportedValue} (h : g ∈ addTo n v gs) :
    (g.1 ≠ n ∧ g ∈ gs) ∨ (∃ values, (n, values) ∈ gs ∧ g = (n, values ++ [v])) ∨
      (n ∉ gs.map Prod.fst ∧ g = (n, [v])) := by
  induction gs with
  | nil => exact .inr (.inr ⟨List.not_mem_nil, List.mem_singleton.mp h⟩)
  | cons first rest ih =>
    obtain ⟨i, values⟩ := first
    rw [List.map_cons, List.nodup_cons] at hnodup
    rw [addTo] at h
    split_ifs at h with hi
    · subst hi
      rcases List.mem_cons.mp h with rfl | hg
      · exact .inr (.inl ⟨values, List.mem_cons_self, rfl⟩)
      · have hmem : g.1 ∈ rest.map Prod.fst := List.mem_map_of_mem hg
        exact .inl ⟨fun hi => hnodup.1 (hi ▸ hmem), List.mem_cons_of_mem _ hg⟩
    · rcases List.mem_cons.mp h with rfl | h
      · exact .inl ⟨hi, List.mem_cons_self⟩
      · rcases ih hnodup.2 h with ⟨hne, hg⟩ | ⟨others, hothers, hg⟩ | ⟨hnew, hg⟩
        · exact .inl ⟨hne, List.mem_cons_of_mem _ hg⟩
        · exact .inr (.inl ⟨others, List.mem_cons_of_mem _ hothers, hg⟩)
        · refine .inr (.inr ⟨?_, hg⟩)
          simpa [Ne.symm hi] using hnew

variable {entries : List (Nat × ReportedValue)}

/-- A further entry is added to the partition of those before it. -/
theorem IsPartition.addTo (h : IsPartition entries gs) (n : Nat) (v : ReportedValue) :
    IsPartition (entries ++ [(n, v)]) (addTo n v gs) := by
  have hkeys : (entries ++ [(n, v)]).map Prod.fst = entries.map Prod.fst ++ [n] := by simp
  -- a batch that has occurred is found where it was
  have hfound : ∀ m ∈ gs.map Prod.fst, (entries.map Prod.fst ++ [n]).idxOf m = (entries.map Prod.fst).idxOf m :=
    fun m hm => List.idxOf_append_of_mem ((h.mem m).mp hm)
  have horder : (gs.map Prod.fst).Pairwise fun m k =>
      (entries.map Prod.fst ++ [n]).idxOf m < (entries.map Prod.fst ++ [n]).idxOf k :=
    h.order.imp_of_mem fun {m k} hm hk hlt => by rwa [hfound m hm, hfound k hk]
  refine ⟨?_, fun m => ?_, ?_, fun g hg => ?_, ?_⟩
  · rw [map_fst_addTo]
    split_ifs with hn
    · exact h.nodup
    · have hne : ∀ m ∈ gs.map Prod.fst, ∀ k ∈ [n], m ≠ k := by
        rintro m hm k hk rfl
        exact hn (List.mem_singleton.mp hk ▸ hm)
      exact List.nodup_append.mpr ⟨h.nodup, List.nodup_singleton n, hne⟩
  · rw [map_fst_addTo, hkeys, List.mem_append, ← h.mem m]
    split_ifs with hn
    · exact ⟨.inl, fun hm => hm.elim id fun hm => List.mem_singleton.mp hm ▸ hn⟩
    · rw [List.mem_append]
  · rw [map_fst_addTo, hkeys]
    split_ifs with hn
    · exact horder
    · have hn' : n ∉ entries.map Prod.fst := fun hmem => hn ((h.mem n).mpr hmem)
      refine List.pairwise_append.mpr ⟨horder, List.pairwise_singleton _ n, fun m hm k hk => ?_⟩
      obtain rfl := List.mem_singleton.mp hk
      rw [hfound m hm, List.idxOf_append_of_notMem hn', List.idxOf_cons_self, Nat.add_zero]
      exact List.idxOf_lt_length_of_mem ((h.mem m).mp hm)
  · rw [List.filter_append, List.map_append]
    rcases of_mem_addTo h.nodup hg with ⟨hne, hg⟩ | ⟨values, hvalues, rfl⟩ | ⟨hnew, rfl⟩
    · simp [h.values g hg, Ne.symm hne]
    · simp [← h.values _ hvalues]
    · have hnone : entries.filter (fun e => e.1 = n) = [] := by
        rw [List.filter_eq_nil_iff]
        intro e he hen
        exact hnew ((h.mem n).mpr (List.mem_map.mpr ⟨e, he, of_decide_eq_true hen⟩))
      simp [hnone]
  · rw [sum_length_addTo, h.size, List.length_append, List.length_singleton]

end Step

theorem groups_concat (entries : List (Nat × ReportedValue)) (e : Nat × ReportedValue) :
    groups (entries ++ [e]) = addTo e.1 e.2 (groups entries) := by
  rw [groups, List.foldl_append]
  rfl

/-- The groups of entries partition them. -/
theorem isPartition_groups (entries : List (Nat × ReportedValue)) : IsPartition entries (groups entries) := by
  induction entries using List.reverseRecOn with
  | nil => exact ⟨List.nodup_nil, fun _ => Iff.rfl, .nil, fun _ hg => absurd hg List.not_mem_nil, rfl⟩
  | append_singleton entries e ih =>
    rw [groups_concat]
    exact ih.addTo e.1 e.2

section Found

variable {lines : List String}

theorem decode_perLine (h : results lines ≠ []) :
    decode f .perLine lines = (decodeFields f (results lines)).map fun group => [group] := by
  simp only [decode, List.isEmpty_eq_false_iff.mpr h, Bool.false_eq_true, if_false]

theorem decode_batched (h : results lines ≠ []) :
    decode f .batched lines =
      ((results lines).mapM (decodeEntry f)).map fun entries => (groups entries).map (·.2) := by
  simp only [decode, List.isEmpty_eq_false_iff.mpr h, Bool.false_eq_true, if_false]

theorem failsOnly_decodeEntry (f : QFormat) (result : String) :
    Outcome.FailsOnly (fun e => ∀ content, e ≠ .noResults content) (decodeEntry f result) := by
  have hcause : ∀ {α : Type} (x : Except QError α),
      Outcome.FailsOnly (fun e => ∀ content, e ≠ TestbenchError.noResults content) (x.mapError .quantization) :=
    fun x => Outcome.FailsOnly.mapError fun _ _ _ h => by cases h
  unfold decodeEntry
  split
  · exact (hcause _).bind fun _ _ => (hcause _).bind fun _ _ => Outcome.FailsOnly.ok _
  · exact (hcause _).bind fun _ _ => Outcome.FailsOnly.ok _
  · exact Outcome.FailsOnly.error fun _ h => by cases h

/-- Results are missing exactly if no line has any, and then all lines are given back. -/
theorem decode_eq_noResults_iff {convention : ReportConvention} {content : List String} :
    decode f convention lines = .error (.noResults content) ↔ results lines = [] ∧ content = lines := by
  constructor
  · intro h
    by_cases hfound : results lines = []
    · simp only [decode, hfound, List.isEmpty_nil, if_true, Except.error.injEq, TestbenchError.noResults.injEq] at h
      exact ⟨hfound, h.symm⟩
    · exfalso
      cases convention with
      | perLine =>
        rw [decode_perLine hfound, decodeFields] at h
        cases hfields : ((results lines).flatMap (Text.fields ',')).mapM (decodeValue f) with
        | ok values =>
          rw [hfields] at h
          cases h
        | error cause =>
          rw [hfields] at h
          cases h
      | batched =>
        rw [decode_batched hfound] at h
        exact ((Outcome.FailsOnly.mapM fun r _ => failsOnly_decodeEntry f r).map _) _ h content rfl
  · rintro ⟨hfound, rfl⟩
    simp only [decode, hfound, List.isEmpty_nil, if_true]

/-- The fields of all lines make one group, if each has a value. -/
theorem decode_perLine_eq_ok_iff (h : results lines ≠ []) {groups : List (List ReportedValue)} :
    decode f .perLine lines = .ok groups ↔
      ∃ group, List.Forall₂ (IsValue f) ((results lines).flatMap (Text.fields ',')) group ∧ groups = [group] := by
  simp only [decode_perLine h, decodeFields, Outcome.map_eq_ok_iff, Outcome.mapError_eq_ok_iff, Outcome.mapM_eq_ok_iff,
    decodeValue_eq_ok_iff, eq_comm (a := groups)]

/-- The lines make the groups of their entries, if each has one. -/
theorem decode_batched_eq_ok_iff (h : results lines ≠ []) {gs : List (List ReportedValue)} :
    decode f .batched lines = .ok gs ↔
      ∃ entries, List.Forall₂ (IsEntry f) (results lines) entries ∧ (groups entries).map (·.2) = gs := by
  simp only [decode_batched h, Outcome.map_eq_ok_iff, Outcome.mapM_eq_ok_iff, decodeEntry_eq_ok_iff]

end Found

end QuantNet.Report
