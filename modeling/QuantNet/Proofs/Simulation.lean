import QuantNet.Proofs.Disk
import QuantNet.Proofs.SimulationReport
import QuantNet.Proofs.StimulusTable

/-!
# Simulated layers

A simulated layer goes a long way round: the inputs are quantized and written as bit strings, the
table is stored and read again, the reference function is computed on the numbers that were read, its
outputs are printed as bit strings, and the report is decoded. For formats of at most 54 bits all this
comes out as the reference function itself (`simulate_eq_forward`): numbers of such a format survive the
quantization (`QFormat.quantize_toRational`), the reference function sees only the stored integers of its
inputs (`Conv1d.forward_congr`), and table and report are read back.

The disk has a say as well. The table is a file of the working directory, and if it cannot be written
there, the simulation is refused before it starts.
-/

namespace QuantNet

/-! ### Stored inputs and outputs -/

namespace Conv1d

variable {l : Conv1d} {sample : Sample} {outputs : List (List Binary64)}

/-- Inputs with outputs are stored, in the shape of the layer. -/
theorem exists_shaped (hwell : l.WellFormed) (hforward : l.forward sample = .ok outputs) :
    ∃ qss, List.Forall₂ l.format.Stores sample qss ∧ ReferenceSimulator.Shaped l qss := by
  obtain ⟨hlength, hchannels, -⟩ := forward_eq_ok_iff.mp hforward
  obtain ⟨qss, hqss⟩ := Outcome.exists_forall₂ fun channel hchannel =>
    Outcome.exists_forall₂ (stored_of_forward hwell hforward channel hchannel)
  refine ⟨qss, hqss, hqss.length_eq.symm.trans hlength, ?_, ?_⟩
  · intro qs hqs
    obtain ⟨channel, hchannel, hstored⟩ := Outcome.exists_left_of_mem hqss hqs
    exact hstored.length_eq.symm.trans (hchannels channel hchannel)
  · intro qs hqs q hq
    obtain ⟨channel, -, hstored⟩ := Outcome.exists_left_of_mem hqss hqs
    obtain ⟨x, -, hx⟩ := Outcome.exists_left_of_mem hstored hq
    exact QFormat.contains_of_quantize hx

variable (hbits : l.format.totalBits ≤ 54)
include hbits

/-- The outputs do not change if the inputs are replaced by what their stored integers mean. -/
theorem forward_toRational {qss : List (List Int)} (h : List.Forall₂ l.format.Stores sample qss)
    (hforward : l.forward sample = .ok outputs) :
    l.forward (qss.map (List.map l.format.toRational)) = .ok outputs := by
  refine forward_congr ?_ hforward
  rw [List.forall₂_map_right_iff]
  refine h.imp fun values qs hvalues => ?_
  rw [QFormat.Alike, List.forall₂_map_right_iff]
  refine hvalues.imp fun x q hx => ?_
  rw [hx, QFormat.quantize_toRational hbits (QFormat.contains_of_quantize hx)]

/-- The outputs are what their stored integers mean. -/
theorem exists_stored_outputs (hforward : l.forward sample = .ok outputs) :
    ∃ qs, l.format.Stores outputs.flatten qs ∧ outputs.flatten = qs.map l.format.toRational := by
  obtain ⟨qs, hqs⟩ := Outcome.exists_forall₂ (stored_of_mem_outputs hforward)
  refine ⟨qs, hqs.imp fun y q hy => ?_, ?_⟩
  · rw [hy.2, QFormat.quantize_toRational hbits hy.1]
  · rw [← List.forall₂_eq_eq_eq, List.forall₂_map_right_iff]
    exact hqs.imp fun y q hy => hy.2

end Conv1d

/-! ### Storing the table -/

namespace Stimulus

/-- The table of stimuli can be written: its directory is there or can be made, its path is accepted,
and no folder has its name. -/
def Storable (d : Disk) (directory : String) : Prop :=
  (d.makeFolders directory).2 = .ok () ∧ Path.check (Path.join directory fileName) = .ok () ∧
    (d.makeFolders directory).1.isFolder (Path.join directory fileName) = false

instance (d : Disk) (directory : String) : Decidable (Storable d directory) :=
  inferInstanceAs (Decidable (_ ∧ _ ∧ _))

variable {d : Disk} (hrooted : d.IsRooted) {directory : String} (stimuli : List Stimulus)
include hrooted

/-- The name of the table can be written into every folder. -/
theorem exists_putText_iff_storable (h : (d.makeFolders directory).2 = .ok ()) :
    (∃ written, (d.makeFolders directory).1.putText (Path.join directory fileName) (tableText stimuli) = .ok written) ↔
      Storable d directory := by
  obtain ⟨hkept, hreach⟩ := Disk.of_makeFolders hrooted directory
  obtain ⟨place, hwalk⟩ := hreach h
  have hstart : (d.makeFolders directory).1.start directory = d.start directory := by
    rw [Disk.start, Disk.start, hkept.home]
  rw [Storable, Disk.exists_putText_iff (tableText stimuli) (by unfold Path.IsPlain; decide) (by decide)
    (by decide +kernel) (by rw [hstart]; exact hwalk)]
  exact ⟨fun hwritten => ⟨h, hwritten⟩, fun hstorable => hstorable.2⟩

/-- A table that is written keeps everything else, and it is read back. -/
theorem store_of_storable (h : Storable d directory) :
    ∃ written, store stimuli d directory = (written, .ok (Path.join directory fileName)) ∧
      Disk.Kept d written ∧ written.textOf (Path.join directory fileName) = .ok (tableText stimuli) := by
  have hkept := (Disk.of_makeFolders hrooted directory).1
  obtain ⟨written, hwritten⟩ := (exists_putText_iff_storable hrooted stimuli h.1).mpr h
  obtain ⟨hkept', htext⟩ := Disk.of_putText (hrooted.of_kept hkept) hwritten
  refine ⟨written, ?_, hkept.trans hkept', htext⟩
  have hmade : d.makeFolders directory = ((d.makeFolders directory).1, .ok ()) := by rw [← h.1]
  rw [store, hmade]
  simp only [hwritten]

/-- A table that cannot be written is refused. -/
theorem store_of_not_storable (h : ¬ Storable d directory) :
    ∃ made cause, store stimuli d directory = (made, .error (.io (Path.join directory fileName) cause)) := by
  cases hmade : d.makeFolders directory with
  | mk made outcome =>
    cases outcome with
    | error cause => exact ⟨made, cause, by rw [store, hmade]⟩
    | ok _ =>
      have hmakes : (d.makeFolders directory).2 = .ok () := by rw [hmade]
      have hstorable := exists_putText_iff_storable hrooted stimuli hmakes
      rw [hmade] at hstorable
      cases hput : made.putText (Path.join directory fileName) (tableText stimuli) with
      | ok written => exact absurd (hstorable.mp ⟨written, hput⟩) h
      | error cause => exact ⟨made, cause, by rw [store, hmade]; simp only [hput]⟩

end Stimulus

/-! ### Simulations -/

namespace Testbench

/-- A testbench has the name and the format it is made with, and its reports are grouped by batch. -/
theorem of_make {ε : Type} {name : String} {uut : UnitUnderTest} {f : QFormat} {t : Testbench}
    (h : (make name uut f : Checked ε Testbench) = .ok t) : t.name = name ∧ t.format = f ∧ t.convention = .batched := by
  simp only [make, Outcome.bind_eq_ok_iff, Outcome.pure_eq_ok, Except.ok.injEq] at h
  obtain ⟨length, -, outputValues, -, rfl⟩ := h
  exact ⟨rfl, rfl, rfl⟩

/-- A group of reported values answers an input: it holds the bit strings of the chosen outputs and
the numbers of all others, in the flat order of the outputs. -/
def Answers (l : Conv1d) (undefined : List Nat) (sample : Sample) (group : List ReportedValue) : Prop :=
  ∃ outputs, l.forward sample = .ok outputs ∧ group.length = outputs.flatten.length ∧
    ∀ i y, outputs.flatten[i]? = some y → ∃ bits, l.format.encode y = .ok bits ∧
      group[i]? = some (if i ∈ undefined then .raw bits.text else .number y)

/-- The values that the simulator reports answer the input. -/
theorem answers_valuesFrom {l : Conv1d} {sample : Sample} {outputs : List (List Binary64)}
    (hforward : l.forward sample = .ok outputs) {qs : List Int} (hstored : l.format.Stores outputs.flatten qs)
    (hmeans : outputs.flatten = qs.map l.format.toRational) (undefined : List Nat) :
    Answers l undefined sample (ReferenceSimulator.valuesFrom l.format undefined 0 qs) := by
  refine ⟨outputs, hforward, by simp [ReferenceSimulator.valuesFrom, hmeans], fun i y hy => ?_⟩
  have hmap := hy
  rw [hmeans, List.getElem?_map, Option.map_eq_some_iff] at hmap
  obtain ⟨q, hq, rfl⟩ := hmap
  have hquantize : l.format.quantize (l.format.toRational q) = .ok q := by
    obtain ⟨hi, hyi⟩ := List.getElem?_eq_some_iff.mp hy
    obtain ⟨hi', hqi⟩ := List.getElem?_eq_some_iff.mp hq
    have hentry := List.Forall₂.get hstored hi hi'
    rwa [List.get_eq_getElem, List.get_eq_getElem, hyi, hqi] at hentry
  refine ⟨_, QFormat.encode_eq_ok hquantize, ?_⟩
  simp [ReferenceSimulator.valuesFrom, Report.valueOf, List.getElem?_map, List.getElem?_zipIdx, hq]

/-- What becomes of an input in a simulation: the stored integers of the input, which the simulator
computes with, and those of its outputs, which it prints. -/
structure Passage (l : Conv1d) (sample : Sample) (read : List (List Int)) (printed : List Int) : Prop where
  stored : List.Forall₂ l.format.Stores sample read
  shaped : ReferenceSimulator.Shaped l read
  computed : ∃ outputs, l.forward (read.map (List.map l.format.toRational)) = .ok outputs ∧
    l.format.Stores outputs.flatten printed
  printed_ne_nil : printed ≠ []
  answers : ∀ undefined, Answers l undefined sample (ReferenceSimulator.valuesFrom l.format undefined 0 printed)

/-- Every input with outputs passes through a simulation. -/
theorem exists_passage {l : Conv1d} (hwell : l.WellFormed) (hbits : l.format.totalBits ≤ 54) {sample : Sample}
    (h : ∃ outputs, l.forward sample = .ok outputs) :
    ∃ p : List (List Int) × List Int, Passage l sample p.1 p.2 := by
  obtain ⟨outputs, hforward⟩ := h
  obtain ⟨read, hstored, hshaped⟩ := Conv1d.exists_shaped hwell hforward
  obtain ⟨printed, hprinted, hmeans⟩ := Conv1d.exists_stored_outputs hbits hforward
  refine ⟨(read, printed), hstored, hshaped, ⟨outputs, Conv1d.forward_toRational hbits hstored hforward, hprinted⟩,
    ?_, answers_valuesFrom hforward hprinted hmeans⟩
  intro hempty
  obtain rfl : printed = [] := hempty
  exact Conv1d.flatten_ne_nil hwell hforward hmeans

section Run

variable {t : Testbench} {layer : Conv1d} {samples : List Sample} {ps : List (List (List Int) × List Int)}
  (hps : List.Forall₂ (fun sample p => Passage layer sample p.1 p.2) samples ps)
include hps

theorem passage_of_mem {p : List (List Int) × List Int} (hp : p ∈ ps) : ∃ sample, Passage layer sample p.1 p.2 := by
  obtain ⟨sample, -, hpassage⟩ := Outcome.exists_left_of_mem hps hp
  exact ⟨sample, hpassage⟩

theorem passages_ne_nil (hne : samples ≠ []) : ps ≠ [] := by
  rintro rfl
  exact hne (List.forall₂_nil_right_iff.mp hps)

/-- The stimuli of the inputs are those of their stored integers. -/
theorem stimuli_eq_ok (hformat : t.format = layer.format) :
    t.stimuli samples = .ok (ps.map fun p => Stimulus.ofStored layer.format p.1) := by
  have hstored : List.Forall₂ (List.Forall₂ layer.format.Stores) samples (ps.map Prod.fst) := by
    rw [List.forall₂_map_right_iff]
    exact hps.imp fun sample p hpassage => hpassage.stored
  rw [stimuli, hformat, Stimulus.ofSamples_eq_ok hstored, List.map_map]
  rfl

/-- A simulation whose table cannot be stored is refused for this cause. -/
theorem simulate_of_not_stored (hformat : t.format = layer.format) (undefined : List Nat) {d made : Disk}
    {directory : String} {cause : TestbenchError}
    (hstore : Stimulus.store (ps.map fun p => Stimulus.ofStored layer.format p.1) d directory = (made, .error cause)) :
    (t.simulate d directory layer undefined samples).2 = Checked.refuse cause := by
  simp only [simulate, stimuli_eq_ok hps hformat, hstore]

variable (hwell : layer.WellFormed) (hroom : 8 * layer.signalLength < 2 ^ 63) (hne : samples ≠ [])
include hwell hroom hne

/-- The simulator reads what the stored integers of the inputs mean. -/
theorem samplesOf_passages {s : ReferenceSimulator} (hlayer : s.layer = layer) :
    s.samplesOf (Stimulus.tableText (ps.map fun p => Stimulus.ofStored layer.format p.1)) =
      .ok (ps.map fun p => p.1.map (List.map layer.format.toRational)) := by
  subst hlayer
  have hshaped : ∀ read ∈ ps.map Prod.fst, ReferenceSimulator.Shaped s.layer read := by
    intro read hread
    obtain ⟨p, hp, rfl⟩ := List.mem_map.mp hread
    obtain ⟨sample, hpassage⟩ := passage_of_mem hps hp
    exact hpassage.shaped
  have htable := ReferenceSimulator.samplesOf_tableText hwell hroom (by simpa using passages_ne_nil hps hne) hshaped
  rw [List.map_map, List.map_map] at htable
  exact htable

variable (hcount : samples.length ≤ 256)
include hcount

/-- A run over the table of the inputs prints a report that decodes to the values of their outputs. -/
theorem decode_run {s : ReferenceSimulator} (hlayer : s.layer = layer) (hready : s.ready = true) {d : Disk}
    (htext : d.textOf (Path.join s.directory Stimulus.fileName) =
      .ok (Stimulus.tableText (ps.map fun p => Stimulus.ofStored layer.format p.1))) :
    ∃ finished, s.run d = .ok finished ∧ Report.decode layer.format .batched finished.output =
      .ok (ps.map fun p => ReferenceSimulator.valuesFrom layer.format s.undefined 0 p.2) := by
  have hread := samplesOf_passages hps hwell hroom hne hlayer
  subst hlayer
  have hcomputed : List.Forall₂ (fun sample printed => ∃ outputs, s.layer.forward sample = .ok outputs ∧
      s.layer.format.Stores outputs.flatten printed)
      (ps.map fun p => p.1.map (List.map s.layer.format.toRational)) (ps.map Prod.snd) := by
    rw [List.forall₂_map_left_iff, List.forall₂_map_right_iff, List.forall₂_same]
    intro p hp
    obtain ⟨sample, hpassage⟩ := passage_of_mem hps hp
    exact hpassage.computed
  have hprinted : ∀ printed ∈ ps.map Prod.snd, printed ≠ [] := by
    intro printed hmem
    obtain ⟨p, hp, rfl⟩ := List.mem_map.mp hmem
    obtain ⟨sample, hpassage⟩ := passage_of_mem hps hp
    exact hpassage.printed_ne_nil
  have hlength : 0 + (ps.map fun p => p.1.map (List.map s.layer.format.toRational)).length ≤ 256 := by
    rw [List.length_map, ← hps.length_eq, Nat.zero_add]
    exact hcount
  obtain ⟨lines, hlines, hdecodes⟩ := ReferenceSimulator.decodes_answers hcomputed 0 hlength
  have hreport := ReferenceSimulator.decode_report s.top (by simpa using passages_ne_nil hps hne) hprinted hdecodes
  rw [List.map_map] at hreport
  refine ⟨{ s with output := ["simulating " ++ s.top] ++ lines ++ ["simulation finished"] }, ?_, hreport⟩
  simp only [ReferenceSimulator.run, hready, htext, hread, hlines, Outcome.lift_ok, Outcome.ok_bind,
    Outcome.pure_eq_ok, Bool.not_true, Bool.false_eq_true, if_false]

/-- A simulation whose table was stored reports the values of the outputs. -/
theorem simulate_of_store (hformat : t.format = layer.format) (hconvention : t.convention = .batched)
    (undefined : List Nat) {d written : Disk} {directory path : String}
    (hstore : Stimulus.store (ps.map fun p => Stimulus.ofStored layer.format p.1) d directory = (written, .ok path))
    (hbench : written.isFile (Path.join directory (t.name ++ Emission.extension)) = true)
    (htext : written.textOf (Path.join directory Stimulus.fileName) =
      .ok (Stimulus.tableText (ps.map fun p => Stimulus.ofStored layer.format p.1))) :
    (t.simulate d directory layer undefined samples).2 =
      .ok (ps.map fun p => ReferenceSimulator.valuesFrom layer.format undefined 0 p.2) := by
  have hprepare : (ReferenceSimulator.mk directory t.name layer undefined false []).prepare written =
      .ok ⟨directory, t.name, layer, undefined, true, []⟩ := if_pos hbench
  obtain ⟨finished, hrun, hdecode⟩ := decode_run hps hwell hroom hne hcount
    (s := ⟨directory, t.name, layer, undefined, true, []⟩) rfl rfl htext
  simp only [simulate, stimuli_eq_ok hps hformat, hstore, hprepare, Outcome.lift_ok, Outcome.ok_bind, hrun, decode,
    hformat, hconvention, hdecode]

end Run

/-- **A simulated layer computes the reference function.** Take a convolution in a format of at most 54
bits, its testbench, at most 256 inputs for which the layer has outputs (a channel is a buffer of 64-bit
words, so its bytes are counted in a signed word), and a disk on which the source of the testbench is
there. If the table of stimuli can be written, the simulation delivers one group per input, in order,
and the group answers the input; otherwise it is refused because of the table. -/
theorem simulate_eq_forward {name bench : String} {f : QFormat} {inChannels outChannels signalLength kernelSize : Nat}
    {weights : List (List (List Binary64))} {bias : List Binary64} {layer : Conv1d} {t : Testbench} {d : Disk}
    {directory : String} {samples : List Sample} (undefined : List Nat)
    (hlayer : Conv1d.make name f inChannels outChannels signalLength kernelSize weights bias = .ok layer)
    (hbits : f.totalBits ≤ 54)
    (hbench : (make bench layer.underTest f : Checked LayerError Testbench) = .ok t) (hrooted : d.IsRooted)
    (hfile : d.isFile (Path.join directory (bench ++ Emission.extension)) = true) (hne : samples ≠ [])
    (hcount : samples.length ≤ 256)
    (hforward : ∀ sample ∈ samples, ∃ outputs, layer.forward sample = .ok outputs)
    (hroom : ∀ sample ∈ samples, ∀ channel ∈ sample, 8 * channel.length < 2 ^ 63) :
    (Stimulus.Storable d directory →
      ∃ groups, (t.simulate d directory layer undefined samples).2 = .ok groups ∧
        List.Forall₂ (Answers layer undefined) samples groups) ∧
    (¬ Stimulus.Storable d directory →
      ∃ cause, (t.simulate d directory layer undefined samples).2 =
        Checked.refuse (.io (Path.join directory Stimulus.fileName) cause)) := by
  have hwell := Conv1d.wellFormed_of_make hlayer
  have hformat : layer.format = f := by
    obtain ⟨kernels, stored, rfl, -⟩ := Conv1d.of_make hlayer
    rfl
  have hroom' : 8 * layer.signalLength < 2 ^ 63 := by
    obtain ⟨sample, hsample⟩ := List.exists_mem_of_ne_nil _ hne
    obtain ⟨outputs, houtputs⟩ := hforward sample hsample
    obtain ⟨hlength, hchannels, -⟩ := Conv1d.forward_eq_ok_iff.mp houtputs
    have hpos : 0 < sample.length := hlength ▸ hwell.inChannels_pos
    obtain ⟨channel, hchannel⟩ := List.exists_mem_of_length_pos hpos
    exact hchannels channel hchannel ▸ hroom sample hsample channel hchannel
  obtain ⟨htop, htformat, hconvention⟩ := of_make hbench
  have hsame : t.format = layer.format := htformat.trans hformat.symm
  obtain ⟨ps, hps⟩ := Outcome.exists_forall₂ fun sample hsample =>
    exists_passage hwell (hformat ▸ hbits) (hforward sample hsample)
  refine ⟨fun hstorable => ?_, fun hstorable => ?_⟩
  · obtain ⟨written, hstore, hkept, htext⟩ := Stimulus.store_of_storable hrooted
      (ps.map fun p => Stimulus.ofStored layer.format p.1) hstorable
    rw [← htop] at hfile
    refine ⟨_, simulate_of_store hps hwell hroom' hne hcount hsame hconvention undefined hstore
      (Disk.isFile_of_kept hkept hfile) htext, ?_⟩
    rw [List.forall₂_map_right_iff]
    exact hps.imp fun sample p hpassage => hpassage.answers undefined
  · obtain ⟨made, cause, hstore⟩ := Stimulus.store_of_not_storable hrooted
      (ps.map fun p => Stimulus.ofStored layer.format p.1) hstorable
    exact ⟨cause, simulate_of_not_stored hps hsame undefined hstore⟩

/-- Eight bits, four of them after the point. -/
def eightBits : QFormat := ⟨8, 4, by decide, by decide, by decide⟩

/-- A convolution that passes its two inputs on. -/
def passingOn (name : String) : Conv1d := ⟨name, eightBits, 1, 1, 2, 1, [[[16]]], [0], Rom.defaultStyle⟩

/-- The testbench of that convolution. -/
def benchOf (name : String) : Testbench := ⟨"tb", name, eightBits, 2, 1, 2, 1, 1, .batched⟩

/-- Two values, passed on, the second one with a status. -/
theorem simulate_passingOn :
    ∃ groups, ((benchOf "conv").simulate ⟨.folder [("tb.vhd", .file "")], []⟩ "" (passingOn "conv") [1]
        [[[.ofQuotient 1 2, .ofInt 1]]]).2 = .ok groups ∧
      List.Forall₂ (Answers (passingOn "conv") [1]) [[[.ofQuotient 1 2, .ofInt 1]]] groups := by
  have hlayer : Conv1d.make "conv" eightBits 1 1 2 1 [[[.ofInt 1]]] [] = .ok (passingOn "conv") := by
    decide +kernel
  have hbench : (make "tb" (passingOn "conv").underTest eightBits : Checked LayerError Testbench) =
      .ok (benchOf "conv") := by decide +kernel
  have hforward : ∀ sample ∈ [[[.ofQuotient 1 2, .ofInt 1]]], ∃ outputs,
      (passingOn "conv").forward sample = .ok outputs := by
    intro sample hsample
    rw [List.mem_singleton.mp hsample]
    exact ⟨[[.ofQuotient 1 2, .ofInt 1]], by decide +kernel⟩
  exact (simulate_eq_forward [1] hlayer (by decide) hbench ⟨_, rfl⟩ (by decide +kernel) (by simp) (by simp) hforward
    (by decide +kernel)).1 (by decide +kernel)

/-- A folder with the name of the table refuses a simulation, although the source of the testbench is
there: a layer called `inputs.csv` has such a folder in the output. -/
theorem not_simulate_of_folder :
    ¬ ∀ (name bench : String) (f : QFormat) (inChannels outChannels signalLength kernelSize : Nat)
      (weights : List (List (List Binary64))) (bias : List Binary64) (layer : Conv1d) (t : Testbench) (d : Disk)
      (directory : String) (undefined : List Nat) (samples : List Sample),
      Conv1d.make name f inChannels outChannels signalLength kernelSize weights bias = .ok layer → f.totalBits ≤ 54 →
      (make bench layer.underTest f : Checked LayerError Testbench) = .ok t → d.IsRooted →
      d.isFile (Path.join directory (bench ++ Emission.extension)) = true → samples ≠ [] → samples.length ≤ 256 →
      (∀ sample ∈ samples, ∃ outputs, layer.forward sample = .ok outputs) →
      (∀ sample ∈ samples, ∀ channel ∈ sample, 8 * channel.length < 2 ^ 63) →
      ∃ groups, (t.simulate d directory layer undefined samples).2 = .ok groups ∧
        List.Forall₂ (Answers layer undefined) samples groups := by
  intro h
  have hforward : ∀ sample ∈ [[[.ofQuotient 1 2, .ofInt 1]]], ∃ outputs,
      (passingOn "inputs.csv").forward sample = .ok outputs := by
    intro sample hsample
    rw [List.mem_singleton.mp hsample]
    exact ⟨[[.ofQuotient 1 2, .ofInt 1]], by decide +kernel⟩
  obtain ⟨groups, hgroups, -⟩ := h "inputs.csv" "tb" eightBits 1 1 2 1 [[[.ofInt 1]]] [] (passingOn "inputs.csv")
    (benchOf "inputs.csv") ⟨.folder [("tb.vhd", .file ""), ("inputs.csv", .empty)], []⟩ "" []
    [[[.ofQuotient 1 2, .ofInt 1]]] (by decide +kernel) (by decide) (by decide +kernel) ⟨_, rfl⟩ (by decide +kernel)
    (by simp) (by simp) hforward (by decide +kernel)
  have hrefused : ((benchOf "inputs.csv").simulate ⟨.folder [("tb.vhd", .file ""), ("inputs.csv", .empty)], []⟩ ""
      (passingOn "inputs.csv") [] [[[.ofQuotient 1 2, .ofInt 1]]]).2 =
        Checked.refuse (.io "inputs.csv" .isDirectory) := by decide +kernel
  rw [hrefused] at hgroups
  cases hgroups

end Testbench

end QuantNet
