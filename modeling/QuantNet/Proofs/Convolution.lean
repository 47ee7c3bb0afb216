import QuantNet.Proofs.Outcome
import QuantNet.Proofs.TrainedLayers

/-!
# The reference function of convolutions

The outputs of a convolution depend on its inputs only through their stored integers
(`forward_congr`). Every window is quantized, and the windows cover the signal, so outputs exist only
for inputs that are stored throughout (`stored_of_forward`). The outputs are numbers that the format
holds (`stored_of_mem_outputs`), and there is at least one (`flatten_ne_nil`).
-/

namespace QuantNet

namespace QFormat

variable {f : QFormat}

/-! ### Multiply-accumulate -/

/-- Numbers with the same stored integers, one by one. -/
abbrev Alike (f : QFormat) : List Binary64 → List Binary64 → Prop :=
  List.Forall₂ fun x y => f.quantize x = f.quantize y

theorem accumulate_congr {a a' : List Binary64} (h : f.Alike a a') (b : List Binary64) (sum : Int) :
    f.accumulate sum (a.zip b) = f.accumulate sum (a'.zip b) := by
  induction h generalizing b sum with
  | nil => rfl
  | cons hxy _ ih =>
    cases b with
    | nil => rfl
    | cons y b => simp only [List.zip_cons_cons, accumulate, hxy, ih]

theorem macInt_congr {a a' : List Binary64} (h : f.Alike a a') (b : List Binary64) : f.macInt a b = f.macInt a' b := by
  simp only [macInt, h.length_eq, accumulate_congr h]

theorem stored_of_accumulate {pairs : List (Binary64 × Binary64)} {sum s : Int} (h : f.accumulate sum pairs = .ok s) :
    ∀ p ∈ pairs, ∃ q, f.quantize p.1 = .ok q := by
  induction pairs generalizing sum with
  | nil => simp
  | cons p rest ih =>
    simp only [accumulate, Outcome.bind_eq_ok_iff, Outcome.lift_eq_ok_iff] at h
    obtain ⟨q, hq, _, _, _, _, _, _, hrest⟩ := h
    intro p' hp'
    rcases List.mem_cons.mp hp' with rfl | hp'
    · exact ⟨q, hq⟩
    · exact ih hrest p' hp'

/-- Numbers that have a multiply-accumulate are stored. -/
theorem stored_of_macInt {a b : List Binary64} {s : Int} (h : f.macInt a b = .ok s) :
    ∀ x ∈ a, ∃ q, f.quantize x = .ok q := by
  simp only [macInt, Outcome.refuse_guard_eq_ok_iff, Outcome.bind_eq_ok_iff, ne_eq, not_not] at h
  obtain ⟨hlength, sum, hsum, -⟩ := h
  intro x hx
  rw [← List.map_fst_zip (Nat.le_of_eq hlength)] at hx
  obtain ⟨p, hp, rfl⟩ := List.mem_map.mp hx
  exact stored_of_accumulate hsum p hp

theorem contains_clamp (f : QFormat) (q : Int) : f.contains (f.clamp q) = true := by
  have hpos : 0 < 2 ^ (f.totalBits - 1) := Nat.two_pow_pos _
  simp only [contains_iff, clamp, minInt, maxInt, twoPow_eq]
  omega

end QFormat

/-! ### Neurons -/

namespace Layer

variable {f : QFormat} {weights : List Int} {bias : Int}

theorem neuron_congr {inputs inputs' : List Binary64} (h : f.Alike inputs inputs') (weights : List Int) (bias : Int) :
    neuron f inputs weights bias = neuron f inputs' weights bias := by
  rw [neuron, neuron, QFormat.macInt_congr h]

theorem of_neuron {inputs : List Binary64} {q : Int} (h : neuron f inputs weights bias = .ok q) :
    (∀ x ∈ inputs, ∃ q, f.quantize x = .ok q) ∧ f.contains q = true := by
  simp only [neuron, Outcome.bind_eq_ok_iff, Outcome.within_eq_ok_iff, Outcome.pure_eq_ok, Except.ok.injEq] at h
  obtain ⟨sum, hsum, rfl⟩ := h
  exact ⟨QFormat.stored_of_macInt hsum, f.contains_clamp _⟩

end Layer

/-! ### Convolutions -/

namespace Conv1d

/-- What every convolution that is made satisfies: no size is zero, the window fits the signal, every
output channel has a kernel and a bias, and the number of inputs is a machine word. -/
structure WellFormed (l : Conv1d) : Prop where
  inChannels_pos : 0 < l.inChannels
  kernelSize_pos : 0 < l.kernelSize
  kernelSize_le : l.kernelSize ≤ l.signalLength
  neurons_ne_nil : l.kernels.zip l.bias ≠ []
  inputs_lt : l.signalLength * l.inChannels < 2 ^ 64

theorem wellFormed_of_make {name : String} {f : QFormat} {inChannels outChannels signalLength kernelSize : Nat}
    {weights : List (List (List Binary64))} {bias : List Binary64} {l : Conv1d}
    (h : make name f inChannels outChannels signalLength kernelSize weights bias = .ok l) : l.WellFormed := by
  obtain ⟨kernels, stored, rfl, hin, hout, hkernel, hfits, hweights, hkernels, hbias, hinput, -⟩ := of_make h
  have hlength : kernels.length = outChannels := hkernels.length_eq.symm.trans hweights
  refine ⟨Nat.pos_of_ne_zero hin, Nat.pos_of_ne_zero hkernel, hfits, ?_, hinput⟩
  rw [← List.length_pos_iff, List.length_zip, hlength, hbias.length_eq, Nat.min_self]
  exact Nat.pos_of_ne_zero hout

theorem checkChannels_eq_ok_iff {l : Conv1d} {index : Nat} {input : List (List Binary64)} {u : Unit} :
    l.checkChannels index input = .ok u ↔ ∀ channel ∈ input, channel.length = l.signalLength := by
  induction input generalizing index with
  | nil => simp [checkChannels]
  | cons channel rest ih =>
    simp only [checkChannels, Outcome.bind_eq_ok_iff, Layer.checkLength_eq_ok_iff, ih, exists_const,
      List.forall_mem_cons]

/-- When a convolution has outputs, and which. -/
theorem forward_eq_ok_iff {l : Conv1d} {input outputs : List (List Binary64)} :
    l.forward input = .ok outputs ↔
      input.length = l.inChannels ∧ (∀ channel ∈ input, channel.length = l.signalLength) ∧
      l.signalLength + 1 < 2 ^ 64 ∧
      List.Forall₂ (fun neuron ys =>
        List.Forall₂ (fun t y => ∃ q, Layer.neuron l.format (l.window input t) neuron.1.flatten neuron.2 = .ok q ∧
          l.format.toRational q = y) (List.range (l.signalLength + 1 - l.kernelSize)) ys)
        (l.kernels.zip l.bias) outputs := by
  simp only [forward, Outcome.bind_eq_ok_iff, Layer.checkLength_eq_ok_iff, checkChannels_eq_ok_iff, exists_const,
    outputLength, lengthOfOutput, Outcome.sizeAdd_eq_ok_iff, Outcome.pure_eq_ok, Except.ok.injEq,
    Outcome.mapM_eq_ok_iff, Outcome.map_eq_ok_iff]
  constructor
  · rintro ⟨hlength, hchannels, steps, ⟨above, ⟨habove, rfl⟩, rfl⟩, houtputs⟩
    exact ⟨hlength, hchannels, habove, houtputs⟩
  · rintro ⟨hlength, hchannels, habove, houtputs⟩
    exact ⟨hlength, hchannels, _, ⟨_, ⟨habove, rfl⟩, rfl⟩, houtputs⟩

section Forward

variable {l : Conv1d} {input outputs : List (List Binary64)}

theorem window_congr {input' : List (List Binary64)} (h : List.Forall₂ l.format.Alike input input') (t : Nat) :
    l.format.Alike (l.window input t) (l.window input' t) := by
  induction h with
  | nil => exact .nil
  | cons hchannel _ ih => exact List.rel_append (List.forall₂_take _ (List.forall₂_drop _ hchannel)) ih

/-- Inputs with the same stored integers have the same outputs. -/
theorem forward_congr {input' : List (List Binary64)} (h : List.Forall₂ l.format.Alike input input')
    (hforward : l.forward input = .ok outputs) : l.forward input' = .ok outputs := by
  obtain ⟨hlength, hchannels, habove, houtputs⟩ := forward_eq_ok_iff.mp hforward
  refine forward_eq_ok_iff.mpr ⟨h.length_eq.symm.trans hlength, ?_, habove, ?_⟩
  · intro channel' hchannel'
    obtain ⟨channel, hchannel, halike⟩ := Outcome.exists_left_of_mem h hchannel'
    exact halike.length_eq.symm.trans (hchannels channel hchannel)
  · refine houtputs.imp fun neuron ys hys => hys.imp fun t y => ?_
    rw [Layer.neuron_congr (window_congr h t)]
    exact id

variable (hwell : l.WellFormed) (hforward : l.forward input = .ok outputs)
include hwell hforward

/-- Every input value of a convolution that has outputs is stored. -/
theorem stored_of_forward : ∀ channel ∈ input, ∀ x ∈ channel, ∃ q, l.format.quantize x = .ok q := by
  obtain ⟨-, hchannels, -, houtputs⟩ := forward_eq_ok_iff.mp hforward
  intro channel hchannel x hx
  obtain ⟨s, hs, rfl⟩ := List.mem_iff_getElem.mp hx
  -- the window that starts at `s`, or the last one if there is none
  obtain ⟨t, ht, hts, hst⟩ : ∃ t < l.signalLength + 1 - l.kernelSize, t ≤ s ∧ s < t + l.kernelSize := by
    have hlength := hchannels channel hchannel
    have hpos := hwell.kernelSize_pos
    have hfits := hwell.kernelSize_le
    exact ⟨min s (l.signalLength - l.kernelSize), by omega, by omega, by omega⟩
  have hwindow : channel[s] ∈ l.window input t := by
    refine List.mem_flatMap.mpr ⟨channel, hchannel, List.mem_iff_getElem.mpr ⟨s - t, ?_, ?_⟩⟩
    · rw [List.length_take, List.length_drop]
      omega
    · rw [List.getElem_take, List.getElem_drop]
      congr 1
      omega
  obtain ⟨neuron, hneuron⟩ := List.exists_mem_of_ne_nil _ hwell.neurons_ne_nil
  obtain ⟨ys, -, hys⟩ := Outcome.exists_right_of_mem houtputs hneuron
  obtain ⟨y, -, q, hq, -⟩ := Outcome.exists_right_of_mem hys (List.mem_range.mpr ht)
  exact (Layer.of_neuron hq).1 _ hwindow

omit hwell in
/-- The outputs are numbers of the format. -/
theorem stored_of_mem_outputs : ∀ y ∈ outputs.flatten, ∃ q, l.format.contains q = true ∧ y = l.format.toRational q := by
  obtain ⟨-, -, -, houtputs⟩ := forward_eq_ok_iff.mp hforward
  intro y hy
  obtain ⟨ys, hys, hy⟩ := List.mem_flatten.mp hy
  obtain ⟨neuron, -, hneuron⟩ := Outcome.exists_left_of_mem houtputs hys
  obtain ⟨t, -, q, hq, rfl⟩ := Outcome.exists_left_of_mem hneuron hy
  exact ⟨q, (Layer.of_neuron hq).2, rfl⟩

/-- There is an output. -/
theorem flatten_ne_nil : outputs.flatten ≠ [] := by
  obtain ⟨-, -, -, houtputs⟩ := forward_eq_ok_iff.mp hforward
  obtain ⟨neuron, hneuron⟩ := List.exists_mem_of_ne_nil _ hwell.neurons_ne_nil
  obtain ⟨ys, hys, hsteps⟩ := Outcome.exists_right_of_mem houtputs hneuron
  have hlength : ys.length = l.signalLength + 1 - l.kernelSize := by rw [← hsteps.length_eq, List.length_range]
  have hfits := hwell.kernelSize_le
  intro hempty
  rw [List.flatten_eq_nil_iff.mp hempty ys hys] at hlength
  simp at hlength
  omega

end Forward

end Conv1d

end QuantNet
