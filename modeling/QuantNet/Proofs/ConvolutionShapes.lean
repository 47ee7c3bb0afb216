import QuantNet.Proofs.AccumulatorRange
import QuantNet.Proofs.BuildOverflow
import QuantNet.Proofs.Convolution
import QuantNet.Proofs.DecodedNumbers

/-!
# The shape of a convolution

How many values a convolution reads and writes is computed in four places: for the signals on its boundary,
by its settings, by its testbench, and by the reference function, which goes through the time steps of an
output channel. The boundary takes the window from the length of the signal and adds one, the others add
one first and take the window from the sum.

Both are the same number, and the addresses on the boundary reach every value, whatever the sizes are, as
long as the buffers are machine words (`Conv1d.SameBoundary`, `Conv1d.SameOutputs`). The exception is a
signal as long as a machine word can count. There the sum is no machine word, so of all these only the
boundary exists (`Conv1d.LosesOutputs`).
-/

namespace QuantNet

open Outcome LayerSettings

/-- The output of a neuron whose inputs and weights are stored, if the accumulator has room for the largest products.
Quantizing the numbers that the weights mean gives the weights back. -/
theorem Layer.neuron_eq_ok {f : QFormat} {inputs : List Binary64} {qs weights : List Int} (bias : Int)
    (hinputs : f.Stores inputs qs) (hlength : inputs.length = weights.length)
    (hweights : ∀ w ∈ weights, ∃ v, f.quantize v = .ok w) (hroom : inputs.length * 4 ^ (f.totalBits - 1) < 2 ^ 127) :
    neuron f inputs weights bias =
      .ok (f.clamp (f.clamp ((List.zipWith (· * ·) qs weights).sum.tdiv f.unit) + bias)) := by
  have hstored : f.Stores (weights.map f.toRational) weights := by
    refine List.forall₂_map_left_iff.mpr (List.forall₂_same.mpr fun w hw => ?_)
    obtain ⟨v, hv⟩ := hweights w hw
    exact QFormat.quantize_toRational_of_quantize hv
  have hsum : f.accumulate 0 (inputs.zip (weights.map f.toRational)) =
      .ok (0 + (List.zipWith (· * ·) qs weights).sum) :=
    QFormat.accumulate_eq_ok hinputs hstored (by rwa [Int.natAbs_zero, Nat.zero_add])
  rw [neuron, QFormat.macInt_eq_map (hlength.trans (List.length_map _).symm), hsum, Int.zero_add, map_ok_eq, within_ok,
    ok_bind, pure_eq_ok]

/-- A neuron has an output if everything is stored and the accumulator has room for the largest products. -/
theorem Layer.exists_neuron {f : QFormat} {inputs : List Binary64} {weights : List Int} (bias : Int)
    (hlength : inputs.length = weights.length) (hinputs : ∀ v ∈ inputs, ∃ q, f.quantize v = .ok q)
    (hweights : ∀ w ∈ weights, ∃ v, f.quantize v = .ok w) (hroom : inputs.length * 4 ^ (f.totalBits - 1) < 2 ^ 127) :
    ∃ q, neuron f inputs weights bias = .ok q := by
  obtain ⟨qs, hqs⟩ := exists_forall₂ hinputs
  exact ⟨_, neuron_eq_ok bias hqs hlength hweights hroom⟩

namespace Conv1d

/-! ### Layers that are made -/

/-- The number of values that are read. -/
def inputs (l : Conv1d) : Nat := l.signalLength * l.inChannels

/-- The number of values that are written. -/
def outputs (l : Conv1d) : Nat := (l.signalLength - l.kernelSize + 1) * l.outChannels

/-- Every output channel has a bias and a kernel of stored weights, one for each value in a window, and the number of
outputs is a machine word. -/
structure Shaped (l : Conv1d) : Prop where
  kernelSize_le : l.kernelSize ≤ l.signalLength
  kernels_length : l.kernels.length = l.outChannels
  bias_length : l.bias.length = l.outChannels
  taps_length : ∀ kernel ∈ l.kernels, kernel.flatten.length = l.inChannels * l.kernelSize
  stored : ∀ kernel ∈ l.kernels, ∀ w ∈ kernel.flatten, ∃ v, l.format.quantize v = .ok w
  outputs_lt : l.outputs < 2 ^ 64

theorem shaped_of_make {name : String} {f : QFormat} {inChannels outChannels signalLength kernelSize : Nat}
    {weights : List (List (List Binary64))} {bias : List Binary64} {l : Conv1d}
    (h : make name f inChannels outChannels signalLength kernelSize weights bias = .ok l) (style : String) :
    (l.withRomStyle style).Shaped := by
  obtain ⟨kernels, stored, rfl, -, -, -, hwindow, hcount, hkernels, hbias, -, houtputs⟩ := of_make h
  refine ⟨hwindow, hkernels.length_eq.symm.trans hcount, hbias.length_eq, fun kernel hkernel => ?_,
    fun kernel hkernel w hw => ?_, houtputs⟩
  · obtain ⟨rows, -, hchannels, hrows⟩ := exists_left_of_mem hkernels hkernel
    have hlength : ∀ row ∈ kernel, row.length = kernelSize := by
      intro row hrow
      obtain ⟨taps, -, htaps, hstores⟩ := exists_left_of_mem hrows hrow
      exact hstores.length_eq.symm.trans htaps
    rw [length_flatten_rows hlength, ← hrows.length_eq, hchannels]
    rfl
  · obtain ⟨rows, -, -, hrows⟩ := exists_left_of_mem hkernels hkernel
    obtain ⟨row, hrow, hw⟩ := List.mem_flatten.mp hw
    obtain ⟨taps, -, -, hstores⟩ := exists_left_of_mem hrows hrow
    obtain ⟨v, -, hv⟩ := exists_left_of_mem hstores hw
    exact ⟨v, hv⟩

/-! ### Output lengths -/

section OutputLength

variable {ε : Type} {length window : Nat}

/-- Adding one before the window is taken off gives the same number as adding it afterwards. -/
theorem lengthOfOutput_eq_ok (hwindow : window ≤ length) (hword : length + 1 < 2 ^ 64) :
    (lengthOfOutput length window : Checked ε Nat) = .ok (length - window + 1) := by
  rw [lengthOfOutput, sizeAdd_eq_ok_iff.mpr ⟨hword, rfl⟩, ok_bind, pure_eq_ok, Nat.sub_add_comm hwindow]

/-- Nothing can be added to the greatest machine word. -/
theorem lengthOfOutput_eq_overflow (hword : 2 ^ 64 ≤ length + 1) :
    (lengthOfOutput length window : Checked ε Nat) = .error (.overflow .add) := by
  rw [lengthOfOutput, Checked.sizeAdd, twoPow_eq, if_neg (Nat.not_lt.mpr hword), error_bind]

end OutputLength

section Shaped

variable {ε : Type} {l : Conv1d} {input ys : List (List Binary64)}

/-- The testbench of a layer waits for the outputs of the layer. -/
theorem Shaped.testbench (hl : l.Shaped) (hword : l.signalLength + 1 < 2 ^ 64) (name : String) (format : QFormat) :
    (Testbench.make name l.underTest format : Checked ε Testbench) =
      .ok ⟨name, l.name, format, l.signalLength, l.inChannels, l.outputs, l.port.widthOf "x_address",
        l.port.widthOf "y_address", .batched⟩ := by
  have hcount : (Checked.sizeMul (l.signalLength - l.kernelSize + 1) l.outChannels : Checked ε Nat) = .ok l.outputs :=
    sizeMul_eq_ok_iff.mpr ⟨hl.outputs_lt, rfl⟩
  rw [Testbench.make, underTest, lengthOfOutput_eq_ok hl.kernelSize_le hword, ok_bind, hcount, ok_bind, pure_eq_ok]

/-! ### The reference function -/

/-- An input of the declared shape. -/
def IsInput (l : Conv1d) (input : List (List Binary64)) : Prop :=
  input.length = l.inChannels ∧ ∀ channel ∈ input, channel.length = l.signalLength

theorem length_window (hinput : l.IsInput input) {t : Nat} (ht : t + l.kernelSize ≤ l.signalLength) :
    (l.window input t).length = l.inChannels * l.kernelSize := by
  have hpart : ∀ part ∈ input.map fun channel => (channel.drop t).take l.kernelSize, part.length = l.kernelSize := by
    rw [List.forall_mem_map]
    intro channel hchannel
    rw [List.length_take, List.length_drop, hinput.2 channel hchannel]
    omega
  rw [window, List.flatMap_def, length_flatten_rows hpart, List.length_map, hinput.1]

/-- The outputs of an input are as many as the layer counts. -/
theorem Shaped.length_of_forward (hl : l.Shaped) (h : l.forward input = .ok ys) :
    ys.length = l.outChannels ∧ (∀ y ∈ ys, y.length = l.signalLength - l.kernelSize + 1) ∧
      ys.flatten.length = l.outputs := by
  obtain ⟨-, -, -, hneurons⟩ := forward_eq_ok_iff.mp h
  have hcount : ys.length = l.outChannels := by
    rw [← hneurons.length_eq, List.length_zip, hl.kernels_length, hl.bias_length, Nat.min_self]
  have hsteps : ∀ y ∈ ys, y.length = l.signalLength - l.kernelSize + 1 := by
    intro y hy
    obtain ⟨neuron, -, hneuron⟩ := exists_left_of_mem hneurons hy
    rw [← hneuron.length_eq, List.length_range, Nat.sub_add_comm hl.kernelSize_le]
  refine ⟨hcount, hsteps, ?_⟩
  rw [length_flatten_rows hsteps, hcount, outputs, Nat.mul_comm]

/-- A stored input of the declared shape has outputs if the accumulator has room for a whole window. -/
theorem Shaped.exists_forward (hl : l.Shaped) (hword : l.signalLength + 1 < 2 ^ 64) (hinput : l.IsInput input)
    (hstored : ∀ v ∈ input.flatten, ∃ q, l.format.quantize v = .ok q)
    (hroom : l.inChannels * l.kernelSize * 4 ^ (l.format.totalBits - 1) < 2 ^ 127) :
    ∃ ys, l.forward input = .ok ys := by
  simp only [forward_eq_ok_iff, exists_and_left]
  refine ⟨hinput.1, hinput.2, hword, exists_forall₂ fun neuron hneuron => exists_forall₂ fun t ht => ?_⟩
  -- an output is that of a neuron whose inputs are the window at the time step `t`
  have hkernel := (List.of_mem_zip hneuron).1
  have hsteps : t + l.kernelSize ≤ l.signalLength := by
    have hwindow := hl.kernelSize_le
    rw [List.mem_range] at ht
    omega
  have hpart : ∀ v ∈ l.window input t, ∃ q, l.format.quantize v = .ok q := by
    intro v hv
    obtain ⟨channel, hchannel, hv⟩ := List.mem_flatMap.mp hv
    exact hstored v (List.mem_flatten.mpr ⟨channel, hchannel, List.mem_of_mem_drop (List.mem_of_mem_take hv)⟩)
  have hsize := length_window hinput hsteps
  obtain ⟨q, hq⟩ := Layer.exists_neuron neuron.2 (hsize.trans (hl.taps_length _ hkernel).symm) hpart
    (hl.stored _ hkernel) (hsize ▸ hroom)
  exact ⟨l.format.toRational q, q, hq, rfl⟩

theorem forward_eq_overflow (hword : 2 ^ 64 ≤ l.signalLength + 1) (hinput : l.IsInput input) :
    l.forward input = .error (.overflow .add) := by
  have hlength : Layer.checkLength l.name "input" input l.inChannels = .ok () :=
    Layer.checkLength_eq_ok_iff.mpr hinput.1
  have hchannels : l.checkChannels 0 input = .ok () := checkChannels_eq_ok_iff.mpr hinput.2
  rw [forward, hlength, ok_bind, hchannels, ok_bind, outputLength, lengthOfOutput_eq_overflow hword, error_bind]

end Shaped

/-! ### Counts -/

/-- The layer has the sizes of its settings, and its addresses are as wide as its numbers of values need. -/
structure SameBoundary (s : Conv1dSettings) (l : Conv1d) : Prop where
  sizes : (l.inChannels, l.outChannels, l.signalLength, l.kernelSize) =
    (s.inChannels, s.outChannels, s.signalLength, s.kernelSize)
  inputCount : ((conv1d s).inputCount : Checked LayerError _) = .ok (some l.inputs)
  xAddress : l.port.widthOf "x_address" = addressWidth l.inputs
  yAddress : l.port.widthOf "y_address" = addressWidth l.outputs
  input_lt : ∀ i < l.inputs, i < 2 ^ l.port.widthOf "x_address"
  output_lt : ∀ i < l.outputs, i < 2 ^ l.port.widthOf "y_address"

/-- The settings, the testbench and the reference function count the outputs of the boundary. -/
structure SameOutputs (s : Conv1dSettings) (l : Conv1d) : Prop where
  outputLength : (l.outputLength : Checked LayerError Nat) = .ok (l.signalLength - l.kernelSize + 1)
  outputCount : ((conv1d s).outputCount : Checked LayerError _) = .ok (some l.outputs)
  testbench : ∀ name format, ∃ t, (Testbench.make name l.underTest format : Checked LayerError Testbench) = .ok t ∧
    t.parameters.get? "output_values" = some (.text (Text.ofNat l.outputs)) ∧
    t.parameters.get? "x_address_width" = some (.text (Text.ofNat (l.port.widthOf "x_address"))) ∧
    t.parameters.get? "y_address_width" = some (.text (Text.ofNat (l.port.widthOf "y_address")))
  forward_length : ∀ input ys, l.forward input = .ok ys → ys.length = l.outChannels ∧
    (∀ y ∈ ys, y.length = l.signalLength - l.kernelSize + 1) ∧ ys.flatten.length = l.outputs
  forward_total : ∀ input, l.IsInput input → (∀ v ∈ input.flatten, ∃ q, l.format.quantize v = .ok q) →
    l.inChannels * l.kernelSize * 4 ^ (l.format.totalBits - 1) < 2 ^ 127 → ∃ ys, l.forward input = .ok ys

/-- Whatever counts outputs from one more than the length of the signal leaves its word. -/
structure LosesOutputs (s : Conv1dSettings) (l : Conv1d) : Prop where
  outputLength : (l.outputLength : Checked LayerError Nat) = .error (.overflow .add)
  outputCount : ((conv1d s).outputCount : Checked LayerError _) = .error (.overflow .add)
  testbench : ∀ name format,
    (Testbench.make name l.underTest format : Checked LayerError Testbench) = .error (.overflow .add)
  forward : ∀ input, l.IsInput input → l.forward input = .error (.overflow .add)

end Conv1d

namespace Conv1dSettings

variable {s : Conv1dSettings} {f : QFormat} {style : String} {l : Conv1d}

/-- The buffers for the weights, the inputs and the outputs are machine words. -/
structure Fits (s : Conv1dSettings) : Prop where
  weights_lt : 8 * (s.outChannels * s.inChannels * s.kernelSize) < 2 ^ 63
  inputs_lt : s.signalLength * s.inChannels < 2 ^ 64
  outputs_lt : (s.signalLength - s.kernelSize + 1) * s.outChannels < 2 ^ 64

/-- A convolution that passes its checks is made if its parameters are stored and its buffers fit. -/
theorem exists_layer (hcheck : s.check = .ok ()) (htrained : ∀ v ∈ s.trained, ∃ q, f.quantize v = .ok q)
    (hfits : s.Fits) (style : String) : ∃ l, s.layer f style = .ok l := by
  cases hlayer : s.layer f style with
  | ok l => exact ⟨l, rfl⟩
  | error failure =>
    cases failure with
    | refused cause =>
      obtain ⟨v, hv, hunstored, -⟩ := (refusesOnly_layer hcheck f style).refused hlayer
      obtain ⟨q, hq⟩ := htrained v hv
      exact absurd hq (hunstored q)
    | overflow operation =>
      rcases (overflows_layer_iff hcheck f style).mp ⟨operation, hlayer⟩ with hweights | ⟨-, hinputs | houtputs⟩
      · exact absurd hfits.weights_lt (Nat.not_lt.mpr hweights)
      · exact absurd hfits.inputs_lt (Nat.not_lt.mpr hinputs)
      · exact absurd hfits.outputs_lt (Nat.not_lt.mpr houtputs)

variable (h : s.layer f style = .ok l)
include h

theorem shaped_of_layer : l.Shaped := by
  obtain ⟨made, hmake, rfl⟩ := map_eq_ok_iff.mp h
  exact Conv1d.shaped_of_make hmake style

theorem design_of_layer : (conv1d s).design f style = .ok l.design := map_eq_ok_iff.mpr ⟨l, h, rfl⟩

theorem sameBoundary_of_layer : Conv1d.SameBoundary s l := by
  have hcount := inputCount_eq_ok (ε := LayerError) (design_of_layer h) rfl
  obtain ⟨kernels, bias, rfl, -⟩ := of_layer h
  exact ⟨rfl, hcount, rfl, rfl, fun i hi => lt_of_lt_of_le hi (le_two_pow_addressWidth _),
    fun i hi => lt_of_lt_of_le hi (le_two_pow_addressWidth _)⟩

theorem sameOutputs_of_layer (hword : s.signalLength + 1 < 2 ^ 64) : Conv1d.SameOutputs s l := by
  have hshaped := shaped_of_layer h
  have hshort : ¬ (conv1d s).IsLongest := fun hlong => by
    have := (isLongest_iff h).mp hlong
    omega
  have hcount := ((outputCount_eq (ε := LayerError) (design_of_layer h) rfl).resolve_left fun hlong => hshort hlong.2).1
  obtain ⟨kernels, bias, rfl, -⟩ := of_layer h
  refine ⟨Conv1d.lengthOfOutput_eq_ok hshaped.kernelSize_le hword, hcount, fun name format => ?_,
    fun input ys => hshaped.length_of_forward, fun input => hshaped.exists_forward hword⟩
  exact ⟨_, hshaped.testbench hword name format, by simp [Testbench.parameters], by simp [Testbench.parameters],
    by simp [Testbench.parameters]⟩

theorem losesOutputs_of_layer (hword : 2 ^ 64 ≤ s.signalLength + 1) : Conv1d.LosesOutputs s l := by
  have hlong : (conv1d s).IsLongest := (isLongest_iff h).mpr hword
  have hcount := ((outputCount_eq (ε := LayerError) (design_of_layer h) rfl).resolve_right fun hshort =>
    hshort.2 hlong).1
  obtain ⟨kernels, bias, rfl, -⟩ := of_layer h
  refine ⟨Conv1d.lengthOfOutput_eq_overflow hword, hcount, fun name format => ?_, fun input =>
    Conv1d.forward_eq_overflow hword⟩
  rw [Testbench.make, Conv1d.underTest, Conv1d.lengthOfOutput_eq_overflow hword, error_bind]

omit h

/-- **The numbers of values of a convolution.** A convolution that passes its checks, whose parameters are stored and
whose buffers fit, is made with the sizes of its settings. The addresses on its boundary are as wide as its numbers of
inputs and outputs need, and reach each of them; its settings count the same inputs. If one more than the length of the
signal is a machine word, then the settings, the testbench and the reference function count the same outputs too, and
if not, each of these overflows. -/
theorem counts_of_layer (s : Conv1dSettings) (f : QFormat) (style : String) (hcheck : s.check = .ok ())
    (htrained : ∀ v ∈ s.trained, ∃ q, f.quantize v = .ok q) (hfits : s.Fits) :
    ∃ l, s.layer f style = .ok l ∧ Conv1d.SameBoundary s l ∧
      (s.signalLength + 1 < 2 ^ 64 → Conv1d.SameOutputs s l) ∧
      (2 ^ 64 ≤ s.signalLength + 1 → Conv1d.LosesOutputs s l) := by
  obtain ⟨l, hl⟩ := exists_layer hcheck htrained hfits style
  exact ⟨l, hl, sameBoundary_of_layer hl, sameOutputs_of_layer hl, losesOutputs_of_layer hl⟩

/-- A convolution whose window is as long as the signal. -/
def wholeWindow : Conv1dSettings := ⟨"conv", 1, 1, 2, 2, [[[.ofInt 1, .ofInt (-1)]]], []⟩

/-- The window has one position, and this is one output for everything that counts. -/
theorem counts_of_wholeWindow :
    ∃ l, wholeWindow.layer { totalBits := 8, fracBits := 4 } "auto" = .ok l ∧ l.outputs = 1 ∧
      l.port.widthOf "y_address" = 1 ∧ (l.outputLength : Checked LayerError Nat) = .ok 1 := by
  have hstored : ∀ v ∈ wholeWindow.trained, ∃ q, QFormat.quantize { totalBits := 8, fracBits := 4 } v = .ok q := by
    simp only [wholeWindow, trained, List.flatten_cons, List.flatten_nil, List.append_nil, List.forall_mem_cons]
    exact ⟨⟨16, by decide +kernel⟩, ⟨-16, by decide +kernel⟩, List.forall_mem_nil _⟩
  obtain ⟨l, hl, hboundary, houtputs, -⟩ := counts_of_layer wholeWindow { totalBits := 8, fracBits := 4 } "auto"
    (by decide) hstored ⟨by decide, by decide, by decide⟩
  have hsizes := hboundary.sizes
  simp only [Prod.mk.injEq] at hsizes
  obtain ⟨-, hout, hlength, hkernel⟩ := hsizes
  have hcount : l.outputs = 1 := by
    rw [Conv1d.outputs, hout, hlength, hkernel]
    rfl
  refine ⟨l, hl, hcount, by rw [hboundary.yAddress, hcount]; rfl, ?_⟩
  rw [(houtputs (by decide)).outputLength, hlength, hkernel]
  rfl

/-- A convolution over the longest signal. -/
def longestSignal : Conv1dSettings := ⟨"conv", 1, 1, 2 ^ 64 - 1, 1, [[[.ofInt 1]]], [.ofInt 0]⟩

/-- Its outputs are not counted by everything that should count them. -/
theorem not_sameOutputs_of_layer :
    ¬ ∀ (s : Conv1dSettings) (f : QFormat) (style : String), s.check = .ok () →
      (∀ v ∈ s.trained, ∃ q, f.quantize v = .ok q) → s.Fits →
      ∃ l, s.layer f style = .ok l ∧ Conv1d.SameBoundary s l ∧ Conv1d.SameOutputs s l := by
  intro hall
  have hstored : ∀ v ∈ longestSignal.trained, ∃ q, QFormat.quantize { totalBits := 8, fracBits := 4 } v = .ok q := by
    simp only [longestSignal, trained, List.flatten_cons, List.flatten_nil, List.append_nil, List.cons_append,
      List.nil_append, List.forall_mem_cons]
    exact ⟨⟨16, by decide +kernel⟩, ⟨0, by decide +kernel⟩, List.forall_mem_nil _⟩
  obtain ⟨l, hl, -, houtputs⟩ := hall longestSignal { totalBits := 8, fracBits := 4 } "auto" (by decide) hstored
    ⟨by decide, by decide, by decide⟩
  have hlength := houtputs.outputLength
  rw [(losesOutputs_of_layer hl (by decide)).outputLength] at hlength
  cases hlength

end Conv1dSettings

end QuantNet
