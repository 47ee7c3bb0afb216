import QuantNet.Layer.Conv1d
import QuantNet.Layer.Linear
import QuantNet.Proofs.Quantization

/-!
# Layers made from trained parameters

What a layer holds once it is made. The checks and the quantization of the parameters run together,
row after row; here the outcome is taken apart: the shape is the declared one, and every stored
integer is that of the parameter in its place.
-/

namespace QuantNet

namespace Layer

theorem checkLength_eq_ok_iff {α : Type} {layer what : String} {values : List α} {expected : Nat} {u : Unit} :
    checkLength layer what values expected = .ok u ↔ values.length = expected := by
  unfold checkLength
  split_ifs with h <;> simp [h, Checked.refuse]

theorem quantizeAll_eq_ok_iff {f : QFormat} {vs : List Binary64} {qs : List Int} :
    quantizeAll f vs = .ok qs ↔ f.Stores vs qs := by
  rw [quantizeAll, Outcome.lift_eq_ok_iff, QFormat.quantizeAll_eq_ok_iff]

/-- Rows are stored if each has its length and is stored. -/
theorem quantizeRows_eq_ok_iff {f : QFormat} {layer what : String} {length index : Nat}
    {rows : List (List Binary64)} {qs : List (List Int)} :
    quantizeRows f layer what length index rows = .ok qs ↔
      List.Forall₂ (fun row q => row.length = length ∧ f.Stores row q) rows qs := by
  induction rows generalizing index qs with
  | nil => simp [quantizeRows, eq_comm]
  | cons row rest ih =>
    simp only [quantizeRows, Outcome.bind_eq_ok_iff, checkLength_eq_ok_iff, quantizeAll_eq_ok_iff, ih,
      Outcome.pure_eq_ok, Except.ok.injEq]
    constructor
    · rintro ⟨_, hlength, first, hfirst, others, hothers, rfl⟩
      exact .cons ⟨hlength, hfirst⟩ hothers
    · intro h
      cases h with
      | cons hfirst hothers => exact ⟨(), hfirst.1, _, hfirst.2, _, hothers, rfl⟩

/-- The stored bias: zeros if there is none, else the stored integers of the given one. -/
def StoresBias (f : QFormat) (length : Nat) (bias : List Binary64) (qs : List Int) : Prop :=
  (bias = [] ∧ qs = List.replicate length 0) ∨ (bias ≠ [] ∧ bias.length = length ∧ f.Stores bias qs)

theorem quantizeBias_eq_ok_iff {f : QFormat} {layer : String} {bias : List Binary64} {length : Nat}
    {qs : List Int} : quantizeBias f layer bias length = .ok qs ↔ StoresBias f length bias qs := by
  unfold quantizeBias StoresBias
  cases bias with
  | nil => simp [eq_comm]
  | cons b bs => simp [Outcome.bind_eq_ok_iff, checkLength_eq_ok_iff, quantizeAll_eq_ok_iff]

theorem StoresBias.length_eq {f : QFormat} {length : Nat} {bias : List Binary64} {qs : List Int}
    (h : StoresBias f length bias qs) : qs.length = length := by
  rcases h with ⟨-, rfl⟩ | ⟨-, hlength, hstores⟩
  · exact List.length_replicate
  · rw [← hstores.length_eq, hlength]

end Layer

/-! ### Fully connected layers -/

/-- A layer that is made has the declared shape and the stored integers of its parameters. -/
theorem Linear.of_make {name : String} {f : QFormat} {inFeatures outFeatures : Nat}
    {weights : List (List Binary64)} {bias : List Binary64} {l : Linear}
    (h : make name f inFeatures outFeatures weights bias = .ok l) :
    ∃ rows stored, l = ⟨name, f, inFeatures, outFeatures, rows, stored, Rom.defaultStyle⟩ ∧
      inFeatures ≠ 0 ∧ outFeatures ≠ 0 ∧ weights.length = outFeatures ∧
      List.Forall₂ (fun row q => row.length = inFeatures ∧ f.Stores row q) weights rows ∧
      Layer.StoresBias f outFeatures bias stored := by
  simp only [make, Outcome.refuse_guard_eq_ok_iff, Outcome.bind_eq_ok_iff, Layer.checkLength_eq_ok_iff,
    Layer.quantizeRows_eq_ok_iff, Layer.quantizeBias_eq_ok_iff, Outcome.pure_eq_ok, Except.ok.injEq,
    not_or] at h
  obtain ⟨⟨hin, hout⟩, _, hweights, _, -, _, -, rows, hrows, stored, hstored, rfl⟩ := h
  exact ⟨rows, stored, rfl, hin, hout, hweights, hrows, hstored⟩

/-! ### Convolutions -/

namespace Conv1d

/-- Kernels are stored if each has its channels and its taps and is stored. -/
theorem quantizeKernels_eq_ok_iff {f : QFormat} {layer : String} {inChannels kernelSize index : Nat}
    {kernels : List (List (List Binary64))} {qs : List (List (List Int))} :
    quantizeKernels f layer inChannels kernelSize index kernels = .ok qs ↔
      List.Forall₂ (fun kernel q => kernel.length = inChannels ∧
        List.Forall₂ (fun row q => row.length = kernelSize ∧ f.Stores row q) kernel q) kernels qs := by
  induction kernels generalizing index qs with
  | nil => simp [quantizeKernels, eq_comm]
  | cons kernel rest ih =>
    simp only [quantizeKernels, Outcome.bind_eq_ok_iff, Layer.checkLength_eq_ok_iff,
      Layer.quantizeRows_eq_ok_iff, ih, Outcome.pure_eq_ok, Except.ok.injEq]
    constructor
    · rintro ⟨_, hlength, first, hfirst, others, hothers, rfl⟩
      exact .cons ⟨hlength, hfirst⟩ hothers
    · intro h
      cases h with
      | cons hfirst hothers => exact ⟨(), hfirst.1, _, hfirst.2, _, hothers, rfl⟩

/-- A convolution that is made has the declared shape and the stored integers of its parameters,
and the sizes of its buffers are machine words. -/
theorem of_make {name : String} {f : QFormat} {inChannels outChannels signalLength kernelSize : Nat}
    {weights : List (List (List Binary64))} {bias : List Binary64} {l : Conv1d}
    (h : make name f inChannels outChannels signalLength kernelSize weights bias = .ok l) :
    ∃ kernels stored,
      l = ⟨name, f, inChannels, outChannels, signalLength, kernelSize, kernels, stored, Rom.defaultStyle⟩ ∧
      inChannels ≠ 0 ∧ outChannels ≠ 0 ∧ kernelSize ≠ 0 ∧ kernelSize ≤ signalLength ∧
      weights.length = outChannels ∧
      List.Forall₂ (fun kernel q => kernel.length = inChannels ∧
        List.Forall₂ (fun row q => row.length = kernelSize ∧ f.Stores row q) kernel q) weights kernels ∧
      Layer.StoresBias f outChannels bias stored ∧
      signalLength * inChannels < 2 ^ 64 ∧ (signalLength - kernelSize + 1) * outChannels < 2 ^ 64 := by
  simp only [make, Outcome.refuse_guard_eq_ok_iff, Outcome.bind_eq_ok_iff, Layer.checkLength_eq_ok_iff,
    quantizeKernels_eq_ok_iff, Layer.quantizeBias_eq_ok_iff, Outcome.pure_eq_ok, Except.ok.injEq,
    not_or, Nat.not_lt] at h
  obtain ⟨⟨hin, hout, hkernel⟩, hfits, _, hweights, _, -, _, -, _, -, kernels, hkernels, stored, hstored,
    _, hinput, _, houtput, rfl⟩ := h
  exact ⟨kernels, stored, rfl, hin, hout, hkernel, hfits, hweights, hkernels, hstored,
    (Outcome.sizeMul_eq_ok_iff.mp hinput).1, (Outcome.sizeMul_eq_ok_iff.mp houtput).1⟩

end Conv1d

end QuantNet
