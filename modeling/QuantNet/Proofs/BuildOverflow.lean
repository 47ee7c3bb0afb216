import QuantNet.Proofs.BuildFailures
import QuantNet.Proofs.BuildSteps
import QuantNet.Proofs.WrapperAddresses

/-!
# When builds overflow

The sizes of a configuration are multiplied in four places: for the buffers of the trained parameters of a layer, for
the counts of values on the boundary of a convolution, for the counts of the wrapper, and for the outputs that a
testbench waits for. The checks of a configuration compare these sizes with each other and with the trained
parameters, but nothing bounds the length of a signal. So a valid configuration can have products that are no
machine words, and then its build ends neither with files nor with a refusal.

What a build does not depend on is where in the four places a product is formed. A layer that is made has counted
the values on its boundary, and these are all that the wrapper and the testbench count, but for one thing: they
count the outputs of a channel from one more than the length of the signal. So the whole build overflows exactly at
the first layer whose own products do, or at the wrapper or the testbench if a signal is as long as a machine word
can count (`overflows_ofConfig_iff`).
-/

namespace QuantNet

open Outcome

/-! ### Computations that overflow -/

namespace Outcome

variable {ε δ α β : Type}

/-- The computation leaves a machine word. -/
def Overflows (x : Checked ε α) : Prop := ∃ operation, x = .error (.overflow operation)

@[simp] theorem not_overflows_ok (a : α) : ¬ Overflows (.ok a : Checked ε α) := fun ⟨_, h⟩ => by cases h

@[simp] theorem not_overflows_refuse (e : ε) : ¬ Overflows (Checked.refuse e : Checked ε α) := fun ⟨_, h⟩ => by cases h

theorem overflows_overflow (operation : Arithmetic) : Overflows (.error (.overflow operation) : Checked ε α) :=
  ⟨operation, rfl⟩

@[simp] theorem not_overflows_lift (f : ε → δ) (x : Except ε α) : ¬ Overflows (Checked.lift f x) := by
  rintro ⟨operation, h⟩
  cases x <;> cases h

/-- A sequence of two steps overflows in the first or, if that delivers its value, in the second. -/
theorem overflows_bind_iff {x : Checked ε α} {f : α → Checked ε β} :
    Overflows (x >>= f) ↔ Overflows x ∨ ∃ a, x = .ok a ∧ Overflows (f a) := by
  cases x with
  | ok a => simp
  | error failure => simp [Overflows]

theorem overflows_bind_iff_of_not {x : Checked ε α} (hx : ¬ Overflows x) {f : α → Checked ε β} :
    Overflows (x >>= f) ↔ ∃ a, x = .ok a ∧ Overflows (f a) := by
  rw [overflows_bind_iff, or_iff_right hx]

theorem overflows_map_iff {x : Checked ε α} {f : α → β} : Overflows (x.map f) ↔ Overflows x := by
  cases x <;> simp [Overflows]

theorem overflows_within_iff {x : Checked ε α} {f : ε → δ} : Overflows (Checked.within f x) ↔ Overflows x := by
  rcases x with (e | operation) | a <;> simp [Overflows, Checked.within, Failure.map]

/-- A list of computations overflows in the first one that delivers no value. -/
theorem overflows_mapM_iff {f : α → Checked ε β} {xs : List α} :
    Overflows (xs.mapM f) ↔
      ∃ before x after, xs = before ++ x :: after ∧ (∀ y ∈ before, ∃ b, f y = .ok b) ∧ Overflows (f x) := by
  constructor
  · rintro ⟨operation, h⟩
    obtain ⟨before, x, after, hxs, hbefore, hx⟩ := mapM_eq_error_iff.mp h
    exact ⟨before, x, after, hxs, hbefore, operation, hx⟩
  · rintro ⟨before, x, after, hxs, hbefore, operation, hx⟩
    exact ⟨operation, mapM_eq_error_iff.mpr ⟨before, x, after, hxs, hbefore, hx⟩⟩

theorem overflows_check_iff {p : Prop} [Decidable p] {a : α} {operation : Arithmetic} :
    Overflows (if p then (.ok a : Checked ε α) else .error (.overflow operation)) ↔ ¬ p := by
  by_cases hp : p <;> simp [hp, overflows_overflow]

theorem overflows_sizeMul_iff {a b : Nat} : Overflows (Checked.sizeMul a b : Checked ε Nat) ↔ 2 ^ 64 ≤ a * b := by
  rw [Checked.sizeMul, overflows_check_iff, twoPow_eq, Nat.not_lt]

theorem overflows_sizeAdd_iff {a b : Nat} : Overflows (Checked.sizeAdd a b : Checked ε Nat) ↔ 2 ^ 64 ≤ a + b := by
  rw [Checked.sizeAdd, overflows_check_iff, twoPow_eq, Nat.not_lt]

theorem overflows_reserve_iff {count : Nat} :
    Overflows (Checked.reserve count : Checked ε Unit) ↔ 2 ^ 63 ≤ 8 * count := by
  rw [Checked.reserve, overflows_check_iff, twoPow_eq, Nat.not_lt]

theorem overflows_sizeMul_bind_iff {a b : Nat} {x : Checked ε α} :
    Overflows (do let _ ← Checked.sizeMul a b; x) ↔ 2 ^ 64 ≤ a * b ∨ Overflows x := by
  rw [overflows_bind_iff, overflows_sizeMul_iff]
  refine or_congr_right' fun hword => ?_
  simp only [sizeMul_eq_ok_iff, Nat.not_le.mp hword, true_and, exists_eq_left']

/-- Room for a product is set aside unless its bytes are too many, whether the product is a machine word or not. -/
theorem overflows_reserve_bind_iff {a b : Nat} {x : Checked ε α} :
    Overflows (do Checked.reserve (← Checked.sizeMul a b); x) ↔ 2 ^ 63 ≤ 8 * (a * b) ∨ Overflows x := by
  by_cases hword : a * b < 2 ^ 64
  · rw [sizeMul_eq_ok_iff.mpr ⟨hword, rfl⟩, ok_bind, overflows_bind_iff, overflows_reserve_iff]
    refine or_congr_right' fun hroom => ?_
    have hreserve : (Checked.reserve (a * b) : Checked ε Unit) = .ok () := reserve_eq_ok_iff.mpr (Nat.not_le.mp hroom)
    simp [hreserve]
  · rw [overflows_bind_iff, overflows_sizeMul_iff]
    exact iff_of_true (Or.inl (Nat.not_lt.mp hword)) (Or.inl (by omega))

theorem overflows_reserve_bind₃_iff {a b n : Nat} (hn : 0 < n) {x : Checked ε α} :
    Overflows (do
      let product ← Checked.sizeMul a b
      Checked.reserve (← Checked.sizeMul product n)
      x) ↔ 2 ^ 63 ≤ 8 * (a * b * n) ∨ Overflows x := by
  by_cases hword : a * b < 2 ^ 64
  · rw [sizeMul_eq_ok_iff.mpr ⟨hword, rfl⟩, ok_bind, overflows_reserve_bind_iff]
  · have hle : a * b ≤ a * b * n := Nat.le_mul_of_pos_right _ hn
    rw [overflows_bind_iff, overflows_sizeMul_iff]
    exact iff_of_true (Or.inl (Nat.not_lt.mp hword)) (Or.inl (by omega))

/-- Partners for all entries of a list are partners entry by entry. -/
theorem exists_forall₂_iff {γ : Type} {r : α → γ → Prop} {xs : List α} :
    (∃ ys, List.Forall₂ r xs ys) ↔ ∀ x ∈ xs, ∃ y, r x y := by
  refine ⟨fun ⟨ys, hys⟩ x hx => ?_, exists_forall₂⟩
  obtain ⟨y, -, hxy⟩ := exists_right_of_mem hys hx
  exact ⟨y, hxy⟩

end Outcome

/-! ### Layers -/

namespace Layer

variable {f : QFormat} {layer what : String}

@[simp] theorem not_overflows_checkLength {α : Type} {values : List α} {expected : Nat} :
    ¬ Overflows (checkLength layer what values expected) := by
  unfold checkLength
  split <;> simp

@[simp] theorem not_overflows_quantizeAll {numbers : List Binary64} : ¬ Overflows (quantizeAll f numbers) :=
  not_overflows_lift _ _

@[simp] theorem not_overflows_quantizeRows {length index : Nat} {rows : List (List Binary64)} :
    ¬ Overflows (quantizeRows f layer what length index rows) := by
  induction rows generalizing index with
  | nil => simp [quantizeRows]
  | cons row rest ih => simp [quantizeRows, overflows_bind_iff, ih]

@[simp] theorem not_overflows_quantizeBias {bias : List Binary64} {length : Nat} :
    ¬ Overflows (quantizeBias f layer bias length) := by
  unfold quantizeBias
  split <;> simp [overflows_bind_iff]

/-- A bias of the right length is stored if its numbers are. -/
theorem exists_quantizeBias_iff (layer : String) {bias : List Binary64} {length : Nat}
    (hbias : bias = [] ∨ bias.length = length) :
    (∃ stored, quantizeBias f layer bias length = .ok stored) ↔ ∀ v ∈ bias, ∃ q, f.quantize v = .ok q := by
  simp only [quantizeBias_eq_ok_iff, StoresBias]
  rcases eq_or_ne bias [] with rfl | hne
  · simp
  · simp [hne, hbias.resolve_left hne, ← exists_forall₂_iff]

end Layer

namespace Conv1d

variable {f : QFormat} {layer : String} {inChannels kernelSize index : Nat} {kernels : List (List (List Binary64))}

@[simp] theorem not_overflows_quantizeKernels :
    ¬ Overflows (quantizeKernels f layer inChannels kernelSize index kernels) := by
  induction kernels generalizing index with
  | nil => simp [quantizeKernels]
  | cons kernel rest ih => simp [quantizeKernels, overflows_bind_iff, ih]

/-- Kernels of the right shape are stored if their numbers are. -/
theorem exists_quantizeKernels_iff (layer : String) (index : Nat)
    (hshape : ∀ kernel ∈ kernels, kernel.length = inChannels ∧ ∀ row ∈ kernel, row.length = kernelSize) :
    (∃ stored, quantizeKernels f layer inChannels kernelSize index kernels = .ok stored) ↔
      ∀ v ∈ kernels.flatten.flatten, ∃ q, f.quantize v = .ok q := by
  simp only [quantizeKernels_eq_ok_iff, exists_forall₂_iff, exists_and_left]
  simp only [List.mem_flatten]
  constructor
  · rintro h v ⟨row, ⟨kernel, hkernel, hrow⟩, hv⟩
    exact ((h kernel hkernel).2 row hrow).2 v hv
  · intro h kernel hkernel
    refine ⟨(hshape kernel hkernel).1, fun row hrow => ⟨(hshape kernel hkernel).2 row hrow, fun v hv => ?_⟩⟩
    exact h v ⟨row, ⟨kernel, hkernel, hrow⟩, hv⟩

end Conv1d

/-- The products of a fully connected layer leave their words: the bytes of its weights are too many. -/
def LinearSettings.Overflows (s : LinearSettings) : Prop := 2 ^ 63 ≤ 8 * (s.inFeatures * s.outFeatures)

/-- The products of a convolution leave their words: the bytes of its weights are too many, or, if its trained
parameters can be stored, the values that go in or come out. -/
def Conv1dSettings.Overflows (s : Conv1dSettings) (f : QFormat) : Prop :=
  2 ^ 63 ≤ 8 * (s.outChannels * s.inChannels * s.kernelSize) ∨
    (∀ v ∈ s.trained, ∃ q, f.quantize v = .ok q) ∧
      (2 ^ 64 ≤ s.signalLength * s.inChannels ∨ 2 ^ 64 ≤ (s.signalLength - s.kernelSize + 1) * s.outChannels)

/-- A fully connected layer overflows if its products do. -/
theorem LinearSettings.overflows_layer_iff {s : LinearSettings} (h : s.check = .ok ()) (f : QFormat) (style : String) :
    Outcome.Overflows (s.layer f style) ↔ s.Overflows := by
  obtain ⟨hsizes, ⟨hrows, -⟩, -⟩ := of_check h
  have hlength : Layer.checkLength s.name "weights" s.weights s.outFeatures = .ok () :=
    Layer.checkLength_eq_ok_iff.mpr hrows
  rw [layer, overflows_map_iff, Linear.make, if_neg hsizes, hlength, ok_bind, overflows_reserve_bind_iff]
  simp [overflows_bind_iff, Overflows]

/-- A convolution overflows if its products do. -/
theorem Conv1dSettings.overflows_layer_iff {s : Conv1dSettings} (h : s.check = .ok ()) (f : QFormat) (style : String) :
    Outcome.Overflows (s.layer f style) ↔ s.Overflows f := by
  obtain ⟨hsizes, hwindow, ⟨hcount, hshape⟩, hbias⟩ := of_check h
  have hlength : Layer.checkLength s.name "weights" s.weights s.outChannels = .ok () :=
    Layer.checkLength_eq_ok_iff.mpr hcount
  have hkernel : 0 < s.kernelSize := Nat.pos_of_ne_zero fun hzero => hsizes (Or.inr (Or.inr hzero))
  rw [layer, overflows_map_iff, Conv1d.make, if_neg hsizes, if_neg hwindow, hlength, ok_bind,
    overflows_reserve_bind₃_iff hkernel, Overflows, trained, List.forall_mem_append,
    ← Conv1d.exists_quantizeKernels_iff s.name 0 hshape, ← Layer.exists_quantizeBias_iff s.name hbias]
  simp only [overflows_bind_iff_of_not Conv1d.not_overflows_quantizeKernels,
    overflows_bind_iff_of_not Layer.not_overflows_quantizeBias, overflows_sizeMul_bind_iff, pure_eq_ok,
    not_overflows_ok, or_false, exists_and_right, and_assoc]

namespace LayerSettings

/-- The products of a layer leave their words. -/
def Overflows (f : QFormat) : LayerSettings → Prop
  | linear s => s.Overflows
  | conv1d s => s.Overflows f
  | _ => False

/-- A layer overflows if its products do. -/
theorem overflows_design_iff {layer : LayerSettings} (h : layer.check = .ok ()) (f : QFormat) (style : String) :
    Outcome.Overflows (layer.design f style) ↔ layer.Overflows f := by
  cases layer with
  | linear s => exact overflows_map_iff.trans (s.overflows_layer_iff h f style)
  | conv1d s => exact overflows_map_iff.trans (s.overflows_layer_iff h f style)
  | _ => exact iff_of_false (not_overflows_ok _) id

/-- A convolution that is made has a longest signal exactly if one more than its length is no machine word. -/
theorem isLongest_iff {f : QFormat} {style : String} {s : Conv1dSettings} {l : Conv1d} (h : s.layer f style = .ok l) :
    (conv1d s).IsLongest ↔ 2 ^ 64 ≤ s.signalLength + 1 := by
  obtain ⟨l, hmake, -⟩ := map_eq_ok_iff.mp h
  obtain ⟨_, _, -, hin, -, -, -, -, -, -, hinput, -⟩ := Conv1d.of_make hmake
  have hlength : s.signalLength < 2 ^ 64 :=
    lt_of_le_of_lt (Nat.le_mul_of_pos_right _ (Nat.pos_of_ne_zero hin)) hinput
  rw [IsLongest]
  omega

end LayerSettings

/-! ### Networks, wrappers and testbenches -/

namespace Config

variable {c : Config} (hvalid : c.validate = .ok ())
include hvalid

/-- The network overflows at the first layer that cannot be made, if the products of that layer do. -/
theorem overflows_sequential_iff :
    Overflows c.sequential ↔ ∃ f before layer after, c.format = .ok f ∧ c.layers = before ++ layer :: after ∧
      (∀ other ∈ before, ∃ d, other.design f c.output.romStyle = .ok d) ∧ layer.Overflows f := by
  obtain ⟨f, hformat⟩ := (of_validate hvalid).2.1
  have hchecks := (of_checkLayers (of_validate hvalid).2.2.1).2
  have hnetwork : Overflows c.sequential ↔ Overflows (c.layers.mapM (LayerSettings.design f c.output.romStyle)) := by
    simp [sequential, hformat, overflows_bind_iff]
  simp only [hnetwork, overflows_mapM_iff, hformat, Except.ok.injEq, exists_and_left, exists_eq_left']
  refine exists_congr fun before => exists_congr fun layer => exists_congr fun after => ?_
  refine and_congr_right fun hlayers => and_congr_right fun _ => ?_
  exact LayerSettings.overflows_design_iff (hchecks layer (by simp [hlayers])).2.2 f _

variable {network : Sequential} (hnetwork : c.sequential = .ok network)
include hnetwork

/-- The layers of a network that is made can be made. -/
theorem exists_designs_of_sequential :
    ∃ f, c.format = .ok f ∧ ∀ layer ∈ c.layers, ∃ d, layer.design f c.output.romStyle = .ok d := by
  obtain ⟨f, designs, hformat, hdesigns, -⟩ := of_sequential hvalid hnetwork
  refine ⟨f, hformat, fun layer hlayer => ?_⟩
  obtain ⟨d, -, hd⟩ := exists_right_of_mem (mapM_eq_ok_iff.mp hdesigns) hlayer
  exact ⟨d, hd⟩

/-- The wrapper overflows where it counts the outputs of a longest signal. -/
theorem overflows_wrapper_iff :
    Overflows (c.wrapper network) ↔ ∃ settings last, c.skeleton = some settings ∧ settings.yCount = none ∧
      LayerSettings.lastBuffered? c.layers = some last ∧ last.IsLongest := by
  obtain ⟨f, -, hmade⟩ := exists_designs_of_sequential hvalid hnetwork
  cases hskeleton : c.skeleton with
  | none => simp [wrapper, hskeleton]
  | some settings =>
    obtain ⟨xCount, hx⟩ : ∃ n,
        (countOr settings.xCount LayerSettings.inputCount c.layers : Checked LayerError Nat) = .ok n := by
      cases settings.xCount with
      | none => exact ⟨_, LayerSettings.countOr_inputCount hmade⟩
      | some n => exact ⟨n, rfl⟩
    have hwrapper : Overflows (c.wrapper network) ↔
        Overflows (countOr settings.yCount LayerSettings.outputCount c.layers.reverse : Checked LayerError Nat) := by
      simp [wrapper, hskeleton, hx, overflows_bind_iff]
    rw [hwrapper]
    cases hy : settings.yCount with
    | some n => simp [countOr, hy]
    | none =>
      rcases LayerSettings.countOr_outputCount (ε := LayerError) hmade with
        ⟨hover, last, hlast, hlong⟩ | ⟨hcount, hshort⟩
      · rw [hover]
        exact iff_of_true (overflows_overflow _) ⟨settings, last, rfl, hy, hlast, hlong⟩
      · rw [hcount]
        refine iff_of_false (not_overflows_ok _) ?_
        rintro ⟨_, last, -, -, hlast, hlong⟩
        exact hshort last hlast hlong

end Config

namespace Build

theorem not_overflows_emit (files : FileSet) (emissions : List Emission) : ¬ Overflows (emit files emissions) := by
  unfold emit
  split <;> simp

/-- The testbench of a convolution that is made overflows if that has a longest signal. -/
theorem overflows_make_iff {ε : Type} {f : QFormat} {style : String} {s : Conv1dSettings} {l : Conv1d}
    (h : s.layer f style = .ok l) (name : String) :
    Overflows (Testbench.make name l.underTest f : Checked ε Testbench) ↔ (LayerSettings.conv1d s).IsLongest := by
  rw [LayerSettings.isLongest_iff h]
  obtain ⟨l, hmake, rfl⟩ := map_eq_ok_iff.mp h
  obtain ⟨_, _, rfl, -, -, -, hwindow, -, -, -, -, houtput⟩ := Conv1d.of_make hmake
  -- the outputs of a channel are counted in another order, but the product is that of the layer
  have hsteps : s.signalLength + 1 - s.kernelSize = s.signalLength - s.kernelSize + 1 := Nat.sub_add_comm hwindow
  have hproduct : ¬ 2 ^ 64 ≤ (s.signalLength + 1 - s.kernelSize) * s.outChannels := by
    rw [hsteps]
    exact Nat.not_le.mpr houtput
  simp only [Testbench.make, Conv1d.lengthOfOutput, Conv1d.underTest, Conv1d.withRomStyle, overflows_bind_iff,
    overflows_sizeAdd_iff, overflows_sizeMul_iff, bind_eq_ok_iff, sizeAdd_eq_ok_iff, pure_eq_ok, Except.ok.injEq,
    not_overflows_ok, and_false, exists_false, or_false]
  refine or_iff_left ?_
  rintro ⟨_, ⟨_, ⟨-, rfl⟩, rfl⟩, hover⟩
  exact hproduct hover

section Made

variable {c : Config} (hvalid : c.validate = .ok ()) {network : Sequential} (hnetwork : c.sequential = .ok network)
include hvalid hnetwork

theorem overflows_emitWrapper_iff (files : FileSet) :
    Overflows (emitWrapper c network files) ↔ ∃ settings last, c.skeleton = some settings ∧ settings.yCount = none ∧
      LayerSettings.lastBuffered? c.layers = some last ∧ last.IsLongest := by
  rw [← Config.overflows_wrapper_iff hvalid hnetwork, emitWrapper, overflows_bind_iff, overflows_within_iff,
    or_iff_left]
  rintro ⟨found, -, hover⟩
  cases found with
  | none => exact not_overflows_ok _ hover
  | some skeleton => exact not_overflows_emit _ _ hover

/-- The testbench overflows where it counts the outputs of a longest signal. -/
theorem overflows_emitTestbench_iff (files : FileSet) :
    Overflows (emitTestbench c files) ↔ ∃ settings s, c.testbench = some settings ∧
      c.findConv1d settings.uut = .ok s ∧ (LayerSettings.conv1d s).IsLongest := by
  obtain ⟨f, hformat, hmade⟩ := Config.exists_designs_of_sequential hvalid hnetwork
  unfold emitTestbench
  cases htestbench : c.testbench with
  | none => simp
  | some settings =>
    obtain ⟨s, hs, hlayer⟩ := Config.of_checkTestbench htestbench (Config.of_validate hvalid).2.2.2.2
    obtain ⟨d, hd⟩ := hmade _ hlayer
    obtain ⟨l, hl, -⟩ := map_eq_ok_iff.mp hd
    have hunit : configuredConv1d c settings.uut = .ok (l, f) := by
      rw [configuredConv1d, hformat, hs, lift_ok, ok_bind, lift_ok, ok_bind, hl]
      rfl
    simp only [hunit, ok_bind, overflows_bind_iff, overflows_make_iff hl, not_overflows_emit, and_false, exists_false,
      or_false, Option.some.injEq, exists_and_left, exists_eq_left', hs, Except.ok.injEq]

end Made

/-! ### Builds -/

/-- Where the build of a configuration overflows. -/
inductive OverflowsAt (c : Config) : Prop
  /-- At a layer whose products leave their words, if the layers before it can be made. -/
  | layer {f : QFormat} {before after : List LayerSettings} {layer : LayerSettings} (hformat : c.format = .ok f)
      (hlayers : c.layers = before ++ layer :: after)
      (hbefore : ∀ other ∈ before, ∃ d, other.design f c.output.romStyle = .ok d) (hlayer : layer.Overflows f) :
      OverflowsAt c
  /-- At the wrapper, if it counts the outputs of a longest signal. -/
  | wrapper {network : Sequential} {connections : Connections} {files : FileSet} {settings : SkeletonSettings}
      {last : LayerSettings} (hnetwork : c.sequential = .ok network) (hwired : network.connections = .ok connections)
      (hfiles : emit Table.empty network.design.emissions = .ok files) (hskeleton : c.skeleton = some settings)
      (hcount : settings.yCount = none) (hlast : LayerSettings.lastBuffered? c.layers = some last)
      (hlong : last.IsLongest) : OverflowsAt c
  /-- At the testbench, if it counts the outputs of a longest signal. -/
  | testbench {network : Sequential} {connections : Connections} {files written : FileSet}
      {settings : TestbenchSettings} {s : Conv1dSettings} (hnetwork : c.sequential = .ok network)
      (hwired : network.connections = .ok connections) (hfiles : emit Table.empty network.design.emissions = .ok files)
      (hwritten : emitWrapper c network files = .ok written) (htestbench : c.testbench = some settings)
      (hunit : c.findConv1d settings.uut = .ok s) (hlong : (LayerSettings.conv1d s).IsLongest) : OverflowsAt c

/-- **When a build overflows.** The build of a valid configuration ends with an overflow, and so neither with files
nor with a refusal, exactly if the products of a layer leave their words while those before it can be made, or if the
network is made and written and a signal is as long as a machine word can count, either that of the last layer with
buffers, whose outputs a wrapper counts, or that of the unit under test, whose outputs a testbench counts. -/
theorem overflows_ofConfig_iff {c : Config} (hvalid : c.validate = .ok ()) :
    Overflows (ofConfig c) ↔ OverflowsAt c := by
  simp only [ofConfig, overflows_bind_iff, overflows_within_iff, within_eq_ok_iff, not_overflows_lift, lift_eq_ok_iff,
    not_overflows_emit, false_or]
  constructor
  · rintro (hover | ⟨network, hnetwork, connections, hwired, files, hfiles, hover | ⟨written, hwritten, hover | hrest⟩⟩)
    · obtain ⟨f, before, layer, after, hformat, hlayers, hbefore, hlayer⟩ :=
        (Config.overflows_sequential_iff hvalid).mp hover
      exact .layer hformat hlayers hbefore hlayer
    · obtain ⟨settings, last, hskeleton, hcount, hlast, hlong⟩ :=
        (overflows_emitWrapper_iff hvalid hnetwork files).mp hover
      exact .wrapper hnetwork hwired hfiles hskeleton hcount hlast hlong
    · obtain ⟨settings, s, htestbench, hunit, hlong⟩ := (overflows_emitTestbench_iff hvalid hnetwork written).mp hover
      exact .testbench hnetwork hwired hfiles hwritten htestbench hunit hlong
    · obtain ⟨_, -, hover⟩ := hrest
      exact absurd hover (not_overflows_ok _)
  · rintro (⟨hformat, hlayers, hbefore, hlayer⟩ | ⟨hnetwork, hwired, hfiles, hskeleton, hcount, hlast, hlong⟩ |
      ⟨hnetwork, hwired, hfiles, hwritten, htestbench, hunit, hlong⟩)
    · exact Or.inl ((Config.overflows_sequential_iff hvalid).mpr ⟨_, _, _, _, hformat, hlayers, hbefore, hlayer⟩)
    · refine Or.inr ⟨_, hnetwork, _, hwired, _, hfiles, Or.inl ?_⟩
      exact (overflows_emitWrapper_iff hvalid hnetwork _).mpr ⟨_, _, hskeleton, hcount, hlast, hlong⟩
    · refine Or.inr ⟨_, hnetwork, _, hwired, _, hfiles, Or.inr ⟨_, hwritten, Or.inl ?_⟩⟩
      exact (overflows_emitTestbench_iff hvalid hnetwork _).mpr ⟨_, _, htestbench, hunit, hlong⟩

/-- A convolution over three channels as long as a signed machine word can say. -/
def longSignals : Conv1dSettings := ⟨"conv", 3, 1, 2 ^ 63 - 1, 1, [[[.ofInt 1], [.ofInt 1], [.ofInt 1]]], []⟩

/-- A network with this convolution. -/
def tooLong : Config where
  network := ⟨"net", 8, 4, false⟩
  layers := [.flatten "flat", .conv1d longSignals]
  skeleton := none
  testbench := none
  output := .standard

/-- It overflows at the convolution. -/
theorem overflows_tooLong : tooLong.validate = .ok () ∧ Overflows (ofConfig tooLong) := by
  have hvalid : tooLong.validate = .ok () := by decide +kernel
  let f : QFormat := { totalBits := 8, fracBits := 4 }
  have hstored : ∀ v ∈ longSignals.trained, ∃ q, f.quantize v = .ok q := by
    intro v hv
    have hone : v = .ofInt 1 := by simpa [longSignals, Conv1dSettings.trained] using hv
    exact hone ▸ ⟨16, by decide +kernel⟩
  refine ⟨hvalid, (overflows_ofConfig_iff hvalid).mpr ?_⟩
  exact @OverflowsAt.layer tooLong f [.flatten "flat"] [] (.conv1d longSignals) rfl rfl
    (List.forall_mem_singleton.mpr ⟨_, rfl⟩) (Or.inr ⟨hstored, Or.inl (by decide)⟩)

/-- The build of a valid configuration may end neither with files nor with a refusal. -/
theorem not_total_of_valid :
    ¬ ∀ c : Config, c.validate = .ok () →
      (∃ result, ofConfig c = .ok result) ∨ ∃ e, ofConfig c = .error (.refused e) := by
  intro h
  have hover : tooLong.sequential = .error (.overflow .multiply) := by decide +kernel
  have hbuild : ofConfig tooLong = .error (.overflow .multiply) := by
    rw [ofConfig, hover]
    rfl
  rcases h tooLong (by decide +kernel) with ⟨result, hresult⟩ | ⟨e, he⟩
  · rw [hbuild] at hresult
    cases hresult
  · rw [hbuild] at he
    cases he

end Build

end QuantNet
