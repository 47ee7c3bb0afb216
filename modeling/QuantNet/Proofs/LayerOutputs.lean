import Mathlib.Algebra.BigOperators.Group.Finset.Basic
import QuantNet.Proofs.ConvolutionShapes

/-!
# The outputs of layers

What convolutions and fully connected layers compute, in terms of the numbers they were made from and the
numbers they are given. An output is a sum of products of stored integers, over channels and taps or over
features; it is rescaled toward zero, clamped, biased and clamped again (`QFormat.biased`).

On the way to this formula the entries change their places twice. The weight memory holds kernel after
kernel, channel after channel, and a kernel is the run of words that belongs to its output channel
(`runs_flatten`); a window is cut out of every channel and laid out in the same order
(`Conv1d.stores_window`). Here an entry is addressed by its indices in the table it came from
(`QFormat.StoresTable`, `QFormat.StoresKernels`), and two tables laid out in one order are multiplied entry by
entry (`sum_zipWith_flatMap_range`). Stored weights are turned into numbers and quantized once more before
they are multiplied; this gives the stored integers back in every format (`Layer.neuron_eq_ok`).

A fully connected layer is a convolution with one channel whose window is the whole signal
(`Linear.exists_conv1d`).
-/

namespace QuantNet

open Outcome

/-! ### Entries by place -/

/-- A list of `n` entries, each of which is related to what stands at its place. -/
def ByPlace {α β : Type} (r : α → β → Prop) (n : Nat) (xs : List α) (q : Nat → β) : Prop :=
  xs.length = n ∧ ∀ i x, xs[i]? = some x → r x (q i)

section ByPlace

variable {α β γ : Type} {r : α → β → Prop} {n : Nat} {xs : List α} {q : Nat → β}

@[simp] theorem byPlace_nil : ByPlace r 0 [] q := ⟨rfl, fun _ _ hx => by cases hx⟩

@[simp] theorem byPlace_cons_iff {x : α} :
    ByPlace r (n + 1) (x :: xs) q ↔ r x (q 0) ∧ ByPlace r n xs fun i => q (i + 1) := by
  constructor
  · rintro ⟨hlength, h⟩
    exact ⟨h 0 x rfl, Nat.succ.inj hlength, fun i y hy => h (i + 1) y hy⟩
  · rintro ⟨hfirst, hlength, h⟩
    refine ⟨congrArg Nat.succ hlength, fun i y hy => ?_⟩
    cases i with
    | zero => exact Option.some.inj hy ▸ hfirst
    | succ i => exact h i y hy

theorem ByPlace.exists_entry (h : ByPlace r n xs q) {i : Nat} (hi : i < n) : ∃ x, r x (q i) :=
  ⟨_, h.2 i _ (List.getElem?_eq_getElem (h.1.symm ▸ hi))⟩

/-- Entries by place are entries one by one. -/
theorem byPlace_iff : ByPlace r n xs q ↔ List.Forall₂ r xs ((List.range n).map q) := by
  induction xs generalizing n q with
  | nil => cases n <;> simp [ByPlace, List.range_succ_eq_map]
  | cons x xs ih =>
    cases n with
    | zero => simp [ByPlace]
    | succ n => rw [byPlace_cons_iff, ih, List.range_succ_eq_map, List.map_cons, List.map_map, List.forall₂_cons]; rfl

/-- What is related one by one can be named by place. -/
theorem exists_byPlace {s : α → γ → Prop} {g : γ → β} [Nonempty γ] {ys : List β} (h : List.Forall₂ r xs ys)
    (hs : ∀ x y, r x y → ∃ c, y = g c ∧ s x c) :
    ∃ q : Nat → γ, ys = (List.range xs.length).map (fun i => g (q i)) ∧ ByPlace s xs.length xs q := by
  induction h with
  | nil => exact ⟨fun _ => Classical.arbitrary γ, rfl, rfl, fun i x hx => by cases hx⟩
  | @cons x y xs ys hxy _ ih =>
    obtain ⟨c, rfl, hc⟩ := hs x y hxy
    obtain ⟨q, rfl, hq⟩ := ih
    refine ⟨fun i => Nat.casesOn i c q, ?_, byPlace_cons_iff.mpr ⟨hc, hq⟩⟩
    rw [List.length_cons, List.range_succ_eq_map, List.map_cons, List.map_map]
    rfl

end ByPlace

/-! ### Layouts -/

/-- The first `count` runs of `n` words each. -/
def runs (n : Nat) : (count : Nat) → List Int → List (List Int)
  | 0, _ => []
  | count + 1, words => words.take n :: runs n count (words.drop n)

/-- Rows of one length that are laid out one after the other are the runs of the layout. -/
theorem runs_flatten {rows : List (List Int)} {n : Nat} (h : ∀ row ∈ rows, row.length = n) :
    runs n rows.length rows.flatten = rows := by
  induction rows with
  | nil => rfl
  | cons row rest ih =>
    obtain ⟨hrow, hrest⟩ := List.forall_mem_cons.mp h
    rw [List.length_cons, List.flatten_cons, runs, List.take_left' hrow, List.drop_left' hrow, ih hrest]

/-- The products of two tables that are laid out in one order add up as those of their entries. -/
theorem sum_zipWith_flatMap_range (n m : Nat) (x w : Nat → Nat → Int) :
    (List.zipWith (· * ·) ((List.range n).flatMap fun c => (List.range m).map (x c))
      ((List.range n).flatMap fun c => (List.range m).map (w c))).sum =
      ∑ c ∈ Finset.range n, ∑ k ∈ Finset.range m, x c k * w c k := by
  induction n with
  | zero => rfl
  | succ n ih =>
    have hlength : ((List.range n).flatMap fun c => (List.range m).map (x c)).length =
        ((List.range n).flatMap fun c => (List.range m).map (w c)).length := by
      simp only [List.length_flatMap, List.length_map]
    rw [List.range_succ, List.flatMap_append, List.flatMap_append, List.zipWith_append hlength, List.sum_append, ih,
      Finset.sum_range_succ, List.flatMap_singleton, List.flatMap_singleton, List.zipWith_map, List.zipWith_self]
    rfl

/-! ### Stored tables -/

namespace QFormat

variable {f : QFormat}

/-- The integers that are stored for a list of `n` numbers, by place. -/
abbrev StoresList (f : QFormat) (n : Nat) : List Binary64 → (Nat → Int) → Prop :=
  ByPlace (fun v q => f.quantize v = .ok q) n

/-- The integers that are stored for `n` rows of `m` numbers, by row and place. -/
abbrev StoresTable (f : QFormat) (n m : Nat) : List (List Binary64) → (Nat → Nat → Int) → Prop :=
  ByPlace (f.StoresList m) n

/-- The integers that are stored for `count` kernels of `n` rows of `m` numbers, by kernel, row and place. -/
abbrev StoresKernels (f : QFormat) (count n m : Nat) :
    List (List (List Binary64)) → (Nat → Nat → Nat → Int) → Prop :=
  ByPlace (f.StoresTable n m) count

/-- The integers that are stored for a list of `n` numbers, by place, or zeros if the list is left out. -/
def StoresOptional (f : QFormat) (n : Nat) (vs : List Binary64) (q : Nat → Int) : Prop :=
  (vs = [] ∧ ∀ i, q i = 0) ∨ (vs ≠ [] ∧ f.StoresList n vs q)

/-- The output for a sum of products and a bias: the sum is rescaled toward zero and clamped, the bias is
added, and the result is clamped again. -/
def biased (f : QFormat) (sum bias : Int) : Int := f.clamp (f.clamp (truncate ((sum : ℚ) / 2 ^ f.fracBits)) + bias)

theorem exists_storesList {m : Nat} (row : List Binary64) (qs : List Int) (h : row.length = m ∧ f.Stores row qs) :
    ∃ q, qs = (List.range m).map q ∧ f.StoresList m row q := by
  obtain ⟨rfl, hstores⟩ := h
  exact exists_byPlace (g := id) hstores fun v q hv => ⟨q, rfl, hv⟩

theorem exists_storesTable {n m : Nat} (rows : List (List Binary64)) (qs : List (List Int))
    (h : rows.length = n ∧ List.Forall₂ (fun row q => row.length = m ∧ f.Stores row q) rows qs) :
    ∃ q, qs = (List.range n).map (fun c => (List.range m).map (q c)) ∧ f.StoresTable n m rows q := by
  obtain ⟨rfl, hrows⟩ := h
  exact exists_byPlace hrows exists_storesList

theorem exists_storesOptional {n : Nat} {bias : List Binary64} {qs : List Int} (h : Layer.StoresBias f n bias qs) :
    ∃ q, qs = (List.range n).map q ∧ f.StoresOptional n bias q := by
  rcases h with ⟨hnone, rfl⟩ | ⟨hsome, hbias⟩
  · exact ⟨fun _ => 0, by simp, .inl ⟨hnone, fun _ => rfl⟩⟩
  · obtain ⟨q, hq, hstores⟩ := exists_storesList bias qs hbias
    exact ⟨q, hq, .inr ⟨hsome, hstores⟩⟩

theorem StoresTable.length_of_mem {n m : Nat} {rows : List (List Binary64)} {q : Nat → Nat → Int}
    (h : f.StoresTable n m rows q) {row : List Binary64} (hrow : row ∈ rows) : row.length = m := by
  obtain ⟨c, hc⟩ := List.mem_iff_getElem?.mp hrow
  exact (h.2 c row hc).1

/-- Part of a stored list. -/
theorem StoresList.window {n k t : Nat} {vs : List Binary64} {q : Nat → Int} (h : f.StoresList n vs q)
    (ht : t + k ≤ n) :
    f.StoresList k ((vs.drop t).take k) fun i => q (t + i) := by
  obtain ⟨hlength, hstored⟩ := h
  refine ⟨by rw [List.length_take, List.length_drop]; omega, fun i v hv => ?_⟩
  rw [List.getElem?_take, List.getElem?_drop] at hv
  split at hv
  · exact hstored _ _ hv
  · cases hv

/-- Parts of stored rows that are laid out one after the other. -/
theorem StoresTable.flatMap {n m k : Nat} {rows : List (List Binary64)} {q : Nat → Nat → Int}
    (h : f.StoresTable n m rows q) (part : List Binary64 → List Binary64) (place : Nat → Nat)
    (hpart : ∀ row c, f.StoresList m row (q c) → f.StoresList k (part row) fun i => q c (place i)) :
    f.Stores (rows.flatMap part) ((List.range n).flatMap fun c => (List.range k).map fun i => q c (place i)) := by
  have hrows : List.Forall₂ (fun row c => f.StoresList m row (q c)) rows (List.range n) := by
    rw [← List.forall₂_map_right_iff (f := q)]
    exact byPlace_iff.mp h
  exact List.rel_flatMap hrows fun row c hrow => byPlace_iff.mp (hpart row c hrow)

/-- Stored rows that are laid out one after the other. -/
theorem StoresTable.flatten {n m : Nat} {rows : List (List Binary64)} {q : Nat → Nat → Int}
    (h : f.StoresTable n m rows q) :
    f.Stores rows.flatten ((List.range n).flatMap fun c => (List.range m).map (q c)) := by
  rw [← List.flatMap_id]
  exact h.flatMap id id fun _ _ hrow => hrow

theorem biased_eq (f : QFormat) (sum bias : Int) :
    f.clamp (f.clamp (sum.tdiv f.unit) + bias) = f.biased sum bias := by
  have hunit : 0 < f.unit := Nat.two_pow_pos _
  rw [biased, ← truncate_div sum hunit, f.cast_unit]

end QFormat

/-- The output of a neuron whose inputs and weights are the parts of tables of one shape, laid out in one order. -/
theorem Layer.neuron_eq_biased {f : QFormat} {n k : Nat} {inputs weights : List Binary64} {x w : Nat → Nat → Int}
    (bias : Int) (hinputs : f.Stores inputs ((List.range n).flatMap fun c => (List.range k).map (x c)))
    (hweights : f.Stores weights ((List.range n).flatMap fun c => (List.range k).map (w c)))
    (hroom : n * k * 4 ^ (f.totalBits - 1) < 2 ^ 127) :
    neuron f inputs ((List.range n).flatMap fun c => (List.range k).map (w c)) bias =
      .ok (f.biased (∑ c ∈ Finset.range n, ∑ i ∈ Finset.range k, x c i * w c i) bias) := by
  have hlength : ∀ q : Nat → Nat → Int, ((List.range n).flatMap fun c => (List.range k).map (q c)).length = n * k := by
    intro q
    simp [List.length_flatMap]
  have hcount : inputs.length = n * k := hinputs.length_eq.trans (hlength x)
  have hstored : ∀ q ∈ (List.range n).flatMap fun c => (List.range k).map (w c), ∃ v, f.quantize v = .ok q := by
    intro q hq
    obtain ⟨v, -, hv⟩ := exists_left_of_mem hweights hq
    exact ⟨v, hv⟩
  rw [neuron_eq_ok bias hinputs (hcount.trans (hlength w).symm) hstored (hcount ▸ hroom),
    sum_zipWith_flatMap_range, QFormat.biased_eq]

/-- The output of a neuron whose inputs and weights are stored lists. -/
theorem Layer.neuron_eq_biased_of_lists {f : QFormat} {n : Nat} {inputs weights : List Binary64} {x w : Nat → Int}
    (bias : Int) (hinputs : f.StoresList n inputs x) (hweights : f.StoresList n weights w)
    (hroom : n * 4 ^ (f.totalBits - 1) < 2 ^ 127) :
    neuron f inputs ((List.range n).map w) bias = .ok (f.biased (∑ i ∈ Finset.range n, x i * w i) bias) := by
  have hone : ∀ q : Nat → Int, ((List.range 1).flatMap fun _ => (List.range n).map q) = (List.range n).map q :=
    fun q => by rw [List.range_one, List.flatMap_singleton]
  have hneuron := neuron_eq_biased (n := 1) (k := n) (x := fun _ => x) (w := fun _ => w) bias
    ((hone x).symm ▸ byPlace_iff.mp hinputs) ((hone w).symm ▸ byPlace_iff.mp hweights) (by rwa [Nat.one_mul])
  rwa [hone, Finset.sum_range_one] at hneuron

/-! ### Convolutions -/

namespace Conv1d

/-- A convolution that is made keeps the stored integers of its parameters, the kernels as runs of its weight memory. -/
theorem exists_stored_of_make {name : String} {f : QFormat} {inChannels outChannels signalLength kernelSize : Nat}
    {weights : List (List (List Binary64))} {bias : List Binary64} {l : Conv1d}
    (h : make name f inChannels outChannels signalLength kernelSize weights bias = .ok l) :
    ∃ w b, f.StoresKernels outChannels inChannels kernelSize weights w ∧ f.StoresOptional outChannels bias b ∧
      l = ⟨name, f, inChannels, outChannels, signalLength, kernelSize,
        (List.range outChannels).map fun o => (List.range inChannels).map fun c => (List.range kernelSize).map (w o c),
        (List.range outChannels).map b, Rom.defaultStyle⟩ := by
  obtain ⟨kernels, stored, rfl, -, -, -, -, rfl, hkernels, hbias, -, -⟩ := of_make h
  obtain ⟨w, rfl, hw⟩ := exists_byPlace hkernels QFormat.exists_storesTable
  obtain ⟨b, rfl, hb⟩ := QFormat.exists_storesOptional hbias
  exact ⟨w, b, hw, hb, rfl⟩

/-- The kernels of a convolution are the runs of its weight memory. -/
theorem Shaped.runs_weights {l : Conv1d} (hl : l.Shaped) :
    runs (l.inChannels * l.kernelSize) l.outChannels l.weights = l.kernels.map List.flatten := by
  have hrows : ∀ row ∈ l.kernels.map List.flatten, row.length = l.inChannels * l.kernelSize :=
    List.forall_mem_map.mpr hl.taps_length
  have hcount : (l.kernels.map List.flatten).length = l.outChannels := by rw [List.length_map, hl.kernels_length]
  rw [weights, ← hcount, runs_flatten hrows]

/-- What a convolution is made from. -/
theorem make_eq_ok {name : String} {f : QFormat} {inChannels outChannels signalLength kernelSize : Nat}
    {weights : List (List (List Binary64))} {bias : List Binary64} {kernels : List (List (List Int))}
    {stored : List Int} (hin : inChannels ≠ 0) (hout : outChannels ≠ 0) (hkernel : kernelSize ≠ 0) (hfits : kernelSize ≤ signalLength)
    (hcount : weights.length = outChannels) (hroom : 8 * (outChannels * inChannels * kernelSize) < 2 ^ 63)
    (hkernels : List.Forall₂ (fun kernel q => kernel.length = inChannels ∧
      List.Forall₂ (fun row q => row.length = kernelSize ∧ f.Stores row q) kernel q) weights kernels)
    (hbias : Layer.StoresBias f outChannels bias stored) (hinputs : signalLength * inChannels < 2 ^ 64)
    (houtputs : (signalLength - kernelSize + 1) * outChannels < 2 ^ 64) :
    make name f inChannels outChannels signalLength kernelSize weights bias =
      .ok ⟨name, f, inChannels, outChannels, signalLength, kernelSize, kernels, stored, Rom.defaultStyle⟩ := by
  have hpairs : outChannels * inChannels ≤ outChannels * inChannels * kernelSize :=
    Nat.le_mul_of_pos_right _ (Nat.pos_of_ne_zero hkernel)
  simp only [make, refuse_guard_eq_ok_iff, bind_eq_ok_iff, Layer.checkLength_eq_ok_iff, sizeMul_eq_ok_iff,
    reserve_eq_ok_iff, quantizeKernels_eq_ok_iff, Layer.quantizeBias_eq_ok_iff]
  exact ⟨by omega, by omega, (), hcount, _, ⟨by omega, rfl⟩, _, ⟨by omega, rfl⟩, (), hroom, kernels, hkernels, stored,
    hbias, _, ⟨hinputs, rfl⟩, _, ⟨houtputs, rfl⟩, rfl⟩

section Forward

variable {l : Conv1d} {input : List (List Binary64)} {x : Nat → Nat → Int}

/-- A window holds, channel after channel, what is stored from its time step on. -/
theorem stores_window {t : Nat} (hx : l.format.StoresTable l.inChannels l.signalLength input x)
    (ht : t + l.kernelSize ≤ l.signalLength) :
    l.format.Stores (l.window input t)
      ((List.range l.inChannels).flatMap fun c => (List.range l.kernelSize).map fun k => x c (t + k)) :=
  hx.flatMap _ _ fun _ _ hchannel => hchannel.window ht

/-- The outputs of a convolution whose kernels hold what is stored for its weights. -/
theorem forward_of_stores {weights : List (List (List Binary64))} {w : Nat → Nat → Nat → Int} {b : Nat → Int}
    (hw : l.format.StoresKernels l.outChannels l.inChannels l.kernelSize weights w)
    (hkernels : l.kernels = (List.range l.outChannels).map fun o =>
      (List.range l.inChannels).map fun c => (List.range l.kernelSize).map (w o c))
    (hbias : l.bias = (List.range l.outChannels).map b) (hfits : l.kernelSize ≤ l.signalLength)
    (hword : l.signalLength + 1 < 2 ^ 64) (hx : l.format.StoresTable l.inChannels l.signalLength input x)
    (hroom : l.inChannels * l.kernelSize * 4 ^ (l.format.totalBits - 1) < 2 ^ 127) :
    l.forward input = .ok ((List.range l.outChannels).map fun o =>
      (List.range (l.signalLength - l.kernelSize + 1)).map fun t => l.format.toRational (l.format.biased
        (∑ c ∈ Finset.range l.inChannels, ∑ k ∈ Finset.range l.kernelSize, x c (t + k) * w o c k) (b o))) := by
  refine forward_eq_ok_iff.mpr ⟨hx.1, fun channel => hx.length_of_mem, hword, ?_⟩
  rw [hkernels, hbias, List.zip_map', List.forall₂_map_left_iff, List.forall₂_map_right_iff, List.forall₂_same]
  intro o ho
  rw [Nat.sub_add_comm hfits, List.forall₂_map_right_iff, List.forall₂_same]
  intro t ht
  obtain ⟨kernel, hkernel⟩ := hw.exists_entry (List.mem_range.mp ho)
  have hsteps : t + l.kernelSize ≤ l.signalLength := by
    rw [List.mem_range] at ht
    omega
  refine ⟨_, ?_, rfl⟩
  rw [← List.flatMap_def]
  exact Layer.neuron_eq_biased (b o) (stores_window hx hsteps) hkernel.flatten hroom

/-- The windows of a convolution over one channel, if the window is the whole signal: there is only this one. -/
theorem forward_wholeSignal {rows : List (List Int)} {signal : List Binary64} (hin : l.inChannels = 1)
    (hsize : l.kernelSize = l.signalLength) (hword : l.signalLength + 1 < 2 ^ 64)
    (hkernels : l.kernels = rows.map fun row => [row]) (hsignal : signal.length = l.signalLength) :
    (l.forward [signal]).map List.flatten =
      (rows.zip l.bias).mapM fun p => (Layer.neuron l.format signal p.1 p.2).map l.format.toRational := by
  have hlength : Layer.checkLength l.name "input" [signal] l.inChannels = .ok () :=
    Layer.checkLength_eq_ok_iff.mpr hin.symm
  have hchannels : l.checkChannels 0 [signal] = .ok () :=
    checkChannels_eq_ok_iff.mpr (List.forall_mem_singleton.mpr hsignal)
  have hsteps : (l.outputLength : Checked LayerError Nat) = .ok 1 := by
    rw [outputLength, hsize, lengthOfOutput_eq_ok le_rfl hword, Nat.sub_self]
  have hwindow : l.window [signal] 0 = signal := by
    rw [window, List.flatMap_singleton, List.drop_zero, hsize, ← hsignal, List.take_length]
  rw [forward, hlength, ok_bind, hchannels, ok_bind, hsteps, ok_bind, hkernels, List.zip_map_left, List.mapM_map]
  simp only [Function.comp_def, Prod.map, List.range_one, mapM_singleton, hwindow, List.flatten_singleton, id]
  exact mapM_map_singleton _ _

end Forward

/-- **The outputs of a convolution.** A convolution that is made stores its weights and its bias, and its kernels are
the runs of its weight memory. An input of the declared shape that is stored and that a machine can hold, which means
that the bytes of a channel are counted by a signed word, has one row of outputs per output channel and one output per
position of the window: the biased sum of products over all channels and taps. -/
theorem forward_eq_sums {name : String} {f : QFormat} {inChannels outChannels signalLength kernelSize : Nat}
    {weights : List (List (List Binary64))} {bias : List Binary64} {l : Conv1d}
    (h : make name f inChannels outChannels signalLength kernelSize weights bias = .ok l) :
    runs (inChannels * kernelSize) outChannels l.weights = l.kernels.map List.flatten ∧
    ∃ w b, f.StoresKernels outChannels inChannels kernelSize weights w ∧ f.StoresOptional outChannels bias b ∧
      ∀ input x, f.StoresTable inChannels signalLength input x → (∀ channel ∈ input, 8 * channel.length < 2 ^ 63) →
        inChannels * kernelSize * 4 ^ (f.totalBits - 1) < 2 ^ 127 →
        l.forward input = .ok ((List.range outChannels).map fun o =>
          (List.range (signalLength - kernelSize + 1)).map fun t =>
            f.toRational (f.biased (∑ c ∈ Finset.range inChannels, ∑ k ∈ Finset.range kernelSize, x c (t + k) * w o c k)
              (b o))) := by
  have hwell := wellFormed_of_make h
  have hruns := (shaped_of_make h l.romStyle).runs_weights
  obtain ⟨w, b, hw, hb, rfl⟩ := exists_stored_of_make h
  refine ⟨hruns, w, b, hw, hb, fun input x hx hheld hroom => ?_⟩
  have hword : signalLength + 1 < 2 ^ 64 := by
    obtain ⟨channel, hchannel⟩ := List.exists_mem_of_length_pos (hx.1 ▸ hwell.inChannels_pos)
    have hbytes := hheld channel hchannel
    rw [hx.length_of_mem hchannel] at hbytes
    omega
  exact forward_of_stores hw rfl rfl hwell.kernelSize_le hword hx hroom

/-- The first sum is `-7`, which goes to `-3` when it is rescaled, and the second one is too large. -/
theorem forward_twoChannels :
    let f : QFormat := { totalBits := 4, fracBits := 1 }
    ∃ l, make "conv" f 2 1 3 2 [[[.ofQuotient 3 2, .ofInt (-2)], [.ofQuotient 1 2, .ofInt 1]]] [.ofInt (-1)] = .ok l ∧
      l.forward [[.ofInt 1, .ofInt 2, .ofQuotient (-3) 2], [.ofQuotient 7 2, .ofInt (-1), .ofQuotient 1 2]] =
        .ok [[.ofQuotient (-5) 2, .ofQuotient 5 2]] := by
  intro f
  obtain ⟨l, hl⟩ := exists_eq_ok_of_isOk (x := make "conv" f 2 1 3 2
    [[[.ofQuotient 3 2, .ofInt (-2)], [.ofQuotient 1 2, .ofInt 1]]] [.ofInt (-1)]) (by decide +kernel)
  obtain ⟨-, w, b, hw, hb, hforward⟩ := forward_eq_sums hl
  have hx : f.StoresTable 2 3
      [[.ofInt 1, .ofInt 2, .ofQuotient (-3) 2], [.ofQuotient 7 2, .ofInt (-1), .ofQuotient 1 2]]
      (fun c s => if c = 0 then [2, 4, -3].getD s 0 else [7, -2, 1].getD s 0) := by
    simp only [byPlace_cons_iff, byPlace_nil]
    decide +kernel
  have hquantize : f.quantize (.ofQuotient 3 2) = .ok 3 ∧ f.quantize (.ofInt (-2)) = .ok (-4) ∧
      f.quantize (.ofQuotient 1 2) = .ok 1 ∧ f.quantize (.ofInt 1) = .ok 2 ∧ f.quantize (.ofInt (-1)) = .ok (-2) := by
    decide +kernel
  simp only [QFormat.StoresOptional, byPlace_cons_iff, byPlace_nil, hquantize, Except.ok.injEq, reduceCtorEq, false_and,
    false_or, ne_eq, not_false_eq_true, true_and, and_true, Nat.zero_add] at hw hb
  obtain ⟨⟨hfirst, hsecond⟩, hthird, hfourth⟩ := hw
  refine ⟨l, hl, ?_⟩
  rw [hforward _ _ hx (by decide) (by decide)]
  simp only [List.range_succ, List.range_zero, List.nil_append, List.map_append, List.map_cons, List.map_nil,
    Finset.sum_range_succ, Finset.sum_range_zero, ← QFormat.biased_eq]
  rw [← hfirst, ← hsecond, ← hthird, ← hfourth, ← hb]
  decide +kernel

end Conv1d

/-! ### Fully connected layers -/

namespace Linear

variable {name : String} {f : QFormat} {inFeatures outFeatures : Nat} {weights : List (List Binary64)}
  {bias : List Binary64} {l : Linear}

/-- There is room for the weights of a fully connected layer that is made. -/
theorem room_of_make (h : make name f inFeatures outFeatures weights bias = .ok l) :
    8 * (inFeatures * outFeatures) < 2 ^ 63 := by
  simp only [make, refuse_guard_eq_ok_iff, bind_eq_ok_iff, sizeMul_eq_ok_iff, reserve_eq_ok_iff] at h
  obtain ⟨-, -, -, words, ⟨-, rfl⟩, -, hroom, -⟩ := h
  exact hroom

/-- A fully connected layer that is made keeps the stored integers of its parameters. -/
theorem exists_stored_of_make (h : make name f inFeatures outFeatures weights bias = .ok l) :
    ∃ w b, f.StoresTable outFeatures inFeatures weights w ∧ f.StoresOptional outFeatures bias b ∧
      l = ⟨name, f, inFeatures, outFeatures, (List.range outFeatures).map fun o => (List.range inFeatures).map (w o),
        (List.range outFeatures).map b, Rom.defaultStyle⟩ := by
  obtain ⟨rows, stored, rfl, -, -, rfl, hrows, hbias⟩ := of_make h
  obtain ⟨w, rfl, hw⟩ := exists_byPlace hrows QFormat.exists_storesList
  obtain ⟨b, rfl, hb⟩ := QFormat.exists_storesOptional hbias
  exact ⟨w, b, hw, hb, rfl⟩

/-- The outputs of a fully connected layer whose rows hold what is stored for its weights. -/
theorem forward_of_stores {w : Nat → Nat → Int} {b x : Nat → Int} {input : List Binary64}
    (hw : l.format.StoresTable l.outFeatures l.inFeatures weights w)
    (hrows : l.rows = (List.range l.outFeatures).map fun o => (List.range l.inFeatures).map (w o))
    (hbias : l.bias = (List.range l.outFeatures).map b) (hx : l.format.StoresList l.inFeatures input x)
    (hroom : l.inFeatures * 4 ^ (l.format.totalBits - 1) < 2 ^ 127) :
    l.forward input = .ok ((List.range l.outFeatures).map fun o => l.format.toRational
      (l.format.biased (∑ i ∈ Finset.range l.inFeatures, x i * w o i) (b o))) := by
  have hlength : Layer.checkLength l.name "input" input l.inFeatures = .ok () := Layer.checkLength_eq_ok_iff.mpr hx.1
  rw [forward, hlength, ok_bind, hrows, hbias, List.zip_map', List.mapM_map]
  refine mapM_eq_ok_map fun o ho => ?_
  obtain ⟨row, hrow⟩ := hw.exists_entry (List.mem_range.mp ho)
  simp only [Function.comp_apply]
  rw [Layer.neuron_eq_biased_of_lists (b o) hx hrow hroom, map_ok_eq]

/-- A fully connected layer is a convolution over one channel whose window is the whole signal. -/
theorem exists_conv1d (h : make name f inFeatures outFeatures weights bias = .ok l) (other : String) :
    ∃ conv, Conv1d.make other f 1 outFeatures inFeatures inFeatures (weights.map fun row => [row]) bias = .ok conv ∧
      ∀ input, input.length = inFeatures → (conv.forward [input]).map List.flatten = l.forward input := by
  have hroom := room_of_make h
  obtain ⟨rows, stored, rfl, hin, hout, rfl, hrows, hbias⟩ := of_make h
  have hinputs : inFeatures ≤ inFeatures * weights.length := Nat.le_mul_of_pos_right _ (Nat.pos_of_ne_zero hout)
  have houtputs : weights.length ≤ inFeatures * weights.length := Nat.le_mul_of_pos_left _ (Nat.pos_of_ne_zero hin)
  have hkernels : List.Forall₂ (fun kernel q => kernel.length = 1 ∧
      List.Forall₂ (fun row q => row.length = inFeatures ∧ f.Stores row q) kernel q)
      (weights.map fun row => [row]) (rows.map fun row => [row]) := by
    rw [List.forall₂_map_left_iff, List.forall₂_map_right_iff]
    exact hrows.imp fun row q hrow => ⟨rfl, .cons hrow .nil⟩
  refine ⟨_, Conv1d.make_eq_ok Nat.one_ne_zero hout hin le_rfl (List.length_map _)
    (by rwa [Nat.mul_one, Nat.mul_comm weights.length]) hkernels hbias (by omega)
    (by rw [Nat.sub_self, Nat.zero_add, Nat.one_mul]; omega), fun input hinput => ?_⟩
  have hword : inFeatures + 1 < 2 ^ 64 := by omega
  have hlength : Layer.checkLength name "input" input inFeatures = .ok () := Layer.checkLength_eq_ok_iff.mpr hinput
  rw [Conv1d.forward_wholeSignal rfl rfl hword rfl hinput, forward, hlength, ok_bind]

/-- **The outputs of a fully connected layer.** A fully connected layer that is made stores its weights and its bias,
and its rows are the runs of its weight memory. An input that is stored has one output for every row: the biased sum
of products over all features. The convolution over one channel with the same rows as kernels and the same bias, whose
window is the whole signal, can be made too, and its outputs, laid out one after the other, are those of the layer for
every input of the right length, also where there are none. -/
theorem forward_eq_conv1d_forward (h : make name f inFeatures outFeatures weights bias = .ok l) :
    runs inFeatures outFeatures l.weights = l.rows ∧
    (∃ w b, f.StoresTable outFeatures inFeatures weights w ∧ f.StoresOptional outFeatures bias b ∧
      ∀ input x, f.StoresList inFeatures input x → inFeatures * 4 ^ (f.totalBits - 1) < 2 ^ 127 →
        l.forward input = .ok ((List.range outFeatures).map fun o =>
          f.toRational (f.biased (∑ i ∈ Finset.range inFeatures, x i * w o i) (b o)))) ∧
    ∀ other, ∃ conv,
      Conv1d.make other f 1 outFeatures inFeatures inFeatures (weights.map fun row => [row]) bias = .ok conv ∧
      ∀ input, input.length = inFeatures → (conv.forward [input]).map List.flatten = l.forward input := by
  refine ⟨?_, ?_, exists_conv1d h⟩
  · obtain ⟨rows, stored, rfl, -, -, hcount, hrows, -⟩ := of_make h
    have hlength : ∀ row ∈ rows, row.length = inFeatures := by
      intro row hrow
      obtain ⟨vs, -, hvs, hstores⟩ := exists_left_of_mem hrows hrow
      exact hstores.length_eq.symm.trans hvs
    rw [Linear.weights, ← hcount, hrows.length_eq, runs_flatten hlength]
  · obtain ⟨w, b, hw, hb, rfl⟩ := exists_stored_of_make h
    exact ⟨w, b, hw, hb, fun input x hx hroom => forward_of_stores hw rfl rfl hx hroom⟩

/-- One feature whose product with the first weight is clamped before the bias is added, while the second sum needs
more digits than a floating-point number has. -/
theorem forward_longDigits :
    let f : QFormat := { totalBits := 64, fracBits := 3 }
    ∃ l conv, make "fc" f 1 2 [[.ofQuotient (10 ^ 17) 3], [.ofInt (-3)]] [.ofInt (-1), .ofInt 2] = .ok l ∧
      Conv1d.make "conv" f 1 2 1 1 [[[.ofQuotient (10 ^ 17) 3]], [[.ofInt (-3)]]] [.ofInt (-1), .ofInt 2] = .ok conv ∧
      l.forward [.ofQuotient (10 ^ 17) 3] = .ok [f.toRational (2 ^ 63 - 9), f.toRational (-799999999999999952)] ∧
      (conv.forward [[.ofQuotient (10 ^ 17) 3]]).map List.flatten = l.forward [.ofQuotient (10 ^ 17) 3] := by
  intro f
  obtain ⟨l, hl⟩ := exists_eq_ok_of_isOk (x := make "fc" f 1 2 [[.ofQuotient (10 ^ 17) 3], [.ofInt (-3)]]
    [.ofInt (-1), .ofInt 2]) (by decide +kernel)
  obtain ⟨-, ⟨w, b, hw, hb, hforward⟩, hconv⟩ := forward_eq_conv1d_forward hl
  obtain ⟨conv, hmake, hsame⟩ := hconv "conv"
  have hx : f.StoresList 1 [.ofQuotient (10 ^ 17) 3] (fun _ => 266666666666666656) := by
    simp only [byPlace_cons_iff, byPlace_nil]
    decide +kernel
  have hquantize : f.quantize (.ofQuotient (10 ^ 17) 3) = .ok 266666666666666656 ∧
      f.quantize (.ofInt (-3)) = .ok (-24) ∧ f.quantize (.ofInt (-1)) = .ok (-8) ∧ f.quantize (.ofInt 2) = .ok 16 := by
    decide +kernel
  simp only [QFormat.StoresOptional, byPlace_cons_iff, byPlace_nil, hquantize, Except.ok.injEq, reduceCtorEq, false_and,
    false_or, ne_eq, not_false_eq_true, true_and, and_true, Nat.zero_add] at hw hb
  obtain ⟨hlong, hminus⟩ := hw
  obtain ⟨hdown, hup⟩ := hb
  refine ⟨l, conv, hl, hmake, ?_, hsame _ rfl⟩
  rw [hforward _ _ hx (by decide)]
  simp only [List.range_succ, List.range_zero, List.nil_append, List.map_append, List.map_cons, List.map_nil,
    Finset.sum_range_succ, Finset.sum_range_zero, ← QFormat.biased_eq]
  rw [← hlong, ← hminus, ← hdown, ← hup]
  decide +kernel

end Linear

end QuantNet
