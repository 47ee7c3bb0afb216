import Mathlib.Data.List.Forall2
import QuantNet.Proofs.FileSets
import QuantNet.Proofs.AddressWidths
import QuantNet.Proofs.Bits
import QuantNet.Proofs.TrainedLayers

/-!
# Memories of trained parameters

A layer finds its parameters by counting: the weight of input `i` for output `o` is the word at address
`o * inFeatures + i`, and a tap of a convolution is found in the same way. The words themselves are
literals in a source file that the layer writes. Here both are put together: rows of one length that are
laid out one after the other are addressed by such counts (`getElem?_flatten_rows`), the address reaches
every word (`le_two_pow_addressWidth`), the words behind the parameters are zeros, and every literal
is read back as the integer it was written for (`Rom.holdsAt_literals`).
-/

namespace QuantNet

/-! ### Addresses -/

/-- Rows of one length that are laid out one after the other are addressed by row and place. -/
theorem getElem?_flatten_rows {α : Type} {rows : List (List α)} {n : Nat} (h : ∀ row ∈ rows, row.length = n)
    (o : Nat) {i : Nat} (hi : i < n) : rows.flatten[o * n + i]? = rows[o]?.bind (·[i]?) := by
  induction rows generalizing o with
  | nil => rfl
  | cons row rest ih =>
    have hrow : row.length = n := h row List.mem_cons_self
    rw [List.flatten_cons]
    cases o with
    | zero => rw [List.getElem?_append_left (by omega), List.getElem?_cons_zero, Option.bind_some, Nat.zero_mul,
        Nat.zero_add]
    | succ o =>
      have hbehind : (o + 1) * n + i - row.length = o * n + i := by
        rw [hrow, Nat.succ_mul]
        omega
      rw [List.getElem?_append_right (by rw [hrow, Nat.succ_mul]; omega), hbehind, List.getElem?_cons_succ,
        ih fun r hr => h r (List.mem_cons_of_mem _ hr)]

/-- The entry at a place of rows, addressed by the count of row and place. -/
def InRows {α : Type} (n : Nat) (rows : List (List α)) (k : Nat) (a : α) : Prop :=
  ∃ o i row, rows[o]? = some row ∧ row[i]? = some a ∧ k = o * n + i

/-- The entry at a place of kernels, addressed by the count of kernel, row and place. -/
def InKernels {α : Type} (channels n : Nat) (kernels : List (List (List α))) (k : Nat) (a : α) : Prop :=
  ∃ o c t kernel row, kernels[o]? = some kernel ∧ kernel[c]? = some row ∧ row[t]? = some a ∧
    k = (o * channels + c) * n + t

theorem inRows_iff {α : Type} {n : Nat} {rows : List (List α)} (h : ∀ row ∈ rows, row.length = n) (k : Nat) (a : α) :
    InRows n rows k a ↔ rows.flatten[k]? = some a := by
  constructor
  · rintro ⟨o, i, row, hrow, ha, rfl⟩
    have hi : i < n := h row (List.mem_of_getElem? hrow) ▸ (List.getElem?_eq_some_iff.mp ha).1
    rw [getElem?_flatten_rows h o hi, hrow, Option.bind_some, ha]
  · intro ha
    -- without a place in a row there is no entry at all
    rcases Nat.eq_zero_or_pos n with rfl | hn
    · have hnil : rows.flatten = [] :=
        List.flatten_eq_nil_iff.mpr fun row hrow => List.eq_nil_of_length_eq_zero (h row hrow)
      rw [hnil] at ha
      cases ha
    · have hk : k / n * n + k % n = k := Nat.div_add_mod' k n
      rw [← hk, getElem?_flatten_rows h _ (Nat.mod_lt k hn)] at ha
      obtain ⟨row, hrow, ha⟩ := Option.bind_eq_some_iff.mp ha
      exact ⟨k / n, k % n, row, hrow, ha, hk.symm⟩

/-- Kernels are rows of rows. -/
theorem inKernels_iff {α : Type} {channels n : Nat} {kernels : List (List (List α))}
    (h : ∀ kernel ∈ kernels, kernel.length = channels) (k : Nat) (a : α) :
    InKernels channels n kernels k a ↔ InRows n kernels.flatten k a := by
  constructor
  · rintro ⟨o, c, t, kernel, row, hkernel, hrow, ha, rfl⟩
    exact ⟨o * channels + c, t, row, (inRows_iff h _ _).mp ⟨o, c, kernel, hkernel, hrow, rfl⟩, ha, rfl⟩
  · rintro ⟨j, t, row, hrow, ha, rfl⟩
    obtain ⟨o, c, kernel, hkernel, hc, rfl⟩ := (inRows_iff h _ _).mpr hrow
    exact ⟨o, c, t, kernel, row, hkernel, hc, ha, rfl⟩

theorem length_flatten_rows {α : Type} {rows : List (List α)} {n : Nat} (h : ∀ row ∈ rows, row.length = n) :
    rows.flatten.length = rows.length * n := by
  rw [List.length_flatten, List.sum_eq_card_nsmul _ n (List.forall_mem_map.mpr h), List.length_map, Nat.nsmul_eq_mul]

/-! ### Literals -/

namespace QFormat

/-- The quoted text of a bit string that the format reads as a stored integer. -/
def ReadsLiteral (f : QFormat) (literal : String) (q : Int) : Prop :=
  ∃ text bits, literal = "\"" ++ text ++ "\"" ∧ Bits.parse text = .ok bits ∧ f.decodeInt bits = .ok q

/-- The quoted text of as many zeros as the format has bits. -/
def zeroLiteral (f : QFormat) : String := "\"" ++ String.ofList (List.replicate f.totalBits '0') ++ "\""

/-- The integers at the places of numbers are those that are stored for them, and all others are zero. -/
structure StoresAt (f : QFormat) (place : Nat → Binary64 → Prop) (qs : List Int) : Prop where
  stored : ∀ k v, place k v → ∃ q, f.quantize v = .ok q ∧ qs[k]? = some q
  zero : ∀ k q, qs[k]? = some q → (∀ v, ¬ place k v) → q = 0

/-- The literals at the places of numbers are read as what is stored for them, and all others are zeros. -/
structure HoldsAt (f : QFormat) (place : Nat → Binary64 → Prop) (literals : List String) : Prop where
  stored : ∀ k v, place k v →
    ∃ q literal, f.quantize v = .ok q ∧ literals[k]? = some literal ∧ f.ReadsLiteral literal q
  zero : ∀ k literal, literals[k]? = some literal → (∀ v, ¬ place k v) →
    literal = f.zeroLiteral ∧ f.ReadsLiteral literal 0

variable {f : QFormat}

theorem contains_zero (f : QFormat) : f.contains 0 = true := by
  rw [contains_iff, minInt, maxInt]
  have hpos : 0 < twoPow (f.totalBits - 1) := twoPow_eq _ ▸ Nat.two_pow_pos _
  omega

/-- A stored integer is read back from its literal. -/
theorem readsLiteral_literal {q : Int} (h : f.contains q = true) :
    f.ReadsLiteral (Bits.literal q f.totalBits) q :=
  ⟨_, _, rfl, Bits.parse_text _, f.decodeInt_ofInt h⟩

theorem literal_zero (f : QFormat) : Bits.literal 0 f.totalBits = f.zeroLiteral := by
  have hbit : ∀ i, Bits.bitOfInt 0 i = false := fun i => by simp [Bits.bitOfInt]
  simp [Bits.literal, zeroLiteral, Bits.text, Bits.ofInt, hbit, Logic.ofBool, Logic.toChar]

/-- Numbers that are stored one after the other are found at their index. -/
theorem Stores.storesAt {vs : List Binary64} {qs : List Int} (h : f.Stores vs qs) :
    f.StoresAt (fun k v => vs[k]? = some v) qs where
  stored k v hv := by
    obtain ⟨hk, rfl⟩ := List.getElem?_eq_some_iff.mp hv
    have hq : k < qs.length := h.length_eq ▸ hk
    exact ⟨qs[k], h.get hk hq, List.getElem?_eq_getElem hq⟩
  zero k q hq hnone := by
    have hk : k < vs.length := h.length_eq ▸ (List.getElem?_eq_some_iff.mp hq).1
    exact absurd (List.getElem?_eq_getElem hk) (hnone _)

end QFormat

theorem Layer.StoresBias.storesAt {f : QFormat} {length : Nat} {bias : List Binary64} {qs : List Int}
    (h : StoresBias f length bias qs) : f.StoresAt (fun k v => bias[k]? = some v) qs := by
  rcases h with ⟨rfl, rfl⟩ | ⟨-, -, hstores⟩
  · refine ⟨fun k v hv => ?_, fun k q hq _ => List.eq_of_mem_replicate (List.mem_of_getElem? hq)⟩
    cases hv
  · exact hstores.storesAt

/-! ### Memories -/

/-- The lines declare a memory of literals with an address of the given width, one literal for each address. -/
structure DeclaresMemory (lines : List String) (name : String) (width addressBits : Nat) (literals : List String) :
    Prop where
  address : "        addr : in std_logic_vector(" ++ Text.ofNat addressBits ++ "-1 downto 0);" ∈ lines
  type : "    type " ++ name ++ "_array_t is array (0 to 2**" ++ Text.ofNat addressBits ++ "-1) of std_logic_vector(" ++
    Text.ofNat width ++ "-1 downto 0);" ∈ lines
  contents : "    signal ROM : " ++ name ++ "_array_t:=(" ++ ",".intercalate literals ++ ");" ∈ lines
  length : literals.length = 2 ^ addressBits

namespace Rom

/-- There is a word for every address. -/
theorem length_words (r : Rom) : r.words.length = 2 ^ r.addressBits := by
  have hle : r.values.length ≤ 2 ^ r.addressBits := le_two_pow_addressWidth _
  simp only [words, List.length_append, List.length_replicate, twoPow_eq]
  omega

theorem length_literals (r : Rom) : r.literals.length = 2 ^ r.addressBits := by
  rw [literals, List.length_map, length_words]

/-- A memory that stores numbers at places holds literals for them there, and zeros elsewhere. -/
theorem holdsAt_literals {r : Rom} {f : QFormat} {place : Nat → Binary64 → Prop} (hwidth : r.dataWidth = f.totalBits)
    (h : f.StoresAt place r.values) : f.HoldsAt place r.literals where
  stored k v hv := by
    obtain ⟨q, hq, hk⟩ := h.stored k v hv
    refine ⟨q, Bits.literal q f.totalBits, hq, ?_, f.readsLiteral_literal (f.contains_of_quantize hq)⟩
    have hword : r.words[k]? = some q := by
      rw [words, List.getElem?_append_left (List.getElem?_eq_some_iff.mp hk).1, hk]
    rw [literals, List.getElem?_map, hword, hwidth]
    rfl
  zero k literal hk hnone := by
    rw [literals, List.getElem?_map] at hk
    obtain ⟨w, hw, rfl⟩ := Option.map_eq_some_iff.mp hk
    have hzero : w = 0 := by
      rw [words, List.getElem?_append] at hw
      split_ifs at hw
      · exact h.zero k w hw hnone
      · exact List.eq_of_mem_replicate (List.mem_of_getElem? hw)
    subst hzero
    rw [hwidth]
    exact ⟨f.literal_zero, f.readsLiteral_literal f.contains_zero⟩

/-- Declarations are lines, moved in by one step. -/
theorem mem_render_of_declaration {r : Rom} {d : String} (h : d ∈ r.architecture.declarations) :
    "    " ++ d ∈ r.render := by
  have hindent : "    " ++ d ∈ Vhdl.indent r.architecture.declarations := List.mem_map_of_mem h
  simp only [render, unit, Vhdl.DesignUnit.lines, Vhdl.Architecture.lines, List.mem_append]
  exact .inr (.inl (.inl (.inl (.inr hindent))))

/-- The declared address is a line, moved in by two steps. -/
theorem mem_render_address (r : Rom) :
    "    " ++ ("    " ++ (Vhdl.PortSignal.text
      ⟨"addr", .input, .vector r.addressing.typeName r.addressBits⟩ ++ ";")) ∈ r.render := by
  simp [render, unit, Vhdl.DesignUnit.lines, entity, Vhdl.Entity.lines, Vhdl.indent, Vhdl.separated]

/-- The source file of a memory of plain vectors declares its literals and its address. -/
theorem declaresMemory (name style : String) (width : Nat) (values : List Int) :
    let r := (plain name width values).withStyle style
    DeclaresMemory r.render name width r.addressBits r.literals := by
  intro r
  -- texts of the same characters, put together in another order
  refine ⟨?_, ?_, ?_, r.length_literals⟩
  · convert r.mem_render_address using 1
    rw [← String.toList_inj]
    simp [r, plain, withStyle, Vhdl.PortSignal.text, Vhdl.SignalType.text, Direction.text, Addressing.typeName]
  · convert r.mem_render_of_declaration List.mem_cons_self using 1
    rw [← String.toList_inj]
    simp [r, plain, withStyle, Vhdl.SignalType.text]
  · convert r.mem_render_of_declaration (List.mem_cons_of_mem _ List.mem_cons_self) using 1
    rw [← String.toList_inj]
    simp [r, plain, withStyle]

end Rom

/-! ### Layers -/

namespace Design

/-- A design writes its own file, which is a template filled with the parameters. -/
def Fills (d : Design) (template : Template) (params : Parameters) : Prop :=
  ∃ lines, template.render params = .ok lines ∧ .file [] d.name lines ∈ d.emissions

/-- A design writes a memory with as many words at least, among them numbers of a format at their places and
zeros elsewhere, and one of the parameters of its template is the address width of this memory. -/
def WritesMemory (d : Design) (params : Parameters) (widthName : String) (f : QFormat) (romName : String)
    (count : Nat) (place : Nat → Binary64 → Prop) : Prop :=
  ∃ lines addressBits literals, .file [] romName lines ∈ d.emissions ∧
    (∀ files written, d.persist files = (written, .ok ()) → written.get? (romName ++ ".vhd") = some lines) ∧
    DeclaresMemory lines romName f.totalBits addressBits literals ∧ count ≤ literals.length ∧
    f.HoldsAt place literals ∧ params.get? widthName = some (.text (Text.ofNat addressBits))

theorem fills_of_mem {d : Design} {template : Template} {params : Parameters}
    (h : ∃ lines, template.render params = .ok lines) (hd : emit d.name (template.render params) ∈ d.emissions) :
    d.Fills template params := by
  obtain ⟨lines, hlines⟩ := h
  rw [hlines] at hd
  exact ⟨lines, hlines, hd⟩

/-- A memory of stored integers that is among the files of a design is written with them. -/
theorem writesMemory_of_mem {d : Design} {params : Parameters} {widthName romName : String} {f : QFormat}
    (style : String) {count : Nat} {place : Nat → Binary64 → Prop} {values : List Int}
    (hd : .file [] romName ((Rom.plain romName f.totalBits values).withStyle style).render ∈ d.emissions)
    (hparams : params.get? widthName = some (.text (Text.ofNat (addressWidth values.length))))
    (hcount : values.length = count) (h : f.StoresAt place values) :
    d.WritesMemory params widthName f romName count place := by
  refine ⟨_, _, _, hd, fun files written hwritten => ?_, Rom.declaresMemory romName style f.totalBits values, ?_,
    Rom.holdsAt_literals rfl h, hparams⟩
  · rw [← (Emission.of_runAll hwritten).2 [] romName _ hd, Emission.pathOf_root]
    rfl
  · rw [Rom.length_literals, ← hcount]
    exact le_two_pow_addressWidth _

end Design

theorem Linear.get?_parameters (l : Linear) :
    l.parameters.get? "w_address_width" = some (.text (Text.ofNat (addressWidth l.weights.length))) ∧
      l.parameters.get? "b_address_width" = some (.text (Text.ofNat (addressWidth l.bias.length))) := by
  simp [parameters]

theorem Conv1d.get?_parameters (l : Conv1d) :
    l.parameters.get? "w_address_width" = some (.text (Text.ofNat (addressWidth l.weights.length))) ∧
      l.parameters.get? "b_address_width" = some (.text (Text.ofNat (addressWidth l.bias.length))) := by
  rw [parameters, present_port]
  simp [port, Port.ofCounts, Port.standard, Port.signals, Signal.input, Signal.output]

namespace Layer

variable {f : QFormat} {n : Nat}

/-- Rows that are stored with their length are stored one after the other. -/
theorem of_rows {rows : List (List Binary64)} {qs : List (List Int)}
    (h : List.Forall₂ (fun row q => row.length = n ∧ f.Stores row q) rows qs) :
    f.StoresAt (InRows n rows) qs.flatten ∧ qs.flatten.length = rows.length * n := by
  have hrows : ∀ row ∈ rows, row.length = n := by
    intro row hrow
    obtain ⟨_, _, hlength, -⟩ := Outcome.exists_right_of_mem h hrow
    exact hlength
  have hstores : f.Stores rows.flatten qs.flatten := List.rel_flatten (h.imp fun _ _ hrow => hrow.2)
  have hplace : InRows n rows = fun k v => rows.flatten[k]? = some v :=
    funext₂ fun k v => propext (inRows_iff hrows k v)
  exact ⟨hplace ▸ hstores.storesAt, hstores.length_eq ▸ length_flatten_rows hrows⟩

/-- Kernels that are stored with their shape are stored one after the other. -/
theorem of_kernels {channels : Nat} {kernels : List (List (List Binary64))} {qs : List (List (List Int))}
    (h : List.Forall₂ (fun kernel q => kernel.length = channels ∧
      List.Forall₂ (fun row q => row.length = n ∧ f.Stores row q) kernel q) kernels qs) :
    f.StoresAt (InKernels channels n kernels) (qs.map List.flatten).flatten ∧
      (qs.map List.flatten).flatten.length = kernels.length * channels * n := by
  have hkernels : ∀ kernel ∈ kernels, kernel.length = channels := by
    intro kernel hkernel
    obtain ⟨_, _, hlength, -⟩ := Outcome.exists_right_of_mem h hkernel
    exact hlength
  have hplace : InKernels channels n kernels = InRows n kernels.flatten :=
    funext₂ fun k v => propext (inKernels_iff hkernels k v)
  rw [← List.flatten_flatten, hplace, ← length_flatten_rows hkernels]
  exact of_rows (List.rel_flatten (h.imp fun _ _ hkernel => hkernel.2))

end Layer

/-- **A layer finds its trained parameters at the addresses it counts.** Whatever the shape, the format and the
synthesis hint, a layer that is made fills its template and writes two memories. In the weight memory, the literal
that row `o` and place `i` count to is read as the stored integer of this weight, and so it is for the kernels, rows
and taps of a convolution; in the bias memory the literals are those of the bias in order. All other literals are
zeros, also those of a bias that is left out, and the address widths in the template are those of the memories. -/
theorem parameters_in_memories (name : String) (f : QFormat) (bias : List Binary64) (style : String) :
    (∀ inFeatures outFeatures weights made, Linear.make name f inFeatures outFeatures weights bias = .ok made →
      let l := made.withRomStyle style
      l.design.Fills Source.linear l.parameters ∧
      l.design.WritesMemory l.parameters "w_address_width" f (name ++ "_w_rom") (outFeatures * inFeatures)
        (InRows inFeatures weights) ∧
      l.design.WritesMemory l.parameters "b_address_width" f (name ++ "_b_rom") outFeatures
        fun k v => bias[k]? = some v) ∧
    (∀ inChannels outChannels signalLength kernelSize weights made,
      Conv1d.make name f inChannels outChannels signalLength kernelSize weights bias = .ok made →
      let l := made.withRomStyle style
      l.design.Fills Source.conv1d l.parameters ∧
      l.design.WritesMemory l.parameters "w_address_width" f (name ++ "_w_rom") (outChannels * inChannels * kernelSize)
        (InKernels inChannels kernelSize weights) ∧
      l.design.WritesMemory l.parameters "b_address_width" f (name ++ "_b_rom") outChannels
        fun k v => bias[k]? = some v) := by
  constructor
  · intro inFeatures outFeatures weights made h l
    obtain ⟨rows, stored, rfl, -, -, rfl, hrows, hbias⟩ := Linear.of_make h
    obtain ⟨hstored, hlength⟩ := Layer.of_rows hrows
    refine ⟨Design.fills_of_mem l.render_parameters ?_,
      Design.writesMemory_of_mem style ?_ l.get?_parameters.1 hlength hstored,
      Design.writesMemory_of_mem style ?_ l.get?_parameters.2 hbias.length_eq hbias.storesAt⟩
    · exact List.mem_append_left _ (List.mem_append_left _ List.mem_cons_self)
    · exact List.mem_append_left _ (List.mem_append_right _ List.mem_cons_self)
    · exact List.mem_append_right _ List.mem_cons_self
  · intro inChannels outChannels signalLength kernelSize weights made h l
    obtain ⟨kernels, stored, rfl, -, -, -, -, rfl, hkernels, hbias, -, -⟩ := Conv1d.of_make h
    obtain ⟨hstored, hlength⟩ := Layer.of_kernels hkernels
    refine ⟨Design.fills_of_mem l.render_parameters ?_,
      Design.writesMemory_of_mem style ?_ l.get?_parameters.1 hlength hstored,
      Design.writesMemory_of_mem style ?_ l.get?_parameters.2 hbias.length_eq hbias.storesAt⟩
    · exact List.mem_append_left _ (List.mem_append_left _ (List.mem_append_left _ List.mem_cons_self))
    · exact List.mem_append_left _ (List.mem_append_left _ (List.mem_append_right _ List.mem_cons_self))
    · exact List.mem_append_left _ (List.mem_append_right _ List.mem_cons_self)

/-- Two layers of two inputs: the last weight is the word at address one, and the last tap that at address three. -/
theorem parameters_in_memories_small :
    let f : QFormat := { totalBits := 8, fracBits := 4 }
    let rows : List (List Binary64) := [[.ofInt 1, .ofInt (-1)]]
    let kernels : List (List (List Binary64)) := [[[.ofInt 1, .ofInt 2], [.ofInt 3, .ofInt 4]]]
    (∃ l, Linear.make "dense" f 2 1 rows [.ofQuotient 1 2] = .ok l ∧
      (l.withRomStyle "block").design.WritesMemory (l.withRomStyle "block").parameters "w_address_width" f
        "dense_w_rom" 2 (InRows 2 rows) ∧
      InRows 2 rows 1 (.ofInt (-1))) ∧
    ∃ l, Conv1d.make "conv" f 2 1 2 2 kernels [] = .ok l ∧
      (l.withRomStyle "block").design.WritesMemory (l.withRomStyle "block").parameters "w_address_width" f
        "conv_w_rom" 4 (InKernels 2 2 kernels) ∧
      InKernels 2 2 kernels 3 (.ofInt 4) := by
  intro f rows kernels
  have hdense : Linear.make "dense" f 2 1 rows [.ofQuotient 1 2] =
      .ok ⟨"dense", f, 2, 1, [[16, -16]], [8], "auto"⟩ := by decide +kernel
  have hconv : Conv1d.make "conv" f 2 1 2 2 kernels [] =
      .ok ⟨"conv", f, 2, 1, 2, 2, [[[16, 32], [48, 64]]], [0], "auto"⟩ := by decide +kernel
  refine ⟨⟨_, hdense, ?_, 0, 1, _, rfl, rfl, rfl⟩, ⟨_, hconv, ?_, 0, 1, 1, _, _, rfl, rfl, rfl, rfl⟩⟩
  · exact ((parameters_in_memories "dense" f [.ofQuotient 1 2] "block").1 _ _ _ _ hdense).2.1
  · exact ((parameters_in_memories "conv" f [] "block").2 _ _ _ _ _ _ hconv).2.1

end QuantNet
