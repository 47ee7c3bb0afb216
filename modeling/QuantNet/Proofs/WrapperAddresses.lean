import QuantNet.Proofs.ParameterMemories

/-!
# What a wrapper can address

The wrapper of a network declares how many values go in and come out, and how wide the addresses of
these values are. The numbers come from two places. The counts are read off the layers with buffers: the
first one says how many values go in, the last one how many come out. The widths are those of the network,
which is wired the other way around: the input address comes from the last layer with buffers, the
output address goes to the first one.

So every value can be addressed if there is only one such layer, and in general exactly if the counts of
one layer fit the width of the other (`Config.wrapper_addressable_iff`). Outputs are better off: a strict
wiring gives all layers with buffers the same output address, so there every output can be addressed.
-/

namespace QuantNet

open LayerSettings

namespace LayerSettings

/-- The first layer with buffers. -/
def firstBuffered? (layers : List LayerSettings) : Option LayerSettings := (layers.filter isBuffered).head?

/-- The last layer with buffers. -/
def lastBuffered? (layers : List LayerSettings) : Option LayerSettings := (layers.filter isBuffered).getLast?

theorem of_firstBuffered? {layers : List LayerSettings} {layer : LayerSettings}
    (h : firstBuffered? layers = some layer) : layer ∈ layers ∧ layer.isBuffered = true :=
  List.mem_filter.mp (List.mem_of_mem_head? h)

theorem of_lastBuffered? {layers : List LayerSettings} {layer : LayerSettings}
    (h : lastBuffered? layers = some layer) : layer ∈ layers ∧ layer.isBuffered = true :=
  List.mem_filter.mp (List.mem_of_getLast? h)

theorem firstBuffered?_reverse (layers : List LayerSettings) : firstBuffered? layers.reverse = lastBuffered? layers := by
  rw [firstBuffered?, lastBuffered?, List.filter_reverse, List.head?_reverse]

/-- Without a last layer with buffers there is no first one. -/
theorem firstBuffered?_eq_none_of_last {layers : List LayerSettings} (h : lastBuffered? layers = none) :
    firstBuffered? layers = none := by
  rw [firstBuffered?, List.getLast?_eq_none_iff.mp h]
  rfl

/-- Where there is a last layer with buffers there is a first one. -/
theorem exists_firstBuffered?_of_last {layers : List LayerSettings} {last : LayerSettings}
    (h : lastBuffered? layers = some last) : ∃ first, firstBuffered? layers = some first := by
  cases hfirst : firstBuffered? layers with
  | some first => exact ⟨first, rfl⟩
  | none =>
    rw [lastBuffered?, List.head?_eq_none_iff.mp hfirst] at h
    cases h

/-! ### Counts -/

section Counts

variable {ε : Type} {layer : LayerSettings}

/-- The layer with buffers that comes first gives the count, if only layers with buffers give any. -/
theorem firstCount_eq {count : LayerSettings → Checked ε (Option Nat)}
    (hother : ∀ layer : LayerSettings, layer.isBuffered = false → count layer = .ok none)
    (hbuffered : ∀ layer : LayerSettings, layer.isBuffered = true → count layer ≠ .ok none) (layers : List LayerSettings) :
    firstCount count layers = ((firstBuffered? layers).map count).getD (.ok none) := by
  induction layers with
  | nil => rfl
  | cons layer rest ih =>
    rw [firstCount, firstBuffered?]
    cases hlayer : layer.isBuffered with
    | false =>
      rw [hother layer hlayer, Outcome.ok_bind, List.filter_cons_of_neg (by simp [hlayer])]
      exact ih
    | true =>
      rw [List.filter_cons_of_pos hlayer, List.head?_cons, Option.map_some, Option.getD_some]
      cases hcount : count layer with
      | error failure => rfl
      | ok found =>
        cases found with
        | some n => rfl
        | none => exact absurd hcount (hbuffered layer hlayer)

theorem inputCount_ne_none (h : layer.isBuffered = true) : (layer.inputCount : Checked ε _) ≠ .ok none := by
  intro hnone
  cases layer with
  | linear s => cases hnone
  | conv1d s =>
    obtain ⟨n, -, hn⟩ := Outcome.map_eq_ok_iff.mp hnone
    cases hn
  | _ => cases h

theorem outputCount_ne_none (h : layer.isBuffered = true) : (layer.outputCount : Checked ε _) ≠ .ok none := by
  intro hnone
  cases layer with
  | linear s => cases hnone
  | conv1d s =>
    obtain ⟨above, -, hrest⟩ := Outcome.bind_eq_ok_iff.mp hnone
    obtain ⟨n, -, hn⟩ := Outcome.map_eq_ok_iff.mp hrest
    cases hn
  | _ => cases h

theorem inputCount_of_not_buffered (h : layer.isBuffered = false) : (layer.inputCount : Checked ε _) = .ok none := by
  cases layer with
  | linear s => cases h
  | conv1d s => cases h
  | _ => rfl

theorem outputCount_of_not_buffered (h : layer.isBuffered = false) : (layer.outputCount : Checked ε _) = .ok none := by
  cases layer with
  | linear s => cases h
  | conv1d s => cases h
  | _ => rfl

variable {f : QFormat} {style : String} {d : Design}

/-- The inputs of a layer that can be made are counted. -/
theorem inputCount_eq_ok (hdesign : layer.design f style = .ok d) (h : layer.isBuffered = true) :
    (layer.inputCount : Checked ε _) = .ok (some layer.inputs) := by
  cases layer with
  | linear s => rfl
  | conv1d s =>
    simp only [design, Conv1dSettings.layer, Outcome.map_eq_ok_iff] at hdesign
    obtain ⟨_, ⟨l, hmake, -⟩, -⟩ := hdesign
    obtain ⟨_, _, -, -, -, -, -, -, -, -, hinput, -⟩ := Conv1d.of_make hmake
    have hcount : (Checked.sizeMul s.inChannels s.signalLength : Checked ε Nat) = .ok (s.signalLength * s.inChannels) :=
      Outcome.sizeMul_eq_ok_iff.mpr ⟨Nat.mul_comm _ _ ▸ hinput, Nat.mul_comm _ _⟩
    rw [inputCount, hcount]
    rfl
  | _ => cases h

/-- A convolution whose signal is as long as a machine word can count. -/
def IsLongest : LayerSettings → Prop
  | conv1d s => s.signalLength + 1 = 2 ^ 64
  | _ => False

/-- The outputs of a layer that can be made are counted, but for the longest signals: one more than their
length is no machine word. -/
theorem outputCount_eq (hdesign : layer.design f style = .ok d) (h : layer.isBuffered = true) :
    ((layer.outputCount : Checked ε _) = .error (.overflow .add) ∧ layer.IsLongest) ∨
      ((layer.outputCount : Checked ε _) = .ok (some layer.outputs) ∧ ¬ layer.IsLongest) := by
  cases layer with
  | linear s => exact Or.inr ⟨rfl, id⟩
  | conv1d s =>
    simp only [design, Conv1dSettings.layer, Outcome.map_eq_ok_iff] at hdesign
    obtain ⟨_, ⟨l, hmake, -⟩, -⟩ := hdesign
    obtain ⟨_, _, -, hin, -, -, hwindow, -, -, -, hinput, houtput⟩ := Conv1d.of_make hmake
    -- a single channel is no longer than all of them
    have hlength : s.signalLength < 2 ^ 64 :=
      lt_of_le_of_lt (Nat.le_mul_of_pos_right _ (Nat.pos_of_ne_zero hin)) hinput
    by_cases hlong : s.signalLength + 1 = 2 ^ 64
    · have habove : (Checked.sizeAdd s.signalLength 1 : Checked ε Nat) = .error (.overflow .add) := by
        rw [Checked.sizeAdd, twoPow_eq, if_neg (by omega)]
      refine Or.inl ⟨?_, hlong⟩
      rw [outputCount, habove, Outcome.error_bind]
    · have habove : (Checked.sizeAdd s.signalLength 1 : Checked ε Nat) = .ok (s.signalLength + 1) :=
        Outcome.sizeAdd_eq_ok_iff.mpr ⟨by omega, rfl⟩
      have hsteps : s.outChannels * (s.signalLength + 1 - s.kernelSize) =
          (s.signalLength - s.kernelSize + 1) * s.outChannels := by
        rw [Nat.mul_comm, Nat.sub_add_comm hwindow]
      have hcount : (Checked.sizeMul s.outChannels (s.signalLength + 1 - s.kernelSize) : Checked ε Nat) =
          .ok ((s.signalLength - s.kernelSize + 1) * s.outChannels) :=
        Outcome.sizeMul_eq_ok_iff.mpr ⟨hsteps ▸ houtput, hsteps⟩
      refine Or.inr ⟨?_, hlong⟩
      rw [outputCount, habove, Outcome.ok_bind, hcount]
      rfl
  | _ => cases h

/-- The inputs of a network are those of its first layer with buffers. -/
theorem countOr_inputCount {layers : List LayerSettings} (hmade : ∀ layer ∈ layers, ∃ d, layer.design f style = .ok d) :
    (Config.countOr none inputCount layers : Checked ε Nat) = .ok (((firstBuffered? layers).map inputs).getD 1) := by
  rw [Config.countOr, firstCount_eq (fun _ => inputCount_of_not_buffered) fun _ => inputCount_ne_none]
  cases hfirst : firstBuffered? layers with
  | none => rfl
  | some first =>
    obtain ⟨hmem, hb⟩ := of_firstBuffered? hfirst
    obtain ⟨d, hd⟩ := hmade first hmem
    rw [Option.map_some, Option.getD_some, inputCount_eq_ok hd hb]
    rfl

/-- The outputs of a network are those of its last layer with buffers, unless that has a longest signal. -/
theorem countOr_outputCount {layers : List LayerSettings} (hmade : ∀ layer ∈ layers, ∃ d, layer.design f style = .ok d) :
    ((Config.countOr none outputCount layers.reverse : Checked ε Nat) = .error (.overflow .add) ∧
        ∃ last, lastBuffered? layers = some last ∧ last.IsLongest) ∨
      ((Config.countOr none outputCount layers.reverse : Checked ε Nat) =
          .ok (((lastBuffered? layers).map outputs).getD 1) ∧
        ∀ last, lastBuffered? layers = some last → ¬ last.IsLongest) := by
  rw [Config.countOr, firstCount_eq (fun _ => outputCount_of_not_buffered) (fun _ => outputCount_ne_none),
    firstBuffered?_reverse]
  cases hlast : lastBuffered? layers with
  | none => exact Or.inr ⟨rfl, fun _ h => nomatch h⟩
  | some last =>
    obtain ⟨hmem, hb⟩ := of_lastBuffered? hlast
    obtain ⟨d, hd⟩ := hmade last hmem
    rw [Option.map_some, Option.getD_some]
    rcases outputCount_eq (ε := ε) hd hb with ⟨hover, hlong⟩ | ⟨hcount, hshort⟩
    · rw [hover]
      exact Or.inl ⟨rfl, last, rfl, hlong⟩
    · rw [hcount]
      refine Or.inr ⟨rfl, fun other hother => ?_⟩
      cases hother
      exact hshort

end Counts

end LayerSettings

/-! ### Wrappers -/

/-- The numbers of values and the widths of their addresses that a wrapper is filled with. -/
structure Skeleton.Declares (s : Skeleton) (xCount xWidth yCount yWidth : Nat) : Prop where
  xCount : s.parameters.get? "x_num_values" = some (.text (Text.ofNat xCount))
  xWidth : s.parameters.get? "x_addr_width" = some (.text (Text.ofNat xWidth))
  yCount : s.parameters.get? "y_num_values" = some (.text (Text.ofNat yCount))
  yWidth : s.parameters.get? "y_addr_width" = some (.text (Text.ofNat yWidth))

/-- The wrapper of a standard port declares its counts and the widths of the port. -/
theorem Skeleton.declares_standard (networkName : String) (xWidth yWidth xAddressWidth yAddressWidth xCount yCount : Nat)
    (id : List UInt8) (version : SkeletonVersion) :
    Declares ⟨networkName, .standard xWidth yWidth xAddressWidth yAddressWidth, xCount, yCount, id, version⟩
      xCount xAddressWidth yCount yAddressWidth := by
  refine ⟨?_, ?_, ?_, ?_⟩ <;>
    simp [Skeleton.parameters, Port.widthOf, Port.signal?, Port.standard, Port.signals, Signal.input, Signal.output]

/-- A wrapper declares no two numbers for one thing. -/
theorem Skeleton.Declares.unique {s : Skeleton} {xCount xWidth yCount yWidth xCount' xWidth' yCount' yWidth' : Nat}
    (h : s.Declares xCount xWidth yCount yWidth) (h' : s.Declares xCount' xWidth' yCount' yWidth') :
    xCount = xCount' ∧ xWidth = xWidth' ∧ yCount = yCount' ∧ yWidth = yWidth' := by
  have hnumber : ∀ {name : String} {n m : Nat}, s.parameters.get? name = some (.text (Text.ofNat n)) →
      s.parameters.get? name = some (.text (Text.ofNat m)) → n = m := by
    intro name n m hn hm
    have htext : Text.ofNat n = Text.ofNat m := Param.text.inj (Option.some.inj (hn.symm.trans hm))
    have hread := Text.natural?_ofNat n
    rw [htext, Text.natural?_ofNat m] at hread
    exact (Option.some.inj hread).symm
  exact ⟨hnumber h.xCount h'.xCount, hnumber h.xWidth h'.xWidth, hnumber h.yCount h'.yCount,
    hnumber h.yWidth h'.yWidth⟩

namespace Config

variable {c : Config} {network : Sequential} {s : SkeletonSettings}

/-- The counts and widths of a wrapper whose counts are left to the layers, read off the layers with
buffers. There is no wrapper if the last of them has a longest signal. -/
theorem wrapper_cases (hvalid : c.validate = .ok ()) (hskeleton : c.skeleton = some s) (hx : s.xCount = none)
    (hy : s.yCount = none) (hnetwork : c.sequential = .ok network) :
    (c.wrapper network = .error (.overflow .add) ∧ ∃ last, lastBuffered? c.layers = some last ∧ last.IsLongest) ∨
      ((∀ last, lastBuffered? c.layers = some last → ¬ last.IsLongest) ∧
        ∃ skeleton, c.wrapper network = .ok (some skeleton) ∧
          skeleton.Declares (((firstBuffered? c.layers).map inputs).getD 1)
            (((lastBuffered? c.layers).map fun layer => addressWidth layer.inputs).getD 1)
            (((lastBuffered? c.layers).map outputs).getD 1)
            (((firstBuffered? c.layers).map fun layer => addressWidth layer.outputs).getD 1)) := by
  obtain ⟨f, designs, -, hdesigns, rfl⟩ := of_sequential hvalid hnetwork
  have hmade : ∀ layer ∈ c.layers, ∃ d, layer.design f c.output.romStyle = .ok d := by
    intro layer hlayer
    obtain ⟨d, -, hd⟩ := Outcome.exists_right_of_mem (Outcome.mapM_eq_ok_iff.mp hdesigns) hlayer
    exact ⟨d, hd⟩
  have hid : s.id.length = s.version.idLength := by
    have hcheck := (of_validate hvalid).2.2.2.1
    rw [hskeleton, checkSkeleton] at hcheck
    exact (Outcome.ite_eq_ok_iff.mp hcheck).1
  have hport : (Sequential.mk c.network.name designs (Sequential.derivedWidths designs) c.network.strictWidths).port =
      .standard (widthsOf f.totalBits c.layers).x (widthsOf f.totalBits c.layers).y
        (widthsOf f.totalBits c.layers).xAddress (widthsOf f.totalBits c.layers).yAddress := by
    rw [Sequential.port, derivedWidths_eq (map_view_of_designs hdesigns) f.total_pos]
  rw [wrapper, hskeleton, hport]
  simp only [hx, hy, countOr_inputCount hmade, Outcome.ok_bind, Skeleton.make, if_pos hid, Outcome.lift_ok]
  rcases countOr_outputCount (ε := LayerError) hmade with ⟨hover, hlong⟩ | ⟨hcount, hshort⟩
  · rw [hover]
    exact Or.inl ⟨rfl, hlong⟩
  · rw [hcount]
    exact Or.inr ⟨hshort, _, rfl, Skeleton.declares_standard _ _ _ _ _ _ _ _ _⟩

/-- In a strict network all layers with buffers have one output address. -/
theorem addressWidth_outputs_eq {connections : Connections} (hvalid : c.validate = .ok ())
    (hnetwork : c.sequential = .ok network) (hwired : network.connections = .ok connections)
    (hstrict : c.network.strictWidths = true) {first layer : LayerSettings}
    (hfirst : firstBuffered? c.layers = some first) (hlayer : layer ∈ c.layers) (hb : layer.isBuffered = true) :
    addressWidth first.outputs = addressWidth layer.outputs := by
  obtain ⟨f, designs, -, hdesigns, rfl⟩ := of_sequential hvalid hnetwork
  rw [connections_eq f.total_pos (map_view_of_designs hdesigns), hstrict] at hwired
  obtain ⟨links, hlinks, -⟩ := Outcome.map_eq_ok_iff.mp hwired
  obtain ⟨linked, -, hlinked⟩ := Outcome.exists_right_of_mem (Outcome.mapM_eq_ok_iff.mp hlinks) hlayer
  have hwidth : (widthsOf f.totalBits c.layers).yAddress = addressWidth first.outputs := by
    rw [widthsOf, ← firstBuffered?, hfirst]
    rfl
  rw [hwidth] at hlinked
  by_contra hne
  rw [layerOutcome, if_pos ⟨rfl, hb, hne⟩] at hlinked
  cases hlinked

/-- **Which values the wrapper can address.** Take a valid configuration whose network can be made and
wired, and whose wrapper leaves its counts to the layers. Unless the last layer with buffers has a signal
so long that its outputs cannot be counted, there is a wrapper. Every input can be addressed exactly if
the inputs of the first layer with buffers fit the input address of the last one, and every output
exactly if the outputs of the last such layer fit the output address of the first one. The latter is
always so in a strict network, and both are so if there is at most one such layer. -/
theorem wrapper_addressable_iff {connections : Connections} (hvalid : c.validate = .ok ())
    (hskeleton : c.skeleton = some s) (hx : s.xCount = none) (hy : s.yCount = none)
    (hnetwork : c.sequential = .ok network) (hwired : network.connections = .ok connections) :
    (c.wrapper network = .error (.overflow .add) ∧ ∃ last, lastBuffered? c.layers = some last ∧ last.IsLongest) ∨
      ∃ skeleton xCount xWidth yCount yWidth, c.wrapper network = .ok (some skeleton) ∧
        skeleton.Declares xCount xWidth yCount yWidth ∧
        (xCount ≤ 2 ^ xWidth ↔ ∀ first last, firstBuffered? c.layers = some first →
          lastBuffered? c.layers = some last → first.inputs ≤ 2 ^ addressWidth last.inputs) ∧
        (yCount ≤ 2 ^ yWidth ↔ ∀ first last, firstBuffered? c.layers = some first →
          lastBuffered? c.layers = some last → last.outputs ≤ 2 ^ addressWidth first.outputs) ∧
        (c.network.strictWidths = true → yCount ≤ 2 ^ yWidth) ∧
        (firstBuffered? c.layers = lastBuffered? c.layers → xCount ≤ 2 ^ xWidth ∧ yCount ≤ 2 ^ yWidth) := by
  rcases wrapper_cases hvalid hskeleton hx hy hnetwork with hover | ⟨-, skeleton, hwrapper, hdeclares⟩
  · exact Or.inl hover
  refine Or.inr ⟨skeleton, _, _, _, _, hwrapper, hdeclares, ?_⟩
  cases hlast : lastBuffered? c.layers with
  | none =>
    -- without buffers there is one value each, and one bit to address it
    rw [firstBuffered?_eq_none_of_last hlast]
    simp
  | some last =>
    obtain ⟨first, hfirst⟩ := exists_firstBuffered?_of_last hlast
    obtain ⟨hmem, hb⟩ := of_lastBuffered? hlast
    rw [hfirst]
    simp only [Option.map_some, Option.getD_some, Option.some.injEq]
    refine ⟨⟨?_, fun h => h first last rfl rfl⟩, ⟨?_, fun h => h first last rfl rfl⟩, fun hstrict => ?_, ?_⟩
    · rintro h _ _ rfl rfl
      exact h
    · rintro h _ _ rfl rfl
      exact h
    · rw [addressWidth_outputs_eq hvalid hnetwork hwired hstrict hfirst hmem hb]
      exact le_two_pow_addressWidth _
    · rintro rfl
      exact ⟨le_two_pow_addressWidth _, le_two_pow_addressWidth _⟩

/-- A strict network whose first layer has more inputs than its second one can address. -/
def threeToTwo : Config where
  network := ⟨"net", 8, 4, true⟩
  layers := [.linear ⟨"fc1", 3, 2, [[.ofInt 1, .ofInt 0, .ofInt 0], [.ofInt 0, .ofInt 1, .ofInt 0]], []⟩,
    .linear ⟨"fc2", 2, 1, [[.ofInt 1, .ofInt 1]], []⟩]
  skeleton := some ⟨.v1, [9], none, none⟩
  testbench := none
  output := .standard

theorem validate_threeToTwo : threeToTwo.validate = .ok () := by decide +kernel

theorem exists_wired_threeToTwo : ∃ network connections, threeToTwo.sequential = .ok network ∧
    network.connections = .ok connections := by
  have hok : (threeToTwo.sequential >>= fun network => Checked.lift .design network.connections).isOk = true := by
    decide +kernel
  obtain ⟨connections, hconnections⟩ := Outcome.exists_eq_ok_of_isOk hok
  obtain ⟨network, hnetwork, hwired⟩ := Outcome.bind_eq_ok_iff.mp hconnections
  exact ⟨network, connections, hnetwork, Outcome.lift_eq_ok_iff.mp hwired⟩

/-- Its one output can be addressed; its three inputs cannot be addressed with one bit. -/
theorem wrapper_threeToTwo : ∃ network skeleton xCount xWidth yCount yWidth,
    threeToTwo.wrapper network = .ok (some skeleton) ∧ skeleton.Declares xCount xWidth yCount yWidth ∧
      ¬ xCount ≤ 2 ^ xWidth ∧ yCount ≤ 2 ^ yWidth := by
  obtain ⟨network, connections, hnetwork, hwired⟩ := exists_wired_threeToTwo
  rcases wrapper_addressable_iff validate_threeToTwo rfl rfl rfl hnetwork hwired with
    ⟨-, last, hlast, hlong⟩ | ⟨skeleton, xCount, xWidth, yCount, yWidth, hwrapper, hdeclares, hinputs, -, hstrict, -⟩
  · cases hlast
    exact hlong.elim
  · refine ⟨network, skeleton, xCount, xWidth, yCount, yWidth, hwrapper, hdeclares, fun hx => ?_, hstrict rfl⟩
    exact absurd (hinputs.mp hx _ _ rfl rfl) (by decide)

/-- Not every value that a wrapper offers can be addressed over the ports of its network. -/
theorem not_wrapper_addressable : ¬ ∀ (c : Config) (s : SkeletonSettings) (network : Sequential)
    (connections : Connections) (skeleton : Skeleton) (xCount xWidth yCount yWidth : Nat),
    c.validate = .ok () → c.skeleton = some s → s.xCount = none → s.yCount = none → c.sequential = .ok network →
      network.connections = .ok connections → c.wrapper network = .ok (some skeleton) →
      skeleton.Declares xCount xWidth yCount yWidth → xCount ≤ 2 ^ xWidth ∧ yCount ≤ 2 ^ yWidth := by
  intro hall
  obtain ⟨network, connections, hnetwork, hwired⟩ := exists_wired_threeToTwo
  rcases wrapper_cases validate_threeToTwo rfl rfl rfl hnetwork with
    ⟨-, last, hlast, hlong⟩ | ⟨-, skeleton, hwrapper, hdeclares⟩
  · cases hlast
    exact hlong.elim
  · have hfits := hall threeToTwo _ network connections skeleton _ _ _ _ validate_threeToTwo rfl rfl rfl hnetwork hwired
      hwrapper hdeclares
    exact absurd hfits.1 (by decide)

end Config

end QuantNet
