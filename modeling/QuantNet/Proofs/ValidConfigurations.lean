import QuantNet.Network
import QuantNet.Proofs.TrainedLayers
import QuantNet.Config.Validity

/-!
# What a valid configuration promises

The checks of a configuration, read backwards: a configuration that passes them has a number format,
different names throughout, and layers whose shapes make sense. The components of such a
configuration are known from its settings alone, as far as the circuit goes: the name of a component
is that of its layer, and its port follows from the declared sizes.
-/

namespace QuantNet

/-! ### Checks -/

theorem of_checkBias {layer : String} {bias : List Binary64} {length : Nat} {u : Unit}
    (h : checkBias layer bias length = .ok u) : bias = [] ∨ bias.length = length := by
  rw [checkBias, Outcome.ite_eq_ok_iff] at h
  exact h.1

/-- A fully connected layer that passes its checks has sizes, and its parameters fit them. -/
theorem LinearSettings.of_check {s : LinearSettings} (h : s.check = .ok ()) :
    ¬ (s.inFeatures = 0 ∨ s.outFeatures = 0) ∧ s.IsShaped ∧ (s.bias = [] ∨ s.bias.length = s.outFeatures) := by
  unfold check at h
  split at h
  · cases h
  · split at h
    · cases h
    · rename_i hsizes hshape
      exact ⟨hsizes, not_not.mp hshape, of_checkBias h⟩

/-- A convolution that passes its checks has sizes, its window fits the signal, and its parameters fit
the sizes. -/
theorem Conv1dSettings.of_check {s : Conv1dSettings} (h : s.check = .ok ()) :
    ¬ (s.inChannels = 0 ∨ s.outChannels = 0 ∨ s.kernelSize = 0) ∧ ¬ s.signalLength < s.kernelSize ∧ s.IsShaped ∧
      (s.bias = [] ∨ s.bias.length = s.outChannels) := by
  unfold check at h
  split at h
  · cases h
  · split at h
    · cases h
    · split at h
      · cases h
      · rename_i hsizes hwindow hshape
        exact ⟨hsizes, hwindow, not_not.mp hshape, of_checkBias h⟩

namespace Config

/-- The layers that pass their checks have different names, none of them taken, and right shapes. -/
theorem of_checkLayers {taken : List String} {layers : List LayerSettings}
    (h : checkLayers taken layers = .ok ()) :
    (layers.map LayerSettings.name).Nodup ∧
      ∀ layer ∈ layers, layer.name ≠ "" ∧ layer.name ∉ taken ∧ layer.check = .ok () := by
  induction layers generalizing taken with
  | nil => simp
  | cons layer rest ih =>
    simp only [checkLayers] at h
    split at h
    · cases h
    · rename_i hname
      split at h
      · cases h
      · rename_i htaken
        obtain ⟨_, hcheck, hrest⟩ := Outcome.bind_eq_ok_iff.mp h
        obtain ⟨hnodup, hall⟩ := ih hrest
        refine ⟨?_, ?_⟩
        · rw [List.map_cons, List.nodup_cons]
          refine ⟨fun hmem => ?_, hnodup⟩
          obtain ⟨other, hother, hsame⟩ := List.mem_map.mp hmem
          exact (hall other hother).2.1 (hsame ▸ List.mem_cons_self)
        · intro other hother
          rcases List.mem_cons.mp hother with rfl | hother
          · exact ⟨hname, htaken, hcheck⟩
          · obtain ⟨hname', htaken', hcheck'⟩ := hall other hother
            exact ⟨hname', fun hmem => htaken' (List.mem_cons_of_mem _ hmem), hcheck'⟩

/-- The convolution of a name is one of the layers. -/
theorem mem_of_findConv1d {c : Config} {name : String} {s : Conv1dSettings} (h : c.findConv1d name = .ok s) :
    .conv1d s ∈ c.layers := by
  unfold findConv1d at h
  split at h
  · rename_i found hfound
    cases h
    obtain ⟨layer, hlayer, hsome⟩ := List.exists_of_findSome?_eq_some hfound
    cases layer with
    | conv1d other =>
      dsimp only at hsome
      split_ifs at hsome
      cases hsome
      exact hlayer
    | _ => cases hsome
  · cases h

/-- A testbench that passes its checks is one for a convolution of the network. -/
theorem of_checkTestbench {c : Config} {t : TestbenchSettings} (htestbench : c.testbench = some t)
    (h : c.checkTestbench = .ok ()) : ∃ s, c.findConv1d t.uut = .ok s ∧ .conv1d s ∈ c.layers := by
  rw [checkTestbench, htestbench] at h
  dsimp only at h
  split at h
  · cases h
  · obtain ⟨s, hs, -⟩ := Outcome.map_eq_ok_iff.mp h
    exact ⟨s, hs, mem_of_findConv1d hs⟩

/-- The parts of a valid configuration. -/
theorem of_validate {c : Config} (h : c.validate = .ok ()) :
    c.network.name ≠ "" ∧ (∃ f, c.format = .ok f) ∧ checkLayers [c.network.name] c.layers = .ok () ∧
      checkSkeleton c.skeleton = .ok () ∧ c.checkTestbench = .ok () := by
  simp only [validate, Outcome.guard_eq_ok_iff, Outcome.bind_eq_ok_iff] at h
  obtain ⟨hname, f, hformat, _, hlayers, _, hskeleton, _, htestbench, -⟩ := h
  exact ⟨hname, ⟨f, hformat⟩, hlayers, hskeleton, htestbench⟩

end Config

/-! ### Components -/

namespace LayerSettings

/-- The signals on the boundary of the circuit of a layer, for numbers of a width. -/
def boundary (totalBits : Nat) : LayerSettings → Port
  | linear s => .ofCounts totalBits totalBits s.inFeatures s.outFeatures
  | conv1d s => .ofCounts totalBits totalBits (s.signalLength * s.inChannels)
      ((s.signalLength - s.kernelSize + 1) * s.outChannels)
  | hardSigmoid _ | silu _ => ⟨[.input "x" totalBits], [.output "y" totalBits]⟩
  | flatten _ => .null

/-- The component of a layer has the name of the layer and the boundary that follows from its sizes. -/
theorem name_port_of_design {f : QFormat} {style : String} {layer : LayerSettings} {d : Design}
    (h : layer.design f style = .ok d) : d.name = layer.name ∧ d.port = layer.boundary f.totalBits := by
  cases layer with
  | linear s =>
    simp only [design, LinearSettings.layer, Outcome.map_eq_ok_iff] at h
    obtain ⟨_, ⟨l, hmake, rfl⟩, rfl⟩ := h
    obtain ⟨_, _, rfl, -⟩ := Linear.of_make hmake
    exact ⟨rfl, rfl⟩
  | conv1d s =>
    simp only [design, Conv1dSettings.layer, Outcome.map_eq_ok_iff] at h
    obtain ⟨_, ⟨l, hmake, rfl⟩, rfl⟩ := h
    obtain ⟨_, _, rfl, -⟩ := Conv1d.of_make hmake
    exact ⟨rfl, rfl⟩
  | hardSigmoid name =>
    cases h
    exact ⟨rfl, rfl⟩
  | silu name =>
    cases h
    exact ⟨rfl, rfl⟩
  | flatten name =>
    cases h
    exact ⟨rfl, rfl⟩

end LayerSettings

/-- What the wiring sees of a component: its name and its port. -/
def Design.view (d : Design) : String × Port := (d.name, d.port)

/-- What the wiring sees of the components of layers. -/
theorem map_view_of_designs {f : QFormat} {style : String} {layers : List LayerSettings} {designs : List Design}
    (h : layers.mapM (LayerSettings.design f style) = .ok designs) :
    designs.map Design.view = layers.map fun layer => (layer.name, layer.boundary f.totalBits) := by
  rw [Outcome.mapM_eq_ok_iff] at h
  induction h with
  | nil => rfl
  | cons hlayer _ ih =>
    obtain ⟨hname, hport⟩ := LayerSettings.name_port_of_design hlayer
    rw [List.map_cons, List.map_cons, ih, Design.view, hname, hport]

/-- The components of layers have the names of the layers. -/
theorem map_name_of_designs {f : QFormat} {style : String} {layers : List LayerSettings} {designs : List Design}
    (h : layers.mapM (LayerSettings.design f style) = .ok designs) :
    designs.map Design.name = layers.map LayerSettings.name := by
  simpa [Design.view, Function.comp_def] using congrArg (List.map Prod.fst) (map_view_of_designs h)

/-! ### Networks -/

namespace Sequential

theorem repeated?_eq_none {seen names : List String} (hnodup : names.Nodup) (hnew : ∀ n ∈ names, n ∉ seen) :
    repeated? seen names = none := by
  induction names generalizing seen with
  | nil => rfl
  | cons n rest ih =>
    rw [List.nodup_cons] at hnodup
    rw [repeated?, if_neg (hnew n List.mem_cons_self)]
    refine ih hnodup.2 fun m hm hmem => ?_
    rcases List.mem_cons.mp hmem with rfl | hmem
    · exact hnodup.1 hm
    · exact hnew m (List.mem_cons_of_mem _ hm) hmem

end Sequential

/-- A valid configuration whose layers can all be made has a network. -/
theorem Config.sequential_eq_ok {c : Config} {f : QFormat} {designs : List Design} (hvalid : c.validate = .ok ())
    (hformat : c.format = .ok f) (hdesigns : c.layers.mapM (LayerSettings.design f c.output.romStyle) = .ok designs) :
    c.sequential = .ok ⟨c.network.name, designs, Sequential.derivedWidths designs, c.network.strictWidths⟩ := by
  have hnodup := (of_checkLayers (of_validate hvalid).2.2.1).1
  have hnames := map_name_of_designs hdesigns
  have hrepeated : Sequential.repeated? [] (designs.map Design.name) = none :=
    Sequential.repeated?_eq_none (hnames ▸ hnodup) fun _ _ => List.not_mem_nil
  simp [sequential, hformat, hdesigns, Sequential.ofDesigns, Sequential.make, hrepeated, Sequential.withStrict]

/-- The network of a valid configuration has the components of its layers. -/
theorem Config.of_sequential {c : Config} {network : Sequential} (hvalid : c.validate = .ok ())
    (h : c.sequential = .ok network) :
    ∃ f designs, c.format = .ok f ∧ c.layers.mapM (LayerSettings.design f c.output.romStyle) = .ok designs ∧
      network = ⟨c.network.name, designs, Sequential.derivedWidths designs, c.network.strictWidths⟩ := by
  have hparts := h
  simp only [sequential, Outcome.bind_eq_ok_iff, Outcome.lift_eq_ok_iff] at hparts
  obtain ⟨f, hformat, designs, hdesigns, -⟩ := hparts
  rw [sequential_eq_ok hvalid hformat hdesigns, Except.ok.injEq] at h
  exact ⟨f, designs, hformat, hdesigns, h.symm⟩

end QuantNet
