import Mathlib.Data.List.Induction
import Mathlib.Data.List.Nodup
import QuantNet.Proofs.Outcome
import QuantNet.Wiring.Connect

/-!
# What the wiring connects

The wiring walks over the stations of a composition with a table of what was produced so far, and
overwrites the table as it goes. Here its result is described without the table: a signal that a
station takes in is fed by the latest earlier station that gives out the most preferred name
(`Feeds`), and by the input of its own name if no earlier station gives out any of its candidates
(`Unfed`).

The invariant behind it is `latest?_availableOf_eq_some_iff`: after a number of stations, the
table holds under each name the signal of the latest of them that gives it out.

Stations are kept here as they are declared, with all signals of their ports, so that it can be
said which signals are left out of the wiring: those without wires.
-/

namespace QuantNet

/-! ### Present signals and accepted ports -/

theorem Signal.isPresent_iff {s : Signal} : s.isPresent ↔ s.width ≠ 0 := by
  rw [Signal.isPresent, decide_eq_true_eq, Nat.pos_iff_ne_zero]

namespace Port

/-- A port that is accepted with its own signals. -/
def Accepted (p : Port) : Prop := ofSignals p.incoming p.outgoing = .ok p

instance (p : Port) : Decidable p.Accepted := inferInstanceAs (Decidable (_ = _))

/-- A group that passes its check has no name twice, and none that was seen before. -/
theorem nodup_of_checkGroup {expected : Direction} {seen : List String} {signals : List Signal}
    (h : checkGroup expected seen signals = .ok ()) :
    (signals.map Signal.name).Nodup ∧ ∀ s ∈ signals, s.name ∉ seen := by
  induction signals generalizing seen with
  | nil => simp
  | cons s rest ih =>
    simp only [checkGroup] at h
    split at h
    · cases h
    · split at h
      · cases h
      · rename_i hseen
        obtain ⟨hnodup, hnew⟩ := ih h
        refine ⟨?_, ?_⟩
        · rw [List.map_cons, List.nodup_cons]
          refine ⟨fun hmem => ?_, hnodup⟩
          obtain ⟨t, ht, hname⟩ := List.mem_map.mp hmem
          exact hnew t ht (hname ▸ List.mem_cons_self)
        · intro t ht
          rcases List.mem_cons.mp ht with rfl | ht
          · exact hseen
          · exact fun hmem => hnew t ht (List.mem_cons_of_mem _ hmem)

/-- The outgoing signals of an accepted port have different names. -/
theorem Accepted.nodup_outgoing {p : Port} (h : p.Accepted) : (p.outgoing.map Signal.name).Nodup := by
  obtain ⟨_, _, h⟩ := Outcome.bind_eq_ok_iff.mp h
  obtain ⟨_, houtgoing, _⟩ := Outcome.bind_eq_ok_iff.mp h
  exact (nodup_of_checkGroup houtgoing).1

end Port

namespace Wiring

/-! ### Stations as they are declared -/

/-- A station of a composition as it is declared. -/
inductive Station where
  /-- The inputs of the composition. -/
  | start (xWidth yAddressWidth : Nat)
  /-- The outputs of the composition. -/
  | finish (yWidth xAddressWidth : Nat)
  /-- A component with a label and an accepted port. -/
  | component (label : String) (port : Port) (accepted : port.Accepted)

namespace Station

/-- The node of a station. -/
def node : Station → Node
  | start xWidth yAddressWidth => .start xWidth yAddressWidth
  | finish yWidth xAddressWidth => .finish yWidth xAddressWidth
  | component label port _ => .component label port

/-- The signals that a station is declared to take in. -/
def takes : Station → List Signal
  | start _ _ => []
  | finish yWidth xAddressWidth => [.output "y" yWidth, .output "x_address" xAddressWidth, .output "done" 1]
  | component _ port _ => port.incoming

/-- The signals that a station is declared to give out. -/
def gives : Station → List Signal
  | start xWidth yAddressWidth =>
    [.input "x" xWidth, .input "y_address" yAddressWidth, .input "enable" 1, .input "clock" 1]
  | finish _ _ => []
  | component _ port _ => port.outgoing

theorem sinks_node (s : Station) : s.node.sinks = s.takes.filter Signal.isPresent := by
  cases s <;> rfl

theorem sources_node (s : Station) : s.node.sources = s.gives.filter Signal.isPresent := by
  cases s <;> rfl

/-- A station gives out no name twice. -/
theorem nodup_gives (s : Station) : (s.gives.map Signal.name).Nodup := by
  cases s with
  | start xWidth yAddressWidth => simp [gives, Signal.input]
  | finish yWidth xAddressWidth => simp [gives]
  | component label port accepted => exact accepted.nodup_outgoing

end Station

/-- A signal on the boundary of a station, with the position of the station in the composition. -/
structure Terminal where
  /-- The position of the station. -/
  index : Nat
  /-- The station. -/
  station : Station
  /-- The signal. -/
  signal : Signal

/-- The name of a terminal in the whole composition. -/
def Terminal.qualified (t : Terminal) : String := t.station.node.qualify t.signal

/-- The entry of a terminal in the table of produced signals. -/
def Terminal.source (t : Terminal) : Source := ⟨t.signal, t.qualified⟩

/-- The signals with wires that stations take in, the stations in order and the signals of each as
they are declared; the first station has the given position. -/
def demandsFrom (index : Nat) (stations : List Station) : List Terminal :=
  (stations.zipIdx index).flatMap fun p =>
    (p.1.takes.filter fun s => s.width ≠ 0).map fun s => ⟨p.2, p.1, s⟩

/-- The signals with wires that the stations of a composition take in. -/
def demands (stations : List Station) : List Terminal := demandsFrom 0 stations

/-- The terminal gives out a signal with wires under a name. -/
def Produces (stations : List Station) (name : String) (t : Terminal) : Prop :=
  stations[t.index]? = some t.station ∧ t.signal ∈ t.station.gives ∧ t.signal.width ≠ 0 ∧
    t.signal.name = name

/-- The terminal is that of the latest station before a position that gives out a name. -/
def Latest (stations : List Station) (position : Nat) (name : String) (t : Terminal) : Prop :=
  Produces stations name t ∧ t.index < position ∧
    ∀ u, Produces stations name u → u.index < position → u.index ≤ t.index

/-- No station before a position gives out a name. -/
def Missing (stations : List Station) (position : Nat) (name : String) : Prop :=
  ∀ t, Produces stations name t → ¬ t.index < position

/-- The source feeds the sink: it is the latest before it under the first candidate of the sink's
name that any earlier station gives out. -/
def Feeds (stations : List Station) (sink source : Terminal) : Prop :=
  ∃ better name worse, candidates sink.signal.name = better ++ name :: worse ∧
    (∀ other ∈ better, Missing stations sink.index other) ∧ Latest stations sink.index name source

/-- No earlier station gives out any candidate of the sink's name. -/
def Unfed (stations : List Station) (sink : Terminal) : Prop :=
  ∀ name ∈ candidates sink.signal.name, Missing stations sink.index name

/-- The connection is the one that a sink should get. -/
def Wired (stations : List Station) (sink : Terminal) (c : Connection) : Prop :=
  c.sink = sink.qualified ∧
    ((∃ source, Feeds stations sink source ∧ c.source = source.qualified) ∨
      (Unfed stations sink ∧ c.source = sink.signal.name))

/-- The sink is fed by a signal of another width. -/
def Clashes (stations : List Station) (sink source : Terminal) : Prop :=
  Feeds stations sink source ∧ source.signal.width ≠ sink.signal.width

/-! ### The table of produced signals -/

/-- The table after the given stations. -/
def availableOf (stations : List Station) : Available := stations.reverse.flatMap fun s => produced s.node

theorem availableOf_concat (stations : List Station) (s : Station) :
    availableOf (stations ++ [s]) = produced s.node ++ availableOf stations := by
  simp [availableOf]

/-- The table has the present signals that a station gives out. -/
theorem mem_produced_node {s : Station} {src : Source} :
    src ∈ produced s.node ↔ ∃ g ∈ s.gives, g.width ≠ 0 ∧ src = ⟨g, s.node.qualify g⟩ := by
  simp only [produced, Station.sources_node, List.mem_reverse, List.mem_map, List.mem_filter,
    Signal.isPresent_iff, and_assoc, @eq_comm _ src]

/-- The table after some stations of a composition has the signals that they give out. -/
theorem mem_availableOf {before : List Station} (rest : List Station) {src : Source} :
    src ∈ availableOf before ↔
      ∃ t, Produces (before ++ rest) src.signal.name t ∧ t.index < before.length ∧ src = t.source := by
  simp only [availableOf, List.mem_flatMap, List.mem_reverse, mem_produced_node]
  constructor
  · rintro ⟨s, hs, g, hg, hwidth, rfl⟩
    obtain ⟨i, hi, rfl⟩ := List.getElem_of_mem hs
    refine ⟨⟨i, before[i], g⟩, ⟨?_, hg, hwidth, rfl⟩, hi, rfl⟩
    rw [List.getElem?_append_left hi, List.getElem?_eq_getElem hi]
  · rintro ⟨t, ⟨hstation, hg, hwidth, -⟩, hi, rfl⟩
    rw [List.getElem?_append_left hi] at hstation
    exact ⟨t.station, List.mem_of_getElem? hstation, t.signal, hg, hwidth, rfl⟩

/-- A name is not in the table after some stations exactly if none of them gives it out. -/
theorem latest?_availableOf_eq_none_iff (before rest : List Station) (name : String) :
    latest? (availableOf before) name = none ↔ Missing (before ++ rest) before.length name := by
  simp only [latest?, List.find?_eq_none, decide_eq_true_eq]
  constructor
  · intro h t ht hi
    refine h t.source ((mem_availableOf rest).mpr ⟨t, ?_, hi, rfl⟩) ht.2.2.2
    exact ⟨ht.1, ht.2.1, ht.2.2.1, rfl⟩
  · rintro h src hsrc rfl
    obtain ⟨t, ht, hi, -⟩ := (mem_availableOf rest).mp hsrc
    exact h t ht hi

/-- What a station adds to the table under a name: the one signal of that name that it gives out. -/
theorem latest?_produced_eq_some_iff {s : Station} {name : String} {src : Source} :
    latest? (produced s.node) name = some src ↔
      ∃ g ∈ s.gives, g.width ≠ 0 ∧ g.name = name ∧ src = ⟨g, s.node.qualify g⟩ := by
  constructor
  · intro h
    obtain ⟨g, hg, hwidth, rfl⟩ := mem_produced_node.mp (List.mem_of_find?_eq_some h)
    exact ⟨g, hg, hwidth, by simpa using List.find?_some h, rfl⟩
  · rintro ⟨g, hg, hwidth, hname, rfl⟩
    have hmem : (⟨g, s.node.qualify g⟩ : Source) ∈ produced s.node := mem_produced_node.mpr ⟨g, hg, hwidth, rfl⟩
    cases hfind : latest? (produced s.node) name with
    | none => exact absurd hname (by simpa using List.find?_eq_none.mp hfind _ hmem)
    | some found =>
      obtain ⟨g', hg', -, rfl⟩ := mem_produced_node.mp (List.mem_of_find?_eq_some hfind)
      have hname' : g'.name = name := by simpa using List.find?_some hfind
      rw [List.inj_on_of_nodup_map s.nodup_gives hg' hg (hname'.trans hname.symm)]

/-- After some stations of a composition, the table holds under each name the signal of the latest
of them that gives it out. -/
theorem latest?_availableOf_eq_some_iff (before rest : List Station) (name : String) (src : Source) :
    latest? (availableOf before) name = some src ↔
      ∃ t, Latest (before ++ rest) before.length name t ∧ src = t.source := by
  induction before using List.reverseRecOn generalizing rest with
  | nil => simp [latest?, availableOf, Latest]
  | append_singleton before s ih =>
    have hat : (before ++ [s] ++ rest)[before.length]? = some s := by simp
    rw [availableOf_concat, latest?, List.find?_append, ← latest?, ← latest?, List.length_append,
      List.length_singleton]
    cases hown : latest? (produced s.node) name with
    | some own =>
      -- the last station gives the name out itself, so no earlier one matters
      obtain ⟨g, hg, hwidth, hname, rfl⟩ := latest?_produced_eq_some_iff.mp hown
      have hlast : Produces (before ++ [s] ++ rest) name ⟨before.length, s, g⟩ := ⟨hat, hg, hwidth, hname⟩
      simp only [Option.some_or, Option.some.injEq]
      constructor
      · rintro rfl
        exact ⟨_, ⟨hlast, Nat.lt_succ_self _, fun u _ hu => Nat.le_of_lt_succ hu⟩, rfl⟩
      · rintro ⟨t, ⟨ht, hlt, hmax⟩, rfl⟩
        have hindex : t.index = before.length :=
          Nat.le_antisymm (Nat.le_of_lt_succ hlt) (hmax _ hlast (Nat.lt_succ_self _))
        obtain ⟨hstation, hsignal, -, htname⟩ := ht
        rw [hindex, hat, Option.some.injEq] at hstation
        rw [← hstation] at hsignal
        have hsame := List.inj_on_of_nodup_map s.nodup_gives hg hsignal (hname.trans htname.symm)
        rw [Terminal.source, Terminal.qualified, ← hstation, ← hsame]
    | none =>
      -- the last station does not give the name out, so the entry is that of the stations before it
      rw [Option.none_or, ih ([s] ++ rest), ← List.append_assoc]
      have hnot : ∀ t, Produces (before ++ [s] ++ rest) name t → t.index ≠ before.length := by
        rintro t ⟨hstation, hsignal, hwidth, htname⟩ hindex
        rw [hindex, hat, Option.some.injEq] at hstation
        rw [← hstation] at hsignal
        have := latest?_produced_eq_some_iff.mpr ⟨t.signal, hsignal, hwidth, htname, rfl⟩
        rw [hown] at this
        cases this
      have hiff : ∀ t, Produces (before ++ [s] ++ rest) name t →
          (t.index < before.length + 1 ↔ t.index < before.length) := by
        intro t ht
        have := hnot t ht
        omega
      refine exists_congr fun t => and_congr_left fun _ => and_congr_right fun ht => ?_
      rw [hiff t ht]
      refine and_congr_right fun _ => forall_congr' fun u => ⟨fun h hu hlt => ?_, fun h hu hlt => ?_⟩
      · exact h hu ((hiff u hu).mp hlt)
      · exact h hu ((hiff u hu).mpr hlt)

/-! ### Runs of the wiring -/

theorem resolveAll_eq_mapM (strict : Bool) (available : Available) (n : Node) (sinks : List Signal) :
    resolveAll strict available n sinks = sinks.mapM (resolve strict available n) := by
  induction sinks with
  | nil => rfl
  | cons s rest ih => simp only [resolveAll, List.mapM_cons, ih]

/-- The outcome for one sink of a composition. -/
def outcomeOf (strict : Bool) (stations : List Station) (d : Terminal) : Except DesignError Connection :=
  resolve strict (availableOf (stations.take d.index)) d.station.node d.signal

theorem demandsFrom_cons (index : Nat) (s : Station) (stations : List Station) :
    demandsFrom index (s :: stations) =
      s.node.sinks.map (fun signal => ⟨index, s, signal⟩) ++ demandsFrom (index + 1) stations := by
  have hfilter : s.node.sinks = s.takes.filter fun signal => signal.width ≠ 0 := by
    rw [Station.sinks_node]
    exact List.filter_congr fun signal _ => by rw [Bool.eq_iff_iff, Signal.isPresent_iff, decide_eq_true_eq]
  rw [hfilter]
  rfl

/-- The wiring settles the sinks one after the other, each against the stations before its own. -/
theorem connectFrom_eq_mapM (strict : Bool) (before rest : List Station) :
    connectFrom strict (availableOf before) (rest.map Station.node) =
      (demandsFrom before.length rest).mapM (outcomeOf strict (before ++ rest)) := by
  induction rest generalizing before with
  | nil => rfl
  | cons s rest ih =>
    have hrest := ih (before ++ [s])
    rw [availableOf_concat, List.append_assoc, List.singleton_append, List.length_append,
      List.length_singleton] at hrest
    have hown : (s.node.sinks.map fun signal => (⟨before.length, s, signal⟩ : Terminal)).mapM
        (outcomeOf strict (before ++ s :: rest)) = s.node.sinks.mapM (resolve strict (availableOf before) s.node) := by
      rw [List.mapM_map]
      congr 1
      funext signal
      simp only [Function.comp, outcomeOf, List.take_left]
    rw [List.map_cons, connectFrom, resolveAll_eq_mapM, hrest, demandsFrom_cons, List.mapM_append, hown]

theorem connect_eq_mapM (strict : Bool) (stations : List Station) :
    connect strict (stations.map Station.node) =
      ((demands stations).mapM (outcomeOf strict stations)).map Connections.mk := by
  have h := connectFrom_eq_mapM strict [] stations
  rw [List.nil_append, List.length_nil] at h
  exact congrArg (Except.map Connections.mk) h

/-- A sink that is settled belongs to the station at its position. -/
theorem getElem?_of_mem_demands {stations : List Station} {d : Terminal} (h : d ∈ demands stations) :
    stations[d.index]? = some d.station := by
  simp only [demands, demandsFrom, List.mem_flatMap, List.mem_map] at h
  obtain ⟨p, hp, s, -, rfl⟩ := h
  exact List.mem_zipIdx_iff_getElem?.mp hp

/-- There are as many stations before a sink as its position says. -/
theorem length_take_of_mem_demands {stations : List Station} {d : Terminal} (h : d ∈ demands stations) :
    (stations.take d.index).length = d.index := by
  have hlt : d.index < stations.length := (List.getElem?_eq_some_iff.mp (getElem?_of_mem_demands h)).1
  rw [List.length_take, Nat.min_eq_left (Nat.le_of_lt hlt)]

/-! ### Outcomes -/

section Outcomes

variable {stations : List Station} {d : Terminal}

/-- The wiring finds the source that feeds a sink. -/
theorem feeder?_eq_some_iff (h : d ∈ demands stations) {src : Source} :
    feeder? (availableOf (stations.take d.index)) d.signal.name = some src ↔
      ∃ source, Feeds stations d source ∧ src = source.source := by
  have hsome := latest?_availableOf_eq_some_iff (stations.take d.index) (stations.drop d.index)
  have hnone := latest?_availableOf_eq_none_iff (stations.take d.index) (stations.drop d.index)
  simp only [List.take_append_drop, length_take_of_mem_demands h] at hsome hnone
  simp only [feeder?, List.findSome?_eq_some_iff, hsome, hnone, Feeds]
  constructor
  · rintro ⟨better, name, worse, hsplit, ⟨t, ht, rfl⟩, hbetter⟩
    exact ⟨t, ⟨better, name, worse, hsplit, hbetter, ht⟩, rfl⟩
  · rintro ⟨t, ⟨better, name, worse, hsplit, hbetter, ht⟩, rfl⟩
    exact ⟨better, name, worse, hsplit, ⟨t, ht, rfl⟩, hbetter⟩

/-- The wiring finds no source exactly if the sink is unfed. -/
theorem feeder?_eq_none_iff (h : d ∈ demands stations) :
    feeder? (availableOf (stations.take d.index)) d.signal.name = none ↔ Unfed stations d := by
  have hnone := latest?_availableOf_eq_none_iff (stations.take d.index) (stations.drop d.index)
  simp only [List.take_append_drop, length_take_of_mem_demands h] at hnone
  simp only [feeder?, List.findSome?_eq_none_iff, hnone, Unfed]

/-- The connection of a sink, whatever the widths. -/
def linkOf (stations : List Station) (d : Terminal) : Connection where
  sink := d.qualified
  source := match feeder? (availableOf (stations.take d.index)) d.signal.name with
    | none => d.signal.name
    | some source => source.qualified

/-- Every sink is linked as it should be. -/
theorem wired_linkOf (h : d ∈ demands stations) : Wired stations d (linkOf stations d) := by
  refine ⟨rfl, ?_⟩
  unfold linkOf
  cases hfeeder : feeder? (availableOf (stations.take d.index)) d.signal.name with
  | none => exact Or.inr ⟨(feeder?_eq_none_iff h).mp hfeeder, rfl⟩
  | some src =>
    obtain ⟨source, hfeeds, rfl⟩ := (feeder?_eq_some_iff h).mp hfeeder
    exact Or.inl ⟨source, hfeeds, rfl⟩

/-- A wiring that ignores widths links every sink. -/
theorem outcomeOf_false (stations : List Station) (d : Terminal) :
    outcomeOf false stations d = .ok (linkOf stations d) := by
  unfold outcomeOf resolve linkOf
  cases feeder? (availableOf (stations.take d.index)) d.signal.name <;> rfl

/-- A strict wiring refuses a sink that is fed by a signal of another width. -/
theorem outcomeOf_true_of_clashes {source : Terminal} (h : d ∈ demands stations)
    (hclash : Clashes stations d source) :
    outcomeOf true stations d =
      .error (.widthMismatch d.qualified source.qualified d.signal.width source.signal.width) := by
  have hfeeder := (feeder?_eq_some_iff h).mpr ⟨source, hclash.1, rfl⟩
  have hwidth : (true && decide (source.source.signal.width ≠ d.signal.width)) = true := by
    rw [Bool.true_and, decide_eq_true_eq]
    exact hclash.2
  unfold outcomeOf resolve
  rw [hfeeder]
  exact if_pos hwidth

/-- A strict wiring links every other sink. -/
theorem outcomeOf_true_of_not_clashes (h : d ∈ demands stations)
    (hclash : ∀ source, ¬ Clashes stations d source) : outcomeOf true stations d = .ok (linkOf stations d) := by
  unfold outcomeOf resolve linkOf
  cases hfeeder : feeder? (availableOf (stations.take d.index)) d.signal.name with
  | none => rfl
  | some src =>
    obtain ⟨source, hfeeds, rfl⟩ := (feeder?_eq_some_iff h).mp hfeeder
    have hwidth : source.signal.width = d.signal.width := by
      by_contra hne
      exact hclash source ⟨hfeeds, hne⟩
    simp only [Terminal.source, hwidth, ne_eq, not_true_eq_false, decide_false, Bool.and_false]
    rfl

end Outcomes

/-- The connections of a station do not depend on what it gives out itself. -/
theorem connectFrom_append_singleton_sources (strict : Bool) (available : Available) (nodes : List Node)
    (n : Node) (sources : List Signal) :
    connectFrom strict available (nodes ++ [⟨n.kind, n.sinks, sources⟩]) =
      connectFrom strict available (nodes ++ [n]) := by
  induction nodes generalizing available with
  | nil =>
    have hresolve : resolveAll strict available ⟨n.kind, n.sinks, sources⟩ n.sinks =
        resolveAll strict available n n.sinks := by
      rw [resolveAll_eq_mapM, resolveAll_eq_mapM]
      rfl
    simp only [List.nil_append, connectFrom, hresolve]
  | cons m rest ih => simp only [List.cons_append, connectFrom, ih]

/-- Which names feed a signal of a standard name, the best first. -/
def preferences : List (String × List String) :=
  [("x", ["x", "y"]), ("y", ["y", "x"]), ("x_address", ["x_address", "y_address"]),
    ("y_address", ["y_address", "x_address"]), ("enable", ["enable", "done"]), ("done", ["done", "enable"]),
    ("clock", ["clock"])]

/-- A signal of another name is fed by signals of its own name only. -/
theorem candidates_eq (name : String) : candidates name = (preferences.lookup name).getD [name] := by
  simp only [preferences, Outcome.lookup_cons_eq, List.lookup_nil]
  unfold candidates
  split
  case h_8 => simp_all
  all_goals rfl

/-- **The wiring connects every sink to the latest earlier producer of its best candidate.** A
wiring that ignores widths never fails and gives one connection per signal with wires that a
station takes in, in order. A strict wiring gives the same connections if every signal that was
found has the width of its sink, and else refuses the first pair of different widths. A source that
was found belongs to an earlier station, and what a station gives out itself plays no part in how
it is connected. -/
theorem connect_latest_producers (stations : List Station) :
    ∃ connections : List Connection,
      connect false (stations.map Station.node) = .ok ⟨connections⟩ ∧
      List.Forall₂ (Wired stations) (demands stations) connections ∧
      ((∀ d ∈ demands stations, ∀ source, ¬ Clashes stations d source) →
        connect true (stations.map Station.node) = .ok ⟨connections⟩) ∧
      (∀ before d after source, demands stations = before ++ d :: after →
        (∀ e ∈ before, ∀ other, ¬ Clashes stations e other) → Clashes stations d source →
        connect true (stations.map Station.node) =
          .error (.widthMismatch d.qualified source.qualified d.signal.width source.signal.width)) ∧
      (∀ d source, Feeds stations d source → source.index < d.index) ∧
      (∀ strict earlier own, stations = earlier ++ [own] →
        connect strict (stations.map Station.node) =
          connect strict (earlier.map Station.node ++ [⟨own.node.kind, own.node.sinks, []⟩])) := by
  refine ⟨(demands stations).map (linkOf stations), ?_, ?_, ?_, ?_, ?_, ?_⟩
  · have hfalse := Outcome.mapM_eq_ok_map fun d (_ : d ∈ demands stations) => outcomeOf_false stations d
    rw [connect_eq_mapM, hfalse]
    rfl
  · rw [List.forall₂_map_right_iff, List.forall₂_same]
    exact fun d hd => wired_linkOf hd
  · intro hclash
    have htrue := Outcome.mapM_eq_ok_map fun d hd => outcomeOf_true_of_not_clashes hd (hclash d hd)
    rw [connect_eq_mapM, htrue]
    rfl
  · intro before d after source hsplit hbefore hclash
    have hmem : ∀ e ∈ before ++ d :: after, e ∈ demands stations := fun e he => hsplit ▸ he
    have hlinked : ∀ e ∈ before, ∃ c, outcomeOf true stations e = .ok c := fun e he =>
      ⟨_, outcomeOf_true_of_not_clashes (hmem e (List.mem_append_left _ he)) (hbefore e he)⟩
    have hrefused := outcomeOf_true_of_clashes (hmem d (by simp)) hclash
    rw [connect_eq_mapM, hsplit, Outcome.mapM_eq_error hlinked hrefused]
    rfl
  · rintro d source ⟨_, _, _, -, -, hlatest⟩
    exact hlatest.2.1
  · rintro strict earlier own rfl
    have hown := connectFrom_append_singleton_sources strict [] (earlier.map Station.node) own.node []
    rw [List.map_append, List.map_singleton, connect, connect, hown]

/-- Two components that give out a `y`, the second one of another width than the composition has. -/
def competing : List Station :=
  [.start 8 1, .component "a" ⟨[.input "x" 8], [.output "y" 8]⟩ (by decide),
    .component "b" ⟨[.input "x" 8], [.output "y" 4]⟩ (by decide), .finish 8 1]

/-- The input `x` is preferred to any `y`, and of the two signals called `y` the output takes the later one. A strict
wiring refuses it. -/
theorem connect_competing :
    let links : List Connection := [⟨"a_x", "x"⟩, ⟨"b_x", "x"⟩, ⟨"y", "b_y"⟩, ⟨"x_address", "y_address"⟩,
      ⟨"done", "enable"⟩]
    connect false (competing.map Station.node) = .ok ⟨links⟩ ∧
      List.Forall₂ (Wired competing) (demands competing) links ∧
      connect true (competing.map Station.node) = .error (.widthMismatch "y" "b_y" 8 4) := by
  intro links
  have hlinks : connect false (competing.map Station.node) = .ok ⟨links⟩ := by decide +kernel
  obtain ⟨connections, hconnected, hwired, -⟩ := connect_latest_producers competing
  rw [hlinks, Except.ok.injEq, Connections.mk.injEq] at hconnected
  exact ⟨hlinks, hconnected ▸ hwired, by decide +kernel⟩

end Wiring

end QuantNet
