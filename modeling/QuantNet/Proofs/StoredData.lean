import QuantNet.Json.Stored
import QuantNet.Proofs.Manifests
import QuantNet.Skeleton
import QuantNet.Wiring.Connect

/-!
# What is stored as data

Bit strings, formats, fingerprints, signals, ports, connections, versions and manifests are stored as texts
of the data format, and both texts of a value, the compact and the indented one, are read back as the value
(`Json.ReadsBack`).

There are two steps. The value is written as data that consists of integers, strings, lists and objects, and
of such data both texts are read back, whatever characters the strings hold. Reading the data gives the value
again, field by field. Two readers refuse some data: that of widths, which takes machine words of 32 bits
only, and that of formats, which takes what makes a format (`QFormat.ofJson?_eq_some_iff`).
-/

namespace QuantNet

/-- Both texts of a value are read back as the value. -/
structure Json.ReadsBack {α : Type} (toJson : α → Json) (ofJson? : Json → Option α) (a : α) : Prop where
  compact : (Json.parse? (toJson a).compact).bind ofJson? = some a
  pretty : (Json.parse? (toJson a).pretty).bind ofJson? = some a

theorem Json.Plain.readsBack {α : Type} {toJson : α → Json} {ofJson? : Json → Option α} {a : α}
    (hplain : (toJson a).Plain) (h : ofJson? (toJson a) = some a) : ReadsBack toJson ofJson? a :=
  ⟨by rw [hplain.parse?_compact, Option.bind_some, h], by rw [hplain.parse?_pretty, Option.bind_some, h]⟩

/-- A list of plain values is plain. -/
theorem Json.Plain.array_map {α : Type} {write : α → Json} (h : ∀ a, (write a).Plain) (items : List α) :
    (Json.array (items.map write)).Plain := by
  refine .array fun v hv => ?_
  obtain ⟨a, -, rfl⟩ := List.mem_map.mp hv
  exact h a

/-! ### Bit strings -/

theorem Logic.ofJson?_toJson (v : Logic) : ofJson? v.toJson = some v := by
  cases v <;> rfl

theorem Bits.ofJson?_toJson (b : Bits) : ofJson? b.toJson = some b := by
  have hfields : b.toJson.fields? ["values"] = some [.array (b.values.map Logic.toJson)] := rfl
  have hvalues : (Json.array (b.values.map Logic.toJson)).items? Logic.ofJson? = some b.values :=
    Json.items?_map fun v _ => v.ofJson?_toJson
  simp only [ofJson?, hfields, Option.bind_eq_bind, Option.bind_some, hvalues, Option.pure_def]

theorem Bits.plain_toJson (b : Bits) : b.toJson.Plain := by
  refine .object (List.forall_mem_singleton.mpr ?_)
  exact .array_map (fun v => .string v.name) b.values

/-! ### Formats -/

namespace QFormat

/-- Two numbers make a format if they are its numbers of bits. -/
theorem ofInts_eq_ok_iff {totalBits fracBits : Int} {f : QFormat} :
    ofInts totalBits fracBits = .ok f ↔ totalBits = f.totalBits ∧ fracBits = f.fracBits := by
  have htotal := f.total_le
  have hpos := f.total_pos
  have hfrac := f.frac_lt
  constructor
  · intro h
    unfold ofInts at h
    split_ifs at h
    cases h
    exact ⟨(Int.toNat_of_nonneg (by omega)).symm, (Int.toNat_of_nonneg (by omega)).symm⟩
  · rintro ⟨rfl, rfl⟩
    rw [ofInts, dif_neg (by omega), dif_neg (by omega), dif_neg (by omega), dif_neg (by omega)]
    rfl

/-- Two integers are read as a format if they make it. -/
theorem ofJson?_eq_some_iff {v : Json} {totalBits fracBits : Int}
    (hfields : v.fields? ["total_bits", "frac_bits"] = some [.integer totalBits, .integer fracBits]) {f : QFormat} :
    ofJson? v = some f ↔ ofInts totalBits fracBits = .ok f := by
  by_cases hwords : (-(twoPow 63 : Int) ≤ totalBits ∧ totalBits ≤ (twoPow 63 - 1 : Int)) ∧
      -(twoPow 63 : Int) ≤ fracBits ∧ fracBits ≤ (twoPow 63 - 1 : Int)
  · simp only [ofJson?, hfields, Option.bind_eq_bind, Option.bind_some, Json.integer?, if_pos hwords.1, if_pos hwords.2]
    cases ofInts totalBits fracBits with
    | ok g => simp only [Option.some.injEq, Except.ok.injEq]
    | error cause => simp only [reduceCtorEq]
  · -- no format has numbers that leave a machine word
    refine iff_of_false (fun h => ?_) fun h => hwords ?_
    · simp only [ofJson?, hfields, Option.bind_eq_bind, Option.bind_some, Json.integer?] at h
      split_ifs at h with htotal hfrac
      · exact hwords ⟨htotal, hfrac⟩
      all_goals cases h
    · obtain ⟨rfl, rfl⟩ := ofInts_eq_ok_iff.mp h
      have htotal := f.total_le
      have hfrac := f.frac_lt
      simp only [twoPow_eq]
      omega

theorem ofJson?_toJson (f : QFormat) : ofJson? f.toJson = some f :=
  (ofJson?_eq_some_iff rfl).mpr (ofInts_eq_ok_iff.mpr ⟨rfl, rfl⟩)

theorem plain_toJson (f : QFormat) : f.toJson.Plain := by
  refine .object ?_
  simp only [List.forall_mem_cons]
  exact ⟨.integer _, .integer _, List.forall_mem_nil _⟩

end QFormat

/-! ### Signals and ports -/

theorem Direction.ofJson?_toJson (d : Direction) : ofJson? d.toJson = some d := by
  cases d <;> rfl

namespace Signal

/-- A signal is read back if its width is a machine word of 32 bits. -/
theorem ofJson?_toJson {s : Signal} (h : s.width < 2 ^ 32) : ofJson? s.toJson = some s := by
  have hfields : s.toJson.fields? ["name", "width", "direction"] =
      some [.string s.name, .integer s.width, s.direction.toJson] := rfl
  have hwidth : (Json.integer s.width).natural? (twoPow 32) = some s.width := by
    rw [twoPow_eq]
    exact Json.natural?_natCast h
  rw [ofJson?, hfields, Option.bind_eq_bind, Option.bind_some]
  simp only [Json.string?, hwidth, Direction.ofJson?_toJson, Option.bind_eq_bind, Option.bind_some, Option.pure_def]

theorem plain_toJson (s : Signal) : s.toJson.Plain := by
  refine .object ?_
  simp only [List.forall_mem_cons]
  exact ⟨.string _, .integer _, .string _, List.forall_mem_nil _⟩

end Signal

namespace Port

theorem ofJson?_toJson {p : Port} (h : ∀ s ∈ p.signals, s.width < 2 ^ 32) : ofJson? p.toJson = some p := by
  have hfields : p.toJson.fields? ["incoming", "outgoing"] =
      some [.array (p.incoming.map Signal.toJson), .array (p.outgoing.map Signal.toJson)] := rfl
  obtain ⟨hin, hout⟩ := List.forall_mem_append.mp h
  have hincoming : (Json.array (p.incoming.map Signal.toJson)).items? Signal.ofJson? = some p.incoming :=
    Json.items?_map fun s hs => Signal.ofJson?_toJson (hin s hs)
  have houtgoing : (Json.array (p.outgoing.map Signal.toJson)).items? Signal.ofJson? = some p.outgoing :=
    Json.items?_map fun s hs => Signal.ofJson?_toJson (hout s hs)
  simp only [ofJson?, hfields, Option.bind_eq_bind, Option.bind_some, hincoming, houtgoing, Option.pure_def]

theorem plain_toJson (p : Port) : p.toJson.Plain := by
  refine .object ?_
  simp only [List.forall_mem_cons]
  exact ⟨.array_map Signal.plain_toJson _, .array_map Signal.plain_toJson _, List.forall_mem_nil _⟩

end Port

/-! ### Connections -/

theorem Connection.ofJson?_toJson (c : Connection) : ofJson? c.toJson = some c := rfl

theorem Connection.plain_toJson (c : Connection) : c.toJson.Plain := by
  refine .object ?_
  simp only [List.forall_mem_cons]
  exact ⟨.string _, .string _, List.forall_mem_nil _⟩

theorem Connections.ofJson?_toJson (cs : Connections) : ofJson? cs.toJson = some cs := by
  have hfields : cs.toJson.fields? ["entries"] = some [.array (cs.entries.map Connection.toJson)] := rfl
  have hentries : (Json.array (cs.entries.map Connection.toJson)).items? Connection.ofJson? = some cs.entries :=
    Json.items?_map fun c _ => c.ofJson?_toJson
  simp only [ofJson?, hfields, Option.bind_eq_bind, Option.bind_some, hentries, Option.pure_def]

theorem Connections.plain_toJson (cs : Connections) : cs.toJson.Plain :=
  .object (List.forall_mem_singleton.mpr (.array_map Connection.plain_toJson _))

/-! ### Versions -/

theorem SkeletonVersion.ofJson?_toJson (v : SkeletonVersion) : ofJson? v.toJson = some v := by
  cases v <;> rfl

/-! ### Manifests -/

/-- A manifest that was stored is loaded again. -/
theorem Manifest.load?_of_save {d d' : Disk} {dir : String} {m : Manifest} (hrooted : d.IsRooted)
    (h : m.save d dir = (d', .ok ())) : load? d' dir = some m := by
  have hstored := (stored_save hrooted m dir).1
  rw [h] at hstored
  rw [load?, (hstored rfl).text _ List.mem_cons_self, ofOutcome?_pretty]

/-! ### All of them -/

/-- **What is stored is read back.** The compact and the indented text of every bit string, format, fingerprint, list
of connections, version and manifest, and of every signal and port whose widths are machine words of 32 bits, are read
back as the value. A manifest that was stored in a directory is loaded from it. A text that holds two integers as a
format is read as a format exactly if the integers make it. -/
theorem readsBack_stored :
    (∀ b, Json.ReadsBack Bits.toJson Bits.ofJson? b) ∧
    (∀ f, Json.ReadsBack QFormat.toJson QFormat.ofJson? f) ∧
    (∀ h, Json.ReadsBack ContentHash.toJson ContentHash.ofJson? h) ∧
    (∀ s : Signal, s.width < 2 ^ 32 → Json.ReadsBack Signal.toJson Signal.ofJson? s) ∧
    (∀ p : Port, (∀ s ∈ p.signals, s.width < 2 ^ 32) → Json.ReadsBack Port.toJson Port.ofJson? p) ∧
    (∀ cs, Json.ReadsBack Connections.toJson Connections.ofJson? cs) ∧
    (∀ v, Json.ReadsBack SkeletonVersion.toJson SkeletonVersion.ofJson? v) ∧
    (∀ m, Json.ReadsBack Manifest.toJson Manifest.ofJson? m) ∧
    (∀ (m : Manifest) (d d' : Disk) (dir : String), d.IsRooted → m.save d dir = (d', .ok ()) →
      Manifest.load? d' dir = some m) ∧
    ∀ text v totalBits fracBits f, Json.parse? text = some v →
      v.fields? ["total_bits", "frac_bits"] = some [.integer totalBits, .integer fracBits] →
      ((Json.parse? text).bind QFormat.ofJson? = some f ↔ QFormat.ofInts totalBits fracBits = .ok f) := by
  refine ⟨fun b => b.plain_toJson.readsBack b.ofJson?_toJson, fun f => f.plain_toJson.readsBack f.ofJson?_toJson,
    fun h => h.plain_toJson.readsBack h.ofJson?_toJson, fun s hs => s.plain_toJson.readsBack (Signal.ofJson?_toJson hs),
    fun p hp => p.plain_toJson.readsBack (Port.ofJson?_toJson hp),
    fun cs => cs.plain_toJson.readsBack cs.ofJson?_toJson,
    fun v => Json.Plain.readsBack (.string v.text) v.ofJson?_toJson,
    fun m => m.plain_toJson.readsBack m.ofJson?_toJson, fun m d d' dir => Manifest.load?_of_save,
    fun text v totalBits fracBits f hv hfields => ?_⟩
  rw [hv, Option.bind_some, QFormat.ofJson?_eq_some_iff hfields]

/-- A signal of the greatest width whose name holds a quotation mark, a backslash, a control character and a character
of two surrogates. -/
def oddlyNamed : Signal := .input "\"\\\u0001𝔁" (2 ^ 32 - 1)

/-- A manifest with one file of this name. -/
def oddlyNamedFile : Manifest := ⟨"v2", ⟨.replicate 16 7⟩, Table.empty.insert oddlyNamed.name ⟨.replicate 16 255⟩⟩

/-- The signal is read back, alone and on a port; the manifest is stored and loaded again; and 65 bits are no format. -/
theorem readsBack_oddlyNamed :
    Json.ReadsBack Signal.toJson Signal.ofJson? oddlyNamed ∧
    Json.ReadsBack Port.toJson Port.ofJson? ⟨[oddlyNamed], []⟩ ∧
    Manifest.load? (oddlyNamedFile.save ⟨.folder [], []⟩ "out").1 "out" = some oddlyNamedFile ∧
    (Json.parse? (Json.object [("total_bits", .integer 65), ("frac_bits", .integer 0)]).compact).bind QFormat.ofJson? =
      none := by
  obtain ⟨-, -, -, hsignal, hport, -, -, -, hload, hformat⟩ := readsBack_stored
  have hwidth : oddlyNamed.width < 2 ^ 32 := by decide
  refine ⟨hsignal oddlyNamed hwidth, hport ⟨[oddlyNamed], []⟩ (List.forall_mem_singleton.mpr hwidth), ?_, ?_⟩
  · have hsave : (oddlyNamedFile.save ⟨.folder [], []⟩ "out").2 = .ok () := by decide +kernel
    exact hload oddlyNamedFile ⟨.folder [], []⟩ _ "out" ⟨_, rfl⟩ (Prod.ext rfl hsave)
  · have hplain : (Json.object [("total_bits", .integer 65), ("frac_bits", .integer 0)]).Plain := by
      refine .object ?_
      simp only [List.forall_mem_cons]
      exact ⟨.integer _, .integer _, List.forall_mem_nil _⟩
    refine Option.eq_none_iff_forall_ne_some.mpr fun f hf => ?_
    have hmake := (hformat _ _ 65 0 f hplain.parse?_compact rfl).mp hf
    cases hmake

end QuantNet
