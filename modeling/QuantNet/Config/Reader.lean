import QuantNet.Config.Validity
import QuantNet.Output.Disk
import QuantNet.Toml.Reader

/-!
# Reading configurations

The configuration a settings file describes.

## The model

Every part is a record of named fields, some of which may be left out; names that are no fields are
ignored. A layer is a record whose field `kind` says what the other fields are; written as a list it
starts with its kind and has no elements beyond its fields. A text that is no settings file, or in
which a field is missing or of the wrong type, is malformed as a whole.
-/

namespace QuantNet

open Toml

namespace Config

/-- The name of the file that describes a network. -/
def fileName : String := "kiln.toml"

/-! ### Layers -/

/-- The fields of a layer after its kind: by name in a table, by position in a list. -/
def layerFields? (names : List String) : Value → Option (List (Option Value))
  | .array (_ :: items) =>
    if items.length ≤ names.length then (Value.array items).record? names else none
  | v => v.record? names

/-- The kind of a layer. -/
def layerKind? : Value → Option String
  | .array (kind :: _) => kind.string?
  | .table entries => (entries.lookup "kind").bind Value.string?
  | _ => none

/-- A list of numbers. -/
def numbers? (v : Value) : Option (List Binary64) := v.list? Value.number?

/-- The settings of a fully connected layer. -/
def linear? (v : Value) : Option LinearSettings := do
  match ← layerFields? ["name", "in_features", "out_features", "weights", "bias"] v with
  | [name, inFeatures, outFeatures, weights, bias] =>
    return {
      name := ← required Value.string? name
      inFeatures := ← required Value.natural? inFeatures
      outFeatures := ← required Value.natural? outFeatures
      weights := ← required (Value.list? numbers?) weights
      bias := ← optional [] numbers? bias }
  | _ => none

/-- The settings of a convolution. -/
def convolution? (v : Value) : Option Conv1dSettings := do
  match ← layerFields? ["name", "in_channels", "out_channels", "signal_length", "kernel_size",
      "weights", "bias"] v with
  | [name, inChannels, outChannels, signalLength, kernelSize, weights, bias] =>
    return {
      name := ← required Value.string? name
      inChannels := ← required Value.natural? inChannels
      outChannels := ← required Value.natural? outChannels
      signalLength := ← required Value.natural? signalLength
      kernelSize := ← required Value.natural? kernelSize
      weights := ← required (Value.list? (Value.list? numbers?)) weights
      bias := ← optional [] numbers? bias }
  | _ => none

/-- The name of a layer that has no other field. -/
def nameOnly? (v : Value) : Option String := do
  match ← layerFields? ["name"] v with
  | [name] => required Value.string? name
  | _ => none

/-- The settings of a layer. -/
def layer? (v : Value) : Option LayerSettings := do
  match ← layerKind? v with
  | "linear" => (linear? v).map .linear
  | "conv1d" => (convolution? v).map .conv1d
  | "hard_sigmoid" => (nameOnly? v).map .hardSigmoid
  | "silu" => (nameOnly? v).map .silu
  | "flatten" => (nameOnly? v).map .flatten
  | _ => none

/-! ### Other parts -/

/-- The settings of the network as a whole. -/
def network? (v : Value) : Option NetworkSettings := do
  match ← v.record? ["name", "total_bits", "frac_bits", "strict_widths"] with
  | [name, totalBits, fracBits, strictWidths] =>
    return {
      name := ← required Value.string? name
      totalBits := ← required Value.integer? totalBits
      fracBits := ← required Value.integer? fracBits
      strictWidths := ← optional true Value.boolean? strictWidths }
  | _ => none

/-- The settings of the wrapper. -/
def skeleton? (v : Value) : Option SkeletonSettings := do
  match ← v.record? ["version", "id", "x_num_values", "y_num_values"] with
  | [version, id, xCount, yCount] =>
    return {
      version := ← optional .v1 (fun v => v.string?.bind SkeletonVersion.ofText?) version
      id := ← required (Value.list? Value.byte?) id
      xCount := ← optional none (fun v => v.natural?.map some) xCount
      yCount := ← optional none (fun v => v.natural?.map some) yCount }
  | _ => none

/-- The settings of the testbench. -/
def testbench? (v : Value) : Option TestbenchSettings := do
  match ← v.record? ["name", "uut"] with
  | [name, uut] => return ⟨← required Value.string? name, ← required Value.string? uut⟩
  | _ => none

/-- The settings of the output. -/
def output? (v : Value) : Option OutputSettings := do
  match ← v.record? ["output", "rom_style"] with
  | [directory, romStyle] =>
    return ⟨← optional OutputSettings.standard.directory Value.string? directory,
      ← optional OutputSettings.standard.romStyle Value.string? romStyle⟩
  | _ => none

/-- The configuration a table describes. -/
def ofValue? (v : Value) : Option Config := do
  match ← v.record? ["network", "layers", "skeleton", "testbench", "build"] with
  | [network, layers, skeleton, testbench, output] =>
    return {
      network := ← required network? network
      layers := ← optional [] (Value.list? layer?) layers
      skeleton := ← optional none (fun v => (skeleton? v).map some) skeleton
      testbench := ← optional none (fun v => (testbench? v).map some) testbench
      output := ← optional OutputSettings.standard output? output }
  | _ => none

/-! ### Files -/

/-- The valid configuration a text describes. -/
def ofText (s : String) : Except ConfigError Config :=
  match (Toml.parse? s).bind ofValue? with
  | none => .error .malformed
  | some c => c.validate.map fun _ => c

/-- The valid configuration that the outcome of reading a file gives. -/
def ofOutcome (path : String) : Except IoError String → Except ConfigError Config
  | .ok text => ofText text
  | .error cause => .error (.read path cause)

/-- The valid configuration in a file. -/
def ofFile (d : Disk) (path : String) : Except ConfigError Config := ofOutcome path (d.textOf path)

/-- The valid configuration in a directory. -/
def ofDirectory (d : Disk) (directory : String) : Except ConfigError Config :=
  ofFile d (Path.join directory fileName)

end Config

end QuantNet
