import QuantNet.Bits
import QuantNet.Design
import QuantNet.Source.Skeleton

/-!
# Skeletons

The wrapper that puts a network behind the interface of its host: it buffers inputs and outputs,
drives the network, and answers reads of its identifier. There are two versions, with an
identifier of one byte and of sixteen.
-/

namespace QuantNet

/-- The versions of the wrapper. -/
inductive SkeletonVersion where
  /-- An identifier of one byte. -/
  | v1
  /-- An identifier of sixteen bytes. -/
  | v2
deriving DecidableEq

namespace SkeletonVersion

/-- The length of the identifier. -/
def idLength : SkeletonVersion → Nat
  | v1 => 1
  | v2 => 16

/-- The source text. -/
def source : SkeletonVersion → Template
  | v1 => Source.skeletonV1
  | v2 => Source.skeletonV2

/-- The name of a version. -/
def text : SkeletonVersion → String
  | v1 => "v1"
  | v2 => "v2"

/-- The version of a name. -/
def ofText? : String → Option SkeletonVersion
  | "v1" => some v1
  | "v2" => some v2
  | _ => none

/-- The version of a name, or the refusal of the name. -/
def parse (s : String) : Except DesignError SkeletonVersion :=
  match ofText? s with
  | some v => .ok v
  | none => .error (.unknownSkeletonVersion s)

/-- The version as data. -/
def toJson (v : SkeletonVersion) : Json := .string v.text

/-- The version stored in data. -/
def ofJson? (v : Json) : Option SkeletonVersion := v.string?.bind ofText?

end SkeletonVersion

/-- The wrapper of a network. -/
structure Skeleton where
  /-- The network it wraps. -/
  networkName : String
  /-- The boundary of the network. -/
  port : Port
  /-- How many values go in. -/
  xCount : Nat
  /-- How many values come out. -/
  yCount : Nat
  /-- The identifier. -/
  id : List UInt8
  /-- The version. -/
  version : SkeletonVersion
deriving DecidableEq

namespace Skeleton

/-- The name of the component and of its file. -/
def name : String := "skeleton"

/-- The wrapper, if the identifier has the length the version asks for. -/
def make (networkName : String) (port : Port) (xCount yCount : Nat) (id : List UInt8)
    (version : SkeletonVersion) : Except DesignError Skeleton :=
  if id.length = version.idLength then .ok ⟨networkName, port, xCount, yCount, id, version⟩
  else .error (.invalidSkeletonId version.text version.idLength id.length)

/-- The literals of the identifier. -/
def idLiterals (s : Skeleton) : String :=
  ", ".intercalate (s.id.map fun b => Bits.literal b.toNat 8)

/-- What the source text is filled with. -/
def parameters (s : Skeleton) : Parameters :=
  Parameters.none
    |>.withText "name" name
    |>.withText "network_name" s.networkName
    |>.withNat "data_width_in" (s.port.widthOf "x")
    |>.withNat "x_addr_width" (s.port.widthOf "x_address")
    |>.withNat "x_num_values" s.xCount
    |>.withNat "y_num_values" s.yCount
    |>.withNat "data_width_out" (s.port.widthOf "y")
    |>.withNat "y_addr_width" (s.port.widthOf "y_address")
    |>.withText "id" s.idLiterals

/-- The lines of the wrapper. -/
def render (s : Skeleton) : Except OutputError (List String) := s.version.source.render s.parameters

/-- The steps by which the wrapper is written. -/
def emissions (s : Skeleton) : List Emission := [Design.emit name s.render]

end Skeleton

end QuantNet
