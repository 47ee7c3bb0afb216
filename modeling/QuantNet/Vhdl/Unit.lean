import QuantNet.Port

/-!
# VHDL design units

The constructs of the hardware description language that are generated directly, as data, and
their lines.

## The model

A design unit is a list of packages, an entity and an architecture. Lines are rendered last, so
that statements about a unit are about its parts. The library clause names each library once, in
the order of first mention, each followed by its packages in the order of first mention.
-/

namespace QuantNet.Vhdl

/-! ### Entities -/

/-- A type of a signal. -/
inductive SignalType where
  /-- A type of one wire. -/
  | scalar (name : String)
  /-- An array of wires, counted downwards to zero. -/
  | vector (name : String) (width : Nat)
deriving DecidableEq

namespace SignalType

/-- The single wire of nine-valued logic. -/
def stdLogic : SignalType := scalar "std_logic"

/-- The number of wires. -/
def width : SignalType → Nat
  | scalar _ => 1
  | vector _ width => width

/-- The text of a type. -/
def text : SignalType → String
  | scalar name => name
  | vector name width => name ++ "(" ++ Text.ofNat width ++ "-1 downto 0)"

end SignalType

/-- A declared signal of an entity. -/
structure PortSignal where
  /-- The name. -/
  name : String
  /-- Which way it goes. -/
  direction : Direction
  /-- Its type. -/
  type : SignalType
deriving DecidableEq

/-- The text of a declared signal. -/
def PortSignal.text (s : PortSignal) : String := s.name ++ " : " ++ s.direction.text ++ " " ++ s.type.text

/-- The items followed by a separator, but for the last. -/
def separated (separator : String) : List String → List String
  | [] => []
  | [last] => [last]
  | item :: rest => (item ++ separator) :: separated separator rest

/-- The lines moved in by one step. -/
def indent (lines : List String) : List String := lines.map ("    " ++ ·)

/-- The interface of a component. -/
structure Entity where
  /-- The name. -/
  name : String
  /-- The signals on its boundary. -/
  signals : List PortSignal
deriving DecidableEq

/-- The lines of an entity; one without signals has no port clause. -/
def Entity.lines (e : Entity) : List String :=
  ["entity " ++ e.name ++ " is"] ++
  (if e.signals.isEmpty then []
    else ["    port ("] ++ indent (indent (separated ";" (e.signals.map PortSignal.text))) ++ ["    );"]) ++
  ["end entity " ++ e.name ++ ";"]

/-! ### Architectures -/

/-- What a component does. -/
structure Architecture where
  /-- The name. -/
  name : String
  /-- The entity it belongs to. -/
  entityName : String
  /-- The declarations. -/
  declarations : List String
  /-- The statements. -/
  statements : List String
deriving DecidableEq

/-- The lines of an architecture. -/
def Architecture.lines (a : Architecture) : List String :=
  ["architecture " ++ a.name ++ " of " ++ a.entityName ++ " is"] ++ indent a.declarations ++
  ["begin"] ++ indent a.statements ++ ["end architecture " ++ a.name ++ ";"]

/-! ### Library clauses -/

/-- A package of a library. -/
structure Package where
  /-- The name of the package. -/
  name : String
  /-- The name of its library. -/
  library : String
deriving DecidableEq

/-- The logic package. -/
def stdLogic1164 : Package := ⟨"std_logic_1164", "ieee"⟩

/-- Unsigned arithmetic on logic vectors. -/
def stdLogicUnsigned : Package := ⟨"std_logic_unsigned", "ieee"⟩

/-- Numeric vectors. -/
def numericStd : Package := ⟨"numeric_std", "ieee"⟩

/-- The list without repetitions, in the order of first appearance. -/
def distinct {α : Type} [DecidableEq α] : List α → List α
  | [] => []
  | a :: rest => a :: (distinct rest).filter (· ≠ a)

/-- The libraries of a list of packages, in the order of first mention. -/
def libraries (packages : List Package) : List String := distinct (packages.map Package.library)

/-- The packages of one library, in the order of first mention. -/
def members (packages : List Package) (library : String) : List Package :=
  (distinct packages).filter fun p => p.library = library

/-- The lines of the library clause. -/
def libraryLines (packages : List Package) : List String :=
  (libraries packages).flatMap fun library =>
    ("library " ++ library ++ ";") ::
      (members packages library).map fun p => "    use " ++ library ++ "." ++ p.name ++ ".all;"

/-! ### Units -/

/-- A source file with one component. -/
structure DesignUnit where
  /-- The packages it uses. -/
  packages : List Package
  /-- The interface. -/
  entity : Entity
  /-- The behaviour. -/
  architecture : Architecture
deriving DecidableEq

/-- The unit of an entity with the usual packages and an empty architecture. -/
def DesignUnit.ofEntity (e : Entity) : DesignUnit where
  packages := [stdLogic1164, stdLogicUnsigned]
  entity := e
  architecture := ⟨"rtl", e.name, [], []⟩

/-- The lines of a unit. -/
def DesignUnit.lines (u : DesignUnit) : List String :=
  libraryLines u.packages ++ u.entity.lines ++ u.architecture.lines

end QuantNet.Vhdl
