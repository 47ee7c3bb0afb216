import QuantNet.Vhdl.Unit

/-!
# Structural VHDL

Lines of a composite component: internal signals, instances of other components and the
connections between them.
-/

namespace QuantNet.Vhdl

/-- The declaration of an internal signal, low at the start. -/
def signalDefinition (name : String) (width : Nat) : String :=
  if width = 1 then "signal " ++ name ++ " : std_logic := '0';"
  else "signal " ++ name ++ " : std_logic_vector(" ++ Text.ofNat width ++
    "-1 downto 0) := (others => '0');"

/-- The declarations of the present signals of a list, each under a qualifier. -/
def signalDefinitions (qualifier : String) (signals : List Signal) : List String :=
  (signals.filter Signal.isPresent).map fun s => signalDefinition (qualifier ++ s.name) s.width

/-- A component placed in an architecture, with its formal signals mapped to actual ones. -/
structure Instance where
  /-- The label. -/
  label : String
  /-- The component. -/
  entity : String
  /-- The library of the component. -/
  library : String
  /-- The architecture of the component. -/
  architecture : String
  /-- The formal signals with their actual ones. -/
  mapping : List (String × String)
deriving DecidableEq

/-- The lines of an instance. -/
def Instance.lines (i : Instance) : List String :=
  [i.label ++ " : entity " ++ i.library ++ "." ++ i.entity ++ "(" ++ i.architecture ++ ")"] ++
  (if i.mapping.isEmpty then [";"]
    else ["port map("] ++ indent (separated "," (i.mapping.map fun m => m.1 ++ " => " ++ m.2)) ++ [");"])

/-- The lines in order. -/
def sortLines (lines : List String) : List String := lines.mergeSort (fun a b => a ≤ b)

/-- The concurrent assignments of pairs of sink and source, sorted. -/
def connectionLines (pairs : List (String × String)) : List String :=
  sortLines (pairs.map fun p => p.1 ++ " <= " ++ p.2 ++ ";")

end QuantNet.Vhdl
