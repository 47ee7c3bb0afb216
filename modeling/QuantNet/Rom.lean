import QuantNet.Bits
import QuantNet.Design
import QuantNet.Vhdl.Unit

/-!
# Read-only memories

Memories that hold the trained parameters of a layer.

## The model

A memory has as many words as its address can reach, so the values are followed by zeros. The
words are written as binary literals of the data width. There are two ways to type the address;
they give the same memory and differ in the packages they need.
-/

namespace QuantNet

/-- How the address of a memory is typed. -/
inductive Addressing where
  /-- As a plain logic vector. -/
  | stdLogic
  /-- As an unsigned number. -/
  | unsigned
deriving DecidableEq

namespace Addressing

/-- The type of the address. -/
def typeName : Addressing → String
  | stdLogic => "std_logic_vector"
  | unsigned => "unsigned"

/-- The function from an address to an index. -/
def conversion : Addressing → String
  | stdLogic => "conv_integer"
  | unsigned => "to_integer"

/-- The packages the conversion needs beyond the usual ones. -/
def packages : Addressing → List Vhdl.Package
  | stdLogic => []
  | unsigned => [Vhdl.numericStd]

end Addressing

/-- A read-only memory. -/
structure Rom where
  /-- The name of the component. -/
  name : String
  /-- The type of a word. -/
  dataType : Vhdl.SignalType
  /-- How the address is typed. -/
  addressing : Addressing
  /-- The values it was made for. -/
  values : List Int
  /-- The synthesis hint. -/
  style : String
deriving DecidableEq

namespace Rom

/-- The synthesis hint that leaves the choice to the tool. -/
def defaultStyle : String := "auto"

/-- A memory of plain logic vectors. -/
def plain (name : String) (width : Nat) (values : List Int) : Rom :=
  ⟨name, .vector "std_logic_vector" width, .stdLogic, values, defaultStyle⟩

/-- A memory of signed numbers. -/
def signed (name : String) (width : Nat) (values : List Int) : Rom :=
  ⟨name, .vector "signed" width, .unsigned, values, defaultStyle⟩

/-- The memory with another synthesis hint. -/
def withStyle (r : Rom) (style : String) : Rom := { r with style }

/-- The width of a word. -/
def dataWidth (r : Rom) : Nat := r.dataType.width

/-- The width of the address. -/
def addressBits (r : Rom) : Nat := addressWidth r.values.length

/-- The words: the values, then zeros up to the last address. -/
def words (r : Rom) : List Int :=
  r.values ++ List.replicate (twoPow r.addressBits - r.values.length) 0

/-- The literals of the words. -/
def literals (r : Rom) : List String := r.words.map fun w => Bits.literal w r.dataWidth

/-- The interface of the memory. -/
def entity (r : Rom) : Vhdl.Entity where
  name := r.name
  signals := [⟨"clk", .input, .stdLogic⟩, ⟨"en", .input, .stdLogic⟩,
    ⟨"addr", .input, .vector r.addressing.typeName r.addressBits⟩, ⟨"data", .output, r.dataType⟩]

/-- The behaviour of the memory. -/
def architecture (r : Rom) : Vhdl.Architecture where
  name := "rtl"
  entityName := r.name
  declarations := [
    "type " ++ r.name ++ "_array_t is array (0 to 2**" ++ Text.ofNat r.addressBits ++ "-1) of " ++
      r.dataType.text ++ ";",
    "signal ROM : " ++ r.name ++ "_array_t:=(" ++ ",".intercalate r.literals ++ ");",
    "attribute rom_style : string;",
    "attribute rom_style of ROM : signal is \"" ++ r.style ++ "\";"]
  statements := [
    "ROM_process: process(clk)",
    "begin",
    "    if rising_edge(clk) then",
    "        if (en = '1') then",
    "            data <= ROM(" ++ r.addressing.conversion ++ "(addr));",
    "        end if;",
    "    end if;",
    "end process ROM_process;"]

/-- The source file of the memory. -/
def unit (r : Rom) : Vhdl.DesignUnit where
  packages := [Vhdl.stdLogic1164, Vhdl.stdLogicUnsigned] ++ r.addressing.packages
  entity := r.entity
  architecture := r.architecture

/-- The lines of the memory. -/
def render (r : Rom) : List String := r.unit.lines

/-- The signals on the boundary of the memory. -/
def port (r : Rom) : Port where
  incoming := [.input "clk" 1, .input "en" 1, .input "addr" r.addressBits]
  outgoing := [.output "data" r.dataWidth]

/-- The memory as a component. -/
def design (r : Rom) : Design := ⟨r.name, r.port, [.file [] r.name r.render]⟩

end Rom

end QuantNet
