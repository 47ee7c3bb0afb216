import QuantNet.Template

/-!
# The hard sigmoid

The source text of the component, with placeholders for what differs from one to the next.
-/

namespace QuantNet.Source

/-- The hard sigmoid: zero, a line, one. -/
def hardSigmoid : Template where
  name := "hard_sigmoid"
  lines := [
    "library ieee;",
    "use ieee.std_logic_1164.all;",
    "use ieee.numeric_std.all;",
    "",
    "entity ${layer_name} is",
    "    generic (",
    "        DATA_WIDTH : integer := ${data_width};",
    "        FRAC_WIDTH : integer := ${frac_width}",
    "    );",
    "    port (",
    "        x : in std_logic_vector(DATA_WIDTH-1 downto 0);",
    "        y : out std_logic_vector(DATA_WIDTH-1 downto 0)",
    "    );",
    "end ${layer_name};",
    "",
    "architecture rtl of ${layer_name} is",
    "    constant ZERO : signed(DATA_WIDTH-1 downto 0) := (others => '0');",
    "    constant ONE : signed(DATA_WIDTH-1 downto 0) := to_signed(${one}, DATA_WIDTH);",
    "    constant HALF : signed(DATA_WIDTH-1 downto 0) := to_signed(${half}, DATA_WIDTH);",
    "    constant SLOPE : signed(DATA_WIDTH-1 downto 0) := to_signed(${slope}, DATA_WIDTH);",
    "    constant THREE : signed(DATA_WIDTH-1 downto 0) := to_signed(${three_threshold}, DATA_WIDTH);",
    "    constant MINUS_THREE : signed(DATA_WIDTH-1 downto 0) := to_signed(${minus_three_threshold}, DATA_WIDTH);",
    "    constant SCALE : signed(2*DATA_WIDTH-1 downto 0) := to_signed(2**FRAC_WIDTH, 2*DATA_WIDTH);",
    "begin",
    "    hard_sigmoid : process (x)",
    "        variable input : signed(DATA_WIDTH-1 downto 0);",
    "        variable product : signed(2*DATA_WIDTH-1 downto 0);",
    "    begin",
    "        input := signed(x);",
    "        if input <= MINUS_THREE then",
    "            y <= std_logic_vector(ZERO);",
    "        elsif input >= THREE then",
    "            y <= std_logic_vector(ONE);",
    "        else",
    "            product := (input * SLOPE) / SCALE;",
    "            y <= std_logic_vector(resize(product, DATA_WIDTH) + HALF);",
    "        end if;",
    "    end process hard_sigmoid;",
    "end rtl;"]

end QuantNet.Source
