import QuantNet.Template

/-!
# The sigmoid-weighted unit

The source text of the component, with placeholders for what differs from one to the next.
-/

namespace QuantNet.Source

/-- The sigmoid-weighted unit: zero, a parabola, the input itself. -/
def silu : Template where
  name := "silu"
  lines := [
    "library ieee;",
    "use ieee.std_logic_1164.all;",
    "use ieee.numeric_std.all;",
    "",
    "entity ${layer_name} is",
    "    generic (",
    "        DATA_WIDTH : integer := ${data_width};",
    "        FRAC_WIDTH : integer := ${frac_width}",
    "    );",
    "    port (",
    "        x : in std_logic_vector(DATA_WIDTH-1 downto 0);",
    "        y : out std_logic_vector(DATA_WIDTH-1 downto 0)",
    "    );",
    "end ${layer_name};",
    "",
    "architecture rtl of ${layer_name} is",
    "    constant ZERO : signed(DATA_WIDTH-1 downto 0) := (others => '0');",
    "    constant THREE : signed(DATA_WIDTH-1 downto 0) := to_signed(${three_threshold}, DATA_WIDTH);",
    "    constant MINUS_THREE : signed(DATA_WIDTH-1 downto 0) := to_signed(${minus_three_threshold}, DATA_WIDTH);",
    "    constant DIVISOR : signed(2*DATA_WIDTH+1 downto 0) := to_signed(6 * 2**FRAC_WIDTH, 2*DATA_WIDTH+2);",
    "begin",
    "    silu : process (x)",
    "        variable input : signed(DATA_WIDTH-1 downto 0);",
    "        variable shifted : signed(DATA_WIDTH downto 0);",
    "        variable product : signed(2*DATA_WIDTH+1 downto 0);",
    "    begin",
    "        input := signed(x);",
    "        if input <= MINUS_THREE then",
    "            y <= std_logic_vector(ZERO);",
    "        elsif input >= THREE then",
    "            y <= x;",
    "        else",
    "            shifted := resize(input, DATA_WIDTH+1) + resize(THREE, DATA_WIDTH+1);",
    "            product := resize(input * shifted, 2*DATA_WIDTH+2) / DIVISOR;",
    "            y <= std_logic_vector(resize(product, DATA_WIDTH));",
    "        end if;",
    "    end process silu;",
    "end rtl;"]

end QuantNet.Source
