import QuantNet.Template

/-!
# The multiply-accumulate unit

The source text of the component, with placeholders for what differs from one to the next.
-/

namespace QuantNet.Source

/-- The multiply-accumulate unit, the same for every layer. -/
def fxpMac : Template where
  name := "fxp_mac"
  lines := [
    "library ieee;",
    "use ieee.std_logic_1164.all;",
    "use ieee.numeric_std.all;",
    "",
    "entity fxp_mac is",
    "    generic (",
    "        VECTOR_WIDTH : positive;",
    "        TOTAL_WIDTH : positive;",
    "        FRAC_WIDTH : natural",
    "    );",
    "    port (",
    "        reset : in std_logic;",
    "        next_sample : in std_logic;",
    "        x1 : in signed(TOTAL_WIDTH-1 downto 0);",
    "        x2 : in signed(TOTAL_WIDTH-1 downto 0);",
    "        sum : out signed(TOTAL_WIDTH-1 downto 0);",
    "        done : out std_logic := '0'",
    "    );",
    "end entity fxp_mac;",
    "",
    "architecture rtl of fxp_mac is",
    "    constant ACC_WIDTH : positive := 2*TOTAL_WIDTH + VECTOR_WIDTH;",
    "    constant MAX_VALUE : signed(ACC_WIDTH-1 downto 0) := to_signed(2**(TOTAL_WIDTH-1)-1, ACC_WIDTH);",
    "    constant MIN_VALUE : signed(ACC_WIDTH-1 downto 0) := to_signed(-2**(TOTAL_WIDTH-1), ACC_WIDTH);",
    "    constant SCALE : signed(ACC_WIDTH-1 downto 0) := to_signed(2**FRAC_WIDTH, ACC_WIDTH);",
    "begin",
    "    mac : process (next_sample, reset)",
    "        variable accumulator : signed(ACC_WIDTH-1 downto 0) := (others => '0');",
    "        variable rescaled : signed(ACC_WIDTH-1 downto 0);",
    "        variable counter : integer range 0 to VECTOR_WIDTH := 0;",
    "    begin",
    "        if reset = '1' then",
    "            accumulator := (others => '0');",
    "            counter := 0;",
    "            done <= '0';",
    "        elsif rising_edge(next_sample) then",
    "            if counter < VECTOR_WIDTH then",
    "                accumulator := accumulator + resize(x1 * x2, ACC_WIDTH);",
    "                counter := counter + 1;",
    "            end if;",
    "            if counter = VECTOR_WIDTH then",
    "                -- signed division truncates toward zero",
    "                rescaled := accumulator / SCALE;",
    "                if rescaled > MAX_VALUE then",
    "                    rescaled := MAX_VALUE;",
    "                elsif rescaled < MIN_VALUE then",
    "                    rescaled := MIN_VALUE;",
    "                end if;",
    "                sum <= resize(rescaled, TOTAL_WIDTH);",
    "                done <= '1';",
    "            end if;",
    "        end if;",
    "    end process mac;",
    "end architecture rtl;"]

end QuantNet.Source
