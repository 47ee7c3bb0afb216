import QuantNet.Template

/-!
# The fully connected layer

The source text of the component, with placeholders for what differs from one to the next.
-/

namespace QuantNet.Source

/-- A fully connected layer: a state machine that reads weights and biases from two memories. -/
def linear : Template where
  name := "linear"
  lines := [
    "library ieee;",
    "use ieee.std_logic_1164.all;",
    "use ieee.numeric_std.all;",
    "",
    "entity ${layer_name} is",
    "    generic (",
    "        DATA_WIDTH : integer := ${data_width};",
    "        FRAC_WIDTH : integer := ${frac_width};",
    "        X_ADDR_WIDTH : integer := ${x_address_width};",
    "        Y_ADDR_WIDTH : integer := ${y_address_width};",
    "        IN_FEATURE_NUM : integer := ${in_feature_num};",
    "        OUT_FEATURE_NUM : integer := ${out_feature_num}",
    "    );",
    "    port (",
    "        enable : in std_logic;",
    "        clock : in std_logic;",
    "        x_address : out std_logic_vector(X_ADDR_WIDTH-1 downto 0);",
    "        y_address : in std_logic_vector(Y_ADDR_WIDTH-1 downto 0);",
    "        x : in std_logic_vector(DATA_WIDTH-1 downto 0);",
    "        y : out std_logic_vector(DATA_WIDTH-1 downto 0);",
    "        done : out std_logic",
    "    );",
    "end ${layer_name};",
    "",
    "architecture rtl of ${layer_name} is",
    "    constant ACC_WIDTH : integer := 2*DATA_WIDTH + X_ADDR_WIDTH;",
    "    constant MAX_VALUE : signed(ACC_WIDTH-1 downto 0) := to_signed(2**(DATA_WIDTH-1)-1, ACC_WIDTH);",
    "    constant MIN_VALUE : signed(ACC_WIDTH-1 downto 0) := to_signed(-2**(DATA_WIDTH-1), ACC_WIDTH);",
    "    constant SCALE : signed(ACC_WIDTH-1 downto 0) := to_signed(2**FRAC_WIDTH, ACC_WIDTH);",
    "",
    "    type t_state is (s_idle, s_fetch, s_accumulate, s_store, s_done);",
    "    type t_y_array is array (0 to 2**Y_ADDR_WIDTH-1) of std_logic_vector(DATA_WIDTH-1 downto 0);",
    "",
    "    signal state : t_state := s_idle;",
    "    signal input_idx : integer range 0 to IN_FEATURE_NUM := 0;",
    "    signal output_idx : integer range 0 to OUT_FEATURE_NUM := 0;",
    "    signal w_addr : std_logic_vector(${w_address_width}-1 downto 0) := (others => '0');",
    "    signal b_addr : std_logic_vector(${b_address_width}-1 downto 0) := (others => '0');",
    "    signal w_data : std_logic_vector(DATA_WIDTH-1 downto 0);",
    "    signal b_data : std_logic_vector(DATA_WIDTH-1 downto 0);",
    "    signal y_ram : t_y_array := (others => (others => '0'));",
    "",
    "    function clamp(value : signed(ACC_WIDTH-1 downto 0)) return signed is",
    "    begin",
    "        if value > MAX_VALUE then",
    "            return MAX_VALUE;",
    "        elsif value < MIN_VALUE then",
    "            return MIN_VALUE;",
    "        end if;",
    "        return value;",
    "    end function clamp;",
    "begin",
    "    done <= '1' when state = s_done else '0';",
    "    x_address <= std_logic_vector(to_unsigned(input_idx, X_ADDR_WIDTH));",
    "    w_addr <= std_logic_vector(to_unsigned(output_idx * IN_FEATURE_NUM + input_idx, w_addr'length));",
    "    b_addr <= std_logic_vector(to_unsigned(output_idx, b_addr'length));",
    "",
    "    linear_main : process (clock)",
    "        variable accumulator : signed(ACC_WIDTH-1 downto 0) := (others => '0');",
    "        variable rescaled : signed(ACC_WIDTH-1 downto 0);",
    "    begin",
    "        if rising_edge(clock) then",
    "            if enable = '0' then",
    "                state <= s_idle;",
    "                input_idx <= 0;",
    "                output_idx <= 0;",
    "                accumulator := (others => '0');",
    "            else",
    "                case state is",
    "                    when s_idle =>",
    "                        state <= s_fetch;",
    "                    when s_fetch =>",
    "                        state <= s_accumulate;",
    "                    when s_accumulate =>",
    "                        accumulator := accumulator + resize(signed(x) * signed(w_data), ACC_WIDTH);",
    "                        if input_idx = IN_FEATURE_NUM - 1 then",
    "                            state <= s_store;",
    "                        else",
    "                            input_idx <= input_idx + 1;",
    "                            state <= s_fetch;",
    "                        end if;",
    "                    when s_store =>",
    "                        rescaled := clamp(accumulator / SCALE);",
    "                        rescaled := clamp(rescaled + resize(signed(b_data), ACC_WIDTH));",
    "                        y_ram(output_idx) <= std_logic_vector(resize(rescaled, DATA_WIDTH));",
    "                        accumulator := (others => '0');",
    "                        input_idx <= 0;",
    "                        if output_idx = OUT_FEATURE_NUM - 1 then",
    "                            state <= s_done;",
    "                        else",
    "                            output_idx <= output_idx + 1;",
    "                            state <= s_fetch;",
    "                        end if;",
    "                    when s_done =>",
    "                        null;",
    "                end case;",
    "            end if;",
    "        end if;",
    "    end process linear_main;",
    "",
    "    y_reading : process (clock)",
    "    begin",
    "        if falling_edge(clock) then",
    "            y <= y_ram(to_integer(unsigned(y_address)));",
    "        end if;",
    "    end process y_reading;",
    "",
    "    rom_w : entity work.${weights_rom_name}(rtl)",
    "    port map (",
    "        clk => clock,",
    "        en => '1',",
    "        addr => w_addr,",
    "        data => w_data",
    "    );",
    "",
    "    rom_b : entity work.${bias_rom_name}(rtl)",
    "    port map (",
    "        clk => clock,",
    "        en => '1',",
    "        addr => b_addr,",
    "        data => b_data",
    "    );",
    "end rtl;"]

end QuantNet.Source
