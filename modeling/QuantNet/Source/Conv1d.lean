import QuantNet.Template

/-!
# The convolution layer

The source text of the component, with placeholders for what differs from one to the next.
-/

namespace QuantNet.Source

/-- A one-dimensional convolution: windows of the input are streamed through the shared multiply-accumulate unit. -/
def conv1d : Template where
  name := "conv1d"
  lines := [
    "library ieee;",
    "use ieee.std_logic_1164.all;",
    "use ieee.numeric_std.all;",
    "",
    "entity ${name} is",
    "    generic (",
    "        DATA_WIDTH : integer := ${x_width};",
    "        FRAC_WIDTH : integer := ${frac_width};",
    "        IN_CHANNELS : integer := ${in_channels};",
    "        OUT_CHANNELS : integer := ${out_channels};",
    "        KERNEL_SIZE : integer := ${kernel_size};",
    "        VECTOR_WIDTH : integer := ${vector_width};",
    "        X_ADDR_WIDTH : integer := ${x_address_width};",
    "        Y_ADDR_WIDTH : integer := ${y_address_width}",
    "    );",
    "    port (",
    "        enable : in std_logic;",
    "        clock : in std_logic;",
    "        x_address : out std_logic_vector(X_ADDR_WIDTH-1 downto 0);",
    "        y_address : in std_logic_vector(Y_ADDR_WIDTH-1 downto 0);",
    "        x : in std_logic_vector(DATA_WIDTH-1 downto 0);",
    "        y : out std_logic_vector(${y_width}-1 downto 0);",
    "        done : out std_logic",
    "    );",
    "end ${name};",
    "",
    "architecture rtl of ${name} is",
    "    constant OUTPUT_LENGTH : integer := VECTOR_WIDTH - KERNEL_SIZE + 1;",
    "    constant MAC_WIDTH : integer := IN_CHANNELS * KERNEL_SIZE;",
    "",
    "    type t_state is (s_idle, s_reset, s_fetch, s_accumulate, s_bias, s_store, s_done);",
    "    type t_y_array is array (0 to 2**Y_ADDR_WIDTH-1) of std_logic_vector(DATA_WIDTH-1 downto 0);",
    "",
    "    signal state : t_state := s_idle;",
    "    signal out_channel : integer range 0 to OUT_CHANNELS := 0;",
    "    signal in_channel : integer range 0 to IN_CHANNELS := 0;",
    "    signal position : integer range 0 to OUTPUT_LENGTH := 0;",
    "    signal tap : integer range 0 to KERNEL_SIZE := 0;",
    "",
    "    signal mac_reset : std_logic := '1';",
    "    signal mac_next : std_logic := '0';",
    "    signal mac_x1 : signed(DATA_WIDTH-1 downto 0) := (others => '0');",
    "    signal mac_x2 : signed(DATA_WIDTH-1 downto 0) := (others => '0');",
    "    signal mac_sum : signed(DATA_WIDTH-1 downto 0);",
    "    signal mac_done : std_logic;",
    "",
    "    signal w_addr : std_logic_vector(${w_address_width}-1 downto 0) := (others => '0');",
    "    signal b_addr : std_logic_vector(${b_address_width}-1 downto 0) := (others => '0');",
    "    signal w_data : std_logic_vector(DATA_WIDTH-1 downto 0);",
    "    signal b_data : std_logic_vector(DATA_WIDTH-1 downto 0);",
    "    signal y_ram : t_y_array := (others => (others => '0'));",
    "",
    "    function saturate(value : signed(DATA_WIDTH downto 0)) return signed is",
    "    begin",
    "        if value > to_signed(2**(DATA_WIDTH-1)-1, DATA_WIDTH+1) then",
    "            return to_signed(2**(DATA_WIDTH-1)-1, DATA_WIDTH);",
    "        elsif value < to_signed(-2**(DATA_WIDTH-1), DATA_WIDTH+1) then",
    "            return to_signed(-2**(DATA_WIDTH-1), DATA_WIDTH);",
    "        end if;",
    "        return resize(value, DATA_WIDTH);",
    "    end function saturate;",
    "begin",
    "    done <= '1' when state = s_done else '0';",
    "    x_address <= std_logic_vector(to_unsigned(in_channel * VECTOR_WIDTH + position + tap, X_ADDR_WIDTH));",
    "    w_addr <= std_logic_vector(to_unsigned((out_channel * IN_CHANNELS + in_channel) * KERNEL_SIZE + tap, w_addr'length));",
    "    b_addr <= std_logic_vector(to_unsigned(out_channel, b_addr'length));",
    "",
    "    conv1d_main : process (clock)",
    "    begin",
    "        if rising_edge(clock) then",
    "            if enable = '0' then",
    "                state <= s_idle;",
    "                out_channel <= 0;",
    "                in_channel <= 0;",
    "                position <= 0;",
    "                tap <= 0;",
    "                mac_reset <= '1';",
    "                mac_next <= '0';",
    "            else",
    "                case state is",
    "                    when s_idle =>",
    "                        state <= s_reset;",
    "                    when s_reset =>",
    "                        mac_reset <= '0';",
    "                        mac_next <= '0';",
    "                        state <= s_fetch;",
    "                    when s_fetch =>",
    "                        mac_next <= '0';",
    "                        state <= s_accumulate;",
    "                    when s_accumulate =>",
    "                        mac_x1 <= signed(x);",
    "                        mac_x2 <= signed(w_data);",
    "                        mac_next <= '1';",
    "                        if tap = KERNEL_SIZE - 1 then",
    "                            tap <= 0;",
    "                            if in_channel = IN_CHANNELS - 1 then",
    "                                in_channel <= 0;",
    "                                state <= s_bias;",
    "                            else",
    "                                in_channel <= in_channel + 1;",
    "                                state <= s_fetch;",
    "                            end if;",
    "                        else",
    "                            tap <= tap + 1;",
    "                            state <= s_fetch;",
    "                        end if;",
    "                    when s_bias =>",
    "                        mac_next <= '0';",
    "                        if mac_done = '1' then",
    "                            state <= s_store;",
    "                        end if;",
    "                    when s_store =>",
    "                        y_ram(out_channel * OUTPUT_LENGTH + position) <= std_logic_vector(",
    "                            saturate(resize(mac_sum, DATA_WIDTH+1) + resize(signed(b_data), DATA_WIDTH+1)));",
    "                        mac_reset <= '1';",
    "                        if position = OUTPUT_LENGTH - 1 then",
    "                            position <= 0;",
    "                            if out_channel = OUT_CHANNELS - 1 then",
    "                                state <= s_done;",
    "                            else",
    "                                out_channel <= out_channel + 1;",
    "                                state <= s_reset;",
    "                            end if;",
    "                        else",
    "                            position <= position + 1;",
    "                            state <= s_reset;",
    "                        end if;",
    "                    when s_done =>",
    "                        null;",
    "                end case;",
    "            end if;",
    "        end if;",
    "    end process conv1d_main;",
    "",
    "    y_reading : process (clock)",
    "    begin",
    "        if falling_edge(clock) then",
    "            y <= y_ram(to_integer(unsigned(y_address)));",
    "        end if;",
    "    end process y_reading;",
    "",
    "    mac : entity work.fxp_mac(rtl)",
    "    generic map (",
    "        VECTOR_WIDTH => MAC_WIDTH,",
    "        TOTAL_WIDTH => DATA_WIDTH,",
    "        FRAC_WIDTH => FRAC_WIDTH",
    "    )",
    "    port map (",
    "        reset => mac_reset,",
    "        next_sample => mac_next,",
    "        x1 => mac_x1,",
    "        x2 => mac_x2,",
    "        sum => mac_sum,",
    "        done => mac_done",
    "    );",
    "",
    "    rom_w : entity work.${name}_w_rom(rtl)",
    "    port map (",
    "        clk => clock,",
    "        en => '1',",
    "        addr => w_addr,",
    "        data => w_data",
    "    );",
    "",
    "    rom_b : entity work.${name}_b_rom(rtl)",
    "    port map (",
    "        clk => clock,",
    "        en => '1',",
    "        addr => b_addr,",
    "        data => b_data",
    "    );",
    "end rtl;"]

end QuantNet.Source
