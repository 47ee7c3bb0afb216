import QuantNet.Template

/-!
# The convolution testbench

The source text of the component, with placeholders for what differs from one to the next.
-/

namespace QuantNet.Source

/-- A testbench that feeds the inputs of a file to a convolution and reports its outputs. -/
def conv1dTestbench : Template where
  name := "conv1d_testbench"
  lines := [
    "library ieee;",
    "use ieee.std_logic_1164.all;",
    "use ieee.numeric_std.all;",
    "use std.textio.all;",
    "",
    "entity ${testbench_name} is",
    "end ${testbench_name};",
    "",
    "architecture rtl of ${testbench_name} is",
    "    constant TOTAL_BITS : integer := ${total_bits};",
    "    constant SIGNAL_LENGTH : integer := ${signal_length};",
    "    constant IN_CHANNELS : integer := ${in_channels};",
    "    constant OUTPUT_VALUES : integer := ${output_values};",
    "    constant X_ADDRESS_WIDTH : integer := ${x_address_width};",
    "    constant Y_ADDRESS_WIDTH : integer := ${y_address_width};",
    "    constant INPUT_VALUES : integer := SIGNAL_LENGTH * IN_CHANNELS;",
    "    constant C_CLK_PERIOD : time := 10 ns;",
    "",
    "    type t_input_buffer is array (0 to 2**X_ADDRESS_WIDTH-1) of std_logic_vector(TOTAL_BITS-1 downto 0);",
    "",
    "    signal clock : std_logic := '0';",
    "    signal enable : std_logic := '0';",
    "    signal done : std_logic;",
    "    signal x : std_logic_vector(TOTAL_BITS-1 downto 0) := (others => '0');",
    "    signal y : std_logic_vector(TOTAL_BITS-1 downto 0);",
    "    signal x_address : std_logic_vector(X_ADDRESS_WIDTH-1 downto 0);",
    "    signal y_address : std_logic_vector(Y_ADDRESS_WIDTH-1 downto 0) := (others => '0');",
    "    signal input_buffer : t_input_buffer := (others => (others => '0'));",
    "    signal simulation_done : boolean := false;",
    "begin",
    "    clock <= not clock after C_CLK_PERIOD / 2 when not simulation_done else '0';",
    "",
    "    x_feed : process (x_address, input_buffer)",
    "    begin",
    "        x <= input_buffer(to_integer(unsigned(x_address)));",
    "    end process x_feed;",
    "",
    "    stimulus : process",
    "        file input_file : text open read_mode is \"${inputs_file}\";",
    "        variable input_line : line;",
    "        variable output_line : line;",
    "        variable value : std_logic_vector(TOTAL_BITS-1 downto 0);",
    "        variable separator : character;",
    "        variable batch : integer := 0;",
    "    begin",
    "        -- header row with signal names",
    "        readline(input_file, input_line);",
    "        while not endfile(input_file) loop",
    "            readline(input_file, input_line);",
    "            for i in 0 to INPUT_VALUES - 1 loop",
    "                read(input_line, value);",
    "                input_buffer(i) <= value;",
    "                if i < INPUT_VALUES - 1 then",
    "                    read(input_line, separator);",
    "                end if;",
    "            end loop;",
    "            wait until rising_edge(clock);",
    "            enable <= '1';",
    "            wait until done = '1';",
    "            for i in 0 to OUTPUT_VALUES - 1 loop",
    "                y_address <= std_logic_vector(to_unsigned(i, Y_ADDRESS_WIDTH));",
    "                wait until rising_edge(clock);",
    "                wait until falling_edge(clock);",
    "                write(output_line, string'(\"result: \"));",
    "                write(output_line, std_logic_vector(to_unsigned(batch, 8)));",
    "                write(output_line, string'(\",\"));",
    "                write(output_line, y);",
    "                writeline(output, output_line);",
    "            end loop;",
    "            enable <= '0';",
    "            batch := batch + 1;",
    "            wait until rising_edge(clock);",
    "        end loop;",
    "        simulation_done <= true;",
    "        wait;",
    "    end process stimulus;",
    "",
    "    uut : entity work.${uut_name}(rtl)",
    "    port map (",
    "        enable => enable,",
    "        clock => clock,",
    "        x_address => x_address,",
    "        y_address => y_address,",
    "        x => x,",
    "        y => y,",
    "        done => done",
    "    );",
    "end rtl;"]

end QuantNet.Source
