import QuantNet.Template

/-!
# The skeleton

The source text of the wrapper between a network and its host, in two versions that differ in
the length of the identifier.
-/

namespace QuantNet.Source

/-- The wrapper with an identifier of `count` bytes: the index of the last, the number, and the
placeholder of the bytes. -/
def skeletonLines (last count bytes : String) : List String := [
    "library ieee;",
    "use ieee.std_logic_1164.all;",
    "use ieee.numeric_std.all;",
    "",
    "entity ${name} is",
    "    port (",
    "        clock : in std_logic;",
    "        reset : in std_logic;",
    "        busy : out std_logic;",
    "        rd : in std_logic;",
    "        wr : in std_logic;",
    "        data_in : in std_logic_vector(7 downto 0);",
    "        address_in : in std_logic_vector(15 downto 0);",
    "        data_out : out std_logic_vector(7 downto 0);",
    "        debug : out std_logic_vector(7 downto 0);",
    "        led_ctrl : out std_logic_vector(3 downto 0)",
    "    );",
    "end ${name};",
    "",
    "architecture rtl of ${name} is",
    "    constant DATA_WIDTH_IN : integer := ${data_width_in};",
    "    constant DATA_WIDTH_OUT : integer := ${data_width_out};",
    "    constant X_NUM_VALUES : integer := ${x_num_values};",
    "    constant Y_NUM_VALUES : integer := ${y_num_values};",
    "",
    "    type buf_in_t is array (0 to X_NUM_VALUES - 1) of std_logic_vector(DATA_WIDTH_IN - 1 downto 0);",
    "    type buf_out_t is array (0 to Y_NUM_VALUES - 1) of std_logic_vector(DATA_WIDTH_OUT - 1 downto 0);",
    "    type skeleton_id_t is array (0 to " ++ last ++ ") of std_logic_vector(7 downto 0);",
    "",
    "    constant SKELETON_ID : skeleton_id_t := (" ++ bytes ++ ");",
    "",
    "    signal data_buf_in : buf_in_t := (others => (others => '0'));",
    "    signal data_buf_out : buf_out_t := (others => (others => '0'));",
    "    signal network_enable : std_logic := '0';",
    "    signal network_done : std_logic;",
    "    signal network_x : std_logic_vector(DATA_WIDTH_IN - 1 downto 0);",
    "    signal network_y : std_logic_vector(DATA_WIDTH_OUT - 1 downto 0);",
    "    signal network_x_address : std_logic_vector(${x_addr_width} - 1 downto 0);",
    "    signal network_y_address : std_logic_vector(${y_addr_width} - 1 downto 0) := (others => '0');",
    "    signal collecting : std_logic := '0';",
    "begin",
    "    busy <= not network_done;",
    "    debug <= (others => '0');",
    "    led_ctrl <= (0 => network_done, others => '0');",
    "",
    "    network_x <= data_buf_in(to_integer(unsigned(network_x_address)));",
    "",
    "    i_${network_name} : entity work.${network_name}(rtl)",
    "    port map(",
    "        enable => network_enable,",
    "        clock => clock,",
    "        x_address => network_x_address,",
    "        y_address => network_y_address,",
    "        x => network_x,",
    "        y => network_y,",
    "        done => network_done",
    "    );",
    "",
    "    receive_data : process (clock)",
    "        variable address : integer range 0 to 65535;",
    "    begin",
    "        if rising_edge(clock) then",
    "            if reset = '1' then",
    "                network_enable <= '0';",
    "            elsif wr = '1' then",
    "                address := to_integer(unsigned(address_in));",
    "                if address = 100 then",
    "                    network_enable <= data_in(0);",
    "                elsif address >= 18 and address < 18 + X_NUM_VALUES then",
    "                    data_buf_in(address - 18) <= data_in(DATA_WIDTH_IN - 1 downto 0);",
    "                end if;",
    "            end if;",
    "        end if;",
    "    end process;",
    "",
    "    collect_results : process (clock)",
    "        variable index : integer range 0 to Y_NUM_VALUES := 0;",
    "    begin",
    "        if rising_edge(clock) then",
    "            if network_done = '1' and collecting = '0' then",
    "                collecting <= '1';",
    "                index := 0;",
    "            elsif collecting = '1' then",
    "                if index < Y_NUM_VALUES then",
    "                    network_y_address <= std_logic_vector(to_unsigned(index, network_y_address'length));",
    "                    data_buf_out(index) <= network_y;",
    "                    index := index + 1;",
    "                else",
    "                    collecting <= '0';",
    "                end if;",
    "            end if;",
    "        end if;",
    "    end process;",
    "",
    "    send_data : process (clock)",
    "        variable address : integer range 0 to 65535;",
    "    begin",
    "        if rising_edge(clock) then",
    "            if rd = '1' then",
    "                address := to_integer(unsigned(address_in));",
    "                if address < " ++ count ++ " then",
    "                    data_out <= SKELETON_ID(address);",
    "                elsif address >= 18 and address < 18 + Y_NUM_VALUES then",
    "                    data_out <= std_logic_vector(resize(signed(data_buf_out(address - 18)), 8));",
    "                else",
    "                    data_out <= (others => '0');",
    "                end if;",
    "            end if;",
    "        end if;",
    "    end process;",
    "end rtl;"]

/-- The wrapper with an identifier of one byte. -/
def skeletonV1 : Template := ⟨"skeleton_v1", skeletonLines "0" "1" "0 => ${id}"⟩

/-- The wrapper with an identifier of sixteen bytes. -/
def skeletonV2 : Template := ⟨"skeleton_v2", skeletonLines "15" "16" "${id}"⟩

end QuantNet.Source
