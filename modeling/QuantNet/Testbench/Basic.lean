import QuantNet.Layer.Conv1d
import QuantNet.Source.Conv1dTestbench
import QuantNet.Testbench.Report
import QuantNet.Testbench.Stimulus

/-!
# Testbenches

The component that feeds a convolution from the table of stimuli and prints its outputs.

## The model

A testbench knows the shape and the address widths of the unit under test, not the unit itself. The
number of output values is a product of declared sizes, so making a testbench is a checked
computation. Reports of a testbench are grouped by batch unless it is told otherwise.
-/

namespace QuantNet

/-- What a testbench needs to know of the unit under test. -/
structure UnitUnderTest where
  /-- The name of the unit. -/
  name : String
  /-- The signals on its boundary. -/
  port : Port
  /-- The length of each input channel. -/
  inputLength : Nat
  /-- The length of the window. -/
  kernelSize : Nat
  /-- How many channels go in. -/
  inChannels : Nat
  /-- How many channels come out. -/
  outChannels : Nat
deriving DecidableEq

/-- A convolution as a unit under test. -/
def Conv1d.underTest (l : Conv1d) : UnitUnderTest :=
  ⟨l.name, l.port, l.signalLength, l.kernelSize, l.inChannels, l.outChannels⟩

/-- The testbench of a unit. -/
structure Testbench where
  /-- The name of the testbench and of its file. -/
  name : String
  /-- The name of the unit under test. -/
  uutName : String
  /-- The number format of inputs and outputs. -/
  format : QFormat
  /-- The length of each input channel. -/
  signalLength : Nat
  /-- How many channels go in. -/
  inChannels : Nat
  /-- How many values come out. -/
  outputValues : Nat
  /-- The width of the input address. -/
  xAddressWidth : Nat
  /-- The width of the output address. -/
  yAddressWidth : Nat
  /-- How reports are laid out. -/
  convention : ReportConvention
deriving DecidableEq

namespace Testbench

/-- The testbench of a unit under test. -/
def make {ε : Type} (name : String) (uut : UnitUnderTest) (format : QFormat) : Checked ε Testbench := do
  let length ← Conv1d.lengthOfOutput uut.inputLength uut.kernelSize
  let outputValues ← Checked.sizeMul length uut.outChannels
  return {
    name, format, outputValues
    uutName := uut.name
    signalLength := uut.inputLength
    inChannels := uut.inChannels
    xAddressWidth := uut.port.widthOf "x_address"
    yAddressWidth := uut.port.widthOf "y_address"
    convention := .batched }

/-- The testbench with another layout of reports. -/
def withConvention (t : Testbench) (convention : ReportConvention) : Testbench := { t with convention }

/-- What the source text is filled with. -/
def parameters (t : Testbench) : Parameters :=
  Parameters.none
    |>.withText "testbench_name" t.name
    |>.withNat "signal_length" t.signalLength
    |>.withNat "total_bits" t.format.totalBits
    |>.withNat "x_address_width" t.xAddressWidth
    |>.withNat "y_address_width" t.yAddressWidth
    |>.withText "uut_name" t.uutName
    |>.withNat "in_channels" t.inChannels
    |>.withNat "output_values" t.outputValues
    |>.withText "inputs_file" Stimulus.fileName

/-- The steps by which the testbench is written. -/
def emissions (t : Testbench) : List Emission :=
  [Design.emit t.name (Source.conv1dTestbench.render t.parameters)]

/-- The stimuli of inputs. -/
def stimuli (t : Testbench) (samples : List Sample) : Except TestbenchError (List Stimulus) :=
  Stimulus.ofSamples t.format samples

/-- The groups of values of a report. -/
def decode (t : Testbench) (lines : List String) : Except TestbenchError (List (List ReportedValue)) :=
  Report.decode t.format t.convention lines

end Testbench

end QuantNet
