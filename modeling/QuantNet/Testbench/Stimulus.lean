import QuantNet.Output.Disk
import QuantNet.Testbench.Error

/-!
# Stimuli

The inputs of a simulation, as bit strings under the names of their signals.

## The model

An input has channels, and a channel has time steps; channels may differ in length. The signal of a
value is named by both indices. The table of stimuli that a testbench reads has the signal names of
the first stimulus in its first row and the bit strings of one stimulus in every other row.
-/

namespace QuantNet

/-- The values of an input, per channel and time step. -/
abbrev Sample := List (List Binary64)

/-- The bit strings of one input under the names of their signals. -/
structure Stimulus where
  /-- The signals, channel after channel. -/
  signals : List (String × Bits)
deriving DecidableEq

namespace Stimulus

/-- The name of the table of stimuli. -/
def fileName : String := "inputs.csv"

/-- The signal of a value. -/
def signalName (channel step : Nat) : String := "x_" ++ Text.ofNat channel ++ "_" ++ Text.ofNat step

/-! ### Encoding -/

/-- The signals of a channel from a time step on. -/
def encodeChannel (f : QFormat) (channel : Nat) :
    (step : Nat) → List Binary64 → Except QError (List (String × Bits))
  | _, [] => .ok []
  | step, x :: rest => do
    let bits ← f.encode x
    let others ← encodeChannel f channel (step + 1) rest
    return (signalName channel step, bits) :: others

/-- The signals of an input from a channel on. -/
def encodeChannels (f : QFormat) : (channel : Nat) → Sample → Except QError (List (String × Bits))
  | _, [] => .ok []
  | channel, values :: rest => do
    let first ← encodeChannel f channel 0 values
    let others ← encodeChannels f (channel + 1) rest
    return first ++ others

/-- The stimulus of an input. -/
def ofSample (f : QFormat) (sample : Sample) : Except QError Stimulus :=
  (encodeChannels f 0 sample).map Stimulus.mk

/-- The stimuli of inputs, or the first refusal. -/
def ofSamples (f : QFormat) (samples : List Sample) : Except TestbenchError (List Stimulus) :=
  (samples.mapM (ofSample f)).mapError .quantization

/-- The bit string of a signal. -/
def get? (s : Stimulus) (name : String) : Option Bits := s.signals.lookup name

/-! ### Table -/

/-- The row of signal names. -/
def header (s : Stimulus) : String := ",".intercalate (s.signals.map (·.1))

/-- The row of bit strings. -/
def row (s : Stimulus) : String := ",".intercalate (s.signals.map fun e => e.2.text)

/-- The rows of the table. -/
def rows : List Stimulus → List String
  | [] => []
  | s :: rest => s.header :: (s :: rest).map row

/-- The text of the table. -/
def tableText (stimuli : List Stimulus) : String := "\n".intercalate (rows stimuli) ++ "\n"

/-- The disk after the table is stored in a directory, as far as it got, and the path of the table. -/
def store (stimuli : List Stimulus) (d : Disk) (directory : String) :
    Disk × Except TestbenchError String :=
  let path := Path.join directory fileName
  match d.makeFolders directory with
  | (made, .error cause) => (made, .error (.io path cause))
  | (made, .ok ()) => match made.putText path (tableText stimuli) with
    | .error cause => (made, .error (.io path cause))
    | .ok written => (written, .ok path)

end Stimulus

end QuantNet
