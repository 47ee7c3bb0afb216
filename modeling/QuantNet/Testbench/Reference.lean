import QuantNet.Testbench.Basic

/-!
# The reference simulator

A simulator that answers the testbench of a convolution with the reference function of the layer.

## The model

The simulator reads the table of stimuli, computes every row, and prints the outputs channel after
channel, each with its batch index. A signal that the table does not give is zero. Chosen outputs
can be printed with a status, as if they had not been computed in time. The simulator must have
seen the source of the testbench before it runs; a refused call changes nothing.
-/

namespace QuantNet

/-- The state of a reference simulator. -/
structure ReferenceSimulator where
  /-- The working directory. -/
  directory : String
  /-- The name of the testbench. -/
  top : String
  /-- The layer that answers. -/
  layer : Conv1d
  /-- The outputs printed with a status, by their index in the printed order. -/
  undefined : List Nat := []
  /-- Whether the source of the testbench was seen. -/
  ready : Bool := false
  /-- The lines printed by the last run. -/
  output : List String := []

namespace ReferenceSimulator

/-- The failure of the simulator for a reason. -/
def failure (s : ReferenceSimulator) (reason : String) : TestbenchError :=
  .simulator ("reference " ++ s.top) reason

/-! ### Stimuli -/

/-- The channel and the time step that the name of a signal stands for. -/
def indices? (name : String) : Option (Nat × Nat) :=
  match (Text.after? ['x', '_'] name.toList).map (Text.pieces '_') with
  | some [channel, step] => do return (← Text.size? channel, ← Text.size? step)
  | _ => none

/-- The channel and the time step of a signal of the layer. -/
def position (s : ReferenceSimulator) (name : String) : Except TestbenchError (Nat × Nat) :=
  match indices? name with
  | some (channel, step) =>
    if channel < s.layer.inChannels ∧ step < s.layer.signalLength then .ok (channel, step)
    else .error (s.failure ("unexpected input signal '" ++ name ++ "'"))
  | none => .error (s.failure ("unexpected input signal '" ++ name ++ "'"))

/-- The input without any signal. -/
def silence (s : ReferenceSimulator) : Sample :=
  List.replicate s.layer.inChannels (List.replicate s.layer.signalLength (.zero false))

/-- The input with the signals of a row put in their positions. -/
def placeSignals (f : QFormat) : Sample → List ((Nat × Nat) × String) → Except TestbenchError Sample
  | sample, [] => .ok sample
  | sample, ((channel, step), bits) :: rest => do
    let value ← (f.decodeText bits).mapError .quantization
    placeSignals f (sample.modify channel (·.set step value)) rest

/-- The input that a row of a table gives, for signals in the given positions. -/
def sampleOf (s : ReferenceSimulator) (positions : List (Nat × Nat)) (row : String) :
    Checked TestbenchError Sample := do
  Checked.reserve s.layer.signalLength
  Checked.lift id (placeSignals s.layer.format s.silence (positions.zip (Text.fields ',' row)))

/-- The inputs that a table of stimuli gives. -/
def samplesOf (s : ReferenceSimulator) (table : String) : Checked TestbenchError (List Sample) :=
  match Text.lines table with
  | [] => Checked.refuse (s.failure (Stimulus.fileName ++ " is empty"))
  | header :: rows => do
    let positions ← Checked.lift id ((Text.fields ',' header).mapM s.position)
    rows.mapM (s.sampleOf positions)

/-! ### Results -/

/-- The line of an output, by its index in the printed order. -/
def line (s : ReferenceSimulator) (batch bits : Bits) (index : Nat) : String :=
  Report.mark ++ batch.text ++ "," ++ bits.text ++ (if index ∈ s.undefined then ",U" else "")

/-- The lines of outputs from an index on. -/
def linesOf (s : ReferenceSimulator) (batch : Bits) :
    (index : Nat) → List Binary64 → Except QError (List String)
  | _, [] => .ok []
  | index, y :: rest => do
    let bits ← s.layer.format.encode y
    let others ← s.linesOf batch (index + 1) rest
    return s.line batch bits index :: others

/-- The lines of an input with its batch index. -/
def answer (s : ReferenceSimulator) (index : Nat) (sample : Sample) :
    Checked TestbenchError (List String) := do
  let batch ← Checked.lift .quantization (UnsignedCode.batchIndex.encode index)
  let outputs ← Checked.within (fun cause => s.failure cause.message) (s.layer.forward sample)
  Checked.lift .quantization (s.linesOf batch 0 outputs.flatten)

/-- The lines of inputs from a batch index on. -/
def answers (s : ReferenceSimulator) : (index : Nat) → List Sample → Checked TestbenchError (List String)
  | _, [] => .ok []
  | index, sample :: rest => do
    let first ← s.answer index sample
    let others ← s.answers (index + 1) rest
    return first ++ others

/-! ### Calls -/

/-- The simulator after it has looked for the source of the testbench. -/
def prepare (s : ReferenceSimulator) (d : Disk) : Except TestbenchError ReferenceSimulator :=
  let path := Path.join s.directory (s.top ++ Emission.extension)
  if d.isFile path then .ok { s with ready := true } else .error (s.failure (path ++ " not found"))

/-- The simulator after a run over the table of stimuli. -/
def run (s : ReferenceSimulator) (d : Disk) : Checked TestbenchError ReferenceSimulator := do
  if !s.ready then Checked.refuse (s.failure "run before initialize")
  let path := Path.join s.directory Stimulus.fileName
  let table ← Checked.lift (.io path) (d.textOf path)
  let samples ← s.samplesOf table
  let lines ← s.answers 0 samples
  return { s with output := ["simulating " ++ s.top] ++ lines ++ ["simulation finished"] }

end ReferenceSimulator

namespace Testbench

/-- The outcome of a simulated layer: the inputs are stored as the table of stimuli, the simulator
is started in the directory, and its report is decoded. The disk is given back in any case. -/
def simulate (t : Testbench) (d : Disk) (directory : String) (layer : Conv1d) (undefined : List Nat)
    (samples : List Sample) : Disk × Checked TestbenchError (List (List ReportedValue)) :=
  match t.stimuli samples with
  | .error cause => (d, Checked.refuse cause)
  | .ok stimuli => match Stimulus.store stimuli d directory with
    | (d, .error cause) => (d, Checked.refuse cause)
    | (d, .ok _) => (d, do
      let simulator : ReferenceSimulator := { directory, top := t.name, layer, undefined }
      let simulator ← Checked.lift id (simulator.prepare d)
      let simulator ← simulator.run d
      Checked.lift id (t.decode simulator.output))

end Testbench

end QuantNet
