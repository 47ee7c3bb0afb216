import QuantNet.Failure
import QuantNet.Text
import QuantNet.Logic
import QuantNet.Bits
import QuantNet.Hash.Xxh3
import QuantNet.ContentHash
import QuantNet.Binary64.Basic
import QuantNet.Binary64.Shortest
import QuantNet.Binary64.Reader
import QuantNet.QFormat
import QuantNet.UnsignedCode
import QuantNet.Table
import QuantNet.Output.Error
import QuantNet.Output.Path
import QuantNet.Output.FileSet
import QuantNet.Output.Disk
import QuantNet.Template
import QuantNet.Json.Basic
import QuantNet.Json.Reader
import QuantNet.Output.Manifest
import QuantNet.Port
import QuantNet.Vhdl.Unit
import QuantNet.Vhdl.Structure
import QuantNet.Wiring.Node
import QuantNet.Wiring.Connect
import QuantNet.Design
import QuantNet.Source.Network
import QuantNet.Source.Linear
import QuantNet.Source.Conv1d
import QuantNet.Source.FxpMac
import QuantNet.Source.HardSigmoid
import QuantNet.Source.Silu
import QuantNet.Source.Skeleton
import QuantNet.Source.Conv1dTestbench
import QuantNet.Rom
import QuantNet.Skeleton
import QuantNet.Sequential
import QuantNet.Config.Error
import QuantNet.Layer.Error
import QuantNet.Layer.Parameters
import QuantNet.Layer.Activation
import QuantNet.Layer.Linear
import QuantNet.Layer.Conv1d
import QuantNet.Output.Session
import QuantNet.Json.Stored
import QuantNet.Toml.Value
import QuantNet.Toml.Scalar
import QuantNet.Toml.Document
import QuantNet.Toml.Reader
import QuantNet.Config.Basic
import QuantNet.Config.Validity
import QuantNet.Config.Reader
import QuantNet.Testbench.Error
import QuantNet.Testbench.Stimulus
import QuantNet.Testbench.Report
import QuantNet.Testbench.Basic
import QuantNet.Testbench.Reference
import QuantNet.Testbench.External
import QuantNet.Network
import QuantNet.Build
import QuantNet.Command.Arguments
import QuantNet.Command.Basic
import QuantNet.Command.Action
import QuantNet.Command.Run
import QuantNet.Main
import QuantNet.Proofs.Outcome
import QuantNet.Proofs.AddressWidths
import QuantNet.Proofs.Wiring
import QuantNet.Proofs.Quantization
import QuantNet.Proofs.TrainedLayers
import QuantNet.Proofs.ValidConfigurations
import QuantNet.Proofs.MultiplyAccumulate
import QuantNet.Proofs.NetworkWiring
import QuantNet.Proofs.ExactRounding
import QuantNet.Proofs.RoundingUp
import QuantNet.Proofs.Text
import QuantNet.Proofs.Bits
import QuantNet.Proofs.Disk
import QuantNet.Proofs.Convolution
import QuantNet.Proofs.StimulusTable
import QuantNet.Proofs.SimulationReport
import QuantNet.Proofs.Simulation
import QuantNet.Proofs.TwosComplement
import QuantNet.Proofs.DecodedNumbers
import QuantNet.Proofs.NetlistLines
import QuantNet.Proofs.Netlist
import QuantNet.Proofs.Templates
import QuantNet.Proofs.BuildFailures
import QuantNet.Proofs.FileSets
import QuantNet.Proofs.ParameterMemories
import QuantNet.Proofs.ReportDecoding
import QuantNet.Proofs.InputShapes
import QuantNet.Proofs.BuildDigest
import QuantNet.Proofs.WrapperAddresses
import QuantNet.Proofs.JsonText
import QuantNet.Proofs.StoredFiles
import QuantNet.Proofs.FailedBuilds
import QuantNet.Proofs.WriteOnce
import QuantNet.Proofs.BuildSteps
import QuantNet.Proofs.EmittedFiles
import QuantNet.Proofs.CircuitShapes
import QuantNet.Proofs.FlattenLayers
import QuantNet.Proofs.Retraining
import QuantNet.Proofs.NetworkIdentifiers
import QuantNet.Proofs.BuildOverflow
import QuantNet.Proofs.EntityDeclarations
import QuantNet.Proofs.EntityNames
import QuantNet.Proofs.FreePlaces
import QuantNet.Proofs.DiskSessions
import QuantNet.Proofs.ExactQuantization
import QuantNet.Proofs.AccumulatorRange
import QuantNet.Proofs.ConvolutionShapes
import QuantNet.Proofs.StoredData
import QuantNet.Proofs.LayerOutputs
import QuantNet.Proofs.LostResults
import QuantNet.Proofs.Saturation
import QuantNet.Proofs.BreakPoints
import QuantNet.Proofs.HardSigmoid
import QuantNet.Proofs.ActivationOverflow
import QuantNet.Proofs.NarrowActivations
import QuantNet.Proofs.SiluAccuracy
import QuantNet.Proofs.TemplateLines
import QuantNet.Proofs.ChangedFiles
import QuantNet.Proofs.MemoryContents
import QuantNet.Proofs.BitTexts
import QuantNet.Proofs.LibraryClauses
