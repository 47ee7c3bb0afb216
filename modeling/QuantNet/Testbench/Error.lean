import QuantNet.Output.Error
import QuantNet.Port
import QuantNet.QFormat

/-!
# Testbench errors

Why a layer cannot be compared with its simulation.
-/

namespace QuantNet

/-- Why inputs, a simulation or its report are refused. -/
inductive TestbenchError where
  /-- The report has no line with results. -/
  | noResults (content : List String)
  /-- A line with results does not follow the convention. -/
  | malformedLine (line : String)
  /-- A number cannot be encoded or decoded. -/
  | quantization (cause : QError)
  /-- The testbench cannot be written. -/
  | design (cause : DesignError)
  /-- A file of the working directory cannot be read or written. -/
  | io (path : String) (cause : IoError)
  /-- The simulator cannot be started, or it failed. -/
  | simulator (command reason : String)
deriving DecidableEq

/-- The text of a testbench error. -/
def TestbenchError.message : TestbenchError → String
  | noResults content => "no result lines in simulator report:\n" ++ "\n".intercalate content
  | malformedLine line => "malformed result line: " ++ line
  | quantization cause => cause.message
  | design cause => cause.message
  | io path cause => "I/O error at " ++ path ++ ": " ++ cause.message
  | simulator command reason => "simulator command `" ++ command ++ "` failed: " ++ reason

end QuantNet
