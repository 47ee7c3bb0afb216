import QuantNet.Text

/-!
# Output errors

Why text cannot be generated or stored.
-/

namespace QuantNet

/-- Why the file system refuses an operation. -/
inductive IoError where
  /-- A component of the path does not exist. -/
  | notFound
  /-- A component of the path is a file where a directory is needed. -/
  | notDirectory
  /-- The path is a directory where a file is needed. -/
  | isDirectory
  /-- The path is a file where a directory is to be made. -/
  | alreadyExists
  /-- The path or a component of it is too long. -/
  | nameTooLong
  /-- The path holds the character zero. -/
  | zeroCharacter
deriving DecidableEq

/-- The text of a disk error. -/
def IoError.message : IoError → String
  | notFound => "No such file or directory (os error 2)"
  | notDirectory => "Not a directory (os error 20)"
  | isDirectory => "Is a directory (os error 21)"
  | alreadyExists => "File exists (os error 17)"
  | nameTooLong => "File name too long (os error 36)"
  | zeroCharacter => "file name contained an unexpected NUL byte"

/-- Why output cannot be generated or stored. -/
inductive OutputError where
  /-- The file system refused a path. -/
  | io (path : String) (cause : IoError)
  /-- A template names a parameter that has no value. -/
  | missingParameter (template parameter : String)
  /-- A template uses a list inside a line. -/
  | listInline (template parameter : String)
  /-- A placeholder is not closed on its line. -/
  | unterminated (template : String) (line : Nat)
  /-- A name cannot be a component of a path. -/
  | invalidName (name : String)
  /-- A file is written twice with different contents. -/
  | conflictingWrite (path : String)
deriving DecidableEq

/-- The text of an output error. -/
def OutputError.message : OutputError → String
  | io path cause => "I/O error at " ++ path ++ ": " ++ cause.message
  | missingParameter template parameter =>
    "template '" ++ template ++ "' has no value for parameter '" ++ parameter ++ "'"
  | listInline template parameter =>
    "template '" ++ template ++ "' uses list parameter '" ++ parameter ++ "' inline"
  | unterminated template line =>
    "template '" ++ template ++ "' has an unterminated placeholder on line " ++ Text.ofNat line
  | invalidName name => "invalid destination name '" ++ name ++ "'"
  | conflictingWrite path => "conflicting contents written to '" ++ path ++ "'"

end QuantNet
