import QuantNet.Command.Run

/-!
# The program

The reading of actions on the file system of the machine.
-/

namespace QuantNet

/-- The refusal that a code of the machine stands for; some operations give the code negated. -/
def IoError.ofCode (code : UInt32) : IoError :=
  match min code (0 - code) with
  | 2 => .notFound
  | 17 => .alreadyExists
  | 20 => .notDirectory
  | 36 => .nameTooLong
  | _ => .isDirectory

/-- The refusal that an error of the machine stands for. -/
def IoError.ofSystem : IO.Error → IoError
  | .noFileOrDirectory _ code _ => .ofCode code
  | .alreadyExists _ code _ => .ofCode code
  | .inappropriateType _ code _ => .ofCode code
  | .invalidArgument _ code _ => .ofCode code
  | .otherError code _ => .ofCode code
  | _ => .isDirectory

/-- The outcome of an operation of the machine on a path. -/
def attempt {α : Type} (path : String) (operation : IO α) : IO (Except IoError α) := do
  if let .error cause := Path.check path then return .error cause
  try return .ok (← operation)
  catch e => return .error (IoError.ofSystem e)

/-- Whether a path leads to a folder of the machine. -/
def leadsToFolder (path : String) : IO Bool := do
  return path ≠ "" && (Path.check path).isOk && (← ((← IO.currentDir).join path).isDir)

/-- A folder, new or not. -/
def ensureFolder (path : String) : IO (Except IoError Unit) := do
  match ← attempt path (IO.FS.createDir path) with
  | .error cause => return if ← leadsToFolder path then .ok () else .error cause
  | outcome => return outcome

/-- A folder, made with the folders above it if one of them is missing. -/
partial def makeFolders (path : String) : IO (Except IoError Unit) := do
  if path = "" then return .ok ()
  match ← ensureFolder path with
  | .error .notFound =>
    match ← makeFolders (Path.parent path) with
    | .ok () => ensureFolder path
    | refused => return refused
  | outcome => return outcome

/-- A file stored with the folders above it. -/
def storeText (folder path text : String) : IO (Except OutputError Unit) := do
  if let .error cause ← makeFolders folder then return .error (.io folder cause)
  if let .error cause ← attempt path (IO.FS.writeFile path text) then return .error (.io path cause)
  return .ok ()

/-- Files and their manifest stored in a directory. -/
def installFiles (files : FileSet) (directory version : String) : IO (Except OutputError Manifest) := do
  for (name, lines) in files.entries do
    let path := Path.join directory name
    if let .error cause ← storeText (Path.parent path) path (Text.ofLines lines) then return .error cause
  let manifest := Manifest.ofFiles files version
  let path := Path.join directory Manifest.fileName
  if let .error cause ← storeText directory path manifest.toJson.pretty then return .error cause
  return .ok manifest

/-- An action read on the file system of the machine. -/
def Action.onMachine {α : Type} : Action α → IO α
  | done result => return result
  | isFolder path next => do (next (← leadsToFolder path)).onMachine
  | textOf path next => do (next (← attempt path (IO.FS.readFile path))).onMachine
  | install files directory version next => do
    (next (← installFiles files directory version)).onMachine

end QuantNet

/-- Run the command line and print what it shows. -/
def main (arguments : List String) : IO UInt32 := do
  let outcome ← (QuantNet.runArguments (← IO.currentDir).toString arguments).onMachine
  (← IO.getStdout).putStr outcome.out
  (← IO.getStderr).putStr outcome.err
  return UInt32.ofNat outcome.exit.code
