import QuantNet.Output.Manifest

/-!
# Actions

What a command does to the file system, apart from any file system.

## The model

An action is a tree: at each node it asks one thing of the file system, and the answer chooses the
branch; at a leaf it is finished with a result. Read on a disk it gives the disk afterwards and
the result. The program reads the same tree on the file system of the machine.
-/

namespace QuantNet

/-- A dialogue with a file system that ends in a result. -/
inductive Action (α : Type) where
  /-- The dialogue is over. -/
  | done (result : α)
  /-- Ask whether a path leads to a folder. -/
  | isFolder (path : String) (next : Bool → Action α)
  /-- Ask for the text of a file. -/
  | textOf (path : String) (next : Except IoError String → Action α)
  /-- Have files and their manifest stored in a directory. -/
  | install (files : FileSet) (directory version : String)
      (next : Except OutputError Manifest → Action α)

namespace Action

/-- The disk after an action, and the result. -/
def onDisk {α : Type} (d : Disk) : Action α → Disk × α
  | done result => (d, result)
  | isFolder path next => (next (d.isFolder path)).onDisk d
  | textOf path next => (next (d.textOf path)).onDisk d
  | install files directory version next =>
    let (stored, outcome) := files.flush d directory version
    (next outcome).onDisk stored

end Action

end QuantNet
