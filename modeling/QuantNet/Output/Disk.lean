import QuantNet.Output.Path

/-!
# Disks

The part of a file system that a build touches.

## The model

A tree gives every name of a folder a file or another folder, never both. A disk is a tree with a
working directory in it. A path is followed from the working directory, or from the root of the
tree if it starts with a slash, and two dots lead back to the folder above. A name has at most 255
bytes. Operations either change the tree or are refused and leave it alone; making a chain of folders
can be refused part way, and then the folders made so far are kept.

Symbolic and hard links are left out: a name leads to what stands under it in the tree and to nothing
else, and no two names lead to one file. So are permissions and the room that is left on the disk.
-/

namespace QuantNet

/-- A file or a folder. -/
inductive Tree where
  /-- A file with its text. -/
  | file (text : String)
  /-- A folder with its named contents. -/
  | folder (children : List (String × Tree))

namespace Tree

/-- The folder without contents. -/
def empty : Tree := folder []

/-- The named contents, which a file has none of. -/
def children : Tree → List (String × Tree)
  | file _ => []
  | folder cs => cs

/-- The contents with one name added or replaced. -/
def setChild (name : String) (t : Tree) : List (String × Tree) → List (String × Tree)
  | [] => [(name, t)]
  | (n, x) :: rest => if n = name then (name, t) :: rest else (n, x) :: setChild name t rest

/-- What a list of names leads to. -/
def get? : Tree → List String → Option Tree
  | t, [] => some t
  | t, name :: rest =>
    match t.children.lookup name with
    | some child => child.get? rest
    | none => none

/-- The tree with the given contents put where a list of names leads. -/
def put (new : Tree) : Tree → List String → Tree
  | _, [] => new
  | t, name :: rest =>
    folder (setChild name (put new ((t.children.lookup name).getD empty) rest) t.children)

/-! ### Following paths -/

/-- The folder above. -/
def above (place : List String) : List String := place.dropLast

/-- Whether a name has more bytes than a name can have. -/
def isLongName (name : String) : Bool := 255 < name.utf8ByteSize

/-- The place of a folder that the components lead to from a folder. -/
def walk (t : Tree) : (place : List String) → List String → Except IoError (List String)
  | place, [] => .ok place
  | place, name :: rest =>
    if name = ".." then t.walk (above place) rest
    else if isLongName name then .error .nameTooLong
    else match t.get? (place ++ [name]) with
      | some (folder _) => t.walk (place ++ [name]) rest
      | some (file _) => .error .notDirectory
      | none => .error .notFound

/-! ### Making folders -/

/-- The tree with a new folder in the folder that components lead to. -/
def makeFolder (t : Tree) (start parents : List String) (name : String) : Except IoError Tree := do
  let place ← t.walk start parents
  if name = ".." then .error .alreadyExists
  else if isLongName name then .error .nameTooLong
  else match t.get? (place ++ [name]) with
    | some _ => .error .alreadyExists
    | none => return put empty t (place ++ [name])

/-- The tree with a folder in the folder that components lead to, new or not, and the outcome. -/
def ensureFolder (t : Tree) (start parents : List String) (name : String) : Tree × Except IoError Unit :=
  match t.makeFolder start parents name with
  | .ok made => (made, .ok ())
  | .error cause => (t, if (t.walk start (parents ++ [name])).isOk then .ok () else .error cause)

/-- The tree after a folder is made, as far as it got, and the outcome. The components that lead to
it are given last one first. The folders above are made only if one of them is missing. -/
def makeFolders (t : Tree) (start : List String) : List String → Tree × Except IoError Unit
  | [] => (t, .ok ())
  | name :: parents =>
    match t.ensureFolder start parents.reverse name with
    | (_, .error .notFound) =>
      match t.makeFolders start parents with
      | (made, .ok ()) => made.ensureFolder start parents.reverse name
      | refused => refused
    | outcome => outcome

/-! ### Files -/

mutual

/-- The files of a tree with the names that lead to them. -/
def files : Tree → List (List String × String)
  | file text => [([], text)]
  | folder cs => filesOf cs

/-- The files among named contents. -/
def filesOf : List (String × Tree) → List (List String × String)
  | [] => []
  | (name, t) :: rest => t.files.map (fun f => (name :: f.1, f.2)) ++ filesOf rest

end

/-- The files of a tree by path. -/
def listing (t : Tree) : List (String × String) := t.files.map fun f => ("/".intercalate f.1, f.2)

end Tree

/-- A tree of files with a working directory. -/
structure Disk where
  /-- The files. -/
  tree : Tree
  /-- The names that lead to the working directory. -/
  home : List String := []

namespace Disk

/-- The disk without files, whose working directory is the root. -/
def empty : Disk := ⟨.empty, []⟩

/-- Where the components of a path are followed from. -/
def start (d : Disk) (path : String) : List String := if Path.isAbsolute path then [] else d.home

/-! ### Operations -/

/-- The disk after a folder and all folders above it are made, as far as it got, and the outcome. -/
def makeFolders (d : Disk) (path : String) : Disk × Except IoError Unit :=
  match Path.check path with
  | .error cause => (d, .error cause)
  | .ok () =>
    let (tree, outcome) := d.tree.makeFolders (d.start path) (Path.components path).reverse
    ({ d with tree }, outcome)

/-- The place of a file that a path names, in a folder that exists. -/
def locate (d : Disk) (path : String) : Except IoError (List String) := do
  Path.check path
  match (Path.components path).getLast? with
  | none => .error (if path = "" then .notFound else .isDirectory)
  | some name => do
    let place ← d.tree.walk (d.start path) (Path.components path).dropLast
    if name = ".." then .error .isDirectory
    else if Tree.isLongName name then .error .nameTooLong
    else return place ++ [name]

/-- The disk with a file at a place. -/
def putFile (d : Disk) (place : List String) (text : String) : Disk :=
  { d with tree := .put (.file text) d.tree place }

/-- The disk after a file is written; its folder must exist. -/
def putText (d : Disk) (path text : String) : Except IoError Disk := do
  let place ← d.locate path
  match d.tree.get? place with
  | some (.folder _) => .error .isDirectory
  | some (.file _) => if Path.namesDirectory path then .error .notDirectory else return d.putFile place text
  | none => if Path.namesDirectory path then .error .isDirectory else return d.putFile place text

/-- The text of a file. -/
def textOf (d : Disk) (path : String) : Except IoError String := do
  let place ← d.locate path
  match d.tree.get? place with
  | some (.file text) => if Path.namesDirectory path then .error .notDirectory else return text
  | some (.folder _) => .error .isDirectory
  | none => .error .notFound

/-- Whether a path names a file. -/
def isFile (d : Disk) (path : String) : Bool := (d.textOf path).isOk

/-- The folder that a path leads to. -/
def openFolder (d : Disk) (path : String) : Except IoError Tree := do
  Path.check path
  if path = "" then .error .notFound
  let place ← d.tree.walk (d.start path) (Path.components path)
  return (d.tree.get? place).getD .empty

/-- Whether a path leads to a folder. -/
def isFolder (d : Disk) (path : String) : Bool := (d.openFolder path).isOk

/-! ### Output -/

/-- The disk after a file is written with its folders, as far as it got, and the outcome. -/
def store (d : Disk) (path text : String) : Disk × Except OutputError Unit :=
  match d.makeFolders (Path.parent path) with
  | (made, .error cause) => (made, .error (.io (Path.parent path) cause))
  | (made, .ok ()) => match made.putText path text with
    | .error cause => (made, .error (.io path cause))
    | .ok written => (written, .ok ())

/-- The path of a file below a root: the parts of the text of its place are joined to the root one
after the other, and the extension is put behind the last one. -/
def filePath (root : String) (place : Place) (extension : String) : String :=
  (Text.fields '/' (Place.text place)).foldl Path.join root ++ extension

/-- The disk after a file is written below a root, as far as it got, and the outcome. -/
def write (d : Disk) (root : String) (place : Place) (extension : String) (lines : List String) :
    Disk × Except OutputError Unit :=
  if place = [] then (d, .error (.invalidName extension))
  else d.store (filePath root place extension) (Text.ofLines lines)

end Disk

end QuantNet
