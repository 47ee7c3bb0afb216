import QuantNet.Output.Error

/-!
# Paths

Places below the root of an output, and the paths of a file system.

## The model

A place is the list of names that lead to it from the root of an output. Each name is checked
when it is added, so no place ever leaves the root. A path of the file system is a text; its
components are the parts between the slashes, without the empty ones and without single dots.
-/

namespace QuantNet

/-! ### Places -/

/-- A place below the root of an output: the names that lead to it. -/
abbrev Place := List String

/-- Whether a name can be one component of a path: not empty, not a dot name, no slash of either kind. -/
def isComponent (name : String) : Bool :=
  name ≠ "" && name ≠ "." && name ≠ ".." && name.toList.all fun c => c ≠ '/' && c ≠ '\\'

namespace Place

/-- The root of an output. -/
def root : Place := []

/-- The text of a place: its names between slashes. -/
def text (p : Place) : String := "/".intercalate p

/-- The place a name leads to. -/
def sub (p : Place) (name : String) : Except OutputError Place :=
  if isComponent name then .ok (p ++ [name]) else .error (.invalidName name)

end Place

namespace Path

/-- The path of something seen from a directory: an absolute path stands for itself, and an
empty directory adds nothing. -/
def join (base tail : String) : String :=
  if tail.toList.head? = some '/' then tail
  else if base = "" then tail
  else if base.toList.getLast? = some '/' then base ++ tail
  else base ++ "/" ++ tail

/-- The components of a path. -/
def components (path : String) : List String :=
  (Text.fields '/' path).filter fun c => c ≠ "" && c ≠ "."

/-- Refuse a path that no operation takes: one that holds the character zero, or one of 4096 bytes
or more. -/
def check (path : String) : Except IoError Unit :=
  if path.toList.contains '\x00' then .error .zeroCharacter
  else if 4096 ≤ path.utf8ByteSize then .error .nameTooLong
  else .ok ()

/-- Whether a path can only name a directory, because of how it ends. -/
def namesDirectory (path : String) : Bool :=
  match (Text.fields '/' path).getLast? with
  | some last => last = "" || last = "."
  | none => true

/-- Whether a path starts at the root of the file system. -/
def isAbsolute (path : String) : Bool := path.toList.head? = some '/'

/-- The fields between the slashes, last one first, without empty ones and dots at the end of the
path; the first field of the path is kept. -/
def trimEnd : List String → List String
  | [] => []
  | [first] => [first]
  | field :: rest => if field = "" ∨ field = "." then trimEnd rest else field :: rest

/-- The directory that holds the last component of a path, as the path writes it. A path that has
no component has no such directory. -/
def parent? (path : String) : Option String :=
  match trimEnd (Text.fields '/' path).reverse with
  | [] => none
  | last :: folders =>
    if last = "" then none
    else
      let folder := "/".intercalate (trimEnd folders).reverse
      some (if folder = "" ∧ isAbsolute path then "/" else folder)

/-- The directory that holds the last component of a path, the working directory if it has none. -/
def parent (path : String) : String := (parent? path).getD ""

end Path

end QuantNet
