import QuantNet.Table
import QuantNet.ContentHash
import QuantNet.Output.Path

/-!
# File sets

The files of a build, held in memory until the whole build has succeeded.

## The model

A file set maps the path of a file, seen from the root of the output, to its lines. It is
write-once: writing a file again changes nothing if the lines are the same, and is refused
otherwise. Nothing can be written to the root itself.
-/

namespace QuantNet

/-- The files of a build, by path. -/
abbrev FileSet := Table (List String)

namespace FileSet

/-- The file set with a file added, whose path is that of the place followed by the extension. -/
def write (files : FileSet) (place : Place) (extension : String) (lines : List String) :
    Except OutputError FileSet :=
  if place = [] then .error (.invalidName extension)
  else
    let path := Place.text place ++ extension
    match files.get? path with
    | some existing =>
      if existing = lines then .ok files else .error (.conflictingWrite path)
    | none => .ok (files.insert path lines)

/-- The text of a file. -/
def text? (files : FileSet) (path : String) : Option String := (files.get? path).map Text.ofLines

/-- The fingerprint of every file. -/
def hashes (files : FileSet) : Table ContentHash := files.map ContentHash.ofLines

/-- The digest of the whole file set. -/
def digest (files : FileSet) : ContentHash := ContentHash.combine files.hashes.entries

end FileSet

end QuantNet
