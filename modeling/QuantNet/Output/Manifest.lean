import QuantNet.Json.Reader
import QuantNet.Output.FileSet
import QuantNet.Output.Disk

/-!
# Build manifests

The record of a build that is stored beside its files: which version made it, the digest of the
whole, and the fingerprint of every file.

## The model

A file set reaches the disk file by file in the order of the paths, and the manifest last. A
refusal part way leaves the files written so far, so the operation gives back the disk in any
case. Two manifests differ at a path if they have different fingerprints there, or only one has any.
-/

namespace QuantNet

namespace ContentHash

/-- The fingerprint as a list of bytes. -/
def toJson (h : ContentHash) : Json := .array (h.bytes.toList.map fun b => .integer b.toNat)

/-- The fingerprint stored in a list of sixteen bytes. -/
def ofJson? (v : Json) : Option ContentHash := do
  let bytes ← v.items? fun b => (b.natural? 256).map UInt8.ofNat
  if h : bytes.length = 16 then some ⟨⟨bytes.toArray, by simpa using h⟩⟩ else none

end ContentHash

/-- The record of a build. -/
structure Manifest where
  /-- The version of the tool that made the build. -/
  version : String
  /-- The digest of the whole build. -/
  digest : ContentHash
  /-- The fingerprint of every file. -/
  files : Table ContentHash
deriving DecidableEq

namespace Manifest

/-- The name of the file that holds the manifest. -/
def fileName : String := "kiln-manifest.json"

/-- The manifest of a file set. -/
def ofFiles (files : FileSet) (version : String) : Manifest := ⟨version, files.digest, files.hashes⟩

/-! ### Text -/

/-- The manifest as data. -/
def toJson (m : Manifest) : Json :=
  .object [("kiln_version", .string m.version), ("digest", m.digest.toJson),
    ("files", .object (m.files.entries.map fun e => (e.1, e.2.toJson)))]

/-- The fingerprints stored in an object; of members with one name the last counts. -/
def filesOfJson? : Json → Option (Table ContentHash)
  | .object members => do
    let entries ← members.mapM fun m => (ContentHash.ofJson? m.2).map fun h => (m.1, h)
    return Table.ofList entries
  | _ => none

/-- The manifest stored in data. -/
def ofJson? (v : Json) : Option Manifest := do
  match ← v.fields? ["kiln_version", "digest", "files"] with
  | [version, digest, files] =>
    return ⟨← version.string?, ← ContentHash.ofJson? digest, ← filesOfJson? files⟩
  | _ => none

/-! ### Storage -/

/-- The manifest that the outcome of reading a file gives, if it gives one. -/
def ofOutcome? : Except IoError String → Option Manifest
  | .ok text => (Json.parse? text).bind ofJson?
  | .error _ => none

/-- The manifest in a directory, if there is one that can be read. -/
def load? (d : Disk) (dir : String) : Option Manifest := ofOutcome? (d.textOf (Path.join dir fileName))

/-- The disk with the manifest stored in a directory, as far as it got, and the outcome. -/
def save (m : Manifest) (d : Disk) (dir : String) : Disk × Except OutputError Unit :=
  match d.makeFolders dir with
  | (made, .error cause) => (made, .error (.io dir cause))
  | (made, .ok ()) =>
    let path := Path.join dir fileName
    match made.putText path m.toJson.pretty with
    | .error cause => (made, .error (.io path cause))
    | .ok written => (written, .ok ())

/-! ### Comparison -/

/-- Whether the manifest was made by the given version. -/
def isCompatible (m : Manifest) (version : String) : Bool := m.version = version

/-- The paths at which two manifests differ, in order. -/
def changedSince (m previous : Manifest) : List String :=
  let changed := (m.files.entries.filter fun e => previous.files.get? e.1 ≠ some e.2).map (·.1)
  let gone := previous.files.keys.filter fun path => !m.files.contains path
  (changed ++ gone).mergeSort (fun a b => a ≤ b)

end Manifest

namespace FileSet

/-- The disk with the files stored below a directory, as far as it got, and the outcome. -/
def storeAll (dir : String) : Disk → List (String × List String) → Disk × Except OutputError Unit
  | d, [] => (d, .ok ())
  | d, (path, lines) :: rest =>
    match d.store (Path.join dir path) (Text.ofLines lines) with
    | (d, .ok ()) => storeAll dir d rest
    | (d, .error e) => (d, .error e)

/-- The disk with the files and their manifest stored in a directory, as far as it got, and the
manifest or the refusal. -/
def flush (files : FileSet) (d : Disk) (dir version : String) : Disk × Except OutputError Manifest :=
  match storeAll dir d files.entries with
  | (d, .error e) => (d, .error e)
  | (d, .ok ()) =>
    let manifest := Manifest.ofFiles files version
    let (d, outcome) := manifest.save d dir
    (d, outcome.map fun _ => manifest)

end FileSet

end QuantNet
