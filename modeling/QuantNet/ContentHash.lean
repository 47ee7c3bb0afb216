import QuantNet.Hash.Xxh3
import QuantNet.Text

/-!
# Content hashes

A fingerprint of sixteen bytes for the contents of a file, and the digest of a whole build made
from the fingerprints of its files.
-/

namespace QuantNet

/-- A fingerprint of sixteen bytes. -/
structure ContentHash where
  /-- The bytes, in the order in which they are shown. -/
  bytes : Vector UInt8 16
deriving DecidableEq

namespace ContentHash

/-- The bytes of a word, least significant first. -/
def wordBytes (w : UInt64) : Vector UInt8 8 :=
  Vector.ofFn fun i : Fin 8 => (w >>> UInt64.ofNat (8 * i)).toUInt8

/-- The fingerprint of a byte string. -/
def ofBytes (data : ByteArray) : ContentHash :=
  let h := Xxh3.hash data
  ⟨wordBytes h.low ++ wordBytes h.high⟩

/-- The fingerprint of a text in UTF-8. -/
def ofText (s : String) : ContentHash := ofBytes s.toUTF8

/-- The bytes of lines, each ended by a line feed. -/
def lineBytes (lines : List String) : ByteArray :=
  lines.foldl (fun buffer line => (buffer ++ line.toUTF8).push 10) .empty

/-- The fingerprint of the file that holds the lines. -/
def ofLines (lines : List String) : ContentHash := ofBytes (lineBytes lines)

/-- The bytes that stand for one entry of a build: its name, a zero, its fingerprint. -/
def entryBytes (name : String) (hash : ContentHash) : List UInt8 :=
  name.toUTF8.toList ++ 0 :: hash.bytes.toList

/-- The bytes that stand for an ordered list of named fingerprints. -/
def combinedBytes (entries : List (String × ContentHash)) : List UInt8 :=
  entries.flatMap fun e => entryBytes e.1 e.2

/-- The digest of an ordered list of named fingerprints. -/
def combine (entries : List (String × ContentHash)) : ContentHash :=
  ofBytes ⟨(combinedBytes entries).toArray⟩

/-- The two hexadecimal digits of a byte. -/
def byteHex (b : UInt8) : String :=
  String.ofList [Nat.digitChar (b.toNat / 16), Nat.digitChar (b.toNat % 16)]

/-- The fingerprint in hexadecimal digits. -/
def text (h : ContentHash) : String := String.join (h.bytes.toList.map byteHex)

/-- The fingerprint in a trace: its first two bytes. -/
def trace (h : ContentHash) : String :=
  "ContentHash(" ++ String.join ((h.bytes.toList.take 2).map byteHex) ++ "..)"

end ContentHash

end QuantNet
