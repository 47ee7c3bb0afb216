import QuantNet.Output.Disk
import QuantNet.Output.FileSet

/-!
# Output sessions

Sequences of requests against an output, whether it is held in memory or on a disk.

## The model

A session knows a list of places, the root first. A request opens a place below a known one,
which is then known too, or writes a file at a known one. A refused request adds no place. An
output is anything that files can be written to; what a refused write leaves behind is its own affair.
-/

namespace QuantNet

/-- A kind of output: how a file is written, and what is left in any case. -/
structure Store (σ : Type) where
  /-- The output after a file is written at a place, and the outcome. -/
  write : σ → Place → String → List String → σ × Except OutputError Unit

namespace Store

/-- The output held in memory. -/
def memory : Store FileSet where
  write files place extension lines :=
    match files.write place extension lines with
    | .ok written => (written, .ok ())
    | .error cause => (files, .error cause)

/-- The output on a disk below a root. -/
def disk (root : String) : Store Disk where
  write d place extension lines := d.write root place extension lines

end Store

/-- A request to an output. -/
inductive Request where
  /-- Open a place below a known one. -/
  | sub (handle : Nat) (name : String)
  /-- Write a file at a known place. -/
  | write (handle : Nat) (extension : String) (lines : List String)
deriving DecidableEq

/-- The known places and the output. -/
structure Session (σ : Type) where
  /-- The known places; a place is referred to by its index. -/
  places : List Place
  /-- The output. -/
  target : σ

namespace Session

variable {σ : Type}

/-- The session in which only the root is known. -/
def start (target : σ) : Session σ := ⟨[Place.root], target⟩

/-- The place of a handle; the root stands in for a place that is not known. -/
def place (s : Session σ) (handle : Nat) : Place := s.places.getD handle Place.root

/-- The session after a request, and the outcome. -/
def step (store : Store σ) (s : Session σ) : Request → Session σ × Except OutputError Unit
  | .sub handle name =>
    match Place.sub (s.place handle) name with
    | .ok p => ({ s with places := s.places ++ [p] }, .ok ())
    | .error cause => (s, .error cause)
  | .write handle extension lines =>
    let (target, outcome) := store.write s.target (s.place handle) extension lines
    ({ s with target }, outcome)

/-- The session after requests in order, refused ones included. -/
def run (store : Store σ) (s : Session σ) (requests : List Request) : Session σ :=
  requests.foldl (fun s r => (s.step store r).1) s

end Session

end QuantNet
