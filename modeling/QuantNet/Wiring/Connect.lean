import QuantNet.Vhdl.Structure
import QuantNet.Wiring.Node

/-!
# Wiring by name

Nodes are visited in order, and each signal a node consumes is connected to a signal that an
earlier node produces, by name.

## The model

For each of the seven standard names there is a list of names that can feed it, the same name
first; any other name is fed by itself alone. The first of these names that any earlier node
produces is taken, from the latest node that produces it. If none is produced, the signal is
connected to the input of that name of the whole composition. A node's own outputs become
available only after its inputs are connected, so no node feeds itself.
-/

namespace QuantNet

/-- A consumed signal with the signal that feeds it. -/
structure Connection where
  /-- The signal consumed. -/
  sink : String
  /-- The signal that feeds it. -/
  source : String
deriving DecidableEq

namespace Connection

/-- The connection as data. -/
def toJson (c : Connection) : Json := .object [("sink", .string c.sink), ("source", .string c.source)]

/-- The connection stored in data. -/
def ofJson? (v : Json) : Option Connection := do
  match ← v.fields? ["sink", "source"] with
  | [sink, source] => return ⟨← sink.string?, ← source.string?⟩
  | _ => none

end Connection

/-- The connections of a composition, in the order of the sinks. -/
structure Connections where
  /-- The connections. -/
  entries : List Connection
deriving DecidableEq

namespace Connections

/-- The source of the first connection of a sink. -/
def get? (cs : Connections) (sink : String) : Option String :=
  (cs.entries.find? fun c => c.sink = sink).map Connection.source

/-- The sinks with their sources. -/
def pairs (cs : Connections) : List (String × String) := cs.entries.map fun c => (c.sink, c.source)

/-- The assignments of the connections, sorted. -/
def lines (cs : Connections) : List String := Vhdl.connectionLines cs.pairs

/-- The connections as data. -/
def toJson (cs : Connections) : Json := .object [("entries", .array (cs.entries.map Connection.toJson))]

/-- The connections stored in data. -/
def ofJson? (v : Json) : Option Connections := do
  match ← v.fields? ["entries"] with
  | [entries] => return ⟨← entries.items? Connection.ofJson?⟩
  | _ => none

end Connections

namespace Wiring

/-- The names that can feed a signal, the best first. -/
def candidates : String → List String
  | "x" => ["x", "y"]
  | "y" => ["y", "x"]
  | "x_address" => ["x_address", "y_address"]
  | "y_address" => ["y_address", "x_address"]
  | "enable" => ["enable", "done"]
  | "done" => ["done", "enable"]
  | "clock" => ["clock"]
  | name => [name]

/-- A produced signal and its name in the whole composition. -/
structure Source where
  /-- The signal. -/
  signal : Signal
  /-- Its name in the whole composition. -/
  qualified : String
deriving DecidableEq

/-- The signals produced so far, the latest first. -/
abbrev Available := List Source

/-- The latest produced signal of a name. -/
def latest? (available : Available) (name : String) : Option Source :=
  available.find? fun s => s.signal.name = name

/-- The signal that feeds a sink of the given name. -/
def feeder? (available : Available) (name : String) : Option Source :=
  (candidates name).findSome? (latest? available)

/-- The signals a node produces, the latest first. -/
def produced (n : Node) : Available := (n.sources.map fun s => ⟨s, n.qualify s⟩).reverse

/-- The connection of one sink of a node. -/
def resolve (strict : Bool) (available : Available) (n : Node) (sink : Signal) :
    Except DesignError Connection :=
  match feeder? available sink.name with
  | none => .ok ⟨n.qualify sink, sink.name⟩
  | some source =>
    if strict && source.signal.width ≠ sink.width then
      .error (.widthMismatch (n.qualify sink) source.qualified sink.width source.signal.width)
    else .ok ⟨n.qualify sink, source.qualified⟩

/-- The connections of the sinks of a node, in order. -/
def resolveAll (strict : Bool) (available : Available) (n : Node) :
    List Signal → Except DesignError (List Connection)
  | [] => .ok []
  | sink :: rest => do
    let first ← resolve strict available n sink
    let others ← resolveAll strict available n rest
    return first :: others

/-- The connections of nodes in order, given what earlier nodes produce. -/
def connectFrom (strict : Bool) : Available → List Node → Except DesignError (List Connection)
  | _, [] => .ok []
  | available, n :: rest => do
    let first ← resolveAll strict available n n.sinks
    let others ← connectFrom strict (produced n ++ available) rest
    return first ++ others

/-- The connections of nodes in order; a strict wiring refuses connections between different widths. -/
def connect (strict : Bool) (nodes : List Node) : Except DesignError Connections :=
  (connectFrom strict [] nodes).map Connections.mk

end Wiring

end QuantNet
