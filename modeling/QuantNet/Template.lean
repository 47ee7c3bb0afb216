import QuantNet.Table
import QuantNet.Output.Error

/-!
# Templates

Source text with placeholders, filled with the values of named parameters.

## The model

A placeholder is a name between `${` and `}`. A parameter is a text, which replaces its
placeholder inside the line, or a list of lines, whose placeholder must stand alone on its line
and is replaced by one line per element with the indentation of the placeholder. Values are
inserted as they are and never looked at again. The first placeholder that cannot be filled, in
reading order, is the error of the whole template.
-/

namespace QuantNet

/-- The value of a parameter. -/
inductive Param where
  /-- A text inside a line. -/
  | text (value : String)
  /-- Whole lines. -/
  | lines (values : List String)
deriving DecidableEq

/-- The values of the parameters by name. -/
abbrev Parameters := Table Param

namespace Parameters

/-- No parameters. -/
def none : Parameters := Table.empty

/-- The parameters with a text added. -/
def withText (ps : Parameters) (name value : String) : Parameters := ps.insert name (.text value)

/-- The parameters with a number added. -/
def withNat (ps : Parameters) (name : String) (value : Nat) : Parameters :=
  ps.insert name (.text (Text.ofNat value))

/-- The parameters with an integer added. -/
def withInt (ps : Parameters) (name : String) (value : Int) : Parameters :=
  ps.insert name (.text (Text.ofInt value))

/-- The parameters with lines added. -/
def withLines (ps : Parameters) (name : String) (values : List String) : Parameters :=
  ps.insert name (.lines values)

end Parameters

/-- A part of a line of a template. -/
inductive Piece where
  /-- A character that stands for itself. -/
  | char (c : Char)
  /-- A placeholder. -/
  | hole (name : String)
  /-- The start of a placeholder that is never closed. -/
  | unclosed
deriving DecidableEq

/-- The parts of a line; `hole?` holds the name read so far, last character first, inside a
placeholder. -/
def piecesFrom : (hole? : Option (List Char)) → List Char → List Piece
  | none, [] => []
  | none, '$' :: '{' :: cs => piecesFrom (some []) cs
  | none, c :: cs => .char c :: piecesFrom none cs
  | some _, [] => [.unclosed]
  | some name, '}' :: cs => .hole (String.ofList name.reverse) :: piecesFrom none cs
  | some name, c :: cs => piecesFrom (some (c :: name)) cs

/-- The parts of a line. -/
def pieces (line : String) : List Piece := piecesFrom none line.toList

/-- Whether a placeholder starts somewhere in the characters. -/
def opensHole : List Char → Bool
  | '$' :: '{' :: _ => true
  | _ :: cs => opensHole cs
  | [] => false

/-- The name of the placeholder that fills a line but for blanks around it. -/
def loneHole? (line : String) : Option String :=
  match Text.after? ['$', '{'] (Text.trimChars line.toList) with
  | none => none
  | some rest =>
    match rest.reverse with
    | '}' :: name =>
      if name.isEmpty || name.contains '}' || opensHole name.reverse then none
      else some (String.ofList name.reverse)
    | _ => none

/-- The blanks at the start of a line. -/
def indentation (line : String) : String := String.ofList (line.toList.takeWhile Text.isBlank)

/-- A text to be filled with the values of parameters. -/
structure Template where
  /-- The name in error messages. -/
  name : String
  /-- The lines. -/
  lines : List String
deriving DecidableEq

namespace Template

/-- The template with a text as its body. -/
def ofText (name body : String) : Template := ⟨name, Text.lines body⟩

/-- The parts of a line with every placeholder filled; `line` counts the lines from one. -/
def fill (t : Template) (params : Parameters) (line : Nat) : List Piece → Except OutputError (List Char)
  | [] => .ok []
  | .char c :: ps => (t.fill params line ps).map (c :: ·)
  | .unclosed :: _ => .error (.unterminated t.name line)
  | .hole name :: ps =>
    match params.get? name with
    | some (.text value) => (t.fill params line ps).map (value.toList ++ ·)
    | some (.lines _) => .error (.listInline t.name name)
    | none => .error (.missingParameter t.name name)

/-- The lines that a line of the template becomes. -/
def renderLine (t : Template) (params : Parameters) (line : Nat) (source : String) :
    Except OutputError (List String) :=
  match (loneHole? source).bind params.get? with
  | some (.lines values) => .ok (values.map (indentation source ++ ·))
  | _ => (t.fill params line (pieces source)).map fun cs => [String.ofList cs]

/-- The lines that the lines of the template from a number on become. -/
def renderFrom (t : Template) (params : Parameters) : (line : Nat) → List String → Except OutputError (List String)
  | _, [] => .ok []
  | line, source :: rest => do
    let first ← t.renderLine params line source
    let others ← t.renderFrom params (line + 1) rest
    return first ++ others

/-- The lines of the filled template. -/
def render (t : Template) (params : Parameters) : Except OutputError (List String) :=
  t.renderFrom params 1 t.lines

end Template

end QuantNet
