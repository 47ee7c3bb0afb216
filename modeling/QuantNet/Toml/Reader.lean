import QuantNet.Toml.Document
import QuantNet.Toml.Scalar

/-!
# Reading settings

The table a text of the settings format stands for.

## The model

A statement fills a line; only lists and the texts between tripled quotes go over several. Lists
and tables in braces may be nested, and keys dotted, up to a fixed depth.
-/

namespace QuantNet.Toml

/-- No value is nested, and no key dotted, this many times or more. -/
def depthLimit : Nat := 80

/-! ### Blanks and comments -/

/-- The characters after leading blanks. -/
def skipSpaces (cs : List Char) : List Char := cs.dropWhile isSpace

/-- What follows the end of a line, after blanks and a comment if there is one. -/
def afterLine? (cs : List Char) : Option (List Char) :=
  let rest := match skipSpaces cs with
    | '#' :: comment => comment.dropWhile isPlain
    | rest => rest
  match rest with
  | [] => some []
  | '\n' :: rest => some rest
  | '\r' :: '\n' :: rest => some rest
  | _ => none

/-- The characters after blanks, comments and line endings inside a list; `comment` says that a
comment is being skipped. -/
def skipFill : (comment : Bool) → List Char → List Char
  | _, [] => []
  | _, '\n' :: cs => skipFill false cs
  | _, '\r' :: '\n' :: cs => skipFill false cs
  | true, c :: cs => if isPlain c then skipFill true cs else c :: cs
  | false, c :: cs =>
    if c = '#' then skipFill true cs else if isSpace c then skipFill false cs else c :: cs

/-! ### Keys -/

/-- The characters of a key without quotes. -/
def isKeyChar (c : Char) : Bool := c.isAlphanum || c = '_' || c = '-'

/-- One part of a key, and the rest. -/
def readKeyPart : List Char → Option (String × List Char)
  | '"' :: cs => (readBasic cs).map fun r => (String.ofList r.1, r.2)
  | '\'' :: cs => (readLiteral cs).map fun r => (String.ofList r.1, r.2)
  | cs =>
    let part := cs.takeWhile isKeyChar
    if part.isEmpty then none else some (String.ofList part, cs.dropWhile isKeyChar)

/-- A key with the path in front of it, and the rest, after the blanks around its parts; it has at
most `parts` parts. -/
def readKey : (parts : Nat) → List Char → Option ((List String × String) × List Char)
  | 0, _ => none
  | parts + 1, cs => do
    let (first, rest) ← readKeyPart (skipSpaces cs)
    match skipSpaces rest with
    | '.' :: rest => (readKey parts rest).map fun r => ((first :: r.1.1, r.1.2), r.2)
    | rest => some (([], first), rest)

/-! ### Values -/

/-- A text in any of the four notations, and the rest. -/
def readText : List Char → Option (List Char × List Char)
  | '"' :: '"' :: '"' :: cs => readBasicBlock false (dropLineEnd cs)
  | '"' :: cs => readBasic cs
  | '\'' :: '\'' :: '\'' :: cs => readLiteralBlock (dropLineEnd cs)
  | '\'' :: cs => readLiteral cs
  | _ => none

mutual

/-- The value at the start of the characters, and the rest; `fuel` bounds the steps of the reading,
and `depth` how deep the value may still be nested. -/
def readValue : (fuel depth : Nat) → List Char → Option (Value × List Char)
  | 0, _, _ => none
  | fuel + 1, depth, cs =>
    match cs with
    | '[' :: rest =>
      if depth = 0 then none
      else match skipFill false rest with
        | ']' :: rest => some (.array [], rest)
        | rest => (readItems fuel (depth - 1) rest).map fun r => (.array r.1, r.2)
    | '{' :: rest =>
      if depth = 0 then none
      else match skipSpaces rest with
        | '}' :: rest => some (.table [], rest)
        | rest => (readAssignments fuel (depth - 1) rest).bind fun r =>
          (ofAssignments? r.1).map fun v => (v, r.2)
    | cs =>
      if cs.head? = some '"' || cs.head? = some '\'' then
        (readText cs).map fun r => (.string (String.ofList r.1), r.2)
      else readScalar cs

/-- The items of a list up to its closing bracket; a comma may follow the last one. -/
def readItems : (fuel depth : Nat) → List Char → Option (List Value × List Char)
  | 0, _, _ => none
  | fuel + 1, depth, cs => do
    let (v, rest) ← readValue fuel depth cs
    match skipFill false rest with
    | ']' :: rest => some ([v], rest)
    | ',' :: rest =>
      match skipFill false rest with
      | ']' :: rest => some ([v], rest)
      | rest => (readItems fuel depth rest).map fun r => (v :: r.1, r.2)
    | _ => none

/-- The assignments of a table in braces up to the closing one. -/
def readAssignments : (fuel depth : Nat) → List Char →
    Option (List (List String × String × Value) × List Char)
  | 0, _, _ => none
  | fuel + 1, depth, cs => do
    let ((path, key), rest) ← readKey (depthLimit - 1) cs
    match rest with
    | '=' :: rest =>
      let (v, rest) ← readValue fuel depth (skipSpaces rest)
      match skipSpaces rest with
      | '}' :: rest => some ([(path, key, v)], rest)
      | ',' :: rest => (readAssignments fuel depth rest).map fun r => ((path, key, v) :: r.1, r.2)
      | _ => none
    | _ => none

end

/-! ### Documents -/

/-- The statement at the start of a line that is not blank, and what follows its line; `fuel` bounds
the reading of its value. -/
def readStatement (fuel : Nat) : List Char → Option (Statement × List Char)
  | '[' :: '[' :: cs => do
    let ((path, key), rest) ← readKey (depthLimit - 1) cs
    match rest with
    | ']' :: ']' :: rest => (afterLine? rest).map fun rest => (.openElement path key, rest)
    | _ => none
  | '[' :: cs => do
    let ((path, key), rest) ← readKey (depthLimit - 1) cs
    match rest with
    | ']' :: rest => (afterLine? rest).map fun rest => (.openTable path key, rest)
    | _ => none
  | cs => do
    let ((path, key), rest) ← readKey (depthLimit - 1) cs
    match rest with
    | '=' :: rest =>
      let (v, rest) ← readValue fuel (depthLimit - 1) (skipSpaces rest)
      (afterLine? rest).map fun rest => (.assign path key v, rest)
    | _ => none

/-- The statements of a text; `fuel` bounds the number of its lines. -/
def readStatements : (fuel : Nat) → List Char → Option (List Statement)
  | 0, _ => none
  | fuel + 1, cs =>
    match skipSpaces cs with
    | [] => some []
    | c :: cs =>
      if c = '#' || c = '\n' || c = '\r' then (afterLine? (c :: cs)).bind fun rest => readStatements fuel rest
      else (readStatement (2 * cs.length + 2) (c :: cs)).bind fun r =>
        (readStatements fuel r.2).map fun others => r.1 :: others

/-- The characters without a byte-order mark in front. -/
def dropByteOrderMark : List Char → List Char
  | '\uFEFF' :: cs => cs
  | cs => cs

/-- The table a text stands for. No text has more lines than characters, plus one, and no value
takes more than two steps per character. -/
def parse? (s : String) : Option Value :=
  let cs := dropByteOrderMark s.toList
  (readStatements (cs.length + 1) cs).bind ofStatements?

end QuantNet.Toml
