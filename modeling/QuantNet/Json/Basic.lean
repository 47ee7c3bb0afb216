import QuantNet.Text

/-!
# JSON

Values of the data format, and their compact and indented texts.

## The model

Only what the stored types need has a value: integers are exact, and a numeral with a fraction or
an exponent is kept as it is written. A string literal with half of a surrogate pair is
well formed but stands for no text; it, and an object with such a key, is `unreadable`.
-/

namespace QuantNet

/-- A value of the data format. -/
inductive Json where
  /-- Nothing. -/
  | null
  /-- A truth value. -/
  | bool (b : Bool)
  /-- An integer. -/
  | integer (n : Int)
  /-- A numeral that is no plain integer, as it is written. -/
  | real (numeral : String)
  /-- A text. -/
  | string (s : String)
  /-- A well-formed literal that stands for no text. -/
  | unreadable
  /-- A list. -/
  | array (items : List Json)
  /-- Named members, in the order of the text. -/
  | object (members : List (String × Json))

namespace Json

/-! ### Strings -/

/-- The hexadecimal digits of a control character, two of them. -/
def controlHex (n : Nat) : List Char := [Nat.digitChar (n / 16), Nat.digitChar (n % 16)]

/-- A character inside a string literal. -/
def escapeChar (c : Char) : List Char :=
  if c = '"' then ['\\', '"']
  else if c = '\\' then ['\\', '\\']
  else if c = '\n' then ['\\', 'n']
  else if c = '\r' then ['\\', 'r']
  else if c = '\t' then ['\\', 't']
  else if c.toNat = 8 then ['\\', 'b']
  else if c.toNat = 12 then ['\\', 'f']
  else if c.toNat < 32 then '\\' :: 'u' :: '0' :: '0' :: controlHex c.toNat
  else [c]

/-- A string literal. -/
def quote (s : String) : String := String.ofList ('"' :: s.toList.flatMap escapeChar ++ ['"'])

/-! ### Compact text -/

mutual

/-- The text of a value without blanks. -/
def compact : Json → String
  | null => "null"
  | bool b => if b then "true" else "false"
  | integer n => Text.ofInt n
  | real numeral => numeral
  | string s => quote s
  | unreadable => "\"\""
  | array items => "[" ++ ",".intercalate (compactItems items) ++ "]"
  | object members => "\x7b" ++ ",".intercalate (compactMembers members) ++ "\x7d"

/-- The texts of the items of a list. -/
def compactItems : List Json → List String
  | [] => []
  | v :: vs => v.compact :: compactItems vs

/-- The texts of named members. -/
def compactMembers : List (String × Json) → List String
  | [] => []
  | (k, v) :: vs => (quote k ++ ":" ++ v.compact) :: compactMembers vs

end

/-! ### Indented text -/

/-- A line break followed by the indentation of a depth, two blanks each. -/
def lineBreak (depth : Nat) : String := String.ofList ('\n' :: List.replicate (2 * depth) ' ')

/-- Items between brackets, one a line; brackets without items stand together. -/
def block (opening closing : String) (depth : Nat) (items : List String) : String :=
  if items.isEmpty then opening ++ closing
  else opening ++ lineBreak (depth + 1) ++ ("," ++ lineBreak (depth + 1)).intercalate items ++
    lineBreak depth ++ closing

mutual

/-- The indented text of a value at a depth. -/
def prettyAt (depth : Nat) : Json → String
  | array items => block "[" "]" depth (prettyItems (depth + 1) items)
  | object members => block "\x7b" "\x7d" depth (prettyMembers (depth + 1) members)
  | v => v.compact

/-- The indented texts of the items of a list. -/
def prettyItems (depth : Nat) : List Json → List String
  | [] => []
  | v :: vs => v.prettyAt depth :: prettyItems depth vs

/-- The indented texts of named members. -/
def prettyMembers (depth : Nat) : List (String × Json) → List String
  | [] => []
  | (k, v) :: vs => (quote k ++ ": " ++ v.prettyAt depth) :: prettyMembers depth vs

end

/-- The indented text of a value. -/
def pretty (v : Json) : String := v.prettyAt 0

/-! ### Records -/

/-- The values of the named fields of a record, in the order of the names. A record is an object
in which each name stands exactly once, other names not counting, or a list of just the values. -/
def fields? (names : List String) : Json → Option (List Json)
  | array items => if items.length = names.length then some items else none
  | object members => names.mapM fun name =>
    match members.filter (fun m => m.1 = name) with
    | [m] => some m.2
    | _ => none
  | _ => none

/-- The items of a list, each read. -/
def items? {α : Type} (read : Json → Option α) : Json → Option (List α)
  | array items => items.mapM read
  | _ => none

/-- A text. -/
def string? : Json → Option String
  | string s => some s
  | _ => none

/-- An integer within bounds. -/
def integer? (least greatest : Int) : Json → Option Int
  | integer n => if least ≤ n ∧ n ≤ greatest then some n else none
  | _ => none

/-- A natural number below a limit. -/
def natural? (limit : Nat) : Json → Option Nat
  | integer n => if 0 ≤ n ∧ n < limit then some n.toNat else none
  | _ => none

/-- The name of one of several alternatives: a text, or an object whose one member names it and
holds nothing. -/
def alternative? : Json → Option String
  | string s => some s
  | object [(name, null)] => some name
  | _ => none

end Json

end QuantNet
