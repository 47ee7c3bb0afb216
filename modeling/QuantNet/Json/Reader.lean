import QuantNet.Json.Basic

/-!
# Reading JSON

The value a text of the data format stands for. The reader accepts exactly the grammar of the
standard: no comments, no trailing commas, no leading zeros, no raw control characters in
strings, and nothing but blanks after the value.
-/

namespace QuantNet.Json

/-- The blanks of the format. -/
def isSpace (c : Char) : Bool := c = ' ' || c = '\n' || c = '\t' || c = '\r'

/-- The characters after leading blanks. -/
def skipSpaces (cs : List Char) : List Char := cs.dropWhile isSpace

/-! ### Strings -/

/-- The value of a hexadecimal digit. -/
def hexValue? (c : Char) : Option Nat :=
  if '0' ≤ c ∧ c ≤ '9' then some (c.toNat - '0'.toNat)
  else if 'a' ≤ c ∧ c ≤ 'f' then some (c.toNat - 'a'.toNat + 10)
  else if 'A' ≤ c ∧ c ≤ 'F' then some (c.toNat - 'A'.toNat + 10)
  else none

/-- The value of four hexadecimal digits. -/
def hexWord? (a b c d : Char) : Option Nat := do
  return (((← hexValue? a) * 16 + (← hexValue? b)) * 16 + (← hexValue? c)) * 16 + (← hexValue? d)

/-- The character a letter stands for after a backslash. -/
def escaped? : Char → Option Char
  | '"' => some '"'
  | '\\' => some '\\'
  | '/' => some '/'
  | 'b' => some (Char.ofNat 8)
  | 'f' => some (Char.ofNat 12)
  | 'n' => some '\n'
  | 'r' => some '\r'
  | 't' => some '\t'
  | _ => none

/-- The text of a string literal after its opening quote, and the rest after the closing one. The
text is missing if the literal holds half of a surrogate pair. -/
def readString : List Char → Option (Option (List Char) × List Char)
  | [] => none
  | '"' :: cs => some (some [], cs)
  | '\\' :: 'u' :: a :: b :: c :: d :: '\\' :: 'u' :: a' :: b' :: c' :: d' :: cs =>
    match hexWord? a b c d with
    | none => none
    | some high =>
      let paired := match hexWord? a' b' c' d' with
        | some low =>
          if 0xD800 ≤ high ∧ high < 0xDC00 ∧ 0xDC00 ≤ low ∧ low < 0xE000 then
            some (Char.ofNat (0x10000 + (high - 0xD800) * 0x400 + (low - 0xDC00)))
          else none
        | none => none
      match paired with
      | some ch => (readString cs).map fun r => (r.1.map (ch :: ·), r.2)
      | none => (readString ('\\' :: 'u' :: a' :: b' :: c' :: d' :: cs)).map fun r =>
        (if 0xD800 ≤ high ∧ high < 0xE000 then none else r.1.map (Char.ofNat high :: ·), r.2)
  | '\\' :: 'u' :: a :: b :: c :: d :: cs =>
    match hexWord? a b c d with
    | none => none
    | some n => (readString cs).map fun r =>
      (if 0xD800 ≤ n ∧ n < 0xE000 then none else r.1.map (Char.ofNat n :: ·), r.2)
  | '\\' :: c :: cs =>
    match escaped? c with
    | none => none
    | some ch => (readString cs).map fun r => (r.1.map (ch :: ·), r.2)
  | c :: cs =>
    if c.toNat < 32 || c = '\\' then none
    else (readString cs).map fun r => (r.1.map (c :: ·), r.2)

/-! ### Numbers -/

/-- The characters after a fraction; a point must be followed by a digit. -/
def skipFraction? : List Char → Option (Bool × List Char)
  | '.' :: cs =>
    if (cs.takeWhile Char.isDigit).isEmpty then none else some (true, cs.dropWhile Char.isDigit)
  | cs => some (false, cs)

/-- The characters after an exponent, which must have a digit. -/
def skipExponent? : List Char → Option (Bool × List Char)
  | c :: cs =>
    if c = 'e' || c = 'E' then
      let cs := match cs with
        | '+' :: rest => rest
        | '-' :: rest => rest
        | rest => rest
      if (cs.takeWhile Char.isDigit).isEmpty then none else some (true, cs.dropWhile Char.isDigit)
    else some (false, c :: cs)
  | [] => some (false, [])

/-- The number after its sign, and the rest. -/
def readNumber (negative : Bool) (cs : List Char) : Option (Json × List Char) := do
  let ds := cs.takeWhile Char.isDigit
  let rest := cs.dropWhile Char.isDigit
  if ds.isEmpty || (ds.head? = some '0' && 1 < ds.length) then none
  else
    let (fraction, rest) ← skipFraction? rest
    let (exponent, rest) ← skipExponent? rest
    if fraction || exponent || (negative && ds = ['0']) then
      let numeral := cs.take (cs.length - rest.length)
      return (.real (String.ofList (if negative then '-' :: numeral else numeral)), rest)
    else return (.integer (if negative then -(Text.decimal ds : Int) else Text.decimal ds), rest)

/-! ### Values -/

/-- The value of a string literal. -/
def ofLiteral : Option (List Char) → Json
  | some cs => .string (String.ofList cs)
  | none => .unreadable

/-- The object of members whose keys were all read. -/
def ofMembers (members : List (Option String × Json)) : Json :=
  match members.mapM fun m => m.1.map fun k => (k, m.2) with
  | some ms => .object ms
  | none => .unreadable

mutual

/-- The value at the start of the characters, and the rest; `fuel` bounds the depth of the reading. -/
def readValue : (fuel : Nat) → List Char → Option (Json × List Char)
  | 0, _ => none
  | fuel + 1, cs =>
    match skipSpaces cs with
    | 'n' :: 'u' :: 'l' :: 'l' :: rest => some (.null, rest)
    | 't' :: 'r' :: 'u' :: 'e' :: rest => some (.bool true, rest)
    | 'f' :: 'a' :: 'l' :: 's' :: 'e' :: rest => some (.bool false, rest)
    | '"' :: rest => (readString rest).map fun r => (ofLiteral r.1, r.2)
    | '[' :: rest =>
      match skipSpaces rest with
      | ']' :: rest => some (.array [], rest)
      | rest => (readItems fuel rest).map fun r => (.array r.1, r.2)
    | '{' :: rest =>
      match skipSpaces rest with
      | '}' :: rest => some (.object [], rest)
      | rest => (readMembers fuel rest).map fun r => (ofMembers r.1, r.2)
    | '-' :: rest => readNumber true rest
    | rest => readNumber false rest

/-- The items of a list up to its closing bracket. -/
def readItems : (fuel : Nat) → List Char → Option (List Json × List Char)
  | 0, _ => none
  | fuel + 1, cs => do
    let (v, rest) ← readValue fuel cs
    match skipSpaces rest with
    | ',' :: rest => (readItems fuel rest).map fun r => (v :: r.1, r.2)
    | ']' :: rest => some ([v], rest)
    | _ => none

/-- The members of an object up to its closing brace. -/
def readMembers : (fuel : Nat) → List Char → Option (List (Option String × Json) × List Char)
  | 0, _ => none
  | fuel + 1, cs =>
    match skipSpaces cs with
    | '"' :: rest => do
      let (key, rest) ← readString rest
      match skipSpaces rest with
      | ':' :: rest => do
        let (v, rest) ← readValue fuel rest
        let member := (key.map String.ofList, v)
        match skipSpaces rest with
        | ',' :: rest => (readMembers fuel rest).map fun r => (member :: r.1, r.2)
        | '}' :: rest => some ([member], rest)
        | _ => none
      | _ => none
    | _ => none

end

/-- The value a text stands for. No reading is deeper than the text is long. -/
def parse? (s : String) : Option Json := do
  let cs := s.toList
  let (v, rest) ← readValue (cs.length + 1) cs
  if (skipSpaces rest).isEmpty then some v else none

end QuantNet.Json
