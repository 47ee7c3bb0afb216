import QuantNet.Failure

/-!
# Text

Lines, fields and blanks of Unicode text, over `List Char` where a rule is stated and over
`String` where it is used.

## The model

A blank is a character with the Unicode property White_Space. A line ends at a line feed; one
carriage return before the line feed belongs to the ending, and a text without a final line
feed still has its last line.
-/

namespace QuantNet.Text

/-! ### Blanks -/

/-- The characters with the Unicode property White_Space. -/
def isBlank (c : Char) : Bool :=
  let n := c.toNat
  (0x09 ≤ n && n ≤ 0x0d) || n == 0x20 || n == 0x85 || n == 0xa0 || n == 0x1680 ||
    (0x2000 ≤ n && n ≤ 0x200a) || n == 0x2028 || n == 0x2029 || n == 0x202f || n == 0x205f ||
    n == 0x3000

/-- The characters without the blanks at the start. -/
def dropBlanks (cs : List Char) : List Char := cs.dropWhile isBlank

/-- The characters without the blanks at either end. -/
def trimChars (cs : List Char) : List Char := (dropBlanks (dropBlanks cs).reverse).reverse

/-- The text without the blanks at either end. -/
def trim (s : String) : String := String.ofList (trimChars s.toList)

/-! ### Pieces -/

/-- What follows `start` in `cs`, if `cs` begins with it. -/
def after? : (start cs : List Char) → Option (List Char)
  | [], cs => some cs
  | _ :: _, [] => none
  | s :: start, c :: cs => if s = c then after? start cs else none

/-- What follows `start` in the text, if the text begins with it. -/
def dropStart? (start s : String) : Option String :=
  (after? start.toList s.toList).map String.ofList

/-- The pieces of a list between the elements equal to `sep`; there is always at least one. -/
def pieces (sep : Char) : List Char → List (List Char)
  | [] => [[]]
  | c :: cs =>
    if c = sep then [] :: pieces sep cs
    else match pieces sep cs with
      | [] => [[c]]
      | p :: ps => (c :: p) :: ps

/-- The fields of a text between the separators. -/
def fields (sep : Char) (s : String) : List String := (pieces sep s.toList).map String.ofList

/-! ### Lines -/

/-- A line without the carriage return before its line feed. -/
def dropReturn (cs : List Char) : List Char :=
  match cs.reverse with
  | '\r' :: rest => rest.reverse
  | _ => cs

/-- The lines of a list of pieces: all but the last were ended by a line feed, and an empty
last piece is no line. -/
def linesOfPieces : List (List Char) → List (List Char)
  | [] => []
  | [last] => if last.isEmpty then [] else [last]
  | p :: ps => dropReturn p :: linesOfPieces ps

/-- The lines of a text. -/
def lines (s : String) : List String := (linesOfPieces (pieces '\n' s.toList)).map String.ofList

/-- A text made of lines, each ended by a line feed. -/
def ofLines (lines : List String) : String := String.join (lines.map (· ++ "\n"))

/-! ### Numerals -/

/-- The decimal numeral of a natural number. -/
def ofNat (n : Nat) : String := String.ofList (Nat.toDigits 10 n)

/-- The decimal numeral of an integer. -/
def ofInt : Int → String
  | .ofNat n => ofNat n
  | .negSucc n => "-" ++ ofNat (n + 1)

/-- The value of decimal digits. -/
def decimal (ds : List Char) : Nat := ds.foldl (fun n c => 10 * n + (c.toNat - '0'.toNat)) 0

/-- The value of characters that are all decimal digits, and at least one. -/
def natural? (cs : List Char) : Option Nat :=
  if cs.isEmpty || !cs.all Char.isDigit then none else some (decimal cs)

/-- The 64-bit word that a numeral stands for; a plus sign may stand in front. -/
def size? (cs : List Char) : Option Nat :=
  (natural? (match cs with
    | '+' :: ds => ds
    | ds => ds)).bind fun n => if n < twoPow 64 then some n else none

/-- The signed 64-bit word that a numeral stands for; either sign may stand in front. -/
def word? (cs : List Char) : Option Int :=
  let value? : Option Int := match cs with
    | '+' :: ds => (natural? ds).map fun n => n
    | '-' :: ds => (natural? ds).map fun n => -n
    | ds => (natural? ds).map fun n => n
  value?.bind fun n => if -(twoPow 63 : Int) ≤ n ∧ n < twoPow 63 then some n else none

end QuantNet.Text
