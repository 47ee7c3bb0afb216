import QuantNet.Toml.Value
import QuantNet.Binary64.Reader

/-!
# Scalars of the settings format

Texts, numbers, truth values, dates and times.

## The model

Texts come in four notations: in double quotes with escapes or in single quotes without, on one
line or, between tripled quotes, over several. A line ending of a text over several lines is a line
feed, however it is written. All other scalars are runs of letters, digits and a few marks, so the
whole run is taken first and then understood; a date and a time of day may stand with a blank
between them.
-/

namespace QuantNet.Toml

/-! ### Characters -/

/-- The blanks inside a line. -/
def isSpace (c : Char) : Bool := c = ' ' || c = '\t'

/-- The characters that may stand for themselves in a text or comment: all but the controls. -/
def isPlain (c : Char) : Bool := c = '\t' || (0x20 ≤ c.toNat && c.toNat ≠ 0x7f)

/-- The value of a hexadecimal digit. -/
def hexValue? (c : Char) : Option Nat :=
  if c.isDigit then some (c.toNat - '0'.toNat)
  else if 'a' ≤ c ∧ c ≤ 'f' then some (c.toNat - 'a'.toNat + 10)
  else if 'A' ≤ c ∧ c ≤ 'F' then some (c.toNat - 'A'.toNat + 10)
  else none

/-- The character with the code point that hexadecimal digits give. -/
def codePoint? (digits : List Char) : Option Char := do
  let values ← digits.mapM hexValue?
  let n := values.foldl (fun n d => 16 * n + d) 0
  if n.isValidChar then some (Char.ofNat n) else none

/-- The character a letter stands for after a backslash. -/
def escaped? : Char → Option Char
  | '"' => some '"'
  | '\\' => some '\\'
  | 'b' => some (Char.ofNat 8)
  | 't' => some '\t'
  | 'n' => some '\n'
  | 'f' => some (Char.ofNat 12)
  | 'r' => some '\r'
  | _ => none

/-! ### Texts -/

/-- What a reader gives when it has read one more character in front. -/
def withChar (c : Char) (r : Option (List Char × List Char)) : Option (List Char × List Char) :=
  r.map fun r => (c :: r.1, r.2)

/-- The text up to the closing double quote, and the rest. -/
def readBasic : List Char → Option (List Char × List Char)
  | [] => none
  | '"' :: cs => some ([], cs)
  | '\\' :: 'u' :: a :: b :: c :: d :: cs =>
    (codePoint? [a, b, c, d]).bind fun ch => withChar ch (readBasic cs)
  | '\\' :: 'U' :: a :: b :: c :: d :: e :: f :: g :: h :: cs =>
    (codePoint? [a, b, c, d, e, f, g, h]).bind fun ch => withChar ch (readBasic cs)
  | '\\' :: c :: cs => (escaped? c).bind fun ch => withChar ch (readBasic cs)
  | c :: cs => if isPlain c && c ≠ '\\' then withChar c (readBasic cs) else none

/-- The text up to the closing single quote, and the rest. -/
def readLiteral : List Char → Option (List Char × List Char)
  | [] => none
  | '\'' :: cs => some ([], cs)
  | c :: cs => if isPlain c then withChar c (readLiteral cs) else none

/-- The characters without a line ending in front. -/
def dropLineEnd : List Char → List Char
  | '\n' :: cs => cs
  | '\r' :: '\n' :: cs => cs
  | cs => cs

/-- Whether nothing but blanks stands before the end of the line. -/
def endsLine (cs : List Char) : Bool :=
  match cs.dropWhile isSpace with
  | '\n' :: _ => true
  | '\r' :: '\n' :: _ => true
  | _ => false

/-- The text up to three closing double quotes, and the rest. Up to two quotes in front of the
closing ones belong to the text. A backslash at the end of a line hides all blanks and line
endings up to the next character; `hide` says that they are being hidden. -/
def readBasicBlock : (hide : Bool) → List Char → Option (List Char × List Char)
  | _, [] => none
  | _, '"' :: '"' :: '"' :: '"' :: '"' :: cs => some (['"', '"'], cs)
  | _, '"' :: '"' :: '"' :: '"' :: cs => some (['"'], cs)
  | _, '"' :: '"' :: '"' :: cs => some ([], cs)
  | _, '\\' :: 'u' :: a :: b :: c :: d :: cs =>
    (codePoint? [a, b, c, d]).bind fun ch => withChar ch (readBasicBlock false cs)
  | _, '\\' :: 'U' :: a :: b :: c :: d :: e :: f :: g :: h :: cs =>
    (codePoint? [a, b, c, d, e, f, g, h]).bind fun ch => withChar ch (readBasicBlock false cs)
  | _, '\\' :: c :: cs =>
    if endsLine (c :: cs) then readBasicBlock true (c :: cs)
    else (escaped? c).bind fun ch => withChar ch (readBasicBlock false cs)
  | hide, '\r' :: '\n' :: cs =>
    if hide then readBasicBlock true cs else withChar '\n' (readBasicBlock false cs)
  | hide, c :: cs =>
    if hide && (isSpace c || c = '\n') then readBasicBlock true cs
    else if c = '\n' || (isPlain c && c ≠ '\\') then withChar c (readBasicBlock false cs)
    else none

/-- The text up to three closing single quotes, and the rest. Up to two quotes in front of the
closing ones belong to the text. -/
def readLiteralBlock : List Char → Option (List Char × List Char)
  | [] => none
  | '\'' :: '\'' :: '\'' :: '\'' :: '\'' :: cs => some (['\'', '\''], cs)
  | '\'' :: '\'' :: '\'' :: '\'' :: cs => some (['\''], cs)
  | '\'' :: '\'' :: '\'' :: cs => some ([], cs)
  | '\r' :: '\n' :: cs => withChar '\n' (readLiteralBlock cs)
  | c :: cs => if c = '\n' || isPlain c then withChar c (readLiteralBlock cs) else none

/-! ### Numbers -/

/-- The digits of a numeral; underscores may stand between them. -/
def digits? (isDigit : Char → Bool) (cs : List Char) : Option (List Char) :=
  let groups := Text.pieces '_' cs
  if groups.all fun g => !g.isEmpty && g.all isDigit then some groups.flatten else none

/-- The digits of a decimal numeral that does not start with a needless zero. -/
def wholeDigits? (cs : List Char) : Option (List Char) :=
  (digits? Char.isDigit cs).bind fun ds =>
    if 1 < ds.length && ds.head? = some '0' then none else some ds

/-- The value of digits in a base. -/
def valueIn (base : Nat) (ds : List Char) : Nat :=
  ds.foldl (fun n c => base * n + (hexValue? c).getD 0) 0

/-- The value of a numeral in a base that has digits below it only. -/
def natural? (base : Nat) (cs : List Char) : Option Nat :=
  (digits? (fun c => (hexValue? c).any (· < base)) cs).map (valueIn base)

/-- An integer, if it is a signed 64-bit word. -/
def word? (n : Int) : Option Int := if -(twoPow 63 : Int) ≤ n ∧ n < twoPow 63 then some n else none

/-- The integer a run of characters stands for. -/
def integer? : List Char → Option Int
  | '0' :: 'x' :: cs => (natural? 16 cs).bind fun n => word? n
  | '0' :: 'o' :: cs => (natural? 8 cs).bind fun n => word? n
  | '0' :: 'b' :: cs => (natural? 2 cs).bind fun n => word? n
  | cs =>
    let (negative, cs) := Binary64.takeSign cs
    (wholeDigits? cs).bind fun ds =>
      word? (if negative then -(valueIn 10 ds : Int) else valueIn 10 ds)

/-- The fraction after a whole number: its digits, none if there is no point. -/
def fraction? : List Char → Option (List Char)
  | [] => some []
  | '.' :: cs => digits? Char.isDigit cs
  | _ => none

/-- The exponent after a number, nought if there is none. -/
def exponent? : List Char → Option Int
  | [] => some 0
  | _ :: cs =>
    let (negative, cs) := Binary64.takeSign cs
    (digits? Char.isDigit cs).map fun ds => if negative then -(valueIn 10 ds : Int) else valueIn 10 ds

/-- The floating-point number a run of characters stands for: a word, or a numeral with a fraction
or an exponent. A positive number beyond the largest one is refused; a negative one becomes the
negative infinity. -/
def float? (cs : List Char) : Option Binary64 := do
  let (negative, cs) := Binary64.takeSign cs
  if cs = ['i', 'n', 'f'] then return .infinite negative
  else if cs = ['n', 'a', 'n'] then return .nan
  else
    let isExponent (c : Char) : Bool := c = 'e' || c = 'E'
    if !cs.any (fun c => c = '.' || isExponent c) then none
    let mantissa := cs.takeWhile (!isExponent ·)
    let whole ← wholeDigits? (mantissa.takeWhile (· ≠ '.'))
    let fraction ← fraction? (mantissa.dropWhile (· ≠ '.'))
    let exponent ← exponent? (cs.dropWhile (!isExponent ·))
    let x := Binary64.ofDecimal negative (valueIn 10 (whole ++ fraction)) (exponent - fraction.length)
    if x = .infinite false then none else return x

/-! ### Dates and times -/

/-- The number two digits make, if it does not exceed a bound. -/
def pair? (a b : Char) (most : Nat) : Option Nat :=
  if a.isDigit && b.isDigit && valueIn 10 [a, b] ≤ most then some (valueIn 10 [a, b]) else none

/-- The days of a month. -/
def daysIn (year month : Nat) : Nat :=
  if month = 2 then
    if year % 4 = 0 ∧ (year % 100 ≠ 0 ∨ year % 400 = 0) then 29 else 28
  else if month = 4 ∨ month = 6 ∨ month = 9 ∨ month = 11 then 30
  else 31

/-- What follows a calendar date. -/
def afterDate? : List Char → Option (List Char)
  | y1 :: y2 :: y3 :: y4 :: '-' :: m1 :: m2 :: '-' :: d1 :: d2 :: rest => do
    let century ← pair? y1 y2 99
    let year ← pair? y3 y4 99
    let month ← pair? m1 m2 12
    let day ← pair? d1 d2 31
    if 1 ≤ month && 1 ≤ day && day ≤ daysIn (100 * century + year) month then some rest else none
  | _ => none

/-- What follows the fraction of a second. -/
def afterFraction? : List Char → Option (List Char)
  | '.' :: c :: rest => if c.isDigit then some (rest.dropWhile Char.isDigit) else none
  | '.' :: [] => none
  | rest => some rest

/-- What follows a time of day. -/
def afterTime? : List Char → Option (List Char)
  | h1 :: h2 :: ':' :: m1 :: m2 :: ':' :: s1 :: s2 :: rest => do
    let _ ← pair? h1 h2 23
    let _ ← pair? m1 m2 59
    let _ ← pair? s1 s2 60
    afterFraction? rest
  | _ => none

/-- Whether the characters are the offset of a time zone, or none. -/
def isOffset : List Char → Bool
  | [] => true
  | [c] => c = 'Z' || c = 'z'
  | [sign, h1, h2, ':', m1, m2] =>
    (sign = '+' || sign = '-') && (pair? h1 h2 23).isSome && (pair? m1 m2 59).isSome
  | _ => false

/-- Whether the characters are a time of day with or without an offset. -/
def isZonedTime (cs : List Char) : Bool := (afterTime? cs).any isOffset

/-- Whether the characters are a date, a time of day, or both. -/
def isMoment (cs : List Char) : Bool :=
  match afterDate? cs with
  | some [] => true
  | some (c :: rest) => (c = 'T' || c = 't') && isZonedTime rest
  | none => afterTime? cs = some []

/-! ### Runs of characters -/

/-- The characters of a scalar that is no text. -/
def isMark (c : Char) : Bool :=
  c.isAlphanum || c = '+' || c = '-' || c = '_' || c = '.' || c = ':'

/-- The value a run of characters stands for. -/
def scalar? (cs : List Char) : Option Value :=
  if cs = ['t', 'r', 'u', 'e'] then some (.boolean true)
  else if cs = ['f', 'a', 'l', 's', 'e'] then some (.boolean false)
  else if isMoment cs then some .moment
  else match integer? cs with
    | some n => some (.integer n)
    | none => (float? cs).map .float

/-- The time of day a blank after a date leads to. -/
def timeAfterBlank? : List Char → Option (List Char)
  | ' ' :: c :: cs => if c.isDigit then some (c :: cs) else none
  | _ => none

/-- The scalar that is no text at the start of the characters, and the rest. -/
def readScalar (cs : List Char) : Option (Value × List Char) :=
  let run := cs.takeWhile isMark
  let rest := cs.dropWhile isMark
  match if afterDate? run = some [] then timeAfterBlank? rest else none with
  | some time =>
    if isZonedTime (time.takeWhile isMark) then some (.moment, time.dropWhile isMark) else none
  | none => (scalar? run).map fun v => (v, rest)

end QuantNet.Toml
