import QuantNet.Binary64.Basic
import QuantNet.Text

/-!
# Reading decimal numbers

The numerals accepted for a floating-point argument: digits with at most one point, an optional
sign and exponent, or one of the words for the infinities and for no number, in either case.
-/

namespace QuantNet.Binary64

/-- The leading digits of a text, and the rest. -/
def spanDigits (cs : List Char) : List Char × List Char := (cs.takeWhile Char.isDigit, cs.dropWhile Char.isDigit)

/-- A sign and the rest; no sign counts as plus. -/
def takeSign : List Char → Bool × List Char
  | '-' :: cs => (true, cs)
  | '+' :: cs => (false, cs)
  | cs => (false, cs)

/-- The value of an exponent that fills the whole text. -/
def readExponent? (cs : List Char) : Option Int :=
  let (negative, cs) := takeSign cs
  let (ds, rest) := spanDigits cs
  if ds.isEmpty || !rest.isEmpty then none
  else some (if negative then -(Text.decimal ds : Int) else Text.decimal ds)

/-- The number written with digits, without its sign. -/
def readDigits? (negative : Bool) (cs : List Char) : Option Binary64 :=
  let (whole, rest) := spanDigits cs
  let (fraction, rest) := match rest with
    | '.' :: rest => spanDigits rest
    | rest => ([], rest)
  if whole.isEmpty && fraction.isEmpty then none
  else
    let exponent? := match rest with
      | [] => some 0
      | 'e' :: rest => readExponent? rest
      | 'E' :: rest => readExponent? rest
      | _ => none
    exponent?.map fun exponent =>
      ofDecimal negative (Text.decimal (whole ++ fraction)) (exponent - fraction.length)

/-- The number a text stands for. -/
def parse? (s : String) : Option Binary64 :=
  let (negative, cs) := takeSign s.toList
  let word := String.ofList (cs.map Char.toLower)
  if word = "inf" ∨ word = "infinity" then some (infinite negative)
  else if word = "nan" then some nan
  else readDigits? negative cs

end QuantNet.Binary64
