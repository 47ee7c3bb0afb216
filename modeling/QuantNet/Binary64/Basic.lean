import QuantNet.Failure

/-!
# Binary floating point

The 64-bit binary floating-point numbers, as exact values.

## The model

A finite number is a sign, a significand and a power of two, in the one form in which the
format stores it: the significand has 53 bits, or fewer at the smallest exponent. Zero keeps
its sign. The operations are the few that quantization needs, and each is correctly rounded
because it is exact arithmetic followed by one rounding to the nearest number of the format,
ties to the even significand.
-/

namespace QuantNet

/-- A significand and an exponent in the form in which the format stores `significand * 2 ^ exponent`. -/
def Canonical (significand : Nat) (exponent : Int) : Prop :=
  significand < twoPow 53 ∧ -1074 ≤ exponent ∧ exponent ≤ 971 ∧
    (twoPow 52 ≤ significand ∨ exponent = -1074)

instance (significand : Nat) (exponent : Int) : Decidable (Canonical significand exponent) :=
  inferInstanceAs (Decidable (_ ∧ _ ∧ _ ∧ _))

/-- A 64-bit binary floating-point number. -/
inductive Binary64 where
  /-- Not a number. -/
  | nan
  /-- An infinity. -/
  | infinite (negative : Bool)
  /-- The number `significand * 2 ^ exponent` with a sign. -/
  | finite (negative : Bool) (significand : Nat) (exponent : Int)
      (canonical : Canonical significand exponent)
deriving DecidableEq

namespace Binary64

/-- Zero with a sign. -/
def zero (negative : Bool) : Binary64 := finite negative 0 (-1074) (by decide)

/-- The number with the given parts; parts the format does not hold stand for an overflow. -/
def pack (negative : Bool) (significand : Nat) (exponent : Int) : Binary64 :=
  if h : Canonical significand exponent then finite negative significand exponent h
  else infinite negative

/-- The number stored in a 64-bit word. -/
def ofBits (word : UInt64) : Binary64 :=
  let n := word.toNat
  let negative := n.testBit 63
  let exponent : Nat := n / twoPow 52 % twoPow 11
  let fraction : Nat := n % twoPow 52
  if exponent = 2047 then
    if fraction = 0 then infinite negative else nan
  else if exponent = 0 then pack negative fraction (-1074)
  else pack negative (twoPow 52 + fraction) ((exponent : Int) - 1075)

/-! ### Rounding -/

/-- The quotient rounded to the nearest natural number, ties to even. -/
def divNearestEven (n d : Nat) : Nat :=
  let q := n / d
  let r := n % d
  if 2 * r < d then q
  else if d < 2 * r then q + 1
  else q + q % 2

/-- The quotient rounded to the nearest natural number, ties away from zero. -/
def divNearestAway (n d : Nat) : Nat := (2 * n + d) / (2 * d)

/-- The quotient `n / d` scaled by `2 ^ (-e)`, as a quotient. -/
def scaleRatio (n d : Nat) (e : Int) : Nat × Nat :=
  if e < 0 then (n * twoPow (-e).toNat, d) else (n, d * twoPow e.toNat)

/-- The exponent of the binade that holds the quotient of two positive numbers:
`2 ^ e ≤ n / d < 2 ^ (e + 1)`. -/
def binade (n d : Nat) : Int :=
  let guess : Int := (n.log2 : Int) - d.log2
  let (a, b) := scaleRatio n d guess
  if b ≤ a then guess else guess - 1

/-- The number of the format nearest to the quotient of two natural numbers, ties to the even
significand; an overflow goes to infinity. -/
def nearest (negative : Bool) (n d : Nat) : Binary64 :=
  if n = 0 then zero negative
  else
    let e := max (-1074) (binade n d - 52)
    let (a, b) := scaleRatio n d e
    let m := divNearestEven a b
    if m = twoPow 53 then pack negative (twoPow 52) (e + 1) else pack negative m e

/-- The number nearest to an integer. -/
def ofInt (n : Int) : Binary64 := nearest (decide (n < 0)) n.natAbs 1

/-- The number nearest to a quotient of an integer by a positive number. -/
def ofQuotient (n : Int) (d : Nat) : Binary64 := nearest (decide (n < 0)) n.natAbs d

/-- The number nearest to `digits * 10 ^ exponent`. Far outside the range of the format the
power of ten is not computed: the result is an infinity or a zero whatever the digits are. -/
def ofDecimal (negative : Bool) (digits : Nat) (exponent : Int) : Binary64 :=
  if digits = 0 then zero negative
  else
    let magnitude := exponent + (Nat.toDigits 10 digits).length
    if 400 < magnitude then infinite negative
    else if magnitude < -400 then zero negative
    else if exponent < 0 then nearest negative digits (tenPow (-exponent).toNat)
    else nearest negative (digits * tenPow exponent.toNat) 1

/-! ### Operations -/

/-- The number multiplied by `2 ^ k`. -/
def scale (k : Nat) : Binary64 → Binary64
  | nan => nan
  | infinite negative => infinite negative
  | finite negative m e _ =>
    let (a, b) := scaleRatio m 1 (-(e + k))
    nearest negative a b

/-- The integer nearest to a finite number, ties away from zero. -/
def roundInt? : Binary64 → Option Int
  | nan => none
  | infinite _ => none
  | finite negative m e _ =>
    let (a, b) := scaleRatio m 1 (-e)
    let r := divNearestAway a b
    some (if negative then -(r : Int) else r)

/-- The number rounded to an integer, ties away from zero; it keeps its sign when it becomes zero. -/
def round : Binary64 → Binary64
  | nan => nan
  | infinite negative => infinite negative
  | finite negative m e _ =>
    let (a, b) := scaleRatio m 1 (-e)
    nearest negative (divNearestAway a b) 1

/-- The number without its fraction as a signed word of 64 bits: the nearest word to a number that is beyond them, and
zero for what is no number. -/
def toWord : Binary64 → Int
  | nan => 0
  | infinite negative => if negative then -(twoPow 63 : Int) else (twoPow 63 : Int) - 1
  | finite negative m e _ =>
    let (a, b) := scaleRatio m 1 (-e)
    let whole : Int := (a / b : Nat)
    max (-(twoPow 63 : Int)) (min (if negative then -whole else whole) ((twoPow 63 : Int) - 1))

/-! ### Comparison -/

/-- The number `significand * 2 ^ exponent` with its sign, in units of `2 ^ least`. -/
def aligned (negative : Bool) (significand : Nat) (exponent least : Int) : Int :=
  let units : Int := (significand * twoPow (exponent - least).toNat : Nat)
  if negative then -units else units

/-- Whether a number is at most another one; what is no number is neither below nor above any. -/
def le : Binary64 → Binary64 → Bool
  | nan, _ => false
  | _, nan => false
  | infinite true, _ => true
  | infinite false, y => y = infinite false
  | finite .., infinite negative => !negative
  | finite negative m e _, finite negative' m' e' _ =>
    aligned negative m e (min e e') ≤ aligned negative' m' e' (min e e')

end Binary64

end QuantNet
