import QuantNet.Binary64.Basic

/-!
# Shortest decimal digits

The fewest decimal digits that identify a floating-point number, and the two ways in which
numbers are written with them.

## The model

A positive number `m * 2 ^ e` owns the reals that round to it: those between the midpoints to
its two neighbours, the midpoints themselves when `m` is even. Among the decimals with one,
two, ... digits the first grid with a point in that interval is taken, and of two points the
nearer; an exact tie is settled by the style of the text. All comparisons are between natural
numbers.
-/

namespace QuantNet.Binary64

/-- The digits `d` and the power of ten `p` of a decimal `d * 10 ^ p`. -/
structure Decimal where
  /-- The digits, as one number. -/
  digits : Nat
  /-- The power of ten. -/
  power : Int
deriving DecidableEq

/-- Which of two equally near decimals is taken. -/
inductive Tie where
  /-- The larger. -/
  | up
  /-- The one with the even last digit. -/
  | even
deriving DecidableEq

/-- The reals that round to a number, as natural multiples of a common unit `2 ^ unit`. -/
structure Interval where
  /-- The lower midpoint. -/
  low : Nat
  /-- The number itself. -/
  value : Nat
  /-- The upper midpoint. -/
  high : Nat
  /-- Whether the midpoints belong to it. -/
  closed : Bool
  /-- The exponent of the unit. -/
  unit : Int
deriving DecidableEq

/-- The interval of a positive number: the number below a power of two is half as far away,
except at the smallest exponent. -/
def Interval.of (m : Nat) (e : Int) : Interval where
  low := if m = twoPow 52 ∧ e ≠ -1074 then 4 * m - 1 else 4 * m - 2
  value := 4 * m
  high := 4 * m + 2
  closed := m % 2 == 0
  unit := e - 2

/-- The number of units in a decimal `d * 10 ^ p`, as a quotient. -/
def unitsOf (i : Interval) (d : Nat) (p : Int) : Nat × Nat :=
  let top := if 0 ≤ p then d * tenPow p.toNat else d
  let bottom := if 0 ≤ p then 1 else tenPow (-p).toNat
  scaleRatio top bottom i.unit

/-- Whether a decimal lies in the interval. -/
def Interval.holds (i : Interval) (d : Nat) (p : Int) : Bool :=
  let (a, b) := unitsOf i d p
  if i.closed then i.low * b ≤ a && a ≤ i.high * b else i.low * b < a && a < i.high * b

/-- The number of the interval in units of `10 ^ p`, rounded down. -/
def Interval.floorAt (i : Interval) (p : Int) : Nat :=
  let (a, b) := unitsOf i 1 p
  i.value * b / a

/-- Whether the upper of two neighbouring decimals is taken, `d` being the lower. -/
def Interval.prefersUpper (i : Interval) (tie : Tie) (d : Nat) (p : Int) : Bool :=
  let (a, b) := unitsOf i (2 * d + 1) p
  let middle := 2 * i.value * b
  if a < middle then true
  else if middle < a then false
  else match tie with
    | .up => true
    | .even => d % 2 == 1

/-- The decimal of the interval on the grid of step `10 ^ p`, if there is one. -/
def Interval.onGrid? (i : Interval) (tie : Tie) (p : Int) : Option Nat :=
  let d := i.floorAt p
  let lower := 0 < d && i.holds d p
  let upper := i.holds (d + 1) p
  if lower && upper then some (if i.prefersUpper tie d p then d + 1 else d)
  else if lower then some d
  else if upper then some (d + 1)
  else none

/-- The first decimal found on grids of ever smaller step, at most `fuel` of them. -/
def Interval.search (i : Interval) (tie : Tie) : (fuel : Nat) → (p : Int) → Option Decimal
  | 0, _ => none
  | fuel + 1, p =>
    match i.onGrid? tie p with
    | some d => some ⟨d, p⟩
    | none => i.search tie fuel (p - 1)

/-- The decimal without its trailing zeros. -/
def Decimal.normal (x : Decimal) : Decimal :=
  if h : x.digits ≠ 0 ∧ x.digits % 10 = 0 then normal ⟨x.digits / 10, x.power + 1⟩ else x
termination_by x.digits
decreasing_by omega

/-- The power of ten just above a positive number `m * 2 ^ e`, or one above it. -/
def powerAbove (m : Nat) (e : Int) : Int :=
  -- 0.30103 is a little more than the decimal logarithm of two
  ((m.log2 : Int) + 1 + e) * 30103 / 100000 + 1

/-- The shortest decimal that rounds to a positive number. Seventeen digits always suffice, and
the search starts at most two grids above the first digit. -/
def shortest (tie : Tie) (m : Nat) (e : Int) : Decimal :=
  match (Interval.of m e).search tie 24 (powerAbove m e) with
  | some x => x.normal
  | none => ⟨m, e⟩

/-- The decimal digits of a natural number. -/
def digitText (n : Nat) : List Char := Nat.toDigits 10 n

/-- The sign in front of a number. -/
def signText (negative : Bool) : String := if negative then "-" else ""

/-! ### Plain texts -/

/-- A positive decimal in positional form without an exponent and without a needless point. -/
def Decimal.plain (x : Decimal) : String :=
  let ds := digitText x.digits
  if 0 ≤ x.power then String.ofList (ds ++ List.replicate x.power.toNat '0')
  else
    let places := (-x.power).toNat
    if places < ds.length then
      String.ofList (ds.take (ds.length - places) ++ '.' :: ds.drop (ds.length - places))
    else String.ofList ('0' :: '.' :: List.replicate (places - ds.length) '0' ++ ds)

/-- The number in messages and reports: the shortest digits, always positional. -/
def text : Binary64 → String
  | nan => "NaN"
  | infinite negative => signText negative ++ "inf"
  | finite negative m e _ =>
    signText negative ++ (if m = 0 then "0" else (shortest .up m e).plain)

/-! ### Data texts -/

/-- A positive decimal with a point always: positional from `10 ^ (-5)` up to `10 ^ 16`, else
one digit before the point and a signed exponent. -/
def Decimal.data (x : Decimal) : String :=
  let ds := digitText x.digits
  let point := x.power + ds.length
  if -5 < point ∧ point ≤ 16 then
    if 0 ≤ x.power then x.plain ++ ".0" else x.plain
  else
    let head := String.ofList (ds.take 1)
    let tail := ds.drop 1
    let fraction := if tail.isEmpty then "" else "." ++ String.ofList tail
    let exponent := point - 1
    head ++ fraction ++ "e" ++ (if exponent < 0 then "-" else "+") ++
      String.ofList (digitText exponent.natAbs)

/-- The number as a data item; a value that is no finite number has no numeral. -/
def dataText : Binary64 → String
  | nan => "null"
  | infinite _ => "null"
  | finite negative m e _ =>
    signText negative ++ (if m = 0 then "0.0" else (shortest .even m e).data)

end QuantNet.Binary64
