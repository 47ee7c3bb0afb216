/-!
# Outcomes of checked computations

A computation of the library delivers a value, is refused for a stated cause, or leaves the
machine word it works in. The second is an answer to the user; the third is a fault of the
arithmetic, and it is kept apart so that its absence can be stated.

## The model

Counts and buffer sizes are 64-bit words, so their sums and products are checked against
`2 ^ 64`; scaled values are signed 64-bit words, accumulators signed 128-bit words. The
numbers themselves are mathematical, and a checked operation either gives the exact result
or names the operation that overflowed. The bytes of a buffer are counted in a signed 64-bit word,
so setting one aside is checked against `2 ^ 63`.

Bounds of machine words and scales of numerals are powers, which are kept under names of their own.
-/

namespace QuantNet

/-- The power `2 ^ k`. -/
def twoPow (k : Nat) : Nat := Nat.pow 2 k

/-- The power `10 ^ k`. -/
def tenPow (k : Nat) : Nat := Nat.pow 10 k

/-- The operations whose result can leave a machine word. -/
inductive Arithmetic where
  /-- A sum. -/
  | add
  /-- A difference. -/
  | subtract
  /-- A product. -/
  | multiply
  /-- The size of a buffer in bytes. -/
  | reserve
deriving DecidableEq

/-- Why a computation has no value. -/
inductive Failure (ε : Type) where
  /-- The request was refused for a cause of the domain. -/
  | refused (cause : ε)
  /-- An operation left its machine word. -/
  | overflow (operation : Arithmetic)
deriving DecidableEq

/-- A computation that delivers a value, is refused, or overflows. -/
abbrev Checked (ε α : Type) := Except (Failure ε) α

/-- The text shown for an overflow. -/
def Arithmetic.overflowMessage : Arithmetic → String
  | add => "attempt to add with overflow"
  | subtract => "attempt to subtract with overflow"
  | multiply => "attempt to multiply with overflow"
  | reserve => "capacity overflow"

namespace Failure

/-- A failure with its cause seen from a larger domain. -/
def map {ε δ : Type} (f : ε → δ) : Failure ε → Failure δ
  | .refused cause => .refused (f cause)
  | .overflow operation => .overflow operation

/-- The text shown for a failure, given the text of its causes. -/
def message {ε : Type} (text : ε → String) : Failure ε → String
  | .refused cause => text cause
  | .overflow operation => operation.overflowMessage

end Failure

namespace Checked

/-- Refuse for the given cause. -/
def refuse {ε α : Type} (cause : ε) : Checked ε α := .error (.refused cause)

/-- A computation that cannot overflow, as a checked one, with its cause seen from a larger domain. -/
def lift {ε δ α : Type} (f : ε → δ) : Except ε α → Checked δ α
  | .ok a => .ok a
  | .error cause => .error (.refused (f cause))

/-- A checked computation with its causes seen from a larger domain. -/
def within {ε δ α : Type} (f : ε → δ) : Checked ε α → Checked δ α
  | .ok a => .ok a
  | .error failure => .error (failure.map f)

/-- The sum of two counts. -/
def sizeAdd {ε : Type} (a b : Nat) : Checked ε Nat :=
  if a + b < twoPow 64 then .ok (a + b) else .error (.overflow .add)

/-- The product of two counts. -/
def sizeMul {ε : Type} (a b : Nat) : Checked ε Nat :=
  if a * b < twoPow 64 then .ok (a * b) else .error (.overflow .multiply)

/-- Room for a count of 64-bit words. -/
def reserve {ε : Type} (count : Nat) : Checked ε Unit :=
  if 8 * count < twoPow 63 then .ok () else .error (.overflow .reserve)

/-- An integer that fits a signed word of the given width. -/
def FitsSigned (width : Nat) (n : Int) : Prop := -(twoPow (width - 1) : Int) ≤ n ∧ n < twoPow (width - 1)

instance (width : Nat) (n : Int) : Decidable (FitsSigned width n) :=
  inferInstanceAs (Decidable (_ ∧ _))

/-- The sum of two signed words of the given width. -/
def signedAdd {ε : Type} (width : Nat) (a b : Int) : Checked ε Int :=
  if FitsSigned width (a + b) then .ok (a + b) else .error (.overflow .add)

/-- The product of two signed words of the given width. -/
def signedMul {ε : Type} (width : Nat) (a b : Int) : Checked ε Int :=
  if FitsSigned width (a * b) then .ok (a * b) else .error (.overflow .multiply)

end Checked

end QuantNet
