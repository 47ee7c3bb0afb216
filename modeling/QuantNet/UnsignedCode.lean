import QuantNet.QFormat

/-!
# Unsigned codes

Natural numbers of a fixed width in the auxiliary fields of a report.
-/

namespace QuantNet

/-- A code for natural numbers with a fixed number of bits. -/
structure UnsignedCode where
  /-- The number of bits. -/
  width : Nat
deriving DecidableEq

namespace UnsignedCode

/-- The code of the batch index in a report line. -/
def batchIndex : UnsignedCode := ⟨8⟩

/-- The greatest number of the code; numbers are 64-bit words. -/
def maxNat (c : UnsignedCode) : Nat := twoPow (min c.width 64) - 1

/-- The bit string of a number. -/
def encode (c : UnsignedCode) (n : Nat) : Except QError Bits :=
  if n ≤ c.maxNat then .ok (.ofNat n c.width)
  else .error (.outOfRange (.ofInt n) (.ofInt n) 0 (min c.maxNat (twoPow 63 - 1) : Nat))

/-- The number of a bit string. -/
def decode (c : UnsignedCode) (b : Bits) : Except QError Nat :=
  if b.width = c.width then b.toNat.mapError .invalidBits
  else .error (.widthMismatch c.width b.width b.text)

/-- The number a text of a bit string means; blanks around it do not count. -/
def decodeText (c : UnsignedCode) (s : String) : Except QError Nat := do
  c.decode (← (Bits.parse (Text.trim s)).mapError .invalidBits)

end UnsignedCode

end QuantNet
