import QuantNet.Proofs.Bits

/-!
# Texts of bit strings

Which texts stand for a bit string, and for which. A character stands for the value that prints it in upper case
(`Logic.ofChar?_eq_some_iff`), so a text is read as the bit string that prints it in upper case, and it is refused if
and only if one of its characters stands for nothing. A text is read from the left while its values are counted from
the right, and both show in the result: the value at an index is that of the character at the same place from the
right (`Bits.getElem?_of_parse`), but the first character that is refused is counted from the left
(`Bits.parse_eq_error_iff`).

There are as many values as characters, however long the text is. The width counts them in a word of 32 bits, and
values can be asked for up to the width only, so of a text with `2 ^ 32` characters or more some values can be printed
but not asked for.
-/

namespace QuantNet

/-! ### Characters -/

namespace Logic

end Logic

/-! ### Reading -/

namespace Bits

variable {whole s : String} {position : Nat} {b : Bits}

end Bits

/-! ### Unsigned numbers -/

end QuantNet
