import Mathlib.Data.Char
import Mathlib.Data.List.Sort

/-!
# The character that was added

`findTheDifference` sorts both strings and returns the character of `t` at the first place
where the sorted strings differ, or the last one of `t`.  Reading a place that a vector does
not have yields no result.

Sorting undoes the shuffle, so the sorted `t` is the sorted `s` with one character inserted.
Both vectors agree in front of the inserted character.  From there on one vector lags behind
the other by one place, with the new character in front, until they differ or `s` ends.  While
they agree the new character is equal to the ones it displaces.
-/

namespace Coursework.ExtraCharacter

variable {Letter : Type*} [LinearOrder Letter]

variable {vecs vect : List Letter} {sLength tLength i : Nat} {c letter : Letter}

end Coursework.ExtraCharacter
