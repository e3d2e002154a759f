/-
# Sets of characters

A set of characters is given by the lengths of the stretches of code points outside
and inside it, in turn, from the first code point on.
-/

namespace GradualTyping
namespace Text

/-- Whether the code point `n` lies in the set with the given stretches. -/
def inStretches : (lengths : List Nat) → (n : Nat) → Bool
  | outside :: inside :: rest, n =>
    if n < outside then false
    else if n < outside + inside then true
    else inStretches rest (n - (outside + inside))
  | _, _ => false

end Text
end GradualTyping
