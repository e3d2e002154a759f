/-
# Columns of text

The number of columns that a character takes where every column has one width:
none for a mark on another character, two for an ideograph or an emoji, one for
most others.
-/

import GradualTyping.Text.Ranges
import GradualTyping.Text.WidthTable

namespace GradualTyping
namespace Text

/-- The columns of a character.  The Khmer sign `៘`, an abbreviation of three
signs, takes three. -/
def charWidth (c : Char) : Nat :=
  if c = '៘' then 3
  else if inStretches zeroWidthStretches c.toNat then 0
  else if inStretches wideStretches c.toNat then 2
  else 1

end Text
end GradualTyping
