import Coscript.Text.CharRanges

/-!
# Character classes

The classes of characters that lexers, grammar documents and quoted texts tell apart.
-/

namespace Coscript.CharClass

/-- White space may stand between tokens and around the parts of a line. -/
def isWhite (c : Char) : Bool := CharRanges.covers CharRanges.whiteSpace c.toNat

/-- Letters in the wide sense: a name may start with one. -/
def isAlphabetic (c : Char) : Bool := CharRanges.covers CharRanges.alphabetic c.toNat

/-- Digits and other number characters of every script. -/
def isNumeric (c : Char) : Bool := CharRanges.covers CharRanges.numeric c.toNat

/-- What may follow inside a name. -/
def isAlphanumeric (c : Char) : Bool := isAlphabetic c || isNumeric c

/-- The ten digits that number literals are made of. -/
def isDigit (c : Char) : Bool := '0' ≤ c && c ≤ '9'

/-- Whether a character stands for itself in a quoted text: it is visible and does not merge with
the character before it. -/
def isPlain (c : Char) : Bool :=
  !CharRanges.covers CharRanges.unprintable c.toNat &&
    !CharRanges.covers CharRanges.combining c.toNat

end Coscript.CharClass
