import Coscript.Text.CharClass

/-!
# Lines and their parts

Texts as lists of characters: the lines of a text, a text without the white space around it, and
the two sides of an arrow.
-/

namespace Coscript.Line

/-- The lines of a text. A line ends with a line feed, which may follow a carriage return; the
ends are dropped, and nothing after the last line end is no line. -/
def all : List Char → List (List Char)
  | [] => []
  | '\r' :: '\n' :: cs => [] :: all cs
  | c :: cs =>
    if c = '\n' then [] :: all cs
    else match all cs with
      | [] => [[c]]
      | l :: ls => (c :: l) :: ls

/-- A text without white space at its end. -/
def trimEnd (cs : List Char) : List Char :=
  (cs.reverse.dropWhile CharClass.isWhite).reverse

/-- A text without white space at either end. -/
def trim (cs : List Char) : List Char :=
  trimEnd (cs.dropWhile CharClass.isWhite)

/-- What follows a given beginning. -/
def after? : List Char → List Char → Option (List Char)
  | [], cs => some cs
  | _ :: _, [] => none
  | p :: ps, c :: cs => if p = c then after? ps cs else none

/-- The texts before and after the first arrow `->`. -/
def splitArrow? : List Char → Option (List Char × List Char)
  | [] => none
  | '-' :: '>' :: cs => some ([], cs)
  | c :: cs => (splitArrow? cs).map fun (l, r) => (c :: l, r)

end Coscript.Line
