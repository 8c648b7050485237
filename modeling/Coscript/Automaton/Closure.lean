import Coscript.Automaton.Item

/-!
# Closures

The closure of a set of items holds these items and whatever they imply. Items are numbered in the
order in which they come up, so that a closure is a set of numbers, and the closure of every single
item is computed once and kept.

The search for a closure keeps the numbers found so far and those among them whose implied items
have not been added yet. The number found last is taken up first.
-/

namespace Coscript

/-- The state of a search for a closure. -/
structure Search (L : Type) [DecidableEq L] [Hashable L] where
  items : Numbering (Item L)
  found : IdSet
  /-- Found numbers whose implied items are still to be added; the next one first. -/
  pending : List Nat

namespace Search

variable {L : Type} [DecidableEq L] [Hashable L]

/-- Adds an item to what is found. -/
def add (w : Search L) (i : Item L) : Search L :=
  let (items, n) := w.items.insert i
  if n ∈ w.found then { w with items := items }
  else ⟨items, w.found.insert n, n :: w.pending⟩

/-- Takes up the next number. -/
def step (d : Discipline L) (g : Grammar) (s : FirstFollow) (w : Search L) : Search L :=
  match w.pending with
  | [] => w
  | n :: rest =>
    match w.items.get? n with
    | none => { w with pending := rest }
    | some i => (d.implied g s i).foldl add { w with pending := rest }

/-- Takes up numbers until none are left, at most `fuel` of them. -/
def run (d : Discipline L) (g : Grammar) (s : FirstFollow) : Nat → Search L → Search L
  | 0, w => w
  | fuel + 1, w => if w.pending.isEmpty then w else run d g s fuel (w.step d g s)

end Search

/-- The numbered items, and the closures of single items that are already known. -/
structure ClosureCache (L : Type) [DecidableEq L] [Hashable L] where
  items : Numbering (Item L)
  known : Std.TreeMap Nat IdSet

namespace ClosureCache

variable {L : Type} [DecidableEq L] [Hashable L]

/-- No items and no closures. -/
def empty : ClosureCache L := ⟨.empty, ∅⟩

/-- Numbers an item. -/
def store (c : ClosureCache L) (i : Item L) : ClosureCache L × Nat :=
  let (items, n) := c.items.insert i
  ({ c with items := items }, n)

/-- How many closures are known. -/
def memoized (c : ClosureCache L) : Nat := c.known.size

/-- A bound for the number of items in the closure of one item: besides the item itself there are
only beginnings of productions. -/
def closureBound (d : Discipline L) (g : Grammar) : Nat :=
  g.productions.size * d.breadth g + 1

/-- The closure of the item with a number. -/
def closureOf (d : Discipline L) (g : Grammar) (s : FirstFollow) (c : ClosureCache L) (n : Nat) :
    ClosureCache L × IdSet :=
  match c.known[n]? with
  | some closure => (c, closure)
  | none =>
    let w := Search.run d g s (closureBound d g) ⟨c.items, IdSet.insert ∅ n, [n]⟩
    (⟨w.items, c.known.insert n w.found⟩, w.found)

/-- The closure of the items with the given numbers, which is the union of their closures. -/
def closure (d : Discipline L) (g : Grammar) (s : FirstFollow) (c : ClosureCache L)
    (kernel : IdSet) : ClosureCache L × IdSet :=
  kernel.toList.foldl
    (fun (c, found) n =>
      let (c, more) := closureOf d g s c n
      (c, found.union more))
    (c, ∅)

end ClosureCache

end Coscript
