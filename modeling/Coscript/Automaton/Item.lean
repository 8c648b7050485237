import Coscript.Analysis.FirstFollow

/-!
# Items

An item is a production with a dot in its body, which tells how much of the body has been seen,
and a lookahead. What a lookahead is depends on the **discipline** of the automaton: items without
lookaheads carry the unit, items with one terminal of lookahead carry its number.

A discipline says which lookaheads the items have that an item implies, on which terminals a
complete item reduces, and how a lookahead is written.
-/

namespace Coscript

/-- A production with a dot before the symbol number `dot` of its body. -/
structure Item (L : Type) where
  production : Nat
  dot : Nat
  lookahead : L
  deriving Repr, DecidableEq

namespace Item

variable {L : Type}

instance [Hashable L] : Hashable (Item L) where
  hash i := .ofNat (((i.production * 64 + i.dot) * 1024) + (hash i.lookahead).toNat)

/-- The item with its dot moved over one symbol. -/
def advance (i : Item L) : Item L := { i with dot := i.dot + 1 }

/-- The item without its lookahead. -/
def core (i : Item L) : Item Unit := ⟨i.production, i.dot, ()⟩

/-- The symbol after the dot; a complete item has none. -/
def next? (i : Item L) (g : Grammar) : Option Symbol :=
  (g.production? i.production).bind fun p => p.body[i.dot]?

/-- The symbols behind the one after the dot. -/
def rest (i : Item L) (g : Grammar) : List Symbol :=
  ((g.production? i.production).map fun p => p.body.drop (i.dot + 1)).getD []

instance : Hashable (List (Item Unit)) where
  hash is := .ofNat (is.foldl (fun h i => (h * 31 + i.production * 64 + i.dot + 1) % 0x100000000) 7)

/-- The order of items without lookaheads: by production, then by dot. -/
def precedes (i j : Item Unit) : Bool :=
  i.production < j.production || (i.production == j.production && i.dot ≤ j.dot)

/-- Puts an item without lookahead in its place in an ordered list, unless it is there already. -/
def place (i : Item Unit) : List (Item Unit) → List (Item Unit)
  | [] => [i]
  | j :: js => if i = j then j :: js else if precedes i j then i :: j :: js else j :: place i js

@[simp] theorem mem_place {i j : Item Unit} {js : List (Item Unit)} :
    i ∈ place j js ↔ i = j ∨ i ∈ js := by
  induction js with
  | nil => simp [place]
  | cons k ks ih =>
    unfold place
    split
    · next h => simp [h]
    · split
      · simp
      · simp only [List.mem_cons, ih]
        exact or_left_comm

/-- The text of a production with the dot in it. A dot behind the end of the body is not shown. -/
def displayCore (i : Item L) (p : Production) : String :=
  let symbols := p.body.map Symbol.display
  let shown :=
    if i.dot ≤ symbols.length then symbols.take i.dot ++ "." :: symbols.drop i.dot else symbols
  s!"{p.name} ->" ++ String.join (shown.map (" " ++ ·))

end Item

/-- What distinguishes one kind of automaton from another. -/
structure Discipline (L : Type) where
  /-- The lookahead of the start item. -/
  start : L
  /-- The lookaheads of the items that an item implies. -/
  spread : Grammar → FirstFollow → Item L → List L
  /-- The numbers of the terminals that a complete item reduces on. -/
  reduceOn : Grammar → FirstFollow → Item L → List Nat
  /-- How a lookahead is written after its item. -/
  suffix? : Grammar → L → Option String
  /-- A bound for the number of lookaheads of the items that an item implies, taken together. -/
  breadth : Grammar → Nat

namespace Discipline

/-- Items without lookaheads. A complete item reduces on what may follow its name. -/
def plain : Discipline Unit where
  start := ()
  spread _ _ _ := [()]
  reduceOn g s i :=
    match g.production? i.production with
    | some p => (s.follow.of p.name).toList
    | none => []
  suffix? _ _ := some ""
  breadth _ := 1

/-- The lookaheads of the items implied by one with a terminal of lookahead: what may begin the
symbols behind the name after the dot, and the item's own lookahead if these can vanish. -/
def lookaheadsBehind (g : Grammar) (s : FirstFollow) (i : Item Nat) : IdSet :=
  let l := g.leading s.first (i.rest g)
  if l.ending = .vanishes then l.terminals.insert i.lookahead else l.terminals

/-- Items with one terminal of lookahead. A complete item reduces on its lookahead. -/
def canonical : Discipline Nat where
  start := Grammar.endOfInput
  spread g s i := (lookaheadsBehind g s i).toList
  reduceOn _ _ i := [i.lookahead]
  suffix? g n := (g.terminal? n).map fun t => s!", {t.display}"
  breadth g := g.terminals.size + 1

variable {L : Type}

/-- The item that the automaton starts with. -/
def startItem (d : Discipline L) (production : Nat) : Item L := ⟨production, 0, d.start⟩

/-- The items that an item implies: the beginnings of the productions of the name after its dot. -/
def implied (d : Discipline L) (g : Grammar) (s : FirstFollow) (i : Item L) : List (Item L) :=
  match i.next? g with
  | some (.nonTerminal a) =>
    let lookaheads := d.spread g s i
    (g.productionsOf a).flatMap fun p => lookaheads.map fun l => ⟨p, 0, l⟩
  | _ => []

/-- The text of an item whose production and lookahead the grammar knows. -/
def display? (d : Discipline L) (g : Grammar) (i : Item L) : Option String := do
  let p ← g.production? i.production
  let suffix ← d.suffix? g i.lookahead
  return i.displayCore p ++ suffix

/-- A bound for the number of items. -/
def itemBound (d : Discipline L) (g : Grammar) : Nat :=
  g.productions.toList.foldl (fun n p => n + p.body.length + 1) 0 * d.breadth g

end Discipline

end Coscript
