import Coscript.Automaton.Closure

/-!
# Canonical collections

The states of an automaton are the closed sets of items that can be reached from the closure of the
start item. From a state, each symbol after a dot leads to the closure of the items that have the
symbol after their dot, with their dots moved over it. States are numbered in the order in which
they are discovered; the closure of the start item is state `0`.
-/

namespace Coscript

/-- The target state of each symbol. -/
abbrev GotoRow := OrderedMap Symbol Nat

/-- The states discovered so far, and the rows of the first of them. -/
structure Exploration (L : Type) [DecidableEq L] [Hashable L] where
  cache : ClosureCache L
  states : Numbering IdSet
  rows : Array GotoRow

/-- The reachable states, their items and their transitions. -/
structure Collection (L : Type) [DecidableEq L] [Hashable L] where
  items : Numbering (Item L)
  states : Numbering IdSet
  rows : Array GotoRow
  /-- How many closures of single items were computed. -/
  memoized : Nat

namespace Exploration

variable {L : Type} [DecidableEq L] [Hashable L]

/-- The items of a state with their dots moved on, grouped by the symbol moved over. -/
def kernels (g : Grammar) (c : ClosureCache L) (state : IdSet) :
    ClosureCache L × OrderedMap Symbol IdSet :=
  state.toList.foldl
    (fun (c, ks) n =>
      match c.items.get? n with
      | none => (c, ks)
      | some i =>
        match i.next? g with
        | none => (c, ks)
        | some x =>
          let (c, m) := c.store i.advance
          (c, ks.insert x (((ks.get? x).getD ∅).insert m)))
    (c, ∅)

/-- Finds the targets of a state's kernels, numbering new states. -/
def targets (d : Discipline L) (g : Grammar) (s : FirstFollow) (e : Exploration L)
    (ks : List (Symbol × IdSet)) : Exploration L × GotoRow :=
  ks.foldl
    (fun (e, row) (x, kernel) =>
      let (cache, target) := e.cache.closure d g s kernel
      let (states, n) := e.states.insert target
      ({ e with cache := cache, states := states }, row.insert x n))
    (e, ∅)

/-- Adds the row of the first state that has none yet. -/
def step (d : Discipline L) (g : Grammar) (s : FirstFollow) (e : Exploration L) : Exploration L :=
  match e.states.get? e.rows.size with
  | none => e
  | some state =>
    let (cache, ks) := kernels g e.cache state
    let (e, row) := targets d g s { e with cache := cache } ks.entries
    { e with rows := e.rows.push row }

/-- Adds rows until every state has one, at most `fuel` of them. -/
def run (d : Discipline L) (g : Grammar) (s : FirstFollow) : Nat → Exploration L → Exploration L
  | 0, e => e
  | fuel + 1, e => if e.rows.size < e.states.size then run d g s fuel (e.step d g s) else e

/-- The closure of the start item, and no rows. -/
def start (d : Discipline L) (g : Grammar) (s : FirstFollow) (production : Nat) : Exploration L :=
  let (cache, n) := ClosureCache.empty.store (d.startItem production)
  let (cache, closure) := cache.closureOf d g s n
  ⟨cache, (Numbering.empty.insert closure).1, #[]⟩

end Exploration

namespace Collection

variable {L : Type} [DecidableEq L] [Hashable L]

/-- The collection of an automaton that starts with a production. States are sets of items, which
bounds their number. -/
def build (d : Discipline L) (g : Grammar) (s : FirstFollow) (production : Nat) : Collection L :=
  let e := Exploration.run d g s (Nat.pow 2 (d.itemBound g)) (.start d g s production)
  ⟨e.cache.items, e.states, e.rows, e.cache.memoized⟩

/-- The number of states. -/
def size (c : Collection L) : Nat := c.states.size

/-- The items of a state, in the order of their numbers. -/
def itemsOf (c : Collection L) (state : Nat) : List (Item L) :=
  match c.states.get? state with
  | some s => s.toList.filterMap c.items.get?
  | none => []

/-- The transitions of a state. -/
def row (c : Collection L) (state : Nat) : GotoRow := (c.rows[state]?).getD ∅

/-- The items of a state without lookaheads, by production and dot. -/
def core (c : Collection L) (state : Nat) : List (Item Unit) :=
  (c.itemsOf state).foldr (fun i cores => Item.place i.core cores) []

/-- The texts of a state's items in alphabetical order. -/
def itemTexts (d : Discipline L) (g : Grammar) (c : Collection L) (state : Nat) : List String :=
  ((c.itemsOf state).filterMap (d.display? g)).mergeSort fun a b => decide (a ≤ b)

/-- The text of one state. -/
def displayState (d : Discipline L) (g : Grammar) (c : Collection L) (state : Nat) : String :=
  s!"State {state}\n" ++
    String.join ((c.itemTexts d g state).map fun i => s!"  {i}\n") ++
    String.join ((c.row state).entries.map fun (x, n) => s!"  {x.display} => {n}\n") ++ "\n"

/-- The text of every state with its items and transitions. -/
def display (d : Discipline L) (g : Grammar) (c : Collection L) : String :=
  String.join ((List.range c.size).map (c.displayState d g))

/-- What is logged about a collection. -/
def logEntry (c : Collection L) : LogEntry :=
  ⟨.debug, s!"canonical collection: {c.size} states, {c.items.size} items, " ++
    s!"{c.memoized} memoized closures"⟩

end Collection

end Coscript
