import Coscript.Grammar.Basic
import Coscript.Table.Error

/-!
# Building tables

A table is built entry by entry. An entry that is already there may be demanded again; a different
one in the same place is a conflict, and the table built so far stays as it is. Rules take slots in
the order of their first use.

* `TableBuilder.action_setAction`, `TableBuilder.goto?_setAction`: what a granted demand changes.
-/

namespace Coscript

/-- The part of a table that is built. -/
structure TableBuilder where
  rows : Array TableRow
  rules : Array Production
  /-- The slots of the productions of a grammar. -/
  slots : OrderedMap Nat Nat

namespace TableBuilder

/-- A table of empty rows whose rules are known. -/
def withRules (states : Nat) (rules : Array Production) : TableBuilder :=
  ⟨Array.replicate states .empty, rules, ∅⟩

/-- The slot of a production of a grammar, which is the next one at its first use. A number that is
no production's has no slot. -/
def slot? (g : Grammar) (b : TableBuilder) (production : Nat) : Option (TableBuilder × Nat) :=
  match b.slots.get? production with
  | some slot => some (b, slot)
  | none =>
    (g.production? production).map fun p =>
      (⟨b.rows, b.rules.push p, b.slots.insert production b.rules.size⟩, b.rules.size)

/-- A table of empty rows in which a production has slot `0`. -/
def start? (g : Grammar) (states : Nat) (production : Nat) : Option TableBuilder :=
  (slot? g (withRules states #[]) production).map Prod.fst

/-- The error of two different actions in one place. -/
def conflict (b : TableBuilder) (state : Nat) (x : Terminal) (old new : Action)
    (items : List String) : TableError :=
  let shiftReduce (slot : Nat) : TableError :=
    match b.rules[slot]? with
    | some p => .shiftReduceConflict state items x.display p.display
    | none => .undefinedRule slot
  match old, new with
  | .shift _, .reduce slot => shiftReduce slot
  | .reduce slot, .shift _ => shiftReduce slot
  | .reduce slot₁, .reduce slot₂ =>
    match b.rules[slot₁]?, b.rules[slot₂]? with
    | some p₁, some p₂ => .reduceReduceConflict state items x.display p₁.display p₂.display
    | none, _ => .undefinedRule slot₁
    | _, none => .undefinedRule slot₂
  | _, _ => .shiftShiftConflict state x.display

/-- Replaces the row of a state. -/
def setRow (b : TableBuilder) (state : Nat) (row : TableRow) : TableBuilder :=
  { b with rows := b.rows.setIfInBounds state row }

/-- Demands an action. An error action gives way to any other; `items` shows the state. -/
def setAction (b : TableBuilder) (state : Nat) (x : Terminal) (action : Action)
    (items : Unit → List String) : Except TableError TableBuilder :=
  match b.rows[state]? with
  | none => .error (.undefinedState state)
  | some row =>
    let old := (row.actions.get? x).getD .error
    if old = .error then .ok (b.setRow state ⟨row.actions.insert x action, row.gotos⟩)
    else if old = action then .ok b
    else .error (b.conflict state x old action (items ()))

/-- Demands the state that follows a reduction to a name. -/
def setGoto (b : TableBuilder) (state : Nat) (name : String) (target : Nat) :
    Except TableError TableBuilder :=
  match b.rows[state]? with
  | none => .error (.undefinedState state)
  | some row =>
    match row.gotos.get? name with
    | none => .ok (b.setRow state ⟨row.actions, row.gotos.insert name target⟩)
    | some old => if old = target then .ok b else .error (.gotoConflict state name)

/-- The finished table; the rule in slot `0` stands for whole inputs. -/
def finish (b : TableBuilder) (initial : Nat) : ParsingTable := ⟨initial, b.rows, b.rules, 0⟩

/-! ### The entries of a table being built -/

/-- The action that is entered. -/
def action (b : TableBuilder) (state : Nat) (x : Terminal) : Action := (b.finish 0).action state x

/-- The state that is entered for a name. -/
def goto? (b : TableBuilder) (state : Nat) (name : String) : Option Nat :=
  (b.finish 0).goto? state name

/-- A granted demand enters the action and changes no other entry. -/
theorem action_setAction {b b' : TableBuilder} {state : Nat} {x : Terminal} {a : Action}
    {items : Unit → List String} (h : b.setAction state x a items = .ok b') (s : Nat)
    (y : Terminal) :
    b'.action s y = if s = state ∧ y = x then a else b.action s y := by
  unfold setAction at h
  split at h
  · cases h
  · next row hrow =>
    obtain ⟨hlt, hget⟩ := Array.getElem?_eq_some_iff.mp hrow
    dsimp only at h
    split at h
    · next hold =>
      cases h
      by_cases hs : s = state
      · subst hs
        by_cases hy : y = x
        · subst hy
          simp [action, finish, setRow, ParsingTable.action, OrderedMap.get?_insert, hlt]
        · simp [action, finish, setRow, ParsingTable.action, OrderedMap.get?_insert, hlt, hget, hy,
            Ne.symm hy]
      · simp [action, finish, setRow, ParsingTable.action, hs, Ne.symm hs]
    · split at h
      · next hold hsame =>
        cases h
        split
        · next hsy =>
          obtain ⟨rfl, rfl⟩ := hsy
          simp [action, finish, ParsingTable.action, hrow, hsame]
        · rfl
      · cases h

/-- A granted demand for an action changes no state after a reduction. -/
theorem goto?_setAction {b b' : TableBuilder} {state : Nat} {x : Terminal} {a : Action}
    {items : Unit → List String} (h : b.setAction state x a items = .ok b') (s : Nat)
    (name : String) : b'.goto? s name = b.goto? s name := by
  unfold setAction at h
  split at h
  · cases h
  · next row hrow =>
    obtain ⟨hlt, hget⟩ := Array.getElem?_eq_some_iff.mp hrow
    dsimp only at h
    split at h
    · cases h
      by_cases hs : s = state
      · subst hs
        simp [goto?, finish, setRow, ParsingTable.goto?, hlt, hget]
      · simp [goto?, finish, setRow, ParsingTable.goto?, Ne.symm hs]
    · split at h
      · cases h
        rfl
      · cases h

end TableBuilder

end Coscript
