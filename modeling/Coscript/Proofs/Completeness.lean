import Coscript.Proofs.Parsing

/-!
# Every sentence is parsed

Whatever strategy a table was built with, parsing a sentence of the grammar ends with a tree. The
tables of all three strategies cover their items, so that the parser runs along any derivation tree
of the sentence until it accepts.

* `Strategy.parse_derivation`: parsing the word of a derivation tree ends with a tree.
-/

namespace Coscript

namespace Strategy

variable {g : Grammar} {t : ParsingTable}

/-- **Parsing the word of a derivation tree ends with a tree**, in at most as many steps as the
derivation tree is large. The grammar may have nullable and recursive names, also a recursive start
symbol; only tokens of one type may not be asked for both with any text and with a given text. -/
theorem parse_derivation {strategy : Strategy} (hg : g.Unmixed) (h : strategy.build g = .ok t)
    {T : Tree} (hT : g.Derives (.nonTerminal g.start) T) :
    ∃ tree, ∀ fuel, T.size ≤ fuel → t.parse fuel T.word = some (.ok tree) := by
  obtain ⟨production, hp, hbuilt⟩ := built h
  obtain ⟨I, hcovers⟩ := hbuilt.covers hp
  obtain ⟨k, tree, hend, hk, -⟩ := hcovers.accepts hg hp hT
  exact ⟨tree, fun fuel hfuel => Configuration.run_mono hend.2 (hk.trans hfuel)⟩

end Strategy

/-! ### Lists of identifiers -/

/-- A list is empty or a list with one identifier more. -/
def identifierListRules : Array Production :=
  #[⟨"Input", [.nonTerminal "List"]⟩, ⟨"List", []⟩,
    ⟨"List", [.nonTerminal "List", .terminal (.any .identifier)]⟩]

/-- The grammar of lists of identifiers. -/
def identifierLists : Grammar :=
  ⟨"Input", identifierListRules, Grammar.indexOf identifierListRules,
    Grammar.terminalsOf identifierListRules, rfl, rfl, by decide +kernel, by decide +kernel⟩

/-- A list of one identifier has a tree by the merged table. -/
theorem Strategy.parse_derivation_identifierLists : ∃ t T, identifierLists.Unmixed ∧
    merged.build identifierLists = .ok t ∧
    identifierLists.Derives (.nonTerminal identifierLists.start) T ∧
    T.word = [⟨.identifier, "x", .start⟩] ∧
    ∃ tree, ∀ fuel, T.size ≤ fuel → t.parse fuel T.word = some (.ok tree) := by
  have hg : identifierLists.Unmixed := by decide +kernel
  have hok : (merged.build identifierLists).isOk = true := by decide +kernel
  cases h : merged.build identifierLists with
  | error e =>
    rw [h] at hok
    cases hok
  | ok t =>
    have hempty : identifierLists.Derives (.nonTerminal "List") (.node "List" []) :=
      .node (i := 1) (p := ⟨"List", []⟩) rfl .nil
    have hone : identifierLists.Derives (.nonTerminal "List")
        (.node "List" [.node "List" [], .leaf ⟨.identifier, "x", .start⟩]) :=
      .node (i := 2) (p := ⟨"List", [.nonTerminal "List", .terminal (.any .identifier)]⟩) rfl
        (.cons hempty (.cons (.leaf rfl) .nil))
    have hT : identifierLists.Derives (.nonTerminal identifierLists.start)
        (.node "Input" [.node "List" [.node "List" [], .leaf ⟨.identifier, "x", .start⟩]]) :=
      .node (i := 0) (p := ⟨"Input", [.nonTerminal "List"]⟩) rfl (.cons hone .nil)
    exact ⟨t, _, hg, rfl, hT, rfl, parse_derivation hg h hT⟩

end Coscript
