import Coscript.Log
import Coscript.Script.Grammar
import Coscript.Table.Encoding

/-!
# The table that scripts are parsed with

The table is constructed from the grammar of the language, or read from bytes that were stored
before.
-/

namespace Coscript

/-- Why there is no table. -/
inductive SetupError
  | grammar (e : GrammarError)
  | table (e : TableError)
  | decode (e : DecodeError)
  deriving Repr, DecidableEq

/-- The text of an error. -/
def SetupError.message : SetupError → String
  | grammar e => e.message
  | table e => e.message
  | decode e => s!"invalid cached table: {e.message}"

namespace Script

/-- The table of a grammar, if there is a grammar, by a strategy. -/
def constructTableOf (strategy : Strategy) (j : Journal) :
    Except GrammarError Grammar → Journal × Except SetupError ParsingTable
  | .error e => (j, .error (.grammar e))
  | .ok g =>
    let construction := strategy.construct g
    ((j.noteAll [g.logEntry]).noteAll construction.log,
      construction.outcome.mapError SetupError.table)

/-- The table of the language by a strategy. -/
def constructTable (strategy : Strategy) (j : Journal) :
    Journal × Except SetupError ParsingTable :=
  constructTableOf strategy j grammar

/-- The table in some bytes, or else the one that is constructed by a strategy. -/
def table (strategy : Strategy) (stored? : Option (List UInt8)) (j : Journal) :
    Journal × Except SetupError ParsingTable :=
  let (j, outcome) := match stored? with
    | some bytes => (j, (ParsingTable.decode bytes).mapError SetupError.decode)
    | none => constructTable strategy j
  match outcome with
  | .error e => (j, .error e)
  | .ok t => (j.note .debug fun _ => s!"parsing table has {t.size} states", .ok t)

end Script

end Coscript
