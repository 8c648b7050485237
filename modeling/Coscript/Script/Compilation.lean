import Coscript.Log
import Coscript.Parse.Configuration
import Coscript.Script.Elaboration
import Coscript.Script.Generation

/-!
# Compiling scripts

A script is cut into tokens, parsed, and compiled declaration by declaration: each function on its
own, and the statements outside of functions, in their order, as the initializer of the file. The
first fault ends the compilation.

* `compile`: the compiled file of a source text.
-/

namespace Coscript.Script

/-- What has been compiled of a file. -/
structure Draft where
  functions : OrderedMap String Function
  /-- The statements outside of functions, the latest first. -/
  statements : List Statement

namespace Draft

/-- Nothing compiled. -/
def empty : Draft := ⟨∅, []⟩

/-- Adds a compiled function, whose name must be new. -/
def addFunction (d : Draft) (f : Function) (line : Nat) : Except CompileError Draft :=
  if d.functions.contains f.name then .error (.duplicateFunction f.name line)
  else .ok { d with functions := d.functions.insert f.name f }

/-- Compiles the declarations that trees mean. -/
def addAll (o : Operators) (file : String) :
    List Tree → Journal → Draft → Journal × Except CompileError Draft
  | [], j, d => (j, .ok d)
  | t :: ts, j, d =>
    match Elaboration.declaration o t with
    | .error e => (j, .error e)
    | .ok (.statement s) => addAll o file ts j { d with statements := s :: d.statements }
    | .ok (.function f) =>
      let j := j.note .debug fun _ => s!"compiled {file}::{f.name}"
      match d.addFunction (f.function file) f.line with
      | .error e => (j, .error e)
      | .ok d => addAll o file ts j d

/-- The file with what has been compiled. -/
def finish (d : Draft) (file : String) : CompiledFile :=
  ⟨file, d.functions,
    functionOfBody Function.initializerName file [] d.statements.reverse⟩

end Draft

/-- The compiled file that a parse tree means. -/
def compileTree (o : Operators) (file : String) (tree : Tree) (j : Journal) :
    Journal × Except CompileError CompiledFile :=
  match Elaboration.declarations tree with
  | .error e => (j, .error e)
  | .ok ts =>
    let (j, outcome) := Draft.addAll o file ts j .empty
    (j, outcome.map fun d => d.finish file)

/-- The compiled file of a source text, if the parser is done within `fuel` steps. -/
def compile (fuel : Nat) (t : ParsingTable) (o : Operators) (file source : String) (j : Journal) :
    Option (Journal × Except CompileError CompiledFile) :=
  match Lexer.tokenize .script source with
  | .error e => some (j, .error (.lexical e))
  | .ok tokens =>
    let j := j.noteMany .trace fun _ => t.parseLog fuel tokens
    match t.parse fuel tokens with
    | none => none
    | some (.error e) => some (j, .error (.parse e))
    | some (.ok tree) => some (compileTree o file tree (j.note .debug fun _ => s!"parsed {file}"))

end Coscript.Script
