import Coscript.Grammar.RuleBody

/-!
# Grammar documents

A document has one rule a line, `Name -> body`. A line that begins with a bar adds a rule for the
name before it. A line `%start Name` names the start symbol; the last such line counts. Blank
lines and lines that begin with two slashes are passed over.
-/

namespace Coscript.Document

/-- Whether a text is a name of a symbol. -/
def isName : List Char → Bool
  | [] => false
  | c :: cs => Lexer.startsName c && cs.all fun c => Lexer.continuesName .ruleBody c

/-- What the lines read so far say. -/
structure Draft where
  start? : Option String
  /-- The name and body of each rule, the last rule first. -/
  rules : List (String × List Char)

/-- Reads one line. -/
def Draft.addLine (d : Draft) (number : Nat) (line : List Char) : Except GrammarError Draft :=
  let line := Line.trim line
  if line = [] ∨ (Line.after? "//".toList line).isSome then .ok d
  else
    match Line.after? "%start".toList line, Line.after? ['|'] line, Line.splitArrow? line with
    | some name, _, _ =>
      let name := Line.trim name
      if isName name then .ok { d with start? := some (String.ofList name) }
      else .error (.malformedLine number .startWithoutSymbol)
    | none, some body, _ =>
      match d.rules with
      | [] => .error (.malformedLine number .alternativeWithoutRule)
      | (name, _) :: _ => .ok { d with rules := (name, body) :: d.rules }
    | none, none, some (name, body) =>
      let name := Line.trim name
      if isName name then .ok { d with rules := (String.ofList name, body) :: d.rules }
      else .error (.malformedLine number (.invalidName (String.ofList name)))
    | none, none, none => .error (.malformedLine number .noArrow)

/-- Reads numbered lines one after the other. -/
def Draft.addLines (d : Draft) : List (List Char × Nat) → Except GrammarError Draft
  | [] => .ok d
  | (line, number) :: lines => do
    let d ← d.addLine number line
    d.addLines lines

/-- The productions of rules with their names and bodies. -/
def productions (isSymbol : String → Bool) :
    List (String × List Char) → Except GrammarError (List Production)
  | [] => .ok []
  | (name, body) :: rules => do
    let bodies ← RuleBody.parse name (String.ofList body) isSymbol
    let more ← productions isSymbol rules
    return bodies.map (Production.ofElements name) ++ more

/-- The grammar of a document. -/
def parse (text : String) : Except GrammarError Grammar := do
  let d ← Draft.addLines ⟨none, []⟩ ((Line.all text.toList).zipIdx 1)
  match d.start? with
  | none => .error .missingStart
  | some start =>
    let rules := d.rules.reverse
    let ps ← productions (fun s => rules.any fun r => r.1 = s) rules
    Grammar.build start ps

end Coscript.Document
