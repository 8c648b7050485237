import Coscript.Bytecode.Assembler
import Coscript.Script.Syntax

/-!
# Generating code

The instructions for expressions and statements. Jumps go to offsets, so code is generated for the
offset that it begins at; the width of a part tells where the next one begins.

The code of an expression leaves its value as an operand; the code of a statement leaves nothing.
Where the left operand of `&&` or `||` decides, the code of the right one is passed over.
-/

namespace Coscript.Script

/-- Instructions with the source lines of calls. -/
abbrev Emissions := List Emission

namespace Emissions

/-- The number of bytes of some instructions. -/
def width : Emissions → Nat
  | [] => 0
  | e :: es => e.instruction.width + width es

/-- Instructions that are no calls. -/
def ofInstructions (is : List Instruction) : Emissions := is.map fun i => ⟨i, none⟩

end Emissions

/-- The number of bytes of a jump. -/
def jumpWidth : Nat := 5

namespace Expression

/-- When an operator lets its left operand decide. -/
def deciding? : String → Option JumpKind
  | "&&" => some .ifFalseKeep
  | "||" => some .ifTrueKeep
  | _ => none

mutual

/-- The code of an expression that begins at an offset. -/
def code : Expression → Nat → Emissions
  | .int n, _ => .ofInstructions [.pushInt n]
  | .float bits, _ => .ofInstructions [.pushFloat bits]
  | .string text, _ => .ofInstructions [.pushString text]
  | .variable name, _ => .ofInstructions [.pushReference name, .read]
  | .assign name value, start =>
    let target := Emissions.ofInstructions [.pushReference name]
    target ++ code value (start + target.width) ++ .ofInstructions [.write]
  | .unary symbol operand, start => code operand start ++ .ofInstructions [.unary symbol]
  | .binary symbol left right, start =>
    let left := code left start
    let middle := start + left.width
    match deciding? symbol with
    | some kind =>
      let right := code right (middle + jumpWidth + 1)
      left ++ .ofInstructions [.jump kind (middle + jumpWidth + 1 + right.width), .pop] ++ right
    | none => left ++ code right middle ++ .ofInstructions [.binary symbol]
  | .call name arguments line, start =>
    codeOfAll arguments start ++ [⟨.call name (.ofNat arguments.length), some line⟩]

/-- The code of expressions one after the other. -/
def codeOfAll : List Expression → Nat → Emissions
  | [], _ => []
  | e :: es, start =>
    let first := code e start
    first ++ codeOfAll es (start + first.width)

end

/-- The code of an expression that may be left out and is undefined then. -/
def codeOrUndefined : Option Expression → Nat → Emissions
  | some e, start => code e start
  | none, _ => .ofInstructions [.pushUndefined]

end Expression

/-- Code in a scope of its own. -/
def Emissions.inScope (es : Emissions) : Emissions :=
  .ofInstructions [.enterScope] ++ es ++ .ofInstructions [.leaveScope]

namespace Statement

mutual

/-- The code of a statement that begins at an offset. -/
def code : Statement → Nat → Emissions
  | .declare name value?, start =>
    Expression.codeOrUndefined value? start ++ .ofInstructions [.declare name]
  | .expression e, start => e.code start ++ .ofInstructions [.pop]
  | .ret value?, start => Expression.codeOrUndefined value? start ++ .ofInstructions [.ret]
  | .block body, start => (codeOfAll body (start + 1)).inScope
  | .whileLoop condition body, start =>
    let condition := condition.code start
    let body := (codeOfAll body (start + condition.width + jumpWidth + 1)).inScope
    let stop := start + condition.width + jumpWidth + body.width + jumpWidth
    condition ++ .ofInstructions [.jump .ifFalse stop] ++ body ++
      .ofInstructions [.jump .always start]
  | .ifThen condition body, start =>
    let condition := condition.code start
    let body := (codeOfAll body (start + condition.width + jumpWidth + 1)).inScope
    let stop := start + condition.width + jumpWidth + body.width
    condition ++ .ofInstructions [.jump .ifFalse stop] ++ body
  | .ifElse condition body alternative, start =>
    let condition := condition.code start
    let body := (codeOfAll body (start + condition.width + jumpWidth + 1)).inScope
    let other := start + condition.width + jumpWidth + body.width + jumpWidth
    let alternative := code alternative other
    condition ++ .ofInstructions [.jump .ifFalse other] ++ body ++
      .ofInstructions [.jump .always (other + alternative.width)] ++ alternative

/-- The code of statements one after the other. -/
def codeOfAll : List Statement → Nat → Emissions
  | [], _ => []
  | s :: ss, start =>
    let first := code s start
    first ++ codeOfAll ss (start + first.width)

end

end Statement

/-- The function with the code of some statements, behind which it returns the undefined value. -/
def functionOfBody (name file : String) (parameters : List String) (body : List Statement) :
    Function :=
  let code := Statement.codeOfAll body 0 ++ .ofInstructions [.pushUndefined, .ret]
  (code.foldl Assembler.append .empty).finish name file parameters

/-- The function that a definition means. -/
def Definition.function (d : Definition) (file : String) : Function :=
  functionOfBody d.name file d.parameters d.body

end Coscript.Script
