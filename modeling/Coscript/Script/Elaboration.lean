import Coscript.Decimal.Binary32
import Coscript.Machine.Operator
import Coscript.Script.Error
import Coscript.Script.Precedence
import Coscript.Script.Syntax

/-!
# What parse trees mean

The expressions, statements and functions that parse trees stand for. A tree that has not the shape
of the language is refused, and so are unknown operators, constants that do not fit and calls with
too many arguments; the first fault in reading order is reported.

* `Elaboration.expression`, `Elaboration.statement`, `Elaboration.declaration`: what a tree means;
* `Elaboration.mem_items`: lists are written with nested nodes, and their items are smaller trees.
-/

namespace Coscript.Script.Elaboration

/-- The result of reading a tree. -/
abbrev Elaborated := Except CompileError

/-- The error that a tree has not the expected shape. -/
def unsupported (t : Tree) : CompileError := .unsupported t.display

/-- The token of a leaf. -/
def token (t : Tree) : Elaborated Token :=
  match t.token? with
  | some x => .ok x
  | none => .error (unsupported t)

/-- The child at a place. -/
def child (t : Tree) (i : Nat) : Elaborated { u : Tree // u.size < t.size } :=
  match t.parts[i]? with
  | some u => .ok u
  | none => .error (unsupported t)

/-! ### Lists -/

/-- Whether a tree continues a list. -/
def isTail (tails : List String) : Tree → Bool
  | .leaf _ => false
  | .node name _ => tails.contains name

/-- Whether a tree is the comma between items. -/
def isSeparator : Tree → Bool
  | .leaf t => t.type = .punctuation && t.text = ","
  | .node _ _ => false

mutual

/-- The items of a list that is written with nested nodes: the children of a node, where those with
a name in `tails` continue the list and commas are passed over. -/
def items (tails : List String) : Tree → List Tree
  | .leaf _ => []
  | .node _ cs => itemsOfAll tails cs

/-- The items in some children of a list's node. -/
def itemsOfAll (tails : List String) : List Tree → List Tree
  | [] => []
  | c :: cs =>
    (if isTail tails c then items tails c else if isSeparator c then [] else [c]) ++
      itemsOfAll tails cs

end

mutual

/-- The items of a list are smaller than the list. -/
theorem size_lt_of_mem_items {tails : List String} {x : Tree} :
    (t : Tree) → x ∈ items tails t → x.size < t.size
  | .leaf _, h => by simp [items] at h
  | .node _ cs, h => by
    rw [items] at h
    have := size_le_of_mem_itemsOfAll cs h
    rw [Tree.size]
    omega

/-- The items of children are no larger than the children together. -/
theorem size_le_of_mem_itemsOfAll {tails : List String} {x : Tree} :
    (cs : List Tree) → x ∈ itemsOfAll tails cs → x.size ≤ Tree.sizeAll cs
  | [], h => by simp [itemsOfAll] at h
  | c :: cs, h => by
    rw [itemsOfAll, List.mem_append] at h
    rw [Tree.sizeAll]
    rcases h with h | h
    · split at h
      · have := size_lt_of_mem_items c h
        omega
      · split at h
        · cases h
        · cases List.mem_singleton.mp h
          omega
    · have := size_le_of_mem_itemsOfAll cs h
      omega

end

/-- The items of a list, with the fact that they are smaller. -/
def smallerItems (tails : List String) (t : Tree) : List { u : Tree // u.size < t.size } :=
  (items tails t).attach.map fun u => ⟨u.1, size_lt_of_mem_items t u.2⟩

/-! ### Constants -/

/-- The number with some decimal digits. -/
def ofDigits (digits : List Char) : Nat :=
  digits.foldl (fun n c => 10 * n + (c.toNat - '0'.toNat)) 0

/-- The fraction with some decimal digits and a point among them, rounded to 32 bits. -/
def floatOfText (text : String) : UInt32 :=
  let whole := text.toList.takeWhile (· ≠ '.')
  let fraction := (text.toList.dropWhile (· ≠ '.')).drop 1
  Binary32.ofDecimal (ofDigits (whole ++ fraction)) fraction.length

/-- The constant or variable that a token stands for. -/
def constant (t : Token) : Elaborated Expression :=
  let invalid (fault : ConstantFault) : Elaborated Expression :=
    .error (.invalidConstant t.text t.position fault)
  match t.type with
  | .identifier => .ok (.variable t.text)
  | .integer =>
    let n := ofDigits t.text.toList
    if n < 0x80000000 then .ok (.int (.ofNat n)) else invalid .tooLarge
  | .float => .ok (.float (floatOfText t.text))
  | .string => if t.text.toList.contains '\x00' then invalid .containsZero else .ok (.string t.text)
  | _ => invalid .notAConstant

/-! ### Expressions -/

/-- Reads operators and the operands behind them. `whole` is the tree they are in. -/
def operatorsAndOperands {α : Type} (o : Operators) (whole : Tree) (tree : α → Tree) :
    List α → Elaborated (List (RankedOperator String × α))
  | [] => .ok []
  | x :: rest => do
    let t ← token (tree x)
    match o.precedence? t.text with
    | none => .error (.unknownOperator t.text t.position)
    | some precedence =>
      match rest with
      | [] => .error (unsupported whole)
      | y :: rest =>
        let more ← operatorsAndOperands o whole tree rest
        return (⟨t.text, precedence⟩, y) :: more

/-- The expression that operands joined by operators mean. -/
def ofOperands : OperandTree String Expression → Expression
  | .leaf e => e
  | .node symbol left right => .binary symbol (ofOperands left) (ofOperands right)

mutual

/-- The expression that a tree means. -/
def expression (o : Operators) (t : Tree) : Elaborated Expression :=
  match t.parts with
  | [⟨target, _⟩, _, ⟨value, _⟩] => do
    let name ← token target
    let value ← expression o value
    return .assign name.text value
  | [⟨sequence, _⟩] =>
    match smallerItems ["BinaryTail"] sequence with
    | [] => .error (unsupported sequence)
    | ⟨first, _⟩ :: rest => do
      let rest ← operatorsAndOperands o sequence Subtype.val rest
      let first ← unary o first
      let rest ← rest.mapM fun (operator, ⟨operand, _⟩) => do
        return (operator, ← unary o operand)
      return ofOperands (.resolve first rest)
  | _ => .error (unsupported t)
termination_by t.size
decreasing_by all_goals omega

/-- The expression that a tree means in which prefix operators may stand before an operand. -/
def unary (o : Operators) (t : Tree) : Elaborated Expression :=
  match t.parts with
  | [⟨operator, _⟩, ⟨operand, _⟩] => do
    let x ← token operator
    match o.unary? x.text with
    | none => .error (.unknownOperator x.text x.position)
    | some _ =>
      let operand ← unary o operand
      return .unary x.text operand
  | [⟨operand, _⟩] => primary o operand
  | _ => .error (unsupported t)
termination_by t.size
decreasing_by all_goals omega

/-- The expression that the tree of a constant, a variable, a call or an expression in parentheses
means. -/
def primary (o : Operators) (t : Tree) : Elaborated Expression :=
  match t.parts with
  | [⟨leaf, _⟩] => do
    let x ← token leaf
    constant x
  | [_, ⟨inner, _⟩, _] => expression o inner
  | [⟨name, _⟩, _, ⟨arguments, _⟩, _] => do
    let name ← token name
    let arguments := smallerItems ["ArgumentList", "ArgumentTail"] arguments
    if 255 < arguments.length then
      .error (.tooManyArguments name.text name.position.line)
    else
      let arguments ← arguments.mapM fun ⟨argument, _⟩ => expression o argument
      return .call name.text arguments name.position.line
  | _ => .error (unsupported t)
termination_by t.size
decreasing_by all_goals omega

end

/-! ### Statements -/

mutual

/-- The statement that a tree means. -/
def statement (o : Operators) (t : Tree) : Elaborated Statement := do
  let ⟨inner, _⟩ ← child t 0
  match inner.label with
  | "VarStatement" =>
    let ⟨name, _⟩ ← child inner 1
    let name ← token name
    match inner.parts with
    | [_, _, _, ⟨value, _⟩, _] =>
      let value ← expression o value
      return .declare name.text (some value)
    | _ => return .declare name.text none
  | "IfStatement" => ifStatement o inner
  | "WhileStatement" =>
    let ⟨condition, _⟩ ← child inner 2
    let condition ← expression o condition
    let ⟨body, _⟩ ← child inner 4
    let body ← block o body
    return .whileLoop condition body
  | "ReturnStatement" =>
    match inner.parts with
    | [_, ⟨value, _⟩, _] =>
      let value ← expression o value
      return .ret (some value)
    | _ => return .ret none
  | "ExpressionStatement" =>
    let ⟨e, _⟩ ← child inner 0
    let e ← expression o e
    return .expression e
  | "Block" =>
    let body ← block o inner
    return .block body
  | _ => .error (unsupported inner)
termination_by t.size
decreasing_by all_goals omega

/-- The statements in the block that a tree means. -/
def block (o : Operators) (t : Tree) : Elaborated (List Statement) := do
  let ⟨body, _⟩ ← child t 1
  (smallerItems ["Statements"] body).mapM fun ⟨s, _⟩ => statement o s
termination_by t.size
decreasing_by all_goals omega

/-- The statement that the tree of a condition with its alternative means. -/
def ifStatement (o : Operators) (t : Tree) : Elaborated Statement := do
  let ⟨condition, _⟩ ← child t 2
  let condition ← expression o condition
  let ⟨body, _⟩ ← child t 4
  let body ← block o body
  let ⟨alternative, _⟩ ← child t 5
  match alternative.parts with
  | [] => return .ifThen condition body
  | [_, ⟨branch, _⟩] =>
    if branch.label = "IfStatement" then
      let branch ← ifStatement o branch
      return .ifElse condition body branch
    else
      let branch ← block o branch
      return .ifElse condition body (.block branch)
  | _ => .error (unsupported t)
termination_by t.size
decreasing_by all_goals omega

end

/-- The statements in a list of statements. -/
def statements (o : Operators) (t : Tree) : Elaborated (List Statement) :=
  (items ["Statements"] t).mapM (statement o)

/-! ### Declarations -/

/-- The function that a tree defines. -/
def definition (o : Operators) (t : Tree) : Elaborated Definition := do
  let name ← token (← child t 1)
  let parameters ← (items ["ParameterList", "ParameterTail"] (← child t 3)).mapM token
  let body ← statements o (← child (← child t 5) 1)
  return ⟨name.text, parameters.map (·.text), body, name.position.line⟩

/-- What a tree declares. -/
def declaration (o : Operators) (t : Tree) : Elaborated Declaration := do
  let inner ← child t 0
  if inner.val.label = "Function" then return .function (← definition o inner)
  else return .statement (← statement o inner)

/-- The declarations in the tree of a script. -/
def declarations (t : Tree) : Elaborated (List Tree) := do
  return items ["Declarations"] (← child t 0)

end Coscript.Script.Elaboration
