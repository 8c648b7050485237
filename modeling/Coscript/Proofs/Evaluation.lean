import Coscript.Machine.Execution
import Coscript.Script.Syntax

/-!
# Evaluating scripts

What scripts compute, said without code: expressions have values, statements are executed one after
the other, and both change the variables and call functions. There are no operands and no jumps
here.

Recursion and loops need not end. Evaluation therefore has a bound, for the calls inside one another
and for the rounds of each loop, and is unfinished where the bound does not suffice.

* `Script.Expression.eval`, `Script.Statement.exec`: expressions and statements;
* `Script.Program.call`: what a name means where it is called, and what comes of the call;
* `Script.Program.runFile`, `Script.Program.runFunction`: the statements of a file outside of
  functions, and a function that is called from outside.
-/

namespace Coscript

/-- What scripts change: the scopes, and the native calls made so far, the latest first. -/
structure Store where
  scopes : ScopeTree
  calls : List NativeCall

/-- What scripts have changed of a world. -/
def World.store (w : World) : Store := ⟨w.scopes, w.calls⟩

namespace Script

/-- What comes of evaluating something. -/
inductive Evaluation (α : Type)
  | done (σ : Store) (a : α)
  | fails (σ : Store) (e : RuntimeError)
  /-- The bound does not suffice. -/
  | unfinished

namespace Evaluation

variable {α β : Type}

/-- Goes on with the result, if there is one. -/
def bind : Evaluation α → (Store → α → Evaluation β) → Evaluation β
  | done σ a, f => f σ a
  | fails σ e, _ => fails σ e
  | unfinished, _ => unfinished

/-- A result that does not change anything. -/
def ofExcept (σ : Store) : Except RuntimeError α → Evaluation α
  | .ok a => done σ a
  | .error e => fails σ e

end Evaluation

/-- What comes of calling a name with some arguments on a source line. -/
abbrev Calling := String → List Value → Nat → Store → Evaluation Value

/-- What the code of a file is evaluated with. -/
structure Setting where
  operators : Operators
  call : Calling
  /-- The scope of the file's global variables. -/
  globals : ScopeId

namespace Setting

/-- The result of a prefix operator. -/
def unary (c : Setting) (symbol : String) (v : Value) : Except RuntimeError Value :=
  match c.operators.unary? symbol with
  | some apply => apply v
  | none => .error (.unknownOperator symbol)

/-- The result of a binary operator. -/
def binary (c : Setting) (symbol : String) (v u : Value) : Except RuntimeError Value :=
  match c.operators.binary? symbol with
  | some operator => operator.apply v u
  | none => .error (.unknownOperator symbol)

/-- Assigns to the innermost binding of a name, or else to a global variable. -/
def assign (c : Setting) (scope : ScopeId) (name : String) (v : Value) (σ : Store) : Store :=
  { σ with scopes :=
    σ.scopes.declare ((σ.scopes.binder? scope name).getD c.globals) name v }

end Setting

/-! ### Expressions -/

namespace Expression

mutual

/-- **The value of an expression in a scope.** The right operands of `&&` and `||` are evaluated
only if the left ones do not decide. -/
def eval (c : Setting) (scope : ScopeId) : Expression → Store → Evaluation Value
  | .int n, σ => .done σ (.int n)
  | .float bits, σ => .done σ (.float bits)
  | .string text, σ => .done σ (.string text)
  | .variable name, σ =>
    match σ.scopes.lookup scope name with
    | some v => .done σ v
    | none => .fails σ (.undefinedVariable name)
  | .assign name value, σ =>
    (eval c scope value σ).bind fun σ v => .done (c.assign scope name v σ) v
  | .unary symbol operand, σ =>
    (eval c scope operand σ).bind fun σ v => .ofExcept σ (c.unary symbol v)
  | .binary symbol left right, σ =>
    (eval c scope left σ).bind fun σ v =>
      if symbol = "&&" then if v.isTrue then eval c scope right σ else .done σ v
      else if symbol = "||" then if v.isTrue then .done σ v else eval c scope right σ
      else (eval c scope right σ).bind fun σ u => .ofExcept σ (c.binary symbol v u)
  | .call name arguments line, σ =>
    (evalAll c scope arguments σ).bind fun σ vs => c.call name vs line σ

/-- The values of expressions, from left to right. -/
def evalAll (c : Setting) (scope : ScopeId) : List Expression → Store → Evaluation (List Value)
  | [], σ => .done σ []
  | e :: es, σ =>
    (eval c scope e σ).bind fun σ v => (evalAll c scope es σ).bind fun σ vs => .done σ (v :: vs)

end

/-- The value of an expression that may be left out and is undefined then. -/
def evalOrUndefined (c : Setting) (scope : ScopeId) : Option Expression → Store → Evaluation Value
  | some e, σ => e.eval c scope σ
  | none, σ => .done σ .undefined

end Expression

/-! ### Statements -/

/-- How the execution of statements ends. -/
inductive Completion
  | normal
  | returned (v : Value)

/-- What a function returns whose statements end so. -/
def Completion.value : Completion → Value
  | normal => .undefined
  | returned v => v

/-- Goes on unless something has been returned. -/
def Evaluation.next (x : Evaluation Completion) (f : Store → Evaluation Completion) :
    Evaluation Completion :=
  x.bind fun σ completion =>
    match completion with
    | .normal => f σ
    | .returned v => .done σ (.returned v)

/-- Repeats a body as long as a condition is true, at most a number of times. -/
def Evaluation.loop (condition : Store → Evaluation Value)
    (body : Store → Evaluation Completion) : Nat → Store → Evaluation Completion
  | 0, _ => .unfinished
  | rounds + 1, σ =>
    (condition σ).bind fun σ v =>
      if v.isTrue then (body σ).next (loop condition body rounds) else .done σ .normal

/-- Execution in a new scope inside another one. -/
def inNewScope (scope : ScopeId) (σ : Store) (body : ScopeId → Store → Evaluation Completion) :
    Evaluation Completion :=
  body (σ.scopes.addChild scope).2 { σ with scopes := (σ.scopes.addChild scope).1 }

namespace Statement

mutual

/-- **The execution of a statement in a scope.** Each entry of a block has a scope of its own. -/
def exec (c : Setting) (rounds : Nat) : Statement → ScopeId → Store → Evaluation Completion
  | .declare name value?, scope, σ =>
    (Expression.evalOrUndefined c scope value? σ).bind fun σ v =>
      .done { σ with scopes := σ.scopes.declare scope name v } .normal
  | .expression e, scope, σ => (e.eval c scope σ).bind fun σ _ => .done σ .normal
  | .ret value?, scope, σ =>
    (Expression.evalOrUndefined c scope value? σ).bind fun σ v => .done σ (.returned v)
  | .block body, scope, σ => inNewScope scope σ (execAll c rounds body)
  | .whileLoop condition body, scope, σ =>
    Evaluation.loop (condition.eval c scope)
      (fun σ => inNewScope scope σ (execAll c rounds body)) rounds σ
  | .ifThen condition body, scope, σ =>
    (condition.eval c scope σ).bind fun σ v =>
      if v.isTrue then inNewScope scope σ (execAll c rounds body) else .done σ .normal
  | .ifElse condition body alternative, scope, σ =>
    (condition.eval c scope σ).bind fun σ v =>
      if v.isTrue then inNewScope scope σ (execAll c rounds body)
      else exec c rounds alternative scope σ

/-- The execution of statements one after the other. -/
def execAll (c : Setting) (rounds : Nat) : List Statement → ScopeId → Store → Evaluation Completion
  | [], _, σ => .done σ .normal
  | s :: ss, scope, σ => (exec c rounds s scope σ).next (execAll c rounds ss scope)

end

/-- What the body of a function returns. -/
def result (c : Setting) (rounds : Nat) (body : List Statement) (scope : ScopeId) (σ : Store) :
    Evaluation Value :=
  (execAll c rounds body scope σ).bind fun σ completion => .done σ completion.value

end Statement

/-! ### Programs -/

/-- What a file says: its functions, and the statements outside of them. -/
structure Contents where
  definitions : List Definition
  statements : List Statement

/-- A file with the scope of its global variables. -/
structure SourceFile where
  name : String
  contents : Contents
  globals : ScopeId

/-- The definition of a function with a name. -/
def SourceFile.definition? (f : SourceFile) (name : String) : Option Definition :=
  f.contents.definitions.find? fun d => d.name = name

/-- Files, the operators and the native functions. -/
structure Program where
  operators : Operators
  natives : Natives
  /-- The files in the order in which they were loaded. -/
  files : List SourceFile

namespace Program

/-- The function that a name means in a file: one of that file, or else of the other files in their
order. -/
def definition? (p : Program) (name current : String) : Option (SourceFile × Definition) :=
  (p.files.filter (fun f => f.name = current) ++
      p.files.filter (fun f => f.name ≠ current)).findSome? fun f =>
    (f.definition? name).map fun d => (f, d)

/-- A new scope inside the global variables of a file that holds the arguments of a call. -/
def bindArguments (f : SourceFile) (d : Definition) (arguments : List Value) (line : Option Nat)
    (σ : Store) : Evaluation ScopeId :=
  if arguments.length = d.parameters.length then
    let scope := (σ.scopes.addChild f.globals).2
    let scopes := Activation.bind (σ.scopes.addChild f.globals).1 scope d.parameters arguments
    .done { σ with scopes := scopes } scope
  else .fails σ (.arityMismatch d.name d.parameters.length arguments.length line)

/-- A call of a native function. A native that makes its caller wait is left out. -/
def callNative (n : Native) (name : String) (arguments : List Value) (line : Nat) (σ : Store) :
    Evaluation Value :=
  match n.arity.filter fun expected => expected ≠ arguments.length with
  | some expected => .fails σ (.arityMismatch name expected arguments.length (some line))
  | none =>
    let after := { σ with calls := ⟨name, arguments⟩ :: σ.calls }
    match n.reply σ.calls arguments with
    | .ok (.ready v) => .done after v
    | .ok (.pending _) => .unfinished
    | .error e => .fails after e

/-- **What comes of a call** in a file, where `depth` calls have not returned: one of a script
function, or else of a native one. -/
def call (p : Program) : Nat → Nat → String → Calling
  | 0, _, _, _, _, _, _ => .unfinished
  | n + 1, depth, current, name, arguments, line, σ =>
    match p.definition? name current with
    | some (f, d) =>
      (bindArguments f d arguments (some line) σ).bind fun σ scope =>
        if Execution.maxDepth ≤ depth then
          .fails σ (.callDepthExceeded d.name Execution.maxDepth)
        else
          Statement.result ⟨p.operators, call p n (depth + 1) f.name, f.globals⟩ n d.body scope σ
    | none =>
      match p.natives.get? name with
      | some native => callNative native name arguments line σ
      | none => .fails σ (.undefinedFunction name (some line))

/-- What a file is evaluated with when nothing else has been called. -/
def setting (p : Program) (n : Nat) (f : SourceFile) : Setting :=
  ⟨p.operators, p.call n 1 f.name, f.globals⟩

/-- **The statements of a file** outside of functions, which run in the scope of its global
variables. -/
def runFile (p : Program) (n : Nat) (f : SourceFile) (σ : Store) : Evaluation Value :=
  Statement.result (p.setting n f) n f.contents.statements f.globals σ

/-- **A function of a file** that is called from outside. -/
def runFunction (p : Program) (n : Nat) (f : SourceFile) (d : Definition) (arguments : List Value)
    (σ : Store) : Evaluation Value :=
  (bindArguments f d arguments none σ).bind fun σ scope =>
    Statement.result (p.setting n f) n d.body scope σ

end Program

end Script

end Coscript
