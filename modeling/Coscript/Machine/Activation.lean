import Coscript.Machine.Registry

/-!
# Activations

An activation is a function that has been called and has not returned: where it stands in its code,
its operands, and the scope that it is in. One step of an activation executes one instruction. A
call of a script function, a pending native call and the end of the function are left to whoever
runs the activation.

A step that fails still keeps what it did before it failed.
-/

namespace Coscript

/-- A function that is being executed. -/
structure Activation where
  function : Function
  /-- The offset of the next instruction. -/
  offset : Nat
  /-- The operands, the last one pushed first. -/
  operands : List Value
  scope : ScopeId
  /-- The scopes to return to at the ends of blocks, the innermost first. -/
  outer : List ScopeId

/-- An activation and the world around it. -/
structure Running where
  world : World
  activation : Activation

/-- What a step leaves to be done. -/
inductive Outcome
  | next
  | call (callee : Activation)
  | suspend (call : PendingCall)
  | ret (v : Value)

/-- A part of a step. -/
abbrev Stepping (α : Type) := EStateM RuntimeError Running α

namespace Activation

/-- The beginning of a function in a scope. -/
def start (f : Function) (scope : ScopeId) : Activation := ⟨f, 0, [], scope, []⟩

/-- Binds parameters to arguments. -/
def bind (t : ScopeTree) (scope : ScopeId) (parameters : List String) (arguments : List Value) :
    ScopeTree :=
  (parameters.zip arguments).foldl (fun t (x, v) => t.declare scope x v) t

/-- The beginning of a function in a new scope that holds its arguments. -/
def ofCall (w : World) (f : Function) (file : LoadedFile) (arguments : List Value)
    (line : Option Nat) : Except RuntimeError (World × Activation) :=
  if arguments.length = f.parameters.length then
    let (scopes, scope) := w.scopes.addChild file.globals
    .ok ({ w with scopes := bind scopes scope f.parameters arguments }, start f scope)
  else .error (.arityMismatch f.name f.parameters.length arguments.length line)

end Activation

namespace Running

/-! ### Operands and scopes -/

/-- Changes the activation. -/
def change (f : Activation → Activation) : Stepping Unit :=
  modify fun s => { s with activation := f s.activation }

/-- Pushes an operand. -/
def push (v : Value) : Stepping Unit := change fun a => { a with operands := v :: a.operands }

/-- Takes the last operand. -/
def pop : Stepping Value := fun s =>
  match s.activation.operands with
  | [] => .error .stackUnderflow s
  | v :: rest => .ok v { s with activation := { s.activation with operands := rest } }

/-- The last operand. -/
def peek : Stepping Value := fun s =>
  match s.activation.operands with
  | [] => .error .stackUnderflow s
  | v :: _ => .ok v s

/-- Takes the last operand, which names a variable. -/
def popReference : Stepping String := do
  match ← pop with
  | .reference name => return name
  | v => throw (.typeMismatch (.notAReference v.kind))

/-- Takes operands for the arguments of a call, the last one pushed being the last argument. -/
def popArguments (count : Nat) : Stepping (List Value) := fun s =>
  let operands := s.activation.operands
  if operands.length < count then .error .stackUnderflow s
  else
    .ok (operands.take count).reverse
      { s with activation := { s.activation with operands := operands.drop count } }

/-- Goes on at an offset. -/
def goTo (target : Nat) : Stepping Unit := change fun a => { a with offset := target }

/-- Changes the scopes. -/
def changeScopes (f : ScopeTree → ScopeId → ScopeTree) : Stepping Unit :=
  modify fun s =>
    { s with world := { s.world with scopes := f s.world.scopes s.activation.scope } }

/-- Enters a new scope inside the current one. -/
def enterScope : Stepping Unit :=
  modify fun s =>
    let (scopes, inner) := s.world.scopes.addChild s.activation.scope
    { world := { s.world with scopes := scopes }
      activation := { s.activation with
        scope := inner, outer := s.activation.scope :: s.activation.outer } }

/-- Returns to the scope around the block. -/
def leaveScope : Stepping Unit :=
  change fun a =>
    match a.outer with
    | [] => a
    | scope :: outer => { a with scope := scope, outer := outer }

/-- Records something in the log. -/
def note (level : Level) (text : Unit → String) : Stepping Unit :=
  modify fun s => { s with world := s.world.note level text }

/-! ### Calls -/

/-- Notes a native call, and gives the calls made before. -/
def recordCall (call : NativeCall) : Stepping (List NativeCall) := fun s =>
  let before := s.world.calls
  .ok before { s with world := { s.world with calls := call :: before } }

/-- Calls a native function. -/
def callNative (n : Native) (name : String) (arguments : List Value) (line : Option Nat) :
    Stepping Outcome := do
  match n.arity with
  | some expected =>
    if expected ≠ arguments.length then
      throw (.arityMismatch name expected arguments.length line)
  | none => pure ()
  let before ← recordCall ⟨name, arguments⟩
  match n.line? arguments with
  | some text => note .info fun _ => text
  | none => pure ()
  match n.reply before arguments with
  | .error e => throw e
  | .ok (.ready v) =>
    push v
    return .next
  | .ok (.pending call) =>
    let caller := (← get).activation.function.name
    note .debug fun _ => s!"{caller} waits on {name}"
    return .suspend call

/-- Calls what a name means in the current file: a script function or else a native one. -/
def call (r : Registry) (name : String) (count : Nat) (line : Option Nat) : Stepping Outcome := do
  let arguments ← popArguments count
  match r.function? name (← get).activation.function.file with
  | some (f, file) =>
    note .debug fun _ => s!"call {file.compiled.name}::{name}"
    let s ← get
    match Activation.ofCall s.world f file arguments line with
    | .error e => throw e
    | .ok (world, callee) =>
      set { s with world := world }
      return .call callee
  | none =>
    match r.natives.get? name with
    | none => throw (.undefinedFunction name line)
    | some n => callNative n name arguments line

/-! ### Instructions -/

/-- Does what an instruction says. `line` is the source line of a call. -/
def execute (r : Registry) (line : Option Nat) : Instruction → Stepping Outcome
  | .pop => do
    let _ ← pop
    return .next
  | .pushUndefined => do
    push .undefined
    return .next
  | .pushInt n => do
    push (.int n)
    return .next
  | .pushFloat bits => do
    push (.float bits)
    return .next
  | .pushString text => do
    push (.string text)
    return .next
  | .pushReference name => do
    push (.reference name)
    return .next
  | .read => do
    let name ← popReference
    let s ← get
    match s.world.scopes.lookup s.activation.scope name with
    | some v =>
      push v
      return .next
    | none => throw (.undefinedVariable name)
  | .write => do
    let v ← pop
    let name ← popReference
    changeScopes fun t scope => t.assign scope name v
    push v
    return .next
  | .declare name => do
    let v ← pop
    changeScopes fun t scope => t.declare scope name v
    return .next
  | .unary symbol =>
    match r.operators.unary? symbol with
    | none => throw (.unknownOperator symbol)
    | some apply => do
      let v ← pop
      match apply v with
      | .ok result =>
        push result
        return .next
      | .error e => throw e
  | .binary symbol =>
    match r.operators.binary? symbol with
    | none => throw (.unknownOperator symbol)
    | some operator => do
      let right ← pop
      let left ← pop
      match operator.apply left right with
      | .ok result =>
        push result
        return .next
      | .error e => throw e
  | .jump .always target => do
    goTo target
    return .next
  | .jump .ifFalse target => do
    unless (← pop).isTrue do goTo target
    return .next
  | .jump .ifFalseKeep target => do
    unless (← peek).isTrue do goTo target
    return .next
  | .jump .ifTrueKeep target => do
    if (← peek).isTrue then goTo target
    return .next
  | .call name count => call r name count.toNat line
  | .ret => fun s =>
    match s.activation.operands with
    | [] => .ok (.ret .undefined) s
    | v :: rest =>
      .ok (.ret v) { s with activation := { s.activation with operands := rest } }
  | .enterScope => do
    enterScope
    return .next
  | .leaveScope => do
    leaveScope
    return .next

/-- Executes the next instruction. Behind the end of its code a function returns. -/
def step (r : Registry) : Stepping Outcome := fun s =>
  let f := s.activation.function
  let offset := s.activation.offset
  if offset < f.code.size then
    match Code.decode f.code offset with
    | .error fault => .error (.badCode fault) s
    | .ok (i, next) =>
      let go : Stepping Outcome := do
        note .trace fun _ =>
          s!"{f.file}::{f.name} {Function.fourDigits offset} {i.display}"
        goTo next
        execute r (f.callLine? offset) i
      go s
  else .ok (.ret .undefined) s

end Running

end Coscript
