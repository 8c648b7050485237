import Coscript.Machine.Execution
import Coscript.Proofs.Containers

/-!
# What steps do

A step executes the instruction at the offset of the activation. Here is what comes of calls, case
by case, with all that they change in the world; only what the log shows is left open.

* `Running.step_eq`: the instruction that a step executes;
* `Running.call_of_function`, `Running.call_of_native`: calls of script functions and of natives;
* `Running.callNative_eq`: the answers of natives.
-/

namespace Coscript

/-- A function that is found is one of a loaded file. -/
lemma Registry.exists_of_function? {r : Registry} {name current : String} {f : Function}
    {file : LoadedFile} (h : r.function? name current = some (f, file)) :
    (∃ key, r.files.get? key = some file) ∧ file.compiled.functions.get? name = some f := by
  obtain ⟨file', hmem, hf⟩ := List.exists_of_findSome?_eq_some h
  obtain ⟨f', hf', he⟩ := Option.map_eq_some_iff.mp hf
  cases he
  refine ⟨?_, hf'⟩
  rw [Registry.searchOrder, List.mem_append] at hmem
  rcases hmem with hmem | hmem
  · exact ⟨current, Option.mem_toList.mp hmem⟩
  · obtain ⟨⟨key, _⟩, hentry, rfl⟩ := List.mem_map.mp (List.mem_of_mem_filter hmem)
    exact ⟨key, OrderedMap.mem_entries_iff.mp hentry⟩

namespace Running

variable {r : Registry} {st : Running} {name : String} {line : Option Nat}

/-- The same with another journal. -/
def withJournal (st : Running) (j : Journal) : Running :=
  { st with world := { st.world with journal := j } }

/-- The same with other operands. -/
def withOperands (st : Running) (vs : List Value) : Running :=
  { st with activation := { st.activation with operands := vs } }

/-- A step executes the instruction at the offset of the activation, with the offset behind it. -/
lemma step_eq {i : Instruction} {next : Nat} (w : World) {a : Activation}
    (hlt : a.offset < a.function.code.size)
    (hi : a.function.code.decode a.offset = .ok (i, next)) :
    ∃ j, step r ⟨w, a⟩ = execute r (a.function.callLine? a.offset) i
      ⟨{ w with journal := j }, { a with offset := next }⟩ := by
  unfold step
  simp only [hlt, hi, if_true]
  exact ⟨_, rfl⟩

/-- Asking for the state leaves it as it is. -/
lemma get_eq (st : Running) : (get : Stepping Running) st = .ok st st := rfl

lemma modify_eq (change : Running → Running) (st : Running) :
    (modify change : Stepping PUnit) st = .ok ⟨⟩ (change st) := rfl

/-! ### Instructions -/

section Execute

variable {w : World} {f : Function} {next : Nat} {vs : List Value} {scope : ScopeId}
variable {outer : List ScopeId} {v u : Value} {symbol : String}

lemma execute_read (h : w.scopes.lookup scope name = some v) :
    execute r line .read ⟨w, f, next, .reference name :: vs, scope, outer⟩ =
      .ok .next ⟨w, f, next, v :: vs, scope, outer⟩ := by
  unfold execute
  simp only [popReference, pop, bind, EStateM.bind, pure, EStateM.pure, get_eq, h]
  rfl

lemma execute_read_none (h : w.scopes.lookup scope name = none) :
    execute r line .read ⟨w, f, next, .reference name :: vs, scope, outer⟩ =
      .error (.undefinedVariable name) ⟨w, f, next, vs, scope, outer⟩ := by
  unfold execute
  simp only [popReference, pop, bind, EStateM.bind, pure, EStateM.pure, get_eq, h]
  rfl

lemma execute_unary {apply : UnaryOperation} (h : r.operators.unary? symbol = some apply)
    (hv : apply v = .ok u) :
    execute r line (.unary symbol) ⟨w, f, next, v :: vs, scope, outer⟩ =
      .ok .next ⟨w, f, next, u :: vs, scope, outer⟩ := by
  unfold execute
  simp only [h, pop, bind, EStateM.bind, hv]
  rfl

lemma execute_unary_error {apply : UnaryOperation} (h : r.operators.unary? symbol = some apply)
    {e : RuntimeError} (hv : apply v = .error e) :
    execute r line (.unary symbol) ⟨w, f, next, v :: vs, scope, outer⟩ =
      .error e ⟨w, f, next, vs, scope, outer⟩ := by
  unfold execute
  simp only [h, pop, bind, EStateM.bind, hv]
  rfl

lemma execute_binary {operator : BinaryOperator} (h : r.operators.binary? symbol = some operator)
    {left right : Value} (hv : operator.apply left right = .ok u) :
    execute r line (.binary symbol) ⟨w, f, next, right :: left :: vs, scope, outer⟩ =
      .ok .next ⟨w, f, next, u :: vs, scope, outer⟩ := by
  unfold execute
  simp only [h, pop, bind, EStateM.bind, hv]
  rfl

lemma execute_binary_error {operator : BinaryOperator}
    (h : r.operators.binary? symbol = some operator) {left right : Value} {e : RuntimeError}
    (hv : operator.apply left right = .error e) :
    execute r line (.binary symbol) ⟨w, f, next, right :: left :: vs, scope, outer⟩ =
      .error e ⟨w, f, next, vs, scope, outer⟩ := by
  unfold execute
  simp only [h, pop, bind, EStateM.bind, hv]
  rfl

/-- A jump that takes its operand goes to its target if the operand is false. -/
lemma execute_ifFalse (target : Nat) :
    execute r line (.jump .ifFalse target) ⟨w, f, next, v :: vs, scope, outer⟩ =
      .ok .next ⟨w, f, if v.isTrue then next else target, vs, scope, outer⟩ := by
  cases h : v.isTrue with
  | _ =>
    unfold execute
    simp only [pop, bind, EStateM.bind, h]
    rfl

lemma execute_ifFalseKeep (target : Nat) :
    execute r line (.jump .ifFalseKeep target) ⟨w, f, next, v :: vs, scope, outer⟩ =
      .ok .next ⟨w, f, if v.isTrue then next else target, v :: vs, scope, outer⟩ := by
  cases h : v.isTrue with
  | _ =>
    unfold execute
    simp only [peek, bind, EStateM.bind, h]
    rfl

lemma execute_ifTrueKeep (target : Nat) :
    execute r line (.jump .ifTrueKeep target) ⟨w, f, next, v :: vs, scope, outer⟩ =
      .ok .next ⟨w, f, if v.isTrue then target else next, v :: vs, scope, outer⟩ := by
  cases h : v.isTrue with
  | _ =>
    unfold execute
    simp only [peek, bind, EStateM.bind, h]
    rfl

end Execute

/-! ### Natives -/

section Native

variable {n : Native} {arguments : List Value}

/-- The state after a native call has been noted, with another journal. -/
def called (st : Running) (call : NativeCall) (j : Journal) : Running :=
  { st with world := { st.world with calls := call :: st.world.calls, journal := j } }

/-- What comes of the answer to a native call. -/
def answer (name : String) : Except RuntimeError Reply → Stepping Outcome
  | .error e => throw e
  | .ok (.ready v) => do
    push v
    return .next
  | .ok (.pending call) => do
    let caller := (← get).activation.function.name
    note .debug fun _ => s!"{caller} waits on {name}"
    return .suspend call

/-- A native call with the wrong number of arguments fails and is not made. -/
lemma callNative_arity {expected : Nat} (h : n.arity = some expected)
    (hne : expected ≠ arguments.length) :
    callNative n name arguments line st =
      .error (.arityMismatch name expected arguments.length line) st := by
  unfold callNative
  rw [h]
  dsimp only
  rw [if_pos hne]
  rfl

/-- A native call with the right number of arguments is noted, and answered. -/
lemma callNative_eq (st : Running) (name : String) (line : Option Nat)
    (h : ∀ expected, n.arity = some expected → expected = arguments.length) :
    ∃ j, callNative n name arguments line st =
      answer name (n.reply st.world.calls arguments) (st.called ⟨name, arguments⟩ j) := by
  unfold callNative
  cases harity : n.arity with
  | none =>
    cases n.line? arguments with
    | none => exact ⟨_, rfl⟩
    | some text => exact ⟨_, rfl⟩
  | some expected =>
    dsimp only
    rw [if_neg (not_not_intro (h expected harity))]
    cases n.line? arguments with
    | none => exact ⟨_, rfl⟩
    | some text => exact ⟨_, rfl⟩

end Native

/-! ### Calls -/

section Call

variable {count : Nat}

/-- The arguments of a call with `count` of them, the last operand last. -/
def arguments (st : Running) (count : Nat) : List Value :=
  (st.activation.operands.take count).reverse

/-- The state after the arguments of a call have been taken. -/
def taken (st : Running) (count : Nat) : Running :=
  st.withOperands (st.activation.operands.drop count)

/-- The state after a scope has been made for the arguments of a call. -/
def entered (st : Running) (f : Function) (file : LoadedFile) (arguments : List Value)
    (j : Journal) : Running :=
  let (scopes, scope) := st.world.scopes.addChild file.globals
  { st with world := { st.world with
      scopes := Activation.bind scopes scope f.parameters arguments, journal := j } }

lemma length_arguments (hcount : count ≤ st.activation.operands.length) :
    (st.arguments count).length = count := by
  rw [arguments, List.length_reverse, List.length_take, Nat.min_eq_left hcount]

/-- A call with more arguments than there are operands fails. -/
lemma call_of_underflow (hcount : st.activation.operands.length < count) :
    call r name count line st = .error .stackUnderflow st := by
  unfold call
  simp only [bind, EStateM.bind, popArguments, hcount, if_true]

/-- A call of a script function with the right number of arguments begins the function in a new
scope. -/
lemma call_of_function (line : Option Nat) (hcount : count ≤ st.activation.operands.length)
    {f : Function} {file : LoadedFile}
    (hf : r.function? name st.activation.function.file = some (f, file))
    (harity : count = f.parameters.length) :
    ∃ j, call r name count line st =
      .ok (.call (.start f (st.world.scopes.addChild file.globals).2))
        ((st.taken count).entered f file (st.arguments count) j) := by
  have hlength : (st.activation.operands.take count).reverse.length = f.parameters.length :=
    (length_arguments hcount).trans harity
  unfold call
  simp only [bind, EStateM.bind, popArguments, Nat.not_lt.mpr hcount, if_false, get_eq, hf,
    note, modify_eq, Activation.ofCall, hlength, if_true]
  exact ⟨_, rfl⟩

/-- A call of a script function with another number of arguments fails. -/
lemma call_of_arity (line : Option Nat) (hcount : count ≤ st.activation.operands.length)
    {f : Function} {file : LoadedFile}
    (hf : r.function? name st.activation.function.file = some (f, file))
    (harity : count ≠ f.parameters.length) :
    ∃ j, call r name count line st =
      .error (.arityMismatch f.name f.parameters.length count line)
        ((st.taken count).withJournal j) := by
  have hlength : (st.activation.operands.take count).reverse.length = count :=
    length_arguments hcount
  unfold call
  simp only [bind, EStateM.bind, popArguments, Nat.not_lt.mpr hcount, if_false, get_eq, hf,
    note, modify_eq, Activation.ofCall, hlength, harity]
  exact ⟨_, rfl⟩

/-- A call of a name that means no script function is one of a native. -/
lemma call_of_native (hcount : count ≤ st.activation.operands.length)
    (hf : r.function? name st.activation.function.file = none) {n : Native}
    (hn : r.natives.get? name = some n) :
    call r name count line st = callNative n name (st.arguments count) line (st.taken count) := by
  unfold call
  simp only [bind, EStateM.bind, popArguments, Nat.not_lt.mpr hcount, if_false, get_eq, hf, hn]
  rfl

/-- A call of a name that means nothing fails. -/
lemma call_of_undefined (hcount : count ≤ st.activation.operands.length)
    (hf : r.function? name st.activation.function.file = none)
    (hn : r.natives.get? name = none) :
    call r name count line st = .error (.undefinedFunction name line) (st.taken count) := by
  unfold call
  simp only [bind, EStateM.bind, popArguments, Nat.not_lt.mpr hcount, if_false, get_eq, hf, hn]
  rfl

end Call

end Running

end Coscript
