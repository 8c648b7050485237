import Coscript.Proofs.Scopes
import Coscript.Proofs.Stepping

/-!
# What steps do with scopes

An activation is in a scope, and knows the scopes that it returns to. A step declares or assigns a
name there, enters a new scope inside, returns to one of the outer scopes, or calls a function,
which begins in a new scope among the global variables of a loaded file. Whether a step fails or
not, it does no more than that.

* `Place.Moves`: what a step may do with scopes;
* `Running.step_moves`: what a step does with scopes;
* `Activation.Calls`, `Running.calls_of_step`: what a step that calls a function leaves;
* `Execution.Turned`, `Execution.turned`: what a turn does with calls and scopes.
-/

namespace Coscript

/-- The scopes after a new one has been made for the arguments of a call, inside the global
variables of a file. -/
def ScopeTree.entered (t : ScopeTree) (globals : ScopeId) (parameters : List String)
    (arguments : List Value) : ScopeTree :=
  Activation.bind (t.addChild globals).1 (t.addChild globals).2 parameters arguments

/-- The scopes, and which of them an activation is in and returns to. -/
structure Place where
  scopes : ScopeTree
  scope : ScopeId
  outer : List ScopeId

namespace Place

/-- What a step may do with scopes. -/
inductive Moves (r : Registry) (p : Place) : Place → Prop
  | still : Moves r p p
  | declare (name : String) (v : Value) :
    Moves r p ⟨p.scopes.declare p.scope name v, p.scope, p.outer⟩
  | assign (name : String) (v : Value) :
    Moves r p ⟨p.scopes.assign p.scope name v, p.scope, p.outer⟩
  | enter :
    Moves r p ⟨(p.scopes.addChild p.scope).1, (p.scopes.addChild p.scope).2, p.scope :: p.outer⟩
  | leave {scope : ScopeId} {outer : List ScopeId} (houter : p.outer = scope :: outer) :
    Moves r p ⟨p.scopes, scope, outer⟩
  | call {key : String} {file : LoadedFile} (hfile : r.files.get? key = some file)
    (parameters : List String) (arguments : List Value) :
    Moves r p ⟨p.scopes.entered file.globals parameters arguments, p.scope, p.outer⟩

/-- No step moves a scope. -/
lemma Moves.grows {r : Registry} {p p' : Place} (h : p.Moves r p') : p.scopes.Grows p'.scopes := by
  cases h with
  | still | leave => exact .refl _
  | declare name v => exact ScopeTree.grows_declare _ _ name v
  | assign name v => exact ScopeTree.grows_declare _ _ name v
  | enter => exact ScopeTree.grows_addChild _ _
  | call => exact (ScopeTree.grows_addChild _ _).trans (ScopeTree.grows_bind _ _ _ _)

end Place

/-- The place of an activation. -/
def Activation.place (a : Activation) (t : ScopeTree) : Place := ⟨t, a.scope, a.outer⟩

/-- A call of a function of a loaded file: the arguments are bound in a new scope among the global
variables of the file. What is left of the caller stands behind the instruction, without the
arguments, and what is called begins in the new scope. -/
inductive Activation.Calls (r : Registry) (t : ScopeTree) (a : Activation) :
    ScopeTree → Activation → Activation → Prop
  | intro {name key : String} {count : UInt8} {next : Nat} {f : Function} {file : LoadedFile}
    (hdecode : a.function.code.decode a.offset = .ok (.call name count, next))
    (hcount : count.toNat ≤ a.operands.length) (hfile : r.files.get? key = some file) :
    Calls r t a
      (t.entered file.globals f.parameters (a.operands.take count.toNat).reverse)
      { a with offset := next, operands := a.operands.drop count.toNat }
      (.start f (t.addChild file.globals).2)

lemma Activation.Calls.moves {r : Registry} {t t' : ScopeTree} {a caller callee : Activation}
    (h : a.Calls r t t' caller callee) : (a.place t).Moves r (caller.place t') := by
  cases h with
  | intro _ _ hfile => exact .call hfile _ _

namespace Running

variable {α β : Type} {r : Registry} {m : Stepping α}

/-- The place of the activation. -/
def place (s : Running) : Place := s.activation.place s.world.scopes

/-- The state that a part of a step leaves, with a result or with an error. -/
def leaves : EStateM.Result RuntimeError Running α → Running
  | .ok _ s => s
  | .error _ s => s

lemma leaves_bind (m : Stepping α) (f : α → Stepping β) (s : Running) :
    leaves ((m >>= f) s) = match m s with
      | .ok a s' => leaves (f a s')
      | .error _ s' => s' := by
  rw [show (m >>= f) s = EStateM.bind m f s from rfl, EStateM.bind]
  cases m s <;> rfl

/-! ### Parts that leave the scopes -/

/-- A part of a step leaves the scopes as they are. -/
def Still (m : Stepping α) : Prop := ∀ s, (leaves (m s)).place = s.place

lemma Still.bind {f : α → Stepping β} (h : Still m) (hf : ∀ a, Still (f a)) :
    Still (m >>= f) := by
  intro s
  have hs := h s
  rw [leaves_bind]
  cases hm : m s with
  | ok a s' =>
    rw [hm] at hs
    exact (hf a s').trans hs
  | error e s' =>
    rw [hm] at hs
    exact hs

lemma still_pure (a : α) : Still (pure a) := fun _ => rfl

lemma still_throw (e : RuntimeError) : Still (throw e : Stepping α) := fun _ => rfl

lemma still_get : Still (get : Stepping Running) := fun _ => rfl

lemma still_push (v : Value) : Still (push v) := fun _ => rfl

lemma still_goTo (target : Nat) : Still (goTo target) := fun _ => rfl

lemma still_note (level : Level) (text : Unit → String) : Still (note level text) := fun _ => rfl

lemma still_pop : Still pop := by
  intro s
  unfold pop
  cases s.activation.operands <;> rfl

lemma still_peek : Still peek := by
  intro s
  unfold peek
  cases s.activation.operands <;> rfl

lemma still_popReference : Still popReference := by
  refine still_pop.bind fun v => ?_
  cases v with
  | reference name => exact still_pure name
  | _ => exact still_throw _

/-! ### Instructions -/

/-- What comes of a part of a step is not the call of a script function. -/
def CallsNothing (result : EStateM.Result RuntimeError Running Outcome) : Prop :=
  ∀ callee s, result ≠ .ok (.call callee) s

lemma callsNothing_error (e : RuntimeError) (s : Running) : CallsNothing (.error e s) :=
  fun _ _ h => by cases h

lemma callsNothing_next (s : Running) : CallsNothing (.ok .next s) := fun _ _ h => by cases h

lemma callsNothing_suspend (call : PendingCall) (s : Running) :
    CallsNothing (.ok (.suspend call) s) := fun _ _ h => by cases h

lemma callsNothing_ret (v : Value) (s : Running) : CallsNothing (.ok (.ret v) s) :=
  fun _ _ h => by cases h

/-- What remains of a step calls no script function, and does with scopes what a step may do. -/
def Acts (r : Registry) (m : Stepping Outcome) : Prop :=
  ∀ s, s.place.Moves r (leaves (m s)).place ∧ CallsNothing (m s)

lemma Still.bind_acts {f : α → Stepping Outcome} (h : Still m) (hf : ∀ a, Acts r (f a)) :
    Acts r (m >>= f) := by
  intro s
  have hs := h s
  rw [leaves_bind, show (m >>= f) s = EStateM.bind m f s from rfl, EStateM.bind]
  cases hm : m s with
  | ok a s' =>
    rw [hm] at hs
    rw [← hs]
    exact hf a s'
  | error e s' =>
    rw [hm] at hs
    rw [← hs]
    exact ⟨.still, callsNothing_error e s'⟩

lemma acts_next : Acts r (pure .next) := fun s => ⟨.still, callsNothing_next s⟩

lemma acts_throw (e : RuntimeError) : Acts r (throw e) := fun s => ⟨.still, callsNothing_error e s⟩

lemma acts_push (v : Value) : Acts r (push v >>= fun _ => pure .next) :=
  (still_push v).bind_acts fun _ => acts_next

lemma acts_goTo (target : Nat) : Acts r (goTo target >>= fun _ => pure .next) :=
  (still_goTo target).bind_acts fun _ => acts_next

/-- Every instruction but a call. -/
lemma acts_execute (line : Option Nat) {i : Instruction} (hi : ∀ name count, i ≠ .call name count) :
    Acts r (execute r line i) := by
  cases i with
  | pop => exact still_pop.bind_acts fun _ => acts_next
  | pushUndefined | pushInt | pushFloat | pushString | pushReference => exact acts_push _
  | read =>
    refine still_popReference.bind_acts fun name => still_get.bind_acts fun s => ?_
    cases s.world.scopes.lookup s.activation.scope name with
    | some v => exact acts_push v
    | none => exact acts_throw _
  | write =>
    exact still_pop.bind_acts fun v => still_popReference.bind_acts fun name =>
      fun _ => ⟨.assign name v, callsNothing_next _⟩
  | declare name =>
    exact still_pop.bind_acts fun v => fun _ => ⟨.declare name v, callsNothing_next _⟩
  | unary symbol =>
    rw [execute]
    cases r.operators.unary? symbol with
    | none => exact acts_throw _
    | some apply =>
      refine still_pop.bind_acts fun v => ?_
      cases apply v with
      | ok result => exact acts_push result
      | error e => exact acts_throw e
  | binary symbol =>
    rw [execute]
    cases r.operators.binary? symbol with
    | none => exact acts_throw _
    | some operator =>
      refine still_pop.bind_acts fun right => still_pop.bind_acts fun left => ?_
      cases operator.apply left right with
      | ok result => exact acts_push result
      | error e => exact acts_throw e
  | jump kind target =>
    cases kind with
    | always => exact acts_goTo target
    | ifFalse =>
      refine still_pop.bind_acts fun v => ?_
      cases v.isTrue with
      | true => exact acts_next
      | false => exact acts_goTo target
    | ifFalseKeep =>
      refine still_peek.bind_acts fun v => ?_
      cases v.isTrue with
      | true => exact acts_next
      | false => exact acts_goTo target
    | ifTrueKeep =>
      refine still_peek.bind_acts fun v => ?_
      cases v.isTrue with
      | true => exact acts_goTo target
      | false => exact acts_next
  | call name count => exact absurd rfl (hi name count)
  | ret =>
    intro s
    rw [execute]
    dsimp only
    cases s.activation.operands <;> exact ⟨.still, callsNothing_ret _ _⟩
  | enterScope => exact fun _ => ⟨.enter, callsNothing_next _⟩
  | leaveScope =>
    rintro ⟨w, f, offset, operands, scope, outer⟩
    refine ⟨?_, callsNothing_next _⟩
    cases outer with
    | nil => exact .still
    | cons scope outer => exact .leave rfl

/-! ### Calls -/

lemma acts_answer (name : String) (reply : Except RuntimeError Reply) :
    Acts r (answer name reply) := by
  cases reply with
  | error e => exact acts_throw e
  | ok reply =>
    cases reply with
    | ready v => exact acts_push v
    | pending call =>
      exact still_get.bind_acts fun _ => (still_note _ _).bind_acts fun _ => fun s =>
        ⟨.still, callsNothing_suspend call s⟩

lemma acts_callNative (n : Native) (name : String) (arguments : List Value)
    (line : Option Nat) : Acts r (callNative n name arguments line) := by
  intro s
  by_cases harity : ∀ expected, n.arity = some expected → expected = arguments.length
  · obtain ⟨j, hj⟩ := callNative_eq s name line harity
    rw [hj]
    exact acts_answer name (n.reply s.world.calls arguments) (s.called ⟨name, arguments⟩ j)
  · push Not at harity
    obtain ⟨expected, hexpected, hne⟩ := harity
    rw [callNative_arity hexpected hne]
    exact ⟨.still, callsNothing_error _ s⟩

/-- A call begins a function of a loaded file in a new scope, or it calls no script function. -/
lemma call_cases (r : Registry) (name : String) (count : Nat) (line : Option Nat) (s : Running) :
    (s.place.Moves r (leaves (call r name count line s)).place ∧
      CallsNothing (call r name count line s)) ∨
    ∃ f key file j, r.files.get? key = some file ∧ count ≤ s.activation.operands.length ∧
      call r name count line s = .ok (.call (.start f (s.world.scopes.addChild file.globals).2))
        ((s.taken count).entered f file (s.arguments count) j) := by
  by_cases hcount : count ≤ s.activation.operands.length
  · cases hfunction : r.function? name s.activation.function.file with
    | some found =>
      obtain ⟨f, file⟩ := found
      by_cases harity : count = f.parameters.length
      · obtain ⟨⟨key, hfile⟩, -⟩ := Registry.exists_of_function? hfunction
        obtain ⟨j, hj⟩ := call_of_function line hcount hfunction harity
        exact .inr ⟨f, key, file, j, hfile, hcount, hj⟩
      · obtain ⟨j, hj⟩ := call_of_arity line hcount hfunction harity
        rw [hj]
        exact .inl ⟨.still, callsNothing_error _ _⟩
    | none =>
      cases hnative : r.natives.get? name with
      | none =>
        rw [call_of_undefined hcount hfunction hnative]
        exact .inl ⟨.still, callsNothing_error _ _⟩
      | some n =>
        rw [call_of_native hcount hfunction hnative]
        exact .inl (acts_callNative n name _ line (s.taken count))
  · rw [call_of_underflow (Nat.lt_of_not_le hcount)]
    exact .inl ⟨.still, callsNothing_error _ _⟩

/-! ### Steps -/

/-- A step executes an instruction, or leaves everything as it is and calls nothing. -/
lemma step_cases (r : Registry) (w : World) (a : Activation) :
    (leaves (step r ⟨w, a⟩) = ⟨w, a⟩ ∧ CallsNothing (step r ⟨w, a⟩)) ∨
    ∃ i next j, a.function.code.decode a.offset = .ok (i, next) ∧
      step r ⟨w, a⟩ = execute r (a.function.callLine? a.offset) i
        ⟨{ w with journal := j }, { a with offset := next }⟩ := by
  by_cases hlt : a.offset < a.function.code.size
  · cases hdecode : a.function.code.decode a.offset with
    | error fault =>
      refine .inl ?_
      unfold step
      simp only [hlt, hdecode, if_true]
      exact ⟨rfl, callsNothing_error _ _⟩
    | ok found =>
      obtain ⟨i, next⟩ := found
      obtain ⟨j, hj⟩ := step_eq w hlt hdecode
      exact .inr ⟨i, next, j, rfl, hj⟩
  · refine .inl ?_
    unfold step
    simp only [hlt, if_false]
    exact ⟨rfl, callsNothing_ret _ _⟩

/-- **What a step does with scopes**, whether it fails or not. -/
theorem step_moves (r : Registry) (s : Running) : s.place.Moves r (leaves (step r s)).place := by
  obtain ⟨w, a⟩ := s
  rcases step_cases r w a with ⟨hleaves, -⟩ | ⟨i, next, j, -, hstep⟩
  · rw [hleaves]
    exact .still
  · rw [hstep]
    by_cases hcall : ∃ name count, i = .call name count
    · obtain ⟨name, count, rfl⟩ := hcall
      rw [execute]
      rcases call_cases r name count.toNat (a.function.callLine? a.offset)
        ⟨{ w with journal := j }, { a with offset := next }⟩ with
        ⟨hmoves, -⟩ | ⟨f, key, file, j', hfile, -, hj'⟩
      · exact hmoves
      · rw [hj']
        exact .call hfile _ _
    · push Not at hcall
      exact (acts_execute (a.function.callLine? a.offset) hcall
        ⟨{ w with journal := j }, { a with offset := next }⟩).1

/-- **What a step that calls a function leaves.** -/
theorem calls_of_step {w : World} {a callee : Activation} {s : Running}
    (h : step r ⟨w, a⟩ = .ok (.call callee) s) :
    a.Calls r w.scopes s.world.scopes s.activation callee := by
  rcases step_cases r w a with ⟨-, hnot⟩ | ⟨i, next, j, hdecode, hstep⟩
  · exact absurd h (hnot callee s)
  · rw [hstep] at h
    by_cases hcall : ∃ name count, i = .call name count
    · obtain ⟨name, count, rfl⟩ := hcall
      rw [execute] at h
      rcases call_cases r name count.toNat (a.function.callLine? a.offset)
        ⟨{ w with journal := j }, { a with offset := next }⟩ with
        ⟨-, hnot⟩ | ⟨f, key, file, j', hfile, hcount, hj'⟩
      · exact absurd h (hnot callee s)
      · rw [hj'] at h
        cases h
        exact .intro hdecode hcount hfile
    · push Not at hcall
      exact absurd h ((acts_execute _ hcall _).2 callee s)

end Running

/-! ### Turns -/

/-- The calls of a phase that have not returned, the innermost one first. -/
def Phase.activations : Phase → List Activation
  | .active _ current callers => current :: callers
  | .finished _ => []

namespace Execution

variable {r : Registry} {w w' : World} {current : Activation} {callers : List Activation}

/-- What a turn does with calls and scopes. -/
inductive Turned (r : Registry) (w : World) (current : Activation) (callers : List Activation)
    (w' : World) : Phase → Prop
  | stay {pending : Option PendingCall} {a : Activation}
    (hmoves : (current.place w.scopes).Moves r (a.place w'.scopes)) :
    Turned r w current callers w' (.active pending a callers)
  | push {caller callee : Activation} (hdepth : callers.length + 1 < maxDepth)
    (hcalls : current.Calls r w.scopes w'.scopes caller callee) :
    Turned r w current callers w' (.active none callee (caller :: callers))
  | pop {a caller : Activation} {rest : List Activation} {v : Value}
    (hmoves : (current.place w.scopes).Moves r (a.place w'.scopes))
    (hcallers : callers = caller :: rest) :
    Turned r w current callers w'
      (.active none { caller with operands := v :: caller.operands } rest)
  | finish {a : Activation} {v : Value}
    (hmoves : (current.place w.scopes).Moves r (a.place w'.scopes)) (hcallers : callers = []) :
    Turned r w current callers w' (.finished v)

/-- **What a turn does with calls and scopes.** -/
theorem turned (r : Registry) (w : World) (pending : Option PendingCall) (current : Activation)
    (callers : List Activation) :
    Turned r w current callers (advance r w (.active pending current callers)).world
      (advance r w (.active pending current callers)).phase := by
  cases pending with
  | some call =>
    rw [advance]
    cases call.poll with
    | none => exact .stay .still
    | some v => exact .stay (a := { current with operands := v :: current.operands }) .still
  | none =>
    have hmoves := Running.step_moves r ⟨w, current⟩
    rw [advance, stepCurrent]
    cases hstep : Running.step r ⟨w, current⟩ with
    | error e s =>
      rw [hstep] at hmoves
      exact .stay hmoves
    | ok outcome s =>
      rw [hstep] at hmoves
      cases outcome with
      | next => exact .stay hmoves
      | suspend call => exact .stay hmoves
      | call callee =>
        dsimp only
        split
        · exact .stay hmoves
        · next hdepth => exact .push (Nat.lt_of_not_le hdepth) (Running.calls_of_step hstep)
      | ret v =>
        cases callers with
        | nil => exact .finish hmoves rfl
        | cons caller rest => exact .pop hmoves rfl

namespace Turned

variable {p : Phase}

lemma moves (h : Turned r w current callers w' p) :
    ∃ a : Activation, (current.place w.scopes).Moves r (a.place w'.scopes) := by
  cases h with
  | stay hmoves | pop hmoves | finish hmoves => exact ⟨_, hmoves⟩
  | push _ hcalls => exact ⟨_, hcalls.moves⟩

end Turned

end Execution

end Coscript
