import Coscript.Proofs.Stepping

/-!
# The shapes of activations

Code that is read from its beginning to its end, without following jumps, tells for each instruction
how many operands there are before it, which of them name variables, and how many blocks have been
entered. Code is verified if no instruction asks for more than there is, and if everything that
may come after an instruction has the shape that the instruction leaves. An activation with such
code then has the shape of its offset for ever, whichever way it comes there.

* `Function.shapeAt?`: the shape before the instruction at an offset;
* `Function.Verified`: code in which shapes agree;
* `Running.step_steps`: what one step of an activation with verified code may do.
-/

namespace Coscript

/-- What is known of an operand. -/
inductive Slot
  | value
  /-- The name of a variable. -/
  | reference
  deriving Repr, DecidableEq

/-- What code knows about an activation: its operands, the last one pushed first, and the number of
blocks that it is in. -/
structure Shape where
  operands : List Slot
  depth : Nat
  deriving Repr, DecidableEq

/-- The shape of an activation at the beginning of its function. -/
def Shape.empty : Shape := ⟨[], 0⟩

/-- A shape with one more operand. -/
def Shape.push (s : Shape) (x : Slot) : Shape := ⟨x :: s.operands, s.depth⟩

/-- A shape with some more values. -/
def Shape.pushValues (s : Shape) (n : Nat) : Shape :=
  ⟨List.replicate n .value ++ s.operands, s.depth⟩

lemma Shape.pushValues_push (s : Shape) (n : Nat) :
    (s.push .value).pushValues n = s.pushValues (n + 1) := by
  simp [pushValues, push, List.replicate_succ']

/-! ### Instructions -/

namespace Instruction

/-- The shape that an instruction leaves, if the one before it has what the instruction asks for. A
call leaves the shape after its return. -/
def effect : Instruction → Shape → Option Shape
  | pop, ⟨_ :: xs, d⟩ => some ⟨xs, d⟩
  | pushUndefined, s => some (s.push .value)
  | pushInt _, s => some (s.push .value)
  | pushFloat _, s => some (s.push .value)
  | pushString _, s => some (s.push .value)
  | pushReference _, s => some (s.push .reference)
  | read, ⟨.reference :: xs, d⟩ => some ⟨.value :: xs, d⟩
  | write, ⟨_ :: .reference :: xs, d⟩ => some ⟨.value :: xs, d⟩
  | declare _, ⟨_ :: xs, d⟩ => some ⟨xs, d⟩
  | unary _, ⟨_ :: xs, d⟩ => some ⟨.value :: xs, d⟩
  | binary _, ⟨_ :: _ :: xs, d⟩ => some ⟨.value :: xs, d⟩
  | jump .always _, s => some s
  | jump .ifFalse _, ⟨_ :: xs, d⟩ => some ⟨xs, d⟩
  | jump .ifFalseKeep _, ⟨x :: xs, d⟩ => some ⟨x :: xs, d⟩
  | jump .ifTrueKeep _, ⟨x :: xs, d⟩ => some ⟨x :: xs, d⟩
  | call _ n, ⟨xs, d⟩ =>
    if n.toNat ≤ xs.length then some ⟨.value :: xs.drop n.toNat, d⟩ else none
  | ret, ⟨_ :: xs, d⟩ => some ⟨xs, d⟩
  | enterScope, ⟨xs, d⟩ => some ⟨xs, d + 1⟩
  | leaveScope, ⟨xs, d + 1⟩ => some ⟨xs, d⟩
  | _, _ => none

lemma effect_call (name : String) (n : UInt8) (s : Shape) : (call name n).effect s =
    if n.toNat ≤ s.operands.length then some ⟨.value :: s.operands.drop n.toNat, s.depth⟩
    else none := rfl

/-- Where execution may go on after an instruction, with the next one at `next`. -/
def Leads (next target : Nat) : Instruction → Prop
  | jump .always t => target = t
  | jump _ t => target = t ∨ target = next
  | ret => False
  | _ => target = next

/-- Execution goes on at the target of a jump or at the next instruction. -/
lemma Leads.cases {i : Instruction} {next target : Nat} (h : i.Leads next target) :
    (∃ kind, i = .jump kind target) ∨ target = next ∧ i ≠ .ret := by
  cases i with
  | ret => cases h
  | jump kind t =>
    cases kind with
    | always => exact .inl ⟨.always, by rw [show target = t from h]⟩
    | ifFalse | ifFalseKeep | ifTrueKeep =>
      rcases h with rfl | h
      · exact .inl ⟨_, rfl⟩
      · exact .inr ⟨h, by simp⟩
  | _ => exact .inr ⟨h, by simp⟩

/-- Execution goes on at the target of a conditional jump or behind it, whatever decides. -/
lemma leads_jump {kind : JumpKind} (hkind : kind ≠ .always) {target next k : Nat}
    (hk : k = target ∨ k = next) : (jump kind target).Leads next k := by
  cases kind with
  | always => exact absurd rfl hkind
  | ifFalse | ifFalseKeep | ifTrueKeep => exact hk

/-- The operator of an instruction is known. -/
def Known (o : Operators) : Instruction → Prop
  | unary symbol => (o.unary? symbol).isSome
  | binary symbol => (o.binary? symbol).isSome
  | _ => True

end Instruction

/-! ### Code -/

namespace Function

/-- The shape before the instruction at an offset, where the code is read on from `start` with a
shape. -/
def shapeFrom? (f : Function) (start : Nat) (s : Shape) (offset : Nat) : Option Shape :=
  if _hlt : start < f.code.size then
    if start = offset then some s
    else
      match h : f.code.decode start with
      | .error _ => none
      | .ok (i, next) =>
        have := Code.lt_of_decode h
        (i.effect s).bind fun s' => f.shapeFrom? next s' offset
  else none
termination_by f.code.size - start

/-- **The shape before the instruction at an offset.** -/
def shapeAt? (f : Function) (offset : Nat) : Option Shape := f.shapeFrom? 0 .empty offset

/-- The offsets of instructions. -/
inductive Boundary (f : Function) : Nat → Prop
  | start : Boundary f 0
  | next {offset next : Nat} {i : Instruction} (h : Boundary f offset)
      (hi : f.code.decode offset = .ok (i, next)) : Boundary f next

/-- The code of a function never asks for more than there is, knows its operators, and comes to each
offset with one shape only. -/
structure Verified (o : Operators) (f : Function) : Prop where
  start : f.shapeAt? 0 = some .empty
  step : ∀ offset s, f.shapeAt? offset = some s → ∃ i next s',
    f.code.decode offset = .ok (i, next) ∧ i.effect s = some s' ∧ i.Known o ∧
      ∀ target, i.Leads next target → f.shapeAt? target = some s'

variable {f : Function} {start offset : Nat} {s s' : Shape}

lemma boundary_of_shapeFrom? (h : f.shapeFrom? start s offset = some s')
    (hstart : f.Boundary start) : f.Boundary offset ∧ offset < f.code.size := by
  fun_induction shapeFrom? f start s offset with
  | case1 s hlt => exact ⟨hstart, hlt⟩
  | case2 => cases h
  | case3 start s hlt hne i next hdecode _ ih =>
    obtain ⟨s₁, -, h⟩ := Option.bind_eq_some_iff.mp h
    exact ih s₁ h (hstart.next hdecode)
  | case4 => cases h

/-- An offset with a shape is that of an instruction of the function. -/
lemma boundary_of_shapeAt? (h : f.shapeAt? offset = some s) :
    f.Boundary offset ∧ offset < f.code.size :=
  boundary_of_shapeFrom? h .start

end Function

/-! ### Activations -/

namespace Activation

/-- An operand is what is known of it. -/
def Stands : Slot → Value → Prop
  | .value, _ => True
  | .reference, v => ∃ name, v = .reference name

/-- An activation has a shape. -/
structure Fits (a : Activation) (s : Shape) : Prop where
  operands : List.Forall₂ Stands s.operands a.operands
  depth : a.outer.length = s.depth

/-- An activation stands before an instruction and has the shape of its offset. -/
structure Ready (o : Operators) (a : Activation) : Prop where
  verified : a.function.Verified o
  fits : ∃ s, a.function.shapeAt? a.offset = some s ∧ a.Fits s

/-- An activation has the shape of its offset but for a value that it waits for. -/
structure Waiting (o : Operators) (a : Activation) : Prop where
  verified : a.function.Verified o
  fits : ∃ s, a.function.shapeAt? a.offset = some (s.push .value) ∧ a.Fits s

variable {o : Operators} {a : Activation}

/-- What waits for a value is ready when it has one. -/
lemma Waiting.ready (h : a.Waiting o) (v : Value) :
    Ready o { a with operands := v :: a.operands } := by
  obtain ⟨s, hs, hfits⟩ := h.fits
  exact ⟨h.verified, _, hs, ⟨.cons trivial hfits.operands, hfits.depth⟩⟩

/-- The beginning of verified code is ready. -/
lemma ready_start {f : Function} (hf : f.Verified o) (scope : ScopeId) :
    Ready o (start f scope) :=
  ⟨hf, .empty, hf.start, ⟨.nil, rfl⟩⟩

end Activation

/-! ### Faults -/

/-- The errors of machines that run bad code. -/
def RuntimeError.IsFault : RuntimeError → Prop
  | badCode _ => True
  | stackUnderflow => True
  | unknownOperator _ => True
  | typeMismatch (.notAReference _) => True
  | _ => False

/-- An error is a fault only if it is what a native function says. -/
def Natives.Excuse (natives : Natives) (e : RuntimeError) : Prop :=
  e.IsFault → ∃ name n calls arguments, natives.get? name = some n ∧
    n.reply calls arguments = .error e

/-- What operators compute is no fault. -/
structure Operators.Faultless (o : Operators) : Prop where
  unary : ∀ symbol apply, o.unary? symbol = some apply → ∀ v e, apply v = .error e → ¬ e.IsFault
  binary : ∀ symbol operator, o.binary? symbol = some operator → ∀ v w e,
    operator.apply v w = .error e → ¬ e.IsFault

/-! ### Steps -/

namespace Running

variable {r : Registry} {a : Activation} {w : World}

/-- What a step of a ready activation may do. -/
inductive Steps (r : Registry) : EStateM.Result RuntimeError Running Outcome → Prop
  | next {st : Running} (h : st.activation.Ready r.operators) : Steps r (.ok .next st)
  | call {st : Running} {f : Function} {file : LoadedFile} {name current : String}
      {scope : ScopeId} (h : st.activation.Waiting r.operators)
      (hf : r.function? name current = some (f, file)) :
      Steps r (.ok (.call (.start f scope)) st)
  | suspend {st : Running} {call : PendingCall} (h : st.activation.Waiting r.operators) :
      Steps r (.ok (.suspend call) st)
  | ret {st : Running} {v : Value} : Steps r (.ok (.ret v) st)
  | fails {st : Running} {e : RuntimeError} (h : r.natives.Excuse e) : Steps r (.error e st)

lemma Steps.of_not_fault {st : Running} {e : RuntimeError} (h : ¬ e.IsFault) :
    Steps r (.error e st) :=
  .fails fun he => absurd he h

/-- What a native answers is all that may be wrong with its call. -/
lemma callNative_steps {n : Native} {name : String} {arguments : List Value} {line : Option Nat}
    {st : Running} (hn : r.natives.get? name = some n)
    (h : st.activation.Waiting r.operators) : Steps r (callNative n name arguments line st) := by
  by_cases harity : ∀ expected, n.arity = some expected → expected = arguments.length
  · obtain ⟨j, hj⟩ := callNative_eq st name line harity
    rw [hj]
    cases hreply : n.reply st.world.calls arguments with
    | error e => exact .fails fun _ => ⟨name, n, _, _, hn, hreply⟩
    | ok reply =>
      cases reply with
      | ready v => exact .next (h.ready v)
      | pending call => exact .suspend h
  · push Not at harity
    obtain ⟨expected, hexpected, hne⟩ := harity
    rw [callNative_arity hexpected hne]
    exact .of_not_fault id

/-- A call leaves an activation that waits for its value. -/
lemma call_steps {st : Running} {count : Nat} {xs : List Slot} (name : String)
    (line : Option Nat) (hcount : count ≤ xs.length)
    (hvs : List.Forall₂ Activation.Stands xs st.activation.operands)
    (h : Activation.Waiting r.operators (st.taken count).activation) :
    Steps r (call r name count line st) := by
  have hlength : count ≤ st.activation.operands.length := hvs.length_eq ▸ hcount
  cases hfunction : r.function? name st.activation.function.file with
  | some found =>
    obtain ⟨f, file⟩ := found
    by_cases harity : count = f.parameters.length
    · obtain ⟨j, hj⟩ := call_of_function line hlength hfunction harity
      rw [hj]
      exact .call h hfunction
    · obtain ⟨j, hj⟩ := call_of_arity line hlength hfunction harity
      rw [hj]
      exact .of_not_fault id
  | none =>
    cases hnative : r.natives.get? name with
    | none =>
      rw [call_of_undefined hlength hfunction hnative]
      exact .of_not_fault id
    | some n =>
      rw [call_of_native hlength hfunction hnative]
      exact callNative_steps hnative h

/-! ### Single instructions -/

/-- What an instruction leads to is ready if it has the shape that the instruction leaves. -/
def Readies (o : Operators) (f : Function) (i : Instruction) (next : Nat) (s : Shape) : Prop :=
  ∀ {k : Nat} {vs : List Value} {scope : ScopeId} {outer : List ScopeId}, i.Leads next k →
    List.Forall₂ Activation.Stands s.operands vs → outer.length = s.depth →
    Activation.Ready o ⟨f, k, vs, scope, outer⟩

section

variable {f : Function} {next : Nat} {s s' : Shape} {vs : List Value} {scope : ScopeId}
  {outer : List ScopeId} (hvs : List.Forall₂ Activation.Stands s.operands vs)
  (houter : outer.length = s.depth) (line : Option Nat)

include hvs houter

lemma read_steps (heffect : Instruction.read.effect s = some s')
    (hready : Readies r.operators f .read next s') :
    Steps r (execute r line .read ⟨w, f, next, vs, scope, outer⟩) := by
  obtain ⟨xs, depth⟩ := s
  cases hvs with
  | nil => cases heffect
  | @cons x v xs vs hv hvs =>
    cases x with
    | value => cases heffect
    | reference =>
      cases heffect
      obtain ⟨name, rfl⟩ := hv
      cases hlookup : w.scopes.lookup scope name with
      | some v =>
        rw [execute_read hlookup]
        exact .next (hready rfl (.cons trivial hvs) houter)
      | none =>
        rw [execute_read_none hlookup]
        exact .of_not_fault id

lemma write_steps (heffect : Instruction.write.effect s = some s')
    (hready : Readies r.operators f .write next s') :
    Steps r (execute r line .write ⟨w, f, next, vs, scope, outer⟩) := by
  obtain ⟨xs, depth⟩ := s
  cases hvs with
  | nil => cases heffect
  | cons hv hvs =>
    cases hvs with
    | nil => cases heffect
    | @cons x v xs vs hname hvs =>
      cases x with
      | value => cases heffect
      | reference =>
        cases heffect
        obtain ⟨name, rfl⟩ := hname
        exact .next (hready rfl (.cons trivial hvs) houter)

lemma unary_steps (ho : r.operators.Faultless) {symbol : String}
    (hknown : (r.operators.unary? symbol).isSome)
    (heffect : (Instruction.unary symbol).effect s = some s')
    (hready : Readies r.operators f (.unary symbol) next s') :
    Steps r (execute r line (.unary symbol) ⟨w, f, next, vs, scope, outer⟩) := by
  obtain ⟨xs, depth⟩ := s
  obtain ⟨apply, happly⟩ := Option.isSome_iff_exists.mp hknown
  cases hvs with
  | nil => cases heffect
  | @cons x v xs vs hv hvs =>
    cases heffect
    cases hresult : apply v with
    | ok u =>
      rw [execute_unary happly hresult]
      exact .next (hready rfl (.cons trivial hvs) houter)
    | error e =>
      rw [execute_unary_error happly hresult]
      exact .of_not_fault (ho.unary symbol apply happly v e hresult)

lemma binary_steps (ho : r.operators.Faultless) {symbol : String}
    (hknown : (r.operators.binary? symbol).isSome)
    (heffect : (Instruction.binary symbol).effect s = some s')
    (hready : Readies r.operators f (.binary symbol) next s') :
    Steps r (execute r line (.binary symbol) ⟨w, f, next, vs, scope, outer⟩) := by
  obtain ⟨xs, depth⟩ := s
  obtain ⟨operator, hoperator⟩ := Option.isSome_iff_exists.mp hknown
  cases hvs with
  | nil => cases heffect
  | @cons x right xs vs hv hvs =>
    cases hvs with
    | nil => cases heffect
    | @cons y left xs vs hw hvs =>
      cases heffect
      cases hresult : operator.apply left right with
      | ok u =>
        rw [execute_binary hoperator hresult]
        exact .next (hready rfl (.cons trivial hvs) houter)
      | error e =>
        rw [execute_binary_error hoperator hresult]
        exact .of_not_fault (ho.binary symbol operator hoperator left right e hresult)

lemma jump_steps {kind : JumpKind} {target : Nat}
    (heffect : (Instruction.jump kind target).effect s = some s')
    (hready : Readies r.operators f (.jump kind target) next s') :
    Steps r (execute r line (.jump kind target) ⟨w, f, next, vs, scope, outer⟩) := by
  obtain ⟨xs, depth⟩ := s
  cases kind with
  | always =>
    cases heffect
    exact .next (hready rfl hvs houter)
  | ifFalse =>
    cases hvs with
    | nil => cases heffect
    | cons hv hvs =>
      cases heffect
      rw [execute_ifFalse]
      exact .next (hready (Instruction.leads_jump (by simp) (ite_eq_or_eq ..).symm) hvs houter)
  | ifFalseKeep =>
    cases hvs with
    | nil => cases heffect
    | cons hv hvs =>
      cases heffect
      rw [execute_ifFalseKeep]
      exact .next (hready (Instruction.leads_jump (by simp) (ite_eq_or_eq ..).symm)
        (.cons hv hvs) houter)
  | ifTrueKeep =>
    cases hvs with
    | nil => cases heffect
    | cons hv hvs =>
      cases heffect
      rw [execute_ifTrueKeep]
      exact .next (hready (Instruction.leads_jump (by simp) (ite_eq_or_eq ..))
        (.cons hv hvs) houter)

end

/-- What comes of an instruction that has all that it asks for. -/
lemma execute_steps (ho : r.operators.Faultless) {f : Function} (hf : f.Verified r.operators)
    {i : Instruction} {next : Nat} {s s' : Shape} (hknown : i.Known r.operators)
    (heffect : i.effect s = some s')
    (hleads : ∀ target, i.Leads next target → f.shapeAt? target = some s') {vs : List Value}
    {scope : ScopeId} {outer : List ScopeId} (hvs : List.Forall₂ Activation.Stands s.operands vs)
    (houter : outer.length = s.depth) (line : Option Nat) :
    Steps r (execute r line i ⟨w, f, next, vs, scope, outer⟩) := by
  have hready : Readies r.operators f i next s' :=
    fun hk hvs' houter' => ⟨hf, s', hleads _ hk, hvs', houter'⟩
  cases i with
  | read => exact read_steps hvs houter line heffect hready
  | write => exact write_steps hvs houter line heffect hready
  | unary symbol => exact unary_steps hvs houter line ho hknown heffect hready
  | binary symbol => exact binary_steps hvs houter line ho hknown heffect hready
  | jump kind target => exact jump_steps hvs houter line heffect hready
  | pushUndefined | pushInt n | pushFloat bits | pushString text =>
    cases heffect
    exact .next (hready rfl (.cons trivial hvs) houter)
  | pushReference name =>
    cases heffect
    exact .next (hready rfl (.cons ⟨name, rfl⟩ hvs) houter)
  | pop | declare name =>
    obtain ⟨xs, depth⟩ := s
    cases hvs with
    | nil => cases heffect
    | cons hv hvs =>
      cases heffect
      exact .next (hready rfl hvs houter)
  | call name count =>
    rw [Instruction.effect_call] at heffect
    split at heffect
    · next hcount =>
      cases heffect
      refine call_steps name line hcount hvs
        ⟨hf, ⟨s.operands.drop count.toNat, s.depth⟩, hleads next rfl, ?_, houter⟩
      exact List.forall₂_drop count.toNat hvs
    · cases heffect
  | ret =>
    obtain ⟨xs, depth⟩ := s
    cases hvs with
    | nil => cases heffect
    | cons hv hvs => exact .ret
  | enterScope =>
    cases heffect
    exact .next (hready rfl hvs (congrArg (· + 1) houter))
  | leaveScope =>
    obtain ⟨xs, depth⟩ := s
    cases depth with
    | zero => cases heffect
    | succ depth =>
      cases heffect
      cases outer with
      | nil => cases houter
      | cons around outer => exact .next (hready rfl hvs (Nat.succ.inj houter))

/-- **What a step of a ready activation may do**: what is left is ready again or waits for a value,
and an error is no fault of the machine. -/
theorem step_steps (ho : r.operators.Faultless) (h : a.Ready r.operators) :
    Steps r (step r ⟨w, a⟩) := by
  obtain ⟨s, hs, hfits⟩ := h.fits
  obtain ⟨i, next, s', hdecode, heffect, hknown, hleads⟩ := h.verified.step _ _ hs
  obtain ⟨j, hj⟩ := step_eq (r := r) w (Function.boundary_of_shapeAt? hs).2 hdecode
  rw [hj]
  exact execute_steps ho h.verified hknown heffect hleads hfits.operands hfits.depth _

end Running

end Coscript
