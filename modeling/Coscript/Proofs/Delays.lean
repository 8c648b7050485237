import Coscript.Proofs.Evaluation
import Coscript.Proofs.Stepping

/-!
# Answers that come later

A native that answers at once can be replaced by one whose call is pending for a while and then has
the same answer. Two registries are compared, the second of which delays some of the answers of the
first, each for a time of its own. As a native may look at the calls made before, some calls of a
native can be delayed and others not. A step does the same with both registries, except that where
it would push an answer that is delayed it suspends the activation as it is before the push.

The log tells whether a call was pending. It is compared nowhere, and nothing reads it.

* `Registry.Delays`: a registry answers as another one does, or later;
* `Running.agrees_execute`: instructions other than calls do not depend on natives or on the log;
* `Running.step_delayed`: a step with answers that come later.
-/

namespace Coscript

/-! ### Delays -/

/-- A pending call has no answer a number of times and then answers with a value. -/
inductive PendingCall.Yields (v : Value) : PendingCall → Prop
  | now {c : PendingCall} (h : c.poll = some v) : Yields v c
  | later {c : PendingCall} (h : c.poll = none) (hlater : Yields v c.later) : Yields v c

namespace PendingCall

/-- What is asked first when a call has been asked without an answer. -/
lemma answer_later (c : PendingCall) (n : Nat) :
    c.later.answer (c.later.asked + n) = c.answer (c.asked + (n + 1)) := by
  change c.answer (c.asked + 1 + n) = _
  rw [Nat.add_right_comm, Nat.add_assoc]

lemma yields_iff {c : PendingCall} {v : Value} : Yields v c ↔
    ∃ n, (∀ i < n, c.answer (c.asked + i) = none) ∧ c.answer (c.asked + n) = some v := by
  constructor
  · intro h
    induction h with
    | now h => exact ⟨0, fun i hi => absurd hi i.not_lt_zero, h⟩
    | @later c h _ ih =>
      obtain ⟨n, hfail, hn⟩ := ih
      refine ⟨n + 1, fun i hi => ?_, by rw [← answer_later, hn]⟩
      cases i with
      | zero => exact h
      | succ i => rw [← answer_later, hfail i (Nat.lt_of_succ_lt_succ hi)]
  · rintro ⟨n, hfail, hn⟩
    induction n generalizing c with
    | zero => exact .now hn
    | succ n ih =>
      refine .later (hfail 0 n.succ_pos) (ih (fun i hi => ?_) ?_)
      · rw [answer_later, hfail _ (Nat.succ_lt_succ hi)]
      · rw [answer_later, hn]

/-- The pending calls of a number of polls that fail. -/
lemma yields_after (n : Nat) (v : Value) : Yields v (after n v) := by
  refine yields_iff.mpr ⟨n, fun i hi => ?_, ?_⟩
  · simp [after, hi]
  · simp [after]

end PendingCall

/-- An answer of a native is another one, or comes later. -/
inductive Reply.Delayed : Except RuntimeError Reply → Except RuntimeError Reply → Prop
  | same (a : Except RuntimeError Reply) : Delayed a a
  | later {v : Value} {call : PendingCall} (h : call.Yields v) :
      Delayed (.ok (.ready v)) (.ok (.pending call))

/-- A native answers each call as another one does, or later. -/
structure Native.Delays (n m : Native) : Prop where
  arity : m.arity = n.arity
  reply : ∀ before arguments, Reply.Delayed (n.reply before arguments) (m.reply before arguments)

/-- A registry has natives that answer as those of another one do, or later. -/
structure Registry.Delays (r d : Registry) : Prop where
  operators : d.operators = r.operators
  files : d.files = r.files
  natives : ∀ name, Option.Rel Native.Delays (r.natives.get? name) (d.natives.get? name)

/-- Delays do not change what a name means. -/
lemma Registry.Delays.function?_eq {r d : Registry} (h : r.Delays d) (name current : String) :
    d.function? name current = r.function? name current := by
  unfold Registry.function? Registry.searchOrder Registry.file?
  rw [h.files]

namespace Running

variable {α β : Type} {s t : Running}

/-! ### What does not depend on the log -/

/-- Two states that differ in the log at most. -/
structure Alike (s t : Running) : Prop where
  activation : t.activation = s.activation
  store : t.world.store = s.world.store

lemma Alike.scopes (h : Alike s t) : t.world.scopes = s.world.scopes :=
  congrArg Store.scopes h.store

lemma Alike.calls (h : Alike s t) : t.world.calls = s.world.calls := congrArg Store.calls h.store

lemma Alike.withOperands (h : Alike s t) (vs : List Value) :
    Alike (s.withOperands vs) (t.withOperands vs) :=
  ⟨by rw [Running.withOperands, Running.withOperands, h.activation], h.store⟩

lemma Alike.withJournal (h : Alike s t) (j k : Journal) :
    Alike (s.withJournal j) (t.withJournal k) := ⟨h.activation, h.store⟩

lemma Alike.arguments (h : Alike s t) (count : Nat) : t.arguments count = s.arguments count := by
  rw [Running.arguments, Running.arguments, h.activation]

lemma Alike.taken (h : Alike s t) (count : Nat) : Alike (s.taken count) (t.taken count) := by
  rw [Running.taken, Running.taken, h.activation]
  exact h.withOperands _

lemma Alike.called (h : Alike s t) (call : NativeCall) (j k : Journal) :
    Alike (s.called call j) (t.called call k) :=
  ⟨h.activation, congrArg₂ Store.mk h.scopes (congrArg (call :: ·) h.calls)⟩

lemma Alike.entered (h : Alike s t) (f : Function) (file : LoadedFile) (arguments : List Value)
    (j k : Journal) : Alike (s.entered f file arguments j) (t.entered f file arguments k) := by
  refine ⟨h.activation, congrArg₂ Store.mk ?_ h.calls⟩
  change Activation.bind _ _ _ _ = Activation.bind _ _ _ _
  rw [h.scopes]

/-- Two results that differ in the log at most. -/
inductive SameResult :
    EStateM.Result RuntimeError Running α → EStateM.Result RuntimeError Running α → Prop
  | ok {s t : Running} (a : α) (h : Alike s t) : SameResult (.ok a s) (.ok a t)
  | error {s t : Running} (e : RuntimeError) (h : Alike s t) :
      SameResult (.error e s) (.error e t)

/-- Two parts of steps do the same, whatever the log is. -/
def Agrees (m n : Stepping α) : Prop := ∀ ⦃s t : Running⦄, Alike s t → SameResult (m s) (n t)

section Agrees

variable {m n : Stepping α}

lemma Agrees.bind {f g : α → Stepping β} (h : Agrees m n) (hf : ∀ a, Agrees (f a) (g a)) :
    Agrees (m >>= f) (n >>= g) := by
  intro s t hst
  have hresult := h hst
  rw [show (m >>= f) s = EStateM.bind m f s from rfl, EStateM.bind,
    show (n >>= g) t = EStateM.bind n g t from rfl, EStateM.bind]
  generalize m s = x, n t = y at hresult
  cases hresult with
  | ok a h => exact hf a h
  | error e h => exact .error e h

lemma agrees_pure (a : α) : Agrees (pure a) (pure a) := fun _ _ h => .ok a h

lemma agrees_throw (e : RuntimeError) : Agrees (throw e : Stepping α) (throw e) :=
  fun _ _ h => .error e h

/-- The state is asked for in order to look at what does not depend on the log. -/
lemma agrees_get_bind {f g : Running → Stepping β}
    (h : ∀ s t, Alike s t → Agrees (f s) (g t)) : Agrees (get >>= f) (get >>= g) :=
  fun s t hst => h s t hst hst

lemma agrees_modify {f g : Running → Running} (h : ∀ s t, Alike s t → Alike (f s) (g t)) :
    Agrees (modify f : Stepping PUnit) (modify g) := by
  intro s t hst
  rw [modify_eq, modify_eq]
  exact .ok PUnit.unit (h s t hst)

lemma agrees_change (f : Activation → Activation) : Agrees (change f) (change f) :=
  agrees_modify fun _ _ h => ⟨congrArg f h.activation, h.store⟩

lemma agrees_push (v : Value) : Agrees (push v) (push v) := agrees_change _

lemma agrees_goTo (target : Nat) : Agrees (goTo target) (goTo target) := agrees_change _

lemma agrees_note (level : Level) (text text' : Unit → String) :
    Agrees (note level text) (note level text') :=
  agrees_modify fun _ _ h => ⟨h.activation, h.store⟩

lemma agrees_pop : Agrees pop pop := by
  intro s t h
  unfold pop
  rw [h.activation]
  cases s.activation.operands with
  | nil => exact .error _ h
  | cons v rest => exact .ok v ⟨rfl, h.store⟩

lemma agrees_peek : Agrees peek peek := by
  intro s t h
  unfold peek
  rw [h.activation]
  cases s.activation.operands with
  | nil => exact .error _ h
  | cons v rest => exact .ok v h

lemma agrees_popReference : Agrees popReference popReference := by
  refine agrees_pop.bind fun v => ?_
  cases v with
  | reference name => exact agrees_pure name
  | _ => exact agrees_throw _

lemma agrees_changeScopes (f : ScopeTree → ScopeId → ScopeTree) :
    Agrees (changeScopes f) (changeScopes f) :=
  agrees_modify fun s t h => ⟨h.activation, congrArg₂ Store.mk
    (by rw [h.scopes, h.activation]) h.calls⟩

lemma agrees_enterScope : Agrees enterScope enterScope := by
  refine agrees_modify fun s t h => ⟨?_, congrArg₂ Store.mk ?_ h.calls⟩
  · rw [h.scopes, h.activation]
  · rw [h.scopes, h.activation]

end Agrees

/-- **An instruction that is no call** does the same with any natives, whatever the log is. -/
theorem agrees_execute {r d : Registry} (h : d.operators = r.operators) (line : Option Nat)
    {i : Instruction} (hi : ∀ name count, i ≠ .call name count) :
    Agrees (execute r line i) (execute d line i) := by
  cases i with
  | pop => exact agrees_pop.bind fun _ => agrees_pure _
  | pushUndefined | pushInt | pushFloat | pushString | pushReference =>
    exact (agrees_push _).bind fun _ => agrees_pure _
  | read =>
    refine agrees_popReference.bind fun name => agrees_get_bind fun s t hst => ?_
    rw [hst.scopes, hst.activation]
    cases s.world.scopes.lookup s.activation.scope name with
    | some v => exact (agrees_push v).bind fun _ => agrees_pure _
    | none => exact agrees_throw _
  | write =>
    refine agrees_pop.bind fun v => agrees_popReference.bind fun name => ?_
    refine (agrees_changeScopes _).bind fun _ => ?_
    exact (agrees_push v).bind fun _ => agrees_pure _
  | declare name =>
    exact agrees_pop.bind fun v => (agrees_changeScopes _).bind fun _ => agrees_pure _
  | unary symbol =>
    rw [execute, execute, h]
    cases r.operators.unary? symbol with
    | none => exact agrees_throw _
    | some apply =>
      refine agrees_pop.bind fun v => ?_
      cases apply v with
      | ok result => exact (agrees_push result).bind fun _ => agrees_pure _
      | error e => exact agrees_throw e
  | binary symbol =>
    rw [execute, execute, h]
    cases r.operators.binary? symbol with
    | none => exact agrees_throw _
    | some operator =>
      refine agrees_pop.bind fun right => agrees_pop.bind fun left => ?_
      cases operator.apply left right with
      | ok result => exact (agrees_push result).bind fun _ => agrees_pure _
      | error e => exact agrees_throw e
  | jump kind target =>
    cases kind with
    | always => exact (agrees_goTo target).bind fun _ => agrees_pure _
    | ifFalse =>
      refine agrees_pop.bind fun v => ?_
      cases v.isTrue with
      | true => exact (agrees_pure _).bind fun _ => agrees_pure _
      | false => exact (agrees_goTo target).bind fun _ => agrees_pure _
    | ifFalseKeep =>
      refine agrees_peek.bind fun v => ?_
      cases v.isTrue with
      | true => exact (agrees_pure _).bind fun _ => agrees_pure _
      | false => exact (agrees_goTo target).bind fun _ => agrees_pure _
    | ifTrueKeep =>
      refine agrees_peek.bind fun v => ?_
      cases v.isTrue with
      | true => exact (agrees_goTo target).bind fun _ => agrees_pure _
      | false => exact (agrees_pure _).bind fun _ => agrees_pure _
  | call name count => exact absurd rfl (hi name count)
  | ret =>
    intro s t hst
    rw [execute, execute]
    dsimp only
    rw [hst.activation]
    cases s.activation.operands with
    | nil => exact .ok _ hst
    | cons v rest => exact .ok _ ⟨rfl, hst.store⟩
  | enterScope => exact agrees_enterScope.bind fun _ => agrees_pure _
  | leaveScope => exact (agrees_change _).bind fun _ => agrees_pure _

/-! ### Calls -/

/-- The result of a step is another one up to the log, or suspends the activation where the other
one pushes what the pending call will answer. -/
inductive DelayedResult : EStateM.Result RuntimeError Running Outcome →
    EStateM.Result RuntimeError Running Outcome → Prop
  | same {x y : EStateM.Result RuntimeError Running Outcome} (h : SameResult x y) :
      DelayedResult x y
  | later {s t : Running} {v : Value} {call : PendingCall} (h : Alike s t) (hv : call.Yields v) :
      DelayedResult (.ok .next (s.withOperands (v :: s.activation.operands)))
        (.ok (.suspend call) t)

variable {r d : Registry}

lemma answer_delayed {a b : Except RuntimeError Reply} (h : Reply.Delayed a b) (name : String)
    (hst : Alike s t) : DelayedResult (answer name a s) (answer name b t) := by
  cases h with
  | same a =>
    refine .same ?_
    cases a with
    | error e => exact agrees_throw e hst
    | ok reply =>
      cases reply with
      | ready v => exact ((agrees_push v).bind fun _ => agrees_pure _) hst
      | pending call =>
        exact (agrees_get_bind fun s t _ => (agrees_note _ _ _).bind fun _ => agrees_pure _) hst
  | later hv => exact .later (s := s) ⟨hst.activation, hst.store⟩ hv

lemma callNative_delayed {n m : Native} (h : n.Delays m) (name : String) (arguments : List Value)
    (line : Option Nat) (hst : Alike s t) :
    DelayedResult (callNative n name arguments line s) (callNative m name arguments line t) := by
  by_cases harity : ∀ expected, n.arity = some expected → expected = arguments.length
  · obtain ⟨j, hj⟩ := callNative_eq s name line harity
    obtain ⟨k, hk⟩ := callNative_eq t name line (n := m) (h.arity.symm ▸ harity)
    rw [hj, hk, hst.calls]
    exact answer_delayed (h.reply _ _) name (hst.called _ j k)
  · push Not at harity
    obtain ⟨expected, hexpected, hne⟩ := harity
    rw [callNative_arity hexpected hne, callNative_arity (h.arity.trans hexpected) hne]
    exact .same (.error _ hst)

lemma call_delayed (h : r.Delays d) (name : String) (count : Nat) (line : Option Nat)
    (hst : Alike s t) : DelayedResult (call r name count line s) (call d name count line t) := by
  by_cases hcount : count ≤ s.activation.operands.length
  · have hcount' : count ≤ t.activation.operands.length := by rwa [hst.activation]
    have hmeans : d.function? name t.activation.function.file =
        r.function? name s.activation.function.file := by rw [h.function?_eq, hst.activation]
    cases hfunction : r.function? name s.activation.function.file with
    | some found =>
      obtain ⟨f, file⟩ := found
      have hfunction' := hmeans.trans hfunction
      by_cases harity : count = f.parameters.length
      · obtain ⟨j, hj⟩ := call_of_function line hcount hfunction harity
        obtain ⟨k, hk⟩ := call_of_function line hcount' hfunction' harity
        rw [hj, hk, hst.scopes, hst.arguments]
        exact .same (.ok _ ((hst.taken count).entered f file _ j k))
      · obtain ⟨j, hj⟩ := call_of_arity line hcount hfunction harity
        obtain ⟨k, hk⟩ := call_of_arity line hcount' hfunction' harity
        rw [hj, hk]
        exact .same (.error _ ((hst.taken count).withJournal j k))
    | none =>
      have hfunction' := hmeans.trans hfunction
      have hnatives := h.natives name
      generalize hnative : r.natives.get? name = native,
        hnative' : d.natives.get? name = native' at hnatives
      cases hnatives with
      | none =>
        rw [call_of_undefined hcount hfunction hnative,
          call_of_undefined hcount' hfunction' hnative']
        exact .same (.error _ (hst.taken count))
      | some hdelays =>
        rw [call_of_native hcount hfunction hnative, call_of_native hcount' hfunction' hnative',
          hst.arguments]
        exact callNative_delayed hdelays name _ line (hst.taken count)
  · have hcount' : ¬ count ≤ t.activation.operands.length := by rwa [hst.activation]
    unfold call
    simp only [bind, EStateM.bind, popArguments, Nat.lt_of_not_le hcount,
      Nat.lt_of_not_le hcount', if_true]
    exact .same (.error _ hst)

/-! ### Steps -/

lemma execute_delayed (h : r.Delays d) (line : Option Nat) (i : Instruction) (hst : Alike s t) :
    DelayedResult (execute r line i s) (execute d line i t) := by
  cases i with
  | call name count => exact call_delayed h name count.toNat line hst
  | _ => exact .same (agrees_execute h.operators line (fun _ _ => Instruction.noConfusion) hst)

/-- **A step with answers that come later** does the same, or suspends before an answer that is
delayed. -/
theorem step_delayed (h : r.Delays d) (hst : Alike s t) :
    DelayedResult (step r s) (step d t) := by
  unfold step
  rw [hst.activation]
  dsimp only
  split
  · split
    · next fault _ => exact .same (.error _ hst)
    · next i next _ =>
      exact execute_delayed h _ i ⟨congrArg (fun a => { a with offset := next }) hst.activation,
        hst.store⟩
  · exact .same (.ok _ hst)

end Running

end Coscript
