import Coscript.Proofs.Admissible
import Coscript.Proofs.Evaluation
import Coscript.Proofs.Layout
import Coscript.Proofs.Scopes
import Coscript.Proofs.Stepping

/-!
# Code does what evaluation says

Where the code of an expression or a statement stands in a function, an execution that comes to its
beginning does what the evaluation says: it comes to the end of the code with the value as one more
operand, or to a return with the value that is returned, or it fails in the same way, and it changes
the store as the evaluation does. Where the evaluation is unfinished with some bound, the execution
has nothing to report after as many turns.

* `Execution.Simulates`: an execution does what an evaluation says;
* `Script.Expression.eval_simulates`: the code of expressions;
* `Script.Statement.exec_simulates`: the code of statements.
-/

namespace Coscript

open Script

/-! ### Where code runs -/

/-- A scope lies inside the global variables of its file, and the global variables of loaded files
lie in outermost scopes. -/
structure Registry.Locates (r : Registry) (t : ScopeTree) (scope globals : ScopeId) : Prop where
  inside : t.Inside scope globals
  outermost : ∀ name file, r.files.get? name = some file → t.Outermost file.globals

namespace Registry.Locates

variable {r : Registry} {t t' : ScopeTree} {scope globals : ScopeId}

lemma grows (h : r.Locates t scope globals) (hg : t.Grows t') : r.Locates t' scope globals :=
  ⟨h.inside.grows hg, fun name file hfile => (h.outermost name file hfile).grows hg⟩

lemma addChild (h : r.Locates t scope globals) :
    r.Locates (t.addChild scope).1 (t.addChild scope).2 globals :=
  ⟨h.inside.addChild, (h.grows (ScopeTree.grows_addChild t scope)).outermost⟩

end Registry.Locates

/-! ### Executions that do what is said -/

namespace Execution

variable {α β : Type} {r : Registry} {m n : Nat} {w w' w'' : World} {p p' p'' : Phase}
variable {P Q : α → Phase → Prop} {R : β → Phase → Prop} {x : Evaluation α}

/-- After `m` turns without a report an execution has come to another phase. -/
def Leads (r : Registry) (m : Nat) (w : World) (p : Phase) (w' : World) (p' : Phase) : Prop :=
  ∀ fuel, runPhase r (m + fuel) w p = runPhase r fuel w' p'

lemma Leads.refl : Leads r 0 w p w p := fun fuel => by rw [Nat.zero_add]

lemma Leads.trans (h : Leads r m w p w' p') (h' : Leads r n w' p' w'' p'') :
    Leads r (m + n) w p w'' p'' := fun fuel => by rw [Nat.add_assoc, h, h']

lemma leads_of_turn (h : advance r w p = ⟨w', p', none⟩) : Leads r 1 w p w' p' := fun fuel => by
  rw [Nat.add_comm, runPhase, h]

/-- More turns do not change what is reported. -/
lemma runPhase_mono {report : Report} (hle : m ≤ n)
    (h : runPhase r m w p = some (w', p', report)) : runPhase r n w p = some (w', p', report) := by
  induction m generalizing n w p with
  | zero => cases h
  | succ m ih =>
    obtain ⟨n, rfl⟩ : ∃ k, n = k + 1 := ⟨n - 1, by omega⟩
    rw [runPhase] at h ⊢
    split at h
    · exact h
    · exact ih (by omega) h

lemma runPhase_eq_none_of_le (hle : m ≤ n) (h : runPhase r n w p = none) :
    runPhase r m w p = none := by
  cases hm : runPhase r m w p with
  | none => rfl
  | some found =>
    obtain ⟨w', p', report⟩ := found
    rw [runPhase_mono hle hm] at h
    cases h

/-- **An execution does what an evaluation says.** It comes to a phase that the result asks for, or
fails as the evaluation does, and the store is the same then. If the bound does not suffice, there
is nothing to report after `n` turns. -/
def Simulates (r : Registry) (n : Nat) (w : World) (p : Phase) (P : α → Phase → Prop) :
    Evaluation α → Prop
  | .done σ a => ∃ m w' p', Leads r m w p w' p' ∧ w'.store = σ ∧ w.scopes.Grows w'.scopes ∧ P a p'
  | .fails σ e => ∃ m w' p', runPhase r m w p = some (w', p', .failed e) ∧ w'.store = σ
  | .unfinished => runPhase r n w p = none

namespace Simulates

lemma done {σ : Store} {a : α} (hσ : w.store = σ) (h : P a p) :
    Simulates r n w p P (.done σ a) :=
  ⟨0, w, p, .refl, hσ, .refl _, h⟩

lemma imp (h : Simulates r n w p P x) (himp : ∀ a p', P a p' → Q a p') :
    Simulates r n w p Q x := by
  cases x with
  | done σ a =>
    obtain ⟨m, w', p', hleads, hσ, hgrows, hp⟩ := h
    exact ⟨m, w', p', hleads, hσ, hgrows, himp a p' hp⟩
  | fails | unfinished => exact h

lemma mono (hle : m ≤ n) (h : Simulates r n w p P x) : Simulates r m w p P x := by
  cases x with
  | done | fails => exact h
  | unfinished => exact runPhase_eq_none_of_le hle h

/-- Where an execution comes to after `m` turns, it goes on. -/
lemma of_leads (hleads : Leads r m w p w' p') (hgrows : w.scopes.Grows w'.scopes)
    (h : Simulates r n w' p' P x) : Simulates r (m + n) w p P x := by
  cases x with
  | done σ a =>
    obtain ⟨k, w'', p'', hleads', hσ, hgrows', hp⟩ := h
    exact ⟨m + k, w'', p'', hleads.trans hleads', hσ, hgrows.trans hgrows', hp⟩
  | fails σ e =>
    obtain ⟨k, w'', p'', hrun, hσ⟩ := h
    exact ⟨m + k, w'', p'', (hleads k).trans hrun, hσ⟩
  | unfinished => exact (hleads n).trans h

/-- **What comes after a result** is simulated from where the execution has come to. -/
lemma bind {f : Store → α → Evaluation β} (h : Simulates r n w p P x)
    (hf : ∀ w' a p', w.scopes.Grows w'.scopes → P a p' → Simulates r n w' p' R (f w'.store a)) :
    Simulates r n w p R (x.bind f) := by
  cases x with
  | done σ a =>
    obtain ⟨m, w', p', hleads, rfl, hgrows, hp⟩ := h
    exact (of_leads hleads hgrows (hf w' a p' hgrows hp)).mono (Nat.le_add_left n m)
  | fails | unfinished => exact h

/-- An error that is reported after one turn. -/
lemma of_failure {e : RuntimeError} (h : advance r w p = ⟨w', p', some (.failed e)⟩) :
    Simulates r n w p P (.fails w'.store e) :=
  ⟨1, w', p', by rw [runPhase, h], rfl⟩

end Simulates

/-! ### Instructions -/

/-- A function stands at an offset with some operands, in a scope and in some blocks. -/
def standing (f : Function) (k : Nat) (vs : List Value) (scope : ScopeId) (outer : List ScopeId)
    (callers : List Activation) : Phase :=
  .active none ⟨f, k, vs, scope, outer⟩ callers

variable {f : Function} {k : Nat} {vs : List Value} {scope : ScopeId} {outer : List ScopeId}
variable {callers : List Activation} {e : Emission} {a : Activation}

/-- A turn executes the instruction that a function stands at. -/
lemma step_standing (r : Registry) (w : World) (vs : List Value) (scope : ScopeId)
    (outer : List ScopeId) (hat : f.HasAt k e) :
    ∃ j, Running.step r ⟨w, f, k, vs, scope, outer⟩ =
      Running.execute r e.line? e.instruction
        ⟨{ w with journal := j }, f, k + e.instruction.width, vs, scope, outer⟩ := by
  obtain ⟨j, hj⟩ := Running.step_eq (r := r) (a := ⟨f, k, vs, scope, outer⟩) w hat.lt hat.decode
  rw [hat.line] at hj
  exact ⟨j, hj⟩

namespace Simulates

/-- After a step that leads to the next one an execution goes on. -/
lemma of_step_next {s : Running} (hstep : Running.step r ⟨w, a⟩ = .ok .next s)
    (hgrows : w.scopes.Grows s.world.scopes)
    (h : Simulates r n s.world (.active none s.activation callers) P x) :
    Simulates r (n + 1) w (.active none a callers) P x := by
  rw [Nat.add_comm]
  refine of_leads (leads_of_turn ?_) hgrows h
  rw [advance, stepCurrent, hstep]

/-- A step that fails ends an execution. -/
lemma of_step_error {s : Running} {error : RuntimeError}
    (hstep : Running.step r ⟨w, a⟩ = .error error s) :
    Simulates r n w (.active none a callers) P (.fails s.world.store error) := by
  have hturn : advance r w (.active none a callers) =
      ⟨s.world, .active none s.activation callers, some (.failed error)⟩ := by
    rw [advance, stepCurrent, hstep]
  exact of_failure hturn

/-- **An instruction that leads to the next one** takes a turn. -/
lemma of_next {t : ScopeTree} (a : Activation) (hat : f.HasAt k e) (hgrows : w.scopes.Grows t)
    (hexecute : ∀ j, Running.execute r e.line? e.instruction
        ⟨{ w with journal := j }, f, k + e.instruction.width, vs, scope, outer⟩ =
      .ok .next ⟨{ w with scopes := t, journal := j }, a⟩)
    (h : ∀ j, Simulates r n { w with scopes := t, journal := j } (.active none a callers) P x) :
    Simulates r (n + 1) w (standing f k vs scope outer callers) P x := by
  obtain ⟨j, hj⟩ := step_standing r w vs scope outer hat
  exact of_step_next (hj.trans (hexecute j)) hgrows (h j)

/-- An instruction that changes no scope. -/
lemma of_step (a : Activation) (hat : f.HasAt k e)
    (hexecute : ∀ j, Running.execute r e.line? e.instruction
        ⟨{ w with journal := j }, f, k + e.instruction.width, vs, scope, outer⟩ =
      .ok .next ⟨{ w with journal := j }, a⟩)
    (h : ∀ j, Simulates r n { w with journal := j } (.active none a callers) P x) :
    Simulates r n w (standing f k vs scope outer callers) P x :=
  mono (Nat.le_succ n) (of_next a hat (.refl w.scopes) hexecute h)

/-- **An instruction that fails** ends the execution. -/
lemma of_error {error : RuntimeError} (hat : f.HasAt k e)
    (hexecute : ∀ j, Running.execute r e.line? e.instruction
        ⟨{ w with journal := j }, f, k + e.instruction.width, vs, scope, outer⟩ =
      .error error ⟨{ w with journal := j }, a⟩) :
    Simulates r n w (standing f k vs scope outer callers) P (.fails w.store error) := by
  obtain ⟨j, hj⟩ := step_standing r w vs scope outer hat
  exact of_step_error (hj.trans (hexecute j))

end Simulates

end Execution

open Execution

/-! ### Expressions -/

variable {r : Registry} {n : Nat} {c : Setting} {f : Function} {callers : List Activation}

namespace Script

/-- The value stands as one more operand behind some code. -/
def Pushed (f : Function) (k : Nat) (vs : List Value) (scope : ScopeId) (outer : List ScopeId)
    (callers : List Activation) (v : Value) (p : Phase) : Prop :=
  p = standing f k (v :: vs) scope outer callers

/-- Some values stand as operands behind some code, the last one on top. -/
def PushedAll (f : Function) (k : Nat) (vs : List Value) (scope : ScopeId) (outer : List ScopeId)
    (callers : List Activation) (us : List Value) (p : Phase) : Prop :=
  p = standing f k (us.reverse ++ vs) scope outer callers

/-- A function is evaluated as its code is executed: with the same operators, and with calls that do
what the instructions for them do. -/
structure Setting.Simulated (c : Setting) (r : Registry) (n : Nat) (f : Function)
    (callers : List Activation) : Prop where
  operators : c.operators = r.operators
  call : ∀ {name : String} {arguments : List Value} {line k k' : Nat} {w : World}
    {vs : List Value} {scope : ScopeId} {outer : List ScopeId}, arguments.length < 256 →
    r.Locates w.scopes scope c.globals →
    f.HasAt k ⟨.call name (.ofNat arguments.length), some line⟩ →
    k + (Instruction.call name (.ofNat arguments.length)).width = k' →
    Simulates r n w (standing f k (arguments.reverse ++ vs) scope outer callers)
      (Pushed f k' vs scope outer callers) (c.call name arguments line w.store)

lemma Setting.Simulated.mono {m : Nat} (hle : m ≤ n) (h : c.Simulated r n f callers) :
    c.Simulated r m f callers :=
  ⟨h.operators, fun hcount hin hat hk => (h.call hcount hin hat hk).mono hle⟩

/-- The last instruction of an expression pushes its value. -/
lemma pushed_simulates {e : Emission} {k k' : Nat} {w : World} {t : ScopeTree} {v : Value}
    {vs us : List Value} {scope : ScopeId} {outer : List ScopeId} (hat : f.HasAt k e)
    (hk : k + e.instruction.width = k') (hgrows : w.scopes.Grows t)
    (hexecute : ∀ j, Running.execute r e.line? e.instruction
        ⟨{ w with journal := j }, f, k', us, scope, outer⟩ =
      .ok .next ⟨{ w with scopes := t, journal := j }, f, k', v :: vs, scope, outer⟩) :
    Simulates r n w (standing f k us scope outer callers) (Pushed f k' vs scope outer callers)
      (.done ⟨t, w.calls⟩ v) := by
  subst hk
  refine .mono (Nat.le_succ n) (.of_next ⟨f, _, v :: vs, scope, outer⟩ hat hgrows hexecute ?_)
  exact fun j => .done rfl rfl

/-- An instruction that computes a value pushes it, or fails as the computation does. -/
lemma computed_simulates {e : Emission} {k k' : Nat} {w : World} {vs us : List Value}
    {scope : ScopeId} {outer : List ScopeId} (result : Except RuntimeError Value)
    (hat : f.HasAt k e) (hk : k + e.instruction.width = k')
    (hok : ∀ v, result = .ok v → ∀ w', Running.execute r e.line? e.instruction
        ⟨w', f, k', us, scope, outer⟩ = .ok .next ⟨w', f, k', v :: vs, scope, outer⟩)
    (herror : ∀ error, result = .error error → ∀ w', Running.execute r e.line? e.instruction
        ⟨w', f, k', us, scope, outer⟩ = .error error ⟨w', f, k', vs, scope, outer⟩) :
    Simulates r n w (standing f k us scope outer callers) (Pushed f k' vs scope outer callers)
      (.ofExcept w.store result) := by
  cases result with
  | ok v => exact pushed_simulates hat hk (.refl _) fun _ => hok v rfl _
  | error error =>
    subst hk
    exact .of_error hat fun _ => herror error rfl _

namespace Setting

variable {w : World} {symbol : String}

lemma assign_store {scope : ScopeId} (h : r.Locates w.scopes scope c.globals) (name : String)
    (v : Value) : c.assign scope name v w.store = ⟨w.scopes.assign scope name v, w.calls⟩ := by
  rw [h.inside.assign]
  rfl

lemma unary_eq {apply : UnaryOperation} (h : c.operators.unary? symbol = some apply) (v : Value) :
    c.unary symbol v = apply v := by
  rw [unary, h]

lemma binary_eq {operator : BinaryOperator} (h : c.operators.binary? symbol = some operator)
    (v u : Value) : c.binary symbol v u = operator.apply v u := by
  rw [binary, h]

end Setting

namespace Expression

variable {symbol : String} {kind : JumpKind}

lemma ne_of_deciding? (h : deciding? symbol = none) : symbol ≠ "&&" ∧ symbol ≠ "||" := by
  constructor <;>
  · rintro rfl
    cases h

lemma cases_of_deciding? (h : deciding? symbol = some kind) :
    symbol = "&&" ∧ kind = .ifFalseKeep ∨ symbol = "||" ∧ kind = .ifTrueKeep := by
  unfold deciding? at h
  split at h
  · exact .inl ⟨rfl, (Option.some.inj h).symm⟩
  · exact .inr ⟨rfl, (Option.some.inj h).symm⟩
  · cases h

/-- A jump that keeps its operand passes over the right operand if the left one decides, and else
the right operand takes the place of the left one. -/
lemma jumpKeep_simulates {k k' : Nat} {w : World} {v : Value} {vs : List Value} {scope : ScopeId}
    {outer : List ScopeId} {right : Store → Evaluation Value} (decides : Bool)
    (hhas : f.Has k (.ofInstructions [.jump kind k', .pop]))
    (hexecute : ∀ w, Running.execute r none (.jump kind k')
        ⟨w, f, k + jumpWidth, v :: vs, scope, outer⟩ =
      .ok .next ⟨w, f, if decides then k' else k + jumpWidth, v :: vs, scope, outer⟩)
    (hright : ∀ w', w'.store = w.store → Simulates r n w'
      (standing f (k + jumpWidth + 1) vs scope outer callers) (Pushed f k' vs scope outer callers)
      (right w'.store)) :
    Simulates r n w (standing f k (v :: vs) scope outer callers) (Pushed f k' vs scope outer callers)
      (if decides then .done w.store v else right w.store) := by
  obtain ⟨hjump, hpop, -⟩ := hhas
  cases decides with
  | true => exact .of_step _ hjump (fun j => hexecute _) fun j => .done rfl rfl
  | false =>
    refine .of_step _ hjump (fun j => hexecute _) fun j => ?_
    exact .of_step ⟨f, k + jumpWidth + 1, vs, scope, outer⟩ hpop (fun _ => rfl)
      fun j => hright _ rfl

/-- The code of an expression leaves its value as an operand, wherever the code stands. -/
def CodeSimulates (c : Setting) (r : Registry) (n : Nat) (f : Function) (callers : List Activation)
    (e : Expression) : Prop :=
  ∀ {k k' : Nat} {w : World} {vs : List Value} {scope : ScopeId} {outer : List ScopeId},
    f.Has k (e.code k) → k + (e.code k).width = k' → r.Locates w.scopes scope c.globals →
    Simulates r n w (standing f k vs scope outer callers) (Pushed f k' vs scope outer callers)
      (e.eval c scope w.store)

section Binary

variable {left right : Expression} (hleft : left.CodeSimulates c r n f callers)
  (hright : right.CodeSimulates c r n f callers)

include hleft hright

/-- An operator that is computed from the values of both operands. -/
lemma computing_simulates (hc : c.Simulated r n f callers)
    (hknown : (r.operators.binary? symbol).isSome) (hdeciding : deciding? symbol = none) :
    (binary symbol left right).CodeSimulates c r n f callers := by
  intro k k' w vs scope outer hhas hk hin
  obtain ⟨operator, hoperator⟩ := Option.isSome_iff_exists.mp hknown
  obtain ⟨hand, hor⟩ := ne_of_deciding? hdeciding
  rw [code] at hhas hk
  simp only [hdeciding] at hhas hk
  obtain ⟨hcodes, hbinary, -⟩ := Function.has_append.mp hhas
  obtain ⟨hl, hr⟩ := Function.has_append.mp hcodes
  rw [eval]
  refine .bind (hleft hl rfl hin) fun w' v p' hgrows hp => ?_
  subst hp
  rw [if_neg hand, if_neg hor]
  refine .bind (hright hr rfl (hin.grows hgrows)) fun w'' u p' _ hp => ?_
  subst hp
  rw [Setting.binary_eq (hc.operators ▸ hoperator)]
  rw [Emissions.add_width_append] at hbinary
  refine computed_simulates (operator.apply v u) hbinary ?_
    (fun _ h _ => Running.execute_binary hoperator h)
    fun _ h _ => Running.execute_binary_error hoperator h
  simpa [Nat.add_assoc] using hk

/-- An operator that lets its left operand decide. -/
lemma deciding_simulates (hdeciding : deciding? symbol = some kind) :
    (binary symbol left right).CodeSimulates c r n f callers := by
  intro k k' w vs scope outer hhas hk hin
  rw [code] at hhas hk
  simp only [hdeciding] at hhas hk
  have hmiddle : ∀ target, k + (left.code k ++
      Emissions.ofInstructions [.jump kind target, .pop]).width =
      k + (left.code k).width + jumpWidth + 1 := fun _ => by
    rw [Emissions.add_width_append]
    rfl
  rw [Emissions.add_width_append, hmiddle] at hk
  obtain ⟨hcodes, hr⟩ := Function.has_append.mp hhas
  obtain ⟨hl, hdecide⟩ := Function.has_append.mp hcodes
  rw [hk] at hdecide
  rw [hmiddle] at hr
  rw [eval]
  refine .bind (hleft hl rfl hin) fun w' v p' hgrows hp => ?_
  subst hp
  have hbehind : ∀ w'', w''.store = w'.store → Simulates r n w''
      (standing f (k + (left.code k).width + jumpWidth + 1) vs scope outer callers)
      (Pushed f k' vs scope outer callers) (right.eval c scope w''.store) := by
    intro w'' hw
    have hscopes : w''.scopes = w'.scopes := congrArg Store.scopes hw
    exact hright hr hk (hscopes ▸ hin.grows hgrows)
  rcases cases_of_deciding? hdeciding with ⟨rfl, rfl⟩ | ⟨rfl, rfl⟩
  · have h := jumpKeep_simulates (!v.isTrue) hdecide
      (fun _ => (Running.execute_ifFalseKeep k').trans (by cases v.isTrue <;> rfl)) hbehind
    cases hv : v.isTrue <;> simpa [hv] using h
  · have h := jumpKeep_simulates v.isTrue hdecide
      (fun _ => (Running.execute_ifTrueKeep k').trans (by cases v.isTrue <;> rfl)) hbehind
    simpa using h

end Binary

mutual

/-- **The code of an expression** leaves its value as an operand. -/
theorem eval_simulates (hc : c.Simulated r n f callers) : ∀ {e : Expression} {k k' : Nat}
    {w : World} {vs : List Value} {scope : ScopeId} {outer : List ScopeId},
    e.Admissible r.operators → f.Has k (e.code k) → k + (e.code k).width = k' →
    r.Locates w.scopes scope c.globals →
    Simulates r n w (standing f k vs scope outer callers) (Pushed f k' vs scope outer callers)
      (e.eval c scope w.store)
  | .int _, _, _, _, _, _, _, _, hhas, hk, _ =>
    pushed_simulates hhas.1 hk (.refl _) fun _ => rfl
  | .float _, _, _, _, _, _, _, _, hhas, hk, _ =>
    pushed_simulates hhas.1 hk (.refl _) fun _ => rfl
  | .string _, _, _, _, _, _, _, _, hhas, hk, _ =>
    pushed_simulates hhas.1 hk (.refl _) fun _ => rfl
  | .variable name, k, k', w, vs, scope, outer, _, hhas, hk, _ => by
    obtain ⟨hname, hread, -⟩ := hhas
    rw [eval]
    refine .of_step ⟨f, k + (Instruction.pushReference name).width, .reference name :: vs, scope,
      outer⟩ hname (fun _ => rfl) fun j => ?_
    cases hlookup : w.store.scopes.lookup scope name with
    | some v =>
      refine pushed_simulates hread ?_ (.refl _) fun j => Running.execute_read hlookup
      simpa [code, Nat.add_assoc] using hk
    | none => exact .of_error hread fun j => Running.execute_read_none hlookup
  | .assign name value, k, k', w, vs, scope, outer, ⟨_, hvalue⟩, hhas, hk, hin => by
    rw [code] at hhas hk
    obtain ⟨hleft, hwrite, -⟩ := Function.has_append.mp hhas
    obtain ⟨⟨hname, -⟩, hcode⟩ := Function.has_append.mp hleft
    rw [eval]
    refine .of_step ⟨f, k + (Instruction.pushReference name).width, .reference name :: vs, scope,
      outer⟩ hname (fun _ => rfl) fun j => ?_
    refine .bind (eval_simulates hc hvalue hcode rfl hin) fun w' v p' hgrows hp => ?_
    subst hp
    rw [Setting.assign_store (hin.grows hgrows)]
    refine pushed_simulates (e := ⟨.write, none⟩) ?_ ?_ (ScopeTree.grows_declare _ _ name v)
      fun j => rfl
    · simpa [Nat.add_assoc] using hwrite
    · simpa [Nat.add_assoc] using hk
  | .unary symbol operand, k, k', w, vs, scope, outer, ⟨_, hknown, hoperand⟩, hhas, hk, hin => by
    rw [code] at hhas hk
    obtain ⟨hcode, hunary, -⟩ := Function.has_append.mp hhas
    obtain ⟨apply, happly⟩ := Option.isSome_iff_exists.mp hknown
    rw [eval]
    refine .bind (eval_simulates hc hoperand hcode rfl hin) fun w' v p' hgrows hp => ?_
    subst hp
    rw [Setting.unary_eq (hc.operators ▸ happly)]
    refine computed_simulates (apply v) hunary ?_ (fun _ h _ => Running.execute_unary happly h)
      fun _ h _ => Running.execute_unary_error happly h
    simpa [Nat.add_assoc] using hk
  | .binary symbol left right, _, _, _, _, _, _, ⟨_, hknown, hleft, hright⟩, hhas, hk, hin => by
    have hleft : left.CodeSimulates c r n f callers := eval_simulates hc hleft
    have hright : right.CodeSimulates c r n f callers := eval_simulates hc hright
    cases hdeciding : deciding? symbol with
    | none => exact computing_simulates hleft hright hc hknown hdeciding hhas hk hin
    | some kind => exact deciding_simulates hleft hright hdeciding hhas hk hin
  | .call name arguments line, k, k', w, vs, scope, outer, ⟨_, hcount, harguments⟩, hhas, hk,
      hin => by
    rw [code] at hhas hk
    obtain ⟨hcodes, hcall, -⟩ := Function.has_append.mp hhas
    rw [eval]
    refine .bind (evalAll_simulates hc harguments hcodes rfl hin) fun w' us p' hgrows hp => ?_
    obtain ⟨hp, hlength⟩ := hp
    subst hp
    rw [← hlength] at hcall hcount hk
    exact hc.call hcount (hin.grows hgrows) hcall (by simpa [Nat.add_assoc] using hk)

/-- The code of expressions leaves their values as operands. -/
theorem evalAll_simulates (hc : c.Simulated r n f callers) : ∀ {es : List Expression} {k k' : Nat}
    {w : World} {vs : List Value} {scope : ScopeId} {outer : List ScopeId},
    AllAdmissible r.operators es → f.Has k (codeOfAll es k) → k + (codeOfAll es k).width = k' →
    r.Locates w.scopes scope c.globals →
    Simulates r n w (standing f k vs scope outer callers)
      (fun us p => PushedAll f k' vs scope outer callers us p ∧ us.length = es.length)
      (evalAll c scope es w.store)
  | [], k, k', w, vs, scope, outer, _, _, hk, _ => by
    cases hk
    exact .done rfl ⟨rfl, rfl⟩
  | e :: es, k, k', w, vs, scope, outer, ⟨he, hes⟩, hhas, hk, hin => by
    rw [codeOfAll] at hhas hk
    obtain ⟨hfirst, hrest⟩ := Function.has_append.mp hhas
    rw [evalAll]
    refine .bind (eval_simulates hc he hfirst rfl hin) fun w' v p' hgrows hp => ?_
    subst hp
    rw [Emissions.add_width_append] at hk
    refine .bind (evalAll_simulates hc hes hrest hk (hin.grows hgrows)) fun w'' us p' _ hp => ?_
    obtain ⟨rfl, hlength⟩ := hp
    exact .done rfl ⟨by simp [PushedAll], by simp [hlength]⟩

end

lemma evalOrUndefined_simulates (hc : c.Simulated r n f callers) {e? : Option Expression}
    {k k' : Nat} {w : World} {vs : List Value} {scope : ScopeId} {outer : List ScopeId}
    (he : OptionAdmissible r.operators e?) (hhas : f.Has k (codeOrUndefined e? k))
    (hk : k + (codeOrUndefined e? k).width = k') (hin : r.Locates w.scopes scope c.globals) :
    Simulates r n w (standing f k vs scope outer callers) (Pushed f k' vs scope outer callers)
      (evalOrUndefined c scope e? w.store) := by
  cases e? with
  | none => exact pushed_simulates hhas.1 hk (.refl _) fun _ => rfl
  | some e => exact eval_simulates hc (he e rfl) hhas hk hin

end Expression

/-! ### Statements -/

/-- How an execution comes out of some code: at its end as it came in, or at a return with the value
that is returned. -/
inductive Ends (f : Function) (k : Nat) (vs : List Value) (scope : ScopeId) (outer : List ScopeId)
    (callers : List Activation) : Completion → Phase → Prop
  | normal : Ends f k vs scope outer callers .normal (standing f k vs scope outer callers)
  | returned {k' : Nat} {us : List Value} {scope' : ScopeId} {outer' : List ScopeId} {v : Value}
      (h : f.HasAt k' ⟨.ret, none⟩) : Ends f k vs scope outer callers (.returned v)
      (standing f k' (v :: us) scope' outer' callers)

section Statements

variable {k k' : Nat} {w : World} {p : Phase} {vs vs' : List Value} {scope scope' : ScopeId}
variable {outer outer' : List ScopeId} {x : Evaluation Completion}

/-- What comes after some statements is simulated from behind their code. -/
lemma next_simulates {g : Store → Evaluation Completion}
    (h : Simulates r n w p (Ends f k vs scope outer callers) x)
    (hg : ∀ w', w.scopes.Grows w'.scopes → Simulates r n w' (standing f k vs scope outer callers)
      (Ends f k' vs' scope' outer' callers) (g w'.store)) :
    Simulates r n w p (Ends f k' vs' scope' outer' callers) (x.next g) := by
  refine .bind h fun w' completion p' hgrows hp => ?_
  cases hp with
  | normal => exact hg w' hgrows
  | returned h => exact .done rfl (.returned h)

lemma Evaluation.next_done (x : Evaluation Completion) : (x.next fun σ => .done σ .normal) = x := by
  cases x with
  | done σ completion => cases completion <;> rfl
  | fails | unfinished => rfl

/-- The last instruction of a statement. -/
lemma ended_simulates {e : Emission} {t : ScopeTree} {us : List Value} (hat : f.HasAt k e)
    (hk : k + e.instruction.width = k') (hgrows : w.scopes.Grows t)
    (hexecute : ∀ j, Running.execute r e.line? e.instruction
        ⟨{ w with journal := j }, f, k', us, scope, outer⟩ =
      .ok .next ⟨{ w with scopes := t, journal := j }, f, k', vs, scope', outer'⟩) :
    Simulates r n w (standing f k us scope outer callers)
      (Ends f k' vs scope' outer' callers) (.done ⟨t, w.calls⟩ .normal) := by
  subst hk
  refine .mono (Nat.le_succ n) (.of_next ⟨f, _, vs, scope', outer'⟩ hat hgrows hexecute ?_)
  exact fun j => .done rfl .normal

/-- What stands in a scope of its own. -/
lemma Emissions.has_of_inScope {es : Emissions} (h : f.Has k es.inScope) : f.Has (k + 1) es := by
  obtain ⟨hinside, -⟩ := Function.has_append.mp h
  exact (Function.has_append.mp hinside).2

/-- Code in a scope of its own. -/
lemma inNewScope_simulates {es : Emissions} {body : ScopeId → Store → Evaluation Completion}
    (hhas : f.Has k es.inScope) (hk : k + es.inScope.width = k')
    (hin : r.Locates w.scopes scope c.globals)
    (hbody : ∀ {w' : World} {inner : ScopeId}, r.Locates w'.scopes inner c.globals →
      Simulates r n w' (standing f (k + 1) vs inner (scope :: outer) callers)
        (Ends f (k + 1 + es.width) vs inner (scope :: outer) callers) (body inner w'.store)) :
    Simulates r n w (standing f k vs scope outer callers) (Ends f k' vs scope outer callers)
      (inNewScope scope w.store body) := by
  rw [Emissions.inScope] at hhas hk
  obtain ⟨hinside, hleave, -⟩ := Function.has_append.mp hhas
  obtain ⟨⟨henter, -⟩, -⟩ := Function.has_append.mp hinside
  refine .mono (Nat.le_succ n) (.of_next ⟨f, k + 1, vs, (w.scopes.addChild scope).2,
    scope :: outer⟩ henter (ScopeTree.grows_addChild _ _) (fun _ => rfl) fun j => ?_)
  rw [inNewScope, ← Evaluation.next_done (body _ _)]
  refine next_simulates (hbody hin.addChild) fun w' hgrows => ?_
  rw [Emissions.add_width_append] at hk hleave
  rw [Emissions.add_width_append] at hk
  exact ended_simulates hleave hk (.refl _) fun _ => rfl

/-- A condition is evaluated, and then a jump passes over what follows if it is false. -/
lemma condition_simulates (hc : c.Simulated r n f callers) {condition : Expression}
    {target : Nat} {yes no : Store → Evaluation Completion}
    (hcondition : condition.Admissible r.operators) (hhas : f.Has k (condition.code k))
    (hjump : f.HasAt (k + (condition.code k).width) ⟨.jump .ifFalse target, none⟩)
    (hin : r.Locates w.scopes scope c.globals)
    (hyes : ∀ w', r.Locates w'.scopes scope c.globals → Simulates r n w'
      (standing f (k + (condition.code k).width + jumpWidth) vs scope outer callers)
      (Ends f k' vs scope outer callers) (yes w'.store))
    (hno : ∀ w', r.Locates w'.scopes scope c.globals → Simulates r n w'
      (standing f target vs scope outer callers) (Ends f k' vs scope outer callers) (no w'.store)) :
    Simulates r n w (standing f k vs scope outer callers) (Ends f k' vs scope outer callers)
      ((condition.eval c scope w.store).bind fun σ v => if v.isTrue then yes σ else no σ) := by
  refine .bind (condition.eval_simulates hc hcondition hhas rfl hin) fun w' v p' hgrows hp => ?_
  subst hp
  have hin' := hin.grows hgrows
  refine .of_step _ hjump (fun j => Running.execute_ifFalse target) fun j => ?_
  cases v.isTrue with
  | true => exact hyes _ hin'
  | false => exact hno _ hin'

/-- A loop of `m` rounds, where the body may go round its own loops more often. -/
lemma loop_simulates (hc : c.Simulated r n f callers) {condition : Expression} {back : Nat}
    {body : Store → Evaluation Completion} (hcondition : condition.Admissible r.operators)
    (hhas : f.Has k (condition.code k))
    (hjump : f.HasAt (k + (condition.code k).width) ⟨.jump .ifFalse k', none⟩)
    (hback : f.HasAt back ⟨.jump .always k, none⟩)
    (hbody : ∀ w', r.Locates w'.scopes scope c.globals → Simulates r n w'
      (standing f (k + (condition.code k).width + jumpWidth) vs scope outer callers)
      (Ends f back vs scope outer callers) (body w'.store)) : ∀ {m : Nat} {w : World}, m ≤ n →
    r.Locates w.scopes scope c.globals → Simulates r m w (standing f k vs scope outer callers)
      (Ends f k' vs scope outer callers) (.loop (condition.eval c scope) body m w.store)
  | 0, _, _, _ => rfl
  | m + 1, w, hle, hin => by
    rw [Evaluation.loop]
    refine condition_simulates (hc.mono hle) hcondition hhas hjump hin (fun w' hin' => ?_)
      fun w' _ => .done rfl .normal
    refine next_simulates ((hbody w' hin').mono hle) fun w'' hgrows => ?_
    refine .of_next ⟨f, k, vs, scope, outer⟩ hback (.refl w''.scopes) (fun _ => rfl) fun j => ?_
    exact loop_simulates hc hcondition hhas hjump hback hbody (Nat.le_of_succ_le hle)
      (hin'.grows hgrows)

lemma add_width_jump (es : Emissions) (kind : JumpKind) (target : Nat) :
    k + (es ++ Emissions.ofInstructions [.jump kind target]).width = k + es.width + jumpWidth := by
  rw [Emissions.add_width_append]
  rfl

end Statements

namespace Statement

mutual

/-- **The code of a statement** does what the statement says. -/
theorem exec_simulates (hc : c.Simulated r n f callers) : ∀ {s : Statement} {k k' : Nat}
    {w : World} {vs : List Value} {scope : ScopeId} {outer : List ScopeId},
    s.Admissible r.operators → f.Has k (s.code k) → k + (s.code k).width = k' →
    r.Locates w.scopes scope c.globals →
    Simulates r n w (standing f k vs scope outer callers) (Ends f k' vs scope outer callers)
      (s.exec c n scope w.store)
  | .declare name value?, k, k', w, vs, scope, outer, ⟨_, hvalue⟩, hhas, hk, hin => by
    rw [code] at hhas hk
    obtain ⟨hcode, hdeclare, -⟩ := Function.has_append.mp hhas
    rw [Emissions.add_width_append] at hk
    rw [exec]
    refine .bind (Expression.evalOrUndefined_simulates hc hvalue hcode rfl hin)
      fun w' v p' _ hp => ?_
    subst hp
    exact ended_simulates hdeclare hk (ScopeTree.grows_declare _ scope name v) fun _ => rfl
  | .expression e, k, k', w, vs, scope, outer, he, hhas, hk, hin => by
    rw [code] at hhas hk
    obtain ⟨hcode, hpop, -⟩ := Function.has_append.mp hhas
    rw [Emissions.add_width_append] at hk
    rw [exec]
    refine .bind (e.eval_simulates hc he hcode rfl hin) fun w' v p' _ hp => ?_
    subst hp
    exact ended_simulates hpop hk (.refl _) fun _ => rfl
  | .ret value?, k, k', w, vs, scope, outer, hvalue, hhas, hk, hin => by
    rw [code] at hhas
    obtain ⟨hcode, hret, -⟩ := Function.has_append.mp hhas
    rw [exec]
    refine .bind (Expression.evalOrUndefined_simulates hc hvalue hcode rfl hin)
      fun w' v p' _ hp => ?_
    subst hp
    exact .done rfl (.returned hret)
  | .block body, k, k', w, vs, scope, outer, hbody, hhas, hk, hin => by
    rw [code] at hhas hk
    rw [exec]
    exact inNewScope_simulates hhas hk hin fun hin' =>
      execAll_simulates hc hbody (Emissions.has_of_inScope hhas) rfl hin'
  | .whileLoop condition body, k, k', w, vs, scope, outer, ⟨hcondition, hbody⟩, hhas, hk, hin => by
    rw [code] at hhas hk
    obtain ⟨hinside, hback, -⟩ := Function.has_append.mp hhas
    obtain ⟨hleft, hinside⟩ := Function.has_append.mp hinside
    obtain ⟨hcode, hjump, -⟩ := Function.has_append.mp hleft
    rw [add_width_jump] at hinside
    rw [add_width_jump, Emissions.add_width_append, add_width_jump] at hk
    rw [Emissions.add_width_append, add_width_jump] at hback
    rw [hk] at hjump
    rw [exec]
    refine loop_simulates hc hcondition hcode hjump hback (fun w' hin' => ?_) (Nat.le_refl n) hin
    exact inNewScope_simulates hinside rfl hin' fun hin'' =>
      execAll_simulates hc hbody (Emissions.has_of_inScope hinside) rfl hin''
  | .ifThen condition body, k, k', w, vs, scope, outer, ⟨hcondition, hbody⟩, hhas, hk, hin => by
    rw [code] at hhas hk
    obtain ⟨hleft, hinside⟩ := Function.has_append.mp hhas
    obtain ⟨hcode, hjump, -⟩ := Function.has_append.mp hleft
    rw [add_width_jump] at hinside
    rw [Emissions.add_width_append, add_width_jump] at hk
    rw [hk] at hjump
    rw [exec]
    refine condition_simulates hc hcondition hcode hjump hin (fun w' hin' => ?_)
      fun w' _ => .done rfl .normal
    exact inNewScope_simulates hinside hk hin' fun hin'' =>
      execAll_simulates hc hbody (Emissions.has_of_inScope hinside) rfl hin''
  | .ifElse condition body alternative, k, k', w, vs, scope, outer,
      ⟨hcondition, hbody, halternative⟩, hhas, hk, hin => by
    rw [code] at hhas hk
    obtain ⟨hleft, hother⟩ := Function.has_append.mp hhas
    obtain ⟨hleft, hover, -⟩ := Function.has_append.mp hleft
    obtain ⟨hleft, hinside⟩ := Function.has_append.mp hleft
    obtain ⟨hcode, hjump, -⟩ := Function.has_append.mp hleft
    rw [add_width_jump] at hinside
    rw [add_width_jump, Emissions.add_width_append, add_width_jump] at hother
    rw [Emissions.add_width_append, add_width_jump, Emissions.width_append,
      ← Nat.add_assoc, add_width_jump] at hk
    rw [Emissions.add_width_append, add_width_jump] at hover
    rw [hk] at hover
    rw [exec]
    refine condition_simulates hc hcondition hcode hjump hin (fun w' hin' => ?_)
      fun w' hin' => exec_simulates hc halternative hother hk hin'
    rw [← Evaluation.next_done (inNewScope _ _ _)]
    refine next_simulates (inNewScope_simulates hinside rfl hin' fun hin'' =>
      execAll_simulates hc hbody (Emissions.has_of_inScope hinside) rfl hin'') fun w'' _ => ?_
    exact .of_step ⟨f, k', vs, scope, outer⟩ hover (fun _ => rfl) fun j => .done rfl .normal

/-- The code of statements does what they say. -/
theorem execAll_simulates (hc : c.Simulated r n f callers) : ∀ {ss : List Statement} {k k' : Nat}
    {w : World} {vs : List Value} {scope : ScopeId} {outer : List ScopeId},
    AllAdmissible r.operators ss → f.Has k (codeOfAll ss k) → k + (codeOfAll ss k).width = k' →
    r.Locates w.scopes scope c.globals →
    Simulates r n w (standing f k vs scope outer callers) (Ends f k' vs scope outer callers)
      (execAll c n ss scope w.store)
  | [], k, k', w, vs, scope, outer, _, _, hk, _ => by
    rw [codeOfAll] at hk
    cases hk
    rw [execAll]
    exact .done rfl .normal
  | s :: ss, k, k', w, vs, scope, outer, ⟨hs, hss⟩, hhas, hk, hin => by
    rw [codeOfAll] at hhas hk
    obtain ⟨hfirst, hrest⟩ := Function.has_append.mp hhas
    rw [Emissions.add_width_append] at hk
    rw [execAll]
    refine next_simulates (exec_simulates hc hs hfirst rfl hin) fun w' hgrows => ?_
    exact execAll_simulates hc hss hrest hk (hin.grows hgrows)

end

end Statement

end Script

end Coscript
