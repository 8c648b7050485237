import Coscript.Proofs.Flow
import Coscript.Proofs.Simulation

/-!
# Programs and their code

A registry holds the code of a program if its files are the compiled files of the program, in the
same order. Then a call is executed as it is evaluated: the same function is found, in the same
file, its arguments are bound in the same scope, and its code does what its statements say.

* `Script.Program.call_simulates`: calls, and with them everything else;
* `Execution.reports_iff`: an execution reports exactly what the evaluation comes to.
-/

namespace Coscript

open Script Execution

/-! ### Compiled files -/

/-- A loaded file holds the code of a file: of its functions, in their order, and of its
statements. -/
structure LoadedFile.Translates (o : Operators) (file : LoadedFile) (f : SourceFile) : Prop where
  name : file.compiled.name = f.name
  globals : file.globals = f.globals
  functions : file.compiled.functions.entries =
    f.contents.definitions.map fun d => (d.name, d.function f.name)
  initializer : file.compiled.initializer =
    functionOfBody Function.initializerName f.name [] f.contents.statements
  definitions_admissible : ∀ d ∈ f.contents.definitions, Statement.AllAdmissible o d.body
  statements_admissible : Statement.AllAdmissible o f.contents.statements
  small : file.compiled.Small

/-- A registry holds the code of a program. -/
structure Registry.Translates (r : Registry) (p : Program) : Prop where
  operators : r.operators = p.operators
  natives : r.natives = p.natives
  files : List.Forall₂ (fun entry f => entry.1 = f.name ∧ entry.2.Translates r.operators f)
    r.files.entries p.files

/-- The native functions answer at once. -/
def Natives.Prompt (natives : Natives) : Prop :=
  ∀ name n, natives.get? name = some n → ∀ calls arguments call,
    n.reply calls arguments ≠ .ok (.pending call)

variable {r : Registry} {p : Program} {o : Operators} {file : LoadedFile} {f : SourceFile}

/-! ### Finding functions -/

/-- The compiled function with a name is that of the definition with the name. -/
lemma LoadedFile.Translates.get? (h : file.Translates o f) (name : String) :
    file.compiled.functions.get? name =
      (f.definition? name).map fun d => d.function f.name := by
  rw [OrderedMap.get?, h.functions, SourceFile.definition?]
  induction f.contents.definitions with
  | nil => rfl
  | cons d ds ih =>
    rw [List.map_cons, OrderedMap.find, List.find?_cons]
    by_cases hd : d.name = name <;> simp [hd, ih]

lemma mem_of_definition? {name : String} {d : Definition} (h : f.definition? name = some d) :
    d ∈ f.contents.definitions :=
  List.mem_of_find?_eq_some h

/-- A name is found in files and in their code alike. -/
inductive Finds (o : Operators) :
    Option (Function × LoadedFile) → Option (SourceFile × Definition) → Prop
  | nothing : Finds o none none
  | function {file : LoadedFile} {f : SourceFile} {d : Definition} (h : file.Translates o f)
      (hd : d ∈ f.contents.definitions) : Finds o (some (d.function f.name, file)) (some (f, d))

lemma finds_findSome? {files : List LoadedFile} {fs : List SourceFile} (name : String)
    (h : List.Forall₂ (LoadedFile.Translates o) files fs) :
    Finds o (files.findSome? fun file => (file.compiled.functions.get? name).map fun g => (g, file))
      (fs.findSome? fun f => (f.definition? name).map fun d => (f, d)) := by
  induction h with
  | nil => exact .nothing
  | @cons file f files fs hfile _ ih =>
    rw [List.findSome?_cons, List.findSome?_cons, hfile.get?]
    cases hd : f.definition? name with
    | none => exact ih
    | some d => exact .function hfile (mem_of_definition? hd)

/-- The loaded file with a name is the only one of that name. -/
lemma forall₂_find {entries : List (String × LoadedFile)} {fs : List SourceFile} (current : String)
    (hnodup : (entries.map Prod.fst).Nodup)
    (h : List.Forall₂ (fun entry f => entry.1 = f.name ∧ entry.2.Translates o f) entries fs) :
    List.Forall₂ (LoadedFile.Translates o) (OrderedMap.find current entries).toList
      (fs.filter fun f => f.name = current) := by
  induction h with
  | nil => exact .nil
  | @cons entry f entries fs hentry _ ih =>
    obtain ⟨hname, hfile⟩ := hentry
    obtain ⟨hnew, hnodup⟩ := List.nodup_cons.mp hnodup
    have ih := ih hnodup
    rw [OrderedMap.find, List.filter_cons, ← hname]
    by_cases hcurrent : entry.1 = current
    · subst hcurrent
      rw [OrderedMap.find_eq_none_iff.mpr hnew] at ih
      cases hrest : fs.filter fun f => f.name = entry.1 with
      | nil => simpa [hrest] using hfile
      | cons => simp [hrest] at ih
    · simpa [hcurrent] using ih

/-- **Code finds the function that a name means.** -/
lemma Registry.Translates.finds (h : r.Translates p) (name current : String) :
    Finds r.operators (r.function? name current) (p.definition? name current) := by
  refine finds_findSome? name (List.rel_append (forall₂_find current r.files.nodup h.files) ?_)
  refine List.rel_filter (fun file f hfile => by simp [hfile.name]) ?_
  exact List.forall₂_map_left_iff.mpr (h.files.imp fun _ _ hentry => hentry.2)

/-! ### Bodies -/

namespace Script

variable {n k : Nat} {c : Setting} {g : Function} {w : World} {q : Phase} {vs : List Value}
variable {scope : ScopeId} {outer : List ScopeId} {callers : List Activation}

/-- A function stands at a return with the value that it returns. -/
inductive Returns (g : Function) (callers : List Activation) : Value → Phase → Prop
  | intro {k : Nat} {us : List Value} {scope : ScopeId} {outer : List ScopeId} {v : Value}
      (h : g.HasAt k ⟨.ret, none⟩) : Returns g callers v (standing g k (v :: us) scope outer callers)

/-- **The code of a function** returns what its body returns. -/
theorem Statement.result_simulates (hc : c.Simulated r n g callers) {body : List Statement}
    (hbody : Statement.AllAdmissible r.operators body) (hhas : g.Has 0 (bodyCode body))
    (hin : r.Locates w.scopes scope c.globals) :
    Simulates r n w (standing g 0 [] scope [] callers) (Returns g callers)
      (Statement.result c n body scope w.store) := by
  obtain ⟨hcode, hundefined, hret, -⟩ := Function.has_append.mp hhas
  refine .bind (Statement.execAll_simulates hc hbody hcode rfl hin) fun w' completion p' _ hp => ?_
  cases hp with
  | normal =>
    refine .of_step ⟨g, _, [.undefined], scope, []⟩ hundefined (fun _ => rfl) fun j => ?_
    exact .done rfl (.intro hret)
  | returned h => exact .done rfl (.intro h)

lemma Evaluation.bind_done {α : Type} (x : Evaluation α) : (x.bind fun σ a => .done σ a) = x := by
  cases x <;> rfl

/-- What a function returns is an operand of its caller. -/
lemma returned_simulates {caller : Activation} {x : Evaluation Value}
    (h : Simulates r n w q (Returns g (caller :: callers)) x) :
    Simulates r n w q (fun v q' =>
      q' = .active none { caller with operands := v :: caller.operands } callers) x := by
  rw [← Evaluation.bind_done x]
  refine .bind h fun w' v q' _ hq => ?_
  cases hq with
  | @intro k us scope outer v hret =>
    obtain ⟨j, hj⟩ := step_standing r w' (v :: us) scope outer hret
    have hturn : advance r w' (standing g k (v :: us) scope outer (caller :: callers)) =
        ⟨{ w' with journal := j },
          .active none { caller with operands := v :: caller.operands } callers, none⟩ := by
      rw [standing, advance, stepCurrent, hj]
      rfl
    refine .mono (Nat.le_add_left n 1) (.of_leads (leads_of_turn hturn) (.refl _) ?_)
    exact .done rfl rfl

/-! ### Calls -/

namespace Program

section Calls

variable {name : String} {arguments : List Value} {line k' : Nat}

/-- A function stands behind the instruction for a call, with the arguments as its last operands. -/
def calling (w : World) (g : Function) (k : Nat) (arguments vs : List Value) (scope : ScopeId)
    (outer : List ScopeId) : Running :=
  ⟨w, g, k, arguments.reverse ++ vs, scope, outer⟩

lemma length_calling : arguments.length ≤
    (calling w g k arguments vs scope outer).activation.operands.length := by
  simp [calling]

lemma arguments_calling :
    (calling w g k arguments vs scope outer).arguments arguments.length = arguments := by
  simp [Running.arguments, calling]

lemma taken_calling : (calling w g k arguments vs scope outer).taken arguments.length =
    ⟨w, g, k, vs, scope, outer⟩ := by
  simp [Running.taken, Running.withOperands, calling]

/-- What the instruction for a call does. -/
lemma step_call (hcount : arguments.length < 256)
    (hat : g.HasAt k ⟨.call name (.ofNat arguments.length), some line⟩)
    (hk : k + (Instruction.call name (.ofNat arguments.length)).width = k') (r : Registry)
    (w : World) (vs : List Value) (scope : ScopeId) (outer : List ScopeId) :
    ∃ j, Running.step r ⟨w, g, k, arguments.reverse ++ vs, scope, outer⟩ =
      Running.call r name arguments.length (some line)
        (calling { w with journal := j } g k' arguments vs scope outer) := by
  subst hk
  obtain ⟨j, hj⟩ := step_standing r w (arguments.reverse ++ vs) scope outer hat
  have hbyte : (UInt8.ofNat arguments.length).toNat = arguments.length :=
    UInt8.toNat_ofNat_of_lt' hcount
  refine ⟨j, hj.trans ?_⟩
  rw [Running.execute, hbyte]
  rfl

/-- The code for a call of a native function. -/
lemma callNative_simulates {native : Native} (hcount : arguments.length < 256)
    (hat : g.HasAt k ⟨.call name (.ofNat arguments.length), some line⟩)
    (hk : k + (Instruction.call name (.ofNat arguments.length)).width = k')
    (hnone : r.function? name g.file = none) (hnative : r.natives.get? name = some native)
    (hprompt : r.natives.Prompt) :
    Simulates r n w (standing g k (arguments.reverse ++ vs) scope outer callers)
      (Pushed g k' vs scope outer callers) (callNative native name arguments line w.store) := by
  obtain ⟨j, hj⟩ := step_call hcount hat hk r w vs scope outer
  rw [Running.call_of_native length_calling hnone hnative, arguments_calling, taken_calling] at hj
  rw [callNative]
  cases harity : native.arity.filter fun expected => expected ≠ arguments.length with
  | some expected =>
    obtain ⟨hexpected, hne⟩ := Option.filter_eq_some_iff.mp harity
    rw [Running.callNative_arity hexpected (of_decide_eq_true hne)] at hj
    exact .of_step_error hj
  | none =>
    have haccepts : ∀ expected, native.arity = some expected → expected = arguments.length := by
      intro expected hexpected
      simpa [hexpected] using harity
    obtain ⟨j', hj'⟩ := Running.callNative_eq ⟨{ w with journal := j }, g, k', vs, scope, outer⟩
      name (some line) haccepts
    rw [hj'] at hj
    change _ = Running.answer name (native.reply w.store.calls arguments) _ at hj
    dsimp only
    cases hreply : native.reply w.store.calls arguments with
    | error e =>
      rw [hreply] at hj
      exact .of_step_error hj
    | ok reply =>
      rw [hreply] at hj
      cases reply with
      | ready v => exact .mono (Nat.le_succ n) (.of_step_next hj (.refl _) (.done rfl rfl))
      | pending call => exact absurd hreply (hprompt name native hnative _ _ call)

/-- The code for a call of a script function begins the function in a scope that holds the
arguments, unless there is the wrong number of them or there are too many calls already. -/
lemma callFunction_simulates {file : LoadedFile} {f : SourceFile} {d : Definition}
    {body : ScopeId → Store → Evaluation Value} (hcount : arguments.length < 256)
    (hat : g.HasAt k ⟨.call name (.ofNat arguments.length), some line⟩)
    (hk : k + (Instruction.call name (.ofNat arguments.length)).width = k')
    (hfunction : r.function? name g.file = some (d.function f.name, file))
    (hin : r.Locates w.scopes f.globals f.globals) (hglobals : file.globals = f.globals)
    (hbody : ∀ w' scope', r.Locates w'.scopes scope' f.globals → Simulates r n w'
      (standing (d.function f.name) 0 [] scope' [] (⟨g, k', vs, scope, outer⟩ :: callers))
      (Returns (d.function f.name) (⟨g, k', vs, scope, outer⟩ :: callers)) (body scope' w'.store)) :
    Simulates r (n + 1) w (standing g k (arguments.reverse ++ vs) scope outer callers)
      (Pushed g k' vs scope outer callers)
      ((bindArguments f d arguments (some line) w.store).bind fun σ scope =>
        if Execution.maxDepth ≤ callers.length + 1 then
          .fails σ (.callDepthExceeded d.name Execution.maxDepth)
        else body scope σ) := by
  obtain ⟨j, hj⟩ := step_call hcount hat hk r w vs scope outer
  rw [bindArguments]
  by_cases harity : arguments.length = d.parameters.length
  · obtain ⟨j', hj'⟩ := Running.call_of_function (some line) length_calling hfunction harity
    rw [hj', arguments_calling, taken_calling] at hj
    rw [if_pos harity, ← hglobals, Evaluation.bind]
    have hgrows := (ScopeTree.grows_addChild w.scopes f.globals).trans
      (ScopeTree.grows_bind (w.scopes.addChild f.globals).1 (w.scopes.addChild f.globals).2
        d.parameters arguments)
    by_cases hdepth : Execution.maxDepth ≤ callers.length + 1
    · rw [if_pos hdepth]
      have hturn : advance r w (standing g k (arguments.reverse ++ vs) scope outer callers) =
          ⟨{ w with
              scopes := Activation.bind (w.scopes.addChild file.globals).1
                (w.scopes.addChild file.globals).2 d.parameters arguments
              journal := j' },
            .active none ⟨g, k', vs, scope, outer⟩ callers,
            some (.failed (.callDepthExceeded d.name Execution.maxDepth))⟩ := by
        rw [standing, advance, stepCurrent, hj]
        exact if_pos hdepth
      exact .of_failure hturn
    · rw [if_neg hdepth, Nat.add_comm n 1]
      refine .of_leads (leads_of_turn ?_) (hglobals ▸ hgrows) (returned_simulates (hbody
        { w with
          scopes := Activation.bind (w.scopes.addChild file.globals).1
            (w.scopes.addChild file.globals).2 d.parameters arguments
          journal := j' } _ ?_))
      · rw [standing, advance, stepCurrent, hj]
        exact if_neg hdepth
      · exact hglobals ▸ hin.addChild.grows (ScopeTree.grows_bind _ _ d.parameters arguments)
  · obtain ⟨j', hj'⟩ := Running.call_of_arity (some line) length_calling hfunction harity
    rw [hj', taken_calling] at hj
    rw [if_neg harity]
    exact .of_step_error hj

end Calls

/-- **Calls are executed as they are evaluated.** -/
theorem call_simulates (hr : r.Translates p) (hprompt : r.natives.Prompt) : ∀ (n : Nat)
    (g : Function) (callers : List Activation) (globals : ScopeId),
    Setting.Simulated ⟨p.operators, p.call n (callers.length + 1) g.file, globals⟩ r n g callers
  | 0, _, _, _ => ⟨hr.operators.symm, fun _ _ _ _ => rfl⟩
  | n + 1, g, callers, globals => by
    refine ⟨hr.operators.symm, ?_⟩
    intro name arguments line k k' w vs scope outer hcount hin hat hk
    change Simulates _ _ _ _ _
      (p.call (n + 1) (callers.length + 1) g.file name arguments line w.store)
    rw [call]
    have hfinds := hr.finds name g.file
    generalize hfunction : r.function? name g.file = found at hfinds
    generalize p.definition? name g.file = found' at hfinds ⊢
    cases hfinds with
    | nothing =>
      rw [← hr.natives]
      cases hnative : r.natives.get? name with
      | some native => exact callNative_simulates hcount hat hk hfunction hnative hprompt
      | none =>
        obtain ⟨j, hj⟩ := step_call hcount hat hk r w vs scope outer
        rw [Running.call_of_undefined length_calling hfunction hnative, taken_calling] at hj
        exact .of_step_error hj
    | @function file f d hfile hd =>
      obtain ⟨⟨key, hkey⟩, hget⟩ := Registry.exists_of_function? hfunction
      have houtermost := hfile.globals ▸ hin.outermost key file hkey
      refine callFunction_simulates hcount hat hk hfunction ⟨houtermost.inside, hin.outermost⟩
        hfile.globals fun w' scope' hin' => ?_
      have hbody := hfile.definitions_admissible d hd
      exact Statement.result_simulates (call_simulates hr hprompt n _ _ f.globals) hbody
        (has_of_admissible hbody (hfile.small _ (.inl ⟨name, hget⟩))) hin'

end Program

/-! ### Whole executions -/

/-- What an execution reports where the evaluation comes to a result. -/
def Evaluation.report? : Evaluation Value → Option (Store × Report)
  | done σ v => some (σ, .done v)
  | fails σ e => some (σ, .failed e)
  | unfinished => none

end Script

namespace Execution

variable {g : Function} {w w' : World} {q q' : Phase} {report report' : Report} {σ : Store}

/-- An execution reports something, and leaves some store. -/
def Reports (r : Registry) (w : World) (e : Execution) (σ : Store) (report : Report) : Prop :=
  ∃ fuel w' e', e.run fuel r w = some (w', e', report) ∧ w'.store = σ

lemma reports_iff_runPhase {e : Execution} : Reports r w e σ report ↔
    ∃ fuel w' q', runPhase r fuel w e.phase = some (w', q', report) ∧ w'.store = σ := by
  constructor
  · rintro ⟨fuel, w', e', hrun, hσ⟩
    obtain ⟨⟨w'', q', report'⟩, hrun, he⟩ := Option.map_eq_some_iff.mp hrun
    cases he
    exact ⟨fuel, w', q', hrun, hσ⟩
  · rintro ⟨fuel, w', q', hrun, hσ⟩
    exact ⟨fuel, w', ⟨e.root, q'⟩, by rw [run, hrun]; rfl, hσ⟩

/-- What is reported does not depend on the number of turns. -/
lemma reports_unique {e : Execution} {σ' : Store} (h : Reports r w e σ report)
    (h' : Reports r w e σ' report') : σ = σ' ∧ report = report' := by
  obtain ⟨m, w₁, q₁, hrun, rfl⟩ := reports_iff_runPhase.mp h
  obtain ⟨m', w₂, q₂, hrun', rfl⟩ := reports_iff_runPhase.mp h'
  have hrun := runPhase_mono (Nat.le_max_left m m') hrun
  rw [runPhase_mono (Nat.le_max_right m m') hrun'] at hrun
  cases hrun
  exact ⟨rfl, rfl⟩

/-- Where nothing has been called before, what a function returns is reported. -/
lemma reports_of_simulates {n : Nat} {e : Execution} {x : Evaluation Value}
    (h : Simulates r n w e.phase (Returns g []) x) (hx : x.report? = some (σ, report)) :
    Reports r w e σ report := by
  cases x with
  | done σ' v =>
    cases hx
    obtain ⟨m, w', q', hleads, rfl, -, hq⟩ := h
    cases hq with
    | @intro k us scope outer v hret =>
      obtain ⟨j, hj⟩ := step_standing r w' (v :: us) scope outer hret
      refine reports_iff_runPhase.mpr ⟨m + 1, { w' with journal := j }, .finished v, ?_, rfl⟩
      rw [hleads, runPhase, standing, advance, stepCurrent, hj]
      rfl
  | fails σ' e' =>
    cases hx
    obtain ⟨m, w', q', hrun, hσ⟩ := h
    exact reports_iff_runPhase.mpr ⟨m, w', q', hrun, hσ⟩
  | unfinished => cases hx

/-- **An execution reports exactly what an evaluation comes to** that it simulates with every
bound. -/
theorem reports_iff {e : Execution} {x : Nat → Evaluation Value}
    (h : ∀ n, Simulates r n w e.phase (Returns g []) (x n)) :
    Reports r w e σ report ↔ ∃ n, (x n).report? = some (σ, report) := by
  constructor
  · intro hreports
    obtain ⟨fuel, w', q', hrun, hσ⟩ := reports_iff_runPhase.mp hreports
    refine ⟨fuel, ?_⟩
    have hfuel := h fuel
    cases hx : (x fuel).report? with
    | none =>
      cases hunfinished : x fuel with
      | done | fails =>
        rw [hunfinished] at hx
        cases hx
      | unfinished =>
        rw [hunfinished] at hfuel
        rw [show runPhase r fuel w e.phase = none from hfuel] at hrun
        cases hrun
    | some found =>
      obtain ⟨σ', report'⟩ := found
      obtain ⟨rfl, rfl⟩ := reports_unique hreports (reports_of_simulates hfuel hx)
      rfl
  · rintro ⟨n, hx⟩
    exact reports_of_simulates (h n) hx

end Execution

end Coscript
