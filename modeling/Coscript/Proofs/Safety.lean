import Coscript.Proofs.Flow
import Coscript.Scheduler.Setup
import Coscript.Scheduler.Basic

/-!
# Scripts do not break the machine

Whatever files are loaded and whatever functions are called, the machine that runs compiled scripts
never asks for an operand that is not there, for an operator that it does not know or for a variable
where there is none, and never leaves the instructions of a function. Before each instruction the
number of operands and the number of blocks are those that the code says.

* `Operators.standard_faultless`: the operators of the language do not break the machine;
* `Execution.advance_turns`: what one turn of an execution keeps;
* `Scheduler.Reached.sound`: what all calls of a scheduler keep;
* `Scheduler.execution_safe`: what holds of every execution at every turn.
-/

namespace Coscript

/-! ### Operators -/

namespace Operation

/-- What an operator computes is no fault. -/
def Mild (f : BinaryOperation) : Prop := ∀ a b e, f a b = .error e → ¬ e.IsFault

lemma not_isFault_mismatch {symbol : String} {a b : Value} : ¬ (mismatch symbol a b).IsFault := id

lemma arithmetic_mild {symbol : String} {int : Int32 → Int32 → Except RuntimeError Int32}
    {float : UInt32 → UInt32 → UInt32} (h : ∀ x y e, int x y = .error e → ¬ e.IsFault) :
    Mild (arithmetic symbol int float) := by
  intro a b e he
  unfold arithmetic at he
  split at he
  · next x y =>
    cases hxy : int x y with
    | ok n =>
      rw [hxy] at he
      cases he
    | error e' =>
      rw [hxy] at he
      cases he
      exact h x y _ hxy
  · split at he
    · cases he
    · cases he
      exact not_isFault_mismatch

lemma division_mild {f : Int32 → Int32 → Int32} (x y : Int32) (e : RuntimeError)
    (h : (if y = 0 then .error .divisionByZero else .ok (f x y)) = Except.error e) :
    ¬ e.IsFault := by
  split at h
  · cases h
    exact id
  · cases h

lemma add_mild : Mild add := by
  intro a b e he
  unfold add at he
  split at he
  · cases he
  · cases he
  · exact arithmetic_mild (fun _ _ _ h => by cases h) _ _ _ he

lemma comparison_mild {symbol : String} {asked : Ordering → Bool} :
    Mild (comparison symbol asked) := by
  intro a b e he
  unfold comparison at he
  split at he
  · cases he
  · cases he
  · split at he
    · cases he
    · cases he
      exact not_isFault_mismatch

/-- An operator that always has a result. -/
lemma total_mild {f : BinaryOperation} (h : ∀ a b, (f a b).isOk = true) : Mild f := by
  intro a b e he
  have := h a b
  rw [he] at this
  cases this

end Operation

/-- **The operators of the language do not break the machine.** -/
theorem Operators.standard_faultless : Operators.standard.Faultless := by
  constructor
  · intro symbol apply h v e he
    have hmem := OrderedMap.mem_of_get?_ofList h
    simp only [List.mem_cons, List.not_mem_nil, or_false, Prod.mk.injEq] at hmem
    rcases hmem with ⟨-, rfl⟩ | ⟨-, rfl⟩
    · unfold Operation.negate at he
      split at he
      · cases he
      · cases he
      · cases he
        exact id
    · cases he
  · intro symbol operator h
    have hmem := OrderedMap.mem_of_get?_ofList h
    simp only [List.mem_cons, List.not_mem_nil, or_false, Prod.mk.injEq] at hmem
    have hmild : Operation.Mild operator.apply := by
      rcases hmem with ⟨-, rfl⟩ | ⟨-, rfl⟩ | ⟨-, rfl⟩ | ⟨-, rfl⟩ | ⟨-, rfl⟩ | ⟨-, rfl⟩ | ⟨-, rfl⟩ |
        ⟨-, rfl⟩ | ⟨-, rfl⟩ | ⟨-, rfl⟩ | ⟨-, rfl⟩ | ⟨-, rfl⟩ | ⟨-, rfl⟩
      · exact Operation.total_mild fun _ _ => rfl
      · exact Operation.total_mild fun _ _ => rfl
      · exact Operation.total_mild fun _ _ => rfl
      · exact Operation.total_mild fun _ _ => rfl
      · exact Operation.comparison_mild
      · exact Operation.comparison_mild
      · exact Operation.comparison_mild
      · exact Operation.comparison_mild
      · exact Operation.add_mild
      · exact Operation.arithmetic_mild fun _ _ _ h => by cases h
      · exact Operation.arithmetic_mild fun _ _ _ h => by cases h
      · exact Operation.arithmetic_mild Operation.division_mild
      · exact Operation.arithmetic_mild Operation.division_mild
    exact hmild

/-! ### Executions -/

/-- The functions of loaded files are verified. -/
structure Registry.Sound (r : Registry) : Prop where
  faultless : r.operators.Faultless
  verified : ∀ name file, r.files.get? name = some file → ∀ f, file.compiled.Holds f →
    f.Verified r.operators

lemma Registry.Sound.function? {r : Registry} (h : r.Sound) {name current : String} {f : Function}
    {file : LoadedFile} (hf : r.function? name current = some (f, file)) :
    f.Verified r.operators := by
  obtain ⟨⟨key, hkey⟩, hget⟩ := Registry.exists_of_function? hf
  exact h.verified key file hkey f (.inl ⟨name, hget⟩)

/-- A file of verified functions can be loaded. -/
lemma Registry.Sound.load {r : Registry} (h : r.Sound) {w : World} {c : CompiledFile}
    (hc : ∀ f, c.Holds f → f.Verified r.operators) : (r.load w c).1.Sound := by
  refine ⟨h.faultless, fun name file hfile => ?_⟩
  change (r.files.insert c.name ⟨c, _⟩).get? name = some file at hfile
  rw [OrderedMap.get?_insert] at hfile
  split at hfile
  · cases hfile
    exact hc
  · exact h.verified name file hfile

/-- The calls that have not returned have the shapes of their offsets. -/
inductive Phase.Sound (o : Operators) : Phase → Prop
  | running {current : Activation} {callers : List Activation} (h : current.Ready o)
      (hcallers : ∀ a ∈ callers, a.Waiting o) : Sound o (.active none current callers)
  | waiting {call : PendingCall} {current : Activation} {callers : List Activation}
      (h : current.Waiting o) (hcallers : ∀ a ∈ callers, a.Waiting o) :
      Sound o (.active (some call) current callers)
  | finished (v : Value) : Sound o (.finished v)

namespace Execution

variable {r : Registry} {w : World} {p : Phase}

/-- What comes of a turn: calls that have the shapes of their offsets, or an error that is no
fault. -/
inductive Turns (r : Registry) : Turn → Prop
  | sound {w : World} {p : Phase} {report? : Option Report} (h : p.Sound r.operators)
      (hreport : ∀ e, report? ≠ some (.failed e)) : Turns r ⟨w, p, report?⟩
  | fails {w : World} {p : Phase} {e : RuntimeError} (h : r.natives.Excuse e) :
      Turns r ⟨w, p, some (.failed e)⟩

/-- One instruction keeps the shapes. -/
lemma stepCurrent_turns (hr : r.Sound) {current : Activation} {callers : List Activation}
    (h : current.Ready r.operators) (hcallers : ∀ a ∈ callers, a.Waiting r.operators) :
    Turns r (stepCurrent r w current callers) := by
  have hsteps := Running.step_steps (w := w) hr.faultless h
  unfold stepCurrent
  generalize Running.step r ⟨w, current⟩ = result at hsteps ⊢
  cases hsteps with
  | next h => exact .sound (.running h hcallers) (by simp)
  | call h hf =>
    dsimp only
    split
    · exact .fails fun hfault => absurd hfault id
    · refine .sound (.running (Activation.ready_start (hr.function? hf) _) ?_) (by simp)
      exact List.forall_mem_cons.mpr ⟨h, hcallers⟩
  | suspend h => exact .sound (.waiting h hcallers) (by simp)
  | ret =>
    cases callers with
    | nil => exact .sound (.finished _) (by simp)
    | cons caller rest =>
      obtain ⟨hcaller, hrest⟩ := List.forall_mem_cons.mp hcallers
      exact .sound (.running (hcaller.ready _) hrest) (by simp)
  | fails h => exact .fails h

/-- **A turn of an execution keeps the shapes**, or ends with an error that is no fault. -/
theorem advance_turns (hr : r.Sound) (h : p.Sound r.operators) : Turns r (advance r w p) := by
  cases h with
  | running h hcallers => exact stepCurrent_turns hr h hcallers
  | @waiting call current callers h hcallers =>
    rw [advance]
    split
    · exact .sound (.waiting h hcallers) (by simp)
    · exact .sound (.running (h.ready _) hcallers) (by simp)
  | finished v => exact .sound (.finished v) (by simp)

/-- A whole run keeps the shapes, unless it fails. -/
theorem runPhase_sound (hr : r.Sound) (h : p.Sound r.operators) {fuel : Nat} {w' : World}
    {p' : Phase} {report : Report} (hrun : runPhase r fuel w p = some (w', p', report))
    (hreport : ∀ e, report ≠ .failed e) : p'.Sound r.operators := by
  induction fuel generalizing w p with
  | zero => cases hrun
  | succ fuel ih =>
    rw [runPhase] at hrun
    have hturn := advance_turns (w := w) hr h
    generalize advance r w p = turn at hturn hrun
    cases hturn with
    | @sound w₁ p₁ report? h₁ _ =>
      cases report? with
      | none => exact ih h₁ hrun
      | some report₁ =>
        cases hrun
        exact h₁
    | fails =>
      cases hrun
      exact absurd rfl (hreport _)

end Execution

/-! ### Schedulers -/

namespace Scheduler

/-- What calls of a scheduler can come to, where loaded files are small. -/
inductive Reached (t : ParsingTable) (natives : Natives) : Scheduler → Prop
  | start (j : Journal) : Reached t natives (start t natives j)
  | load {s s' : Scheduler} {fuel : Nat} {name source : String}
      {outcome : Except Script.CompileError CompiledFile} (hs : Reached t natives s)
      (h : s.load fuel name source = some (s', outcome))
      (hsmall : ∀ c, outcome = .ok c → c.Small) : Reached t natives s'
  | invoke {s s' : Scheduler} {fuel : Nat} {name : String} {arguments : List Value}
      {outcome : Except RuntimeError Invocation} (hs : Reached t natives s)
      (h : s.invoke fuel name arguments = some (s', outcome)) : Reached t natives s'
  | spawn {s : Scheduler} (name : String) (arguments : List Value) (hs : Reached t natives s) :
      Reached t natives (s.spawn name arguments).1
  | tick {s s' : Scheduler} {fuel : Nat} {more : Bool} (hs : Reached t natives s)
      (h : s.tick fuel = some (s', more)) : Reached t natives s'
  | kill {s : Scheduler} (id : ThreadId) (hs : Reached t natives s) :
      Reached t natives (s.kill id).1

/-- The executions of a scheduler at their turns: those of its threads, and those of calls from
outside. -/
inductive Runs (s : Scheduler) : World → Phase → Prop
  | thread {t : Thread} {queue : List Thread} (h : s.queue = t :: queue) (ht : t.killed = false) :
      Runs s s.world t.execution.phase
  | call {name : String} {arguments : List Value} {s' : Scheduler} {e : Execution}
      (h : s.call name arguments = .ok (s', e)) : Runs s s'.world e.phase
  | turn {w : World} {p : Phase} (h : Runs s w p)
      (hnext : (Execution.advance s.registry w p).report? = none) :
      Runs s (Execution.advance s.registry w p).world (Execution.advance s.registry w p).phase

/-- The functions of the files and the executions of the threads keep to the shapes of code. -/
structure Sound (t : ParsingTable) (natives : Natives) (s : Scheduler) : Prop where
  table : s.table = t
  operators : s.registry.operators = .standard
  natives : s.registry.natives = natives
  registry : s.registry.Sound
  threads : ∀ u ∈ s.queue, u.execution.phase.Sound s.registry.operators

variable {t : ParsingTable} {natives : Natives} {s s' : Scheduler}

/-- Only the table, the files and the executions of the threads matter. -/
lemma Sound.of_eq (h : s.Sound t natives) (htable : s'.table = s.table)
    (hregistry : s'.registry = s.registry)
    (hqueue : ∀ u ∈ s'.queue, u.execution.phase.Sound s.registry.operators) :
    s'.Sound t natives := by
  constructor
  · rw [htable, h.table]
  · rw [hregistry, h.operators]
  · rw [hregistry, h.natives]
  · exact hregistry ▸ h.registry
  · exact hregistry ▸ hqueue

/-- A new thread. -/
lemma Sound.enqueue (h : s.Sound t natives) {e : Execution}
    (he : e.phase.Sound s.registry.operators) : (s.enqueue e).1.Sound t natives :=
  h.of_eq rfl rfl (List.forall_mem_append.mpr ⟨h.threads, List.forall_mem_singleton.mpr he⟩)

/-- A call from outside changes the world only, and begins with the shape of its code. -/
lemma Sound.call (h : s.Sound t natives) {name : String} {arguments : List Value} {e : Execution}
    (hcall : s.call name arguments = .ok (s', e)) :
    s'.Sound t natives ∧ s'.registry = s.registry ∧ e.phase.Sound s.registry.operators := by
  unfold Scheduler.call at hcall
  split at hcall
  · cases hcall
  · next f file hf =>
    obtain ⟨⟨w, e'⟩, he', hcall⟩ := bind_eq_ok_iff.mp hcall
    cases hcall
    obtain ⟨⟨w', a⟩, ha, he'⟩ := bind_eq_ok_iff.mp he'
    cases he'
    unfold Activation.ofCall at ha
    split at ha
    · cases ha
      refine ⟨h.of_eq rfl rfl h.threads, rfl, .running ?_ (by simp)⟩
      exact Activation.ready_start (h.registry.function? hf) _
    · cases ha

/-- A small file that is compiled with the table of the language can be loaded. -/
lemma Sound.load {strategy : Strategy} {j : Journal}
    (ht : (Script.constructTable strategy j).2 = .ok t) (h : s.Sound t natives) {fuel : Nat}
    {name source : String} {outcome : Except Script.CompileError CompiledFile}
    (hload : s.load fuel name source = some (s', outcome))
    (hsmall : ∀ c, outcome = .ok c → c.Small) : s'.Sound t natives := by
  unfold Scheduler.load at hload
  split at hload
  · cases hload
  · cases hload
    exact h.of_eq rfl rfl h.threads
  · next j compiled hcompile =>
    cases hload
    rw [h.table] at hcompile
    have hverified : ∀ f, compiled.Holds f → f.Verified s.registry.operators := fun f hf =>
      (Script.compile_admissible ht hcompile f hf).verified (hsmall compiled rfl f hf)
    have hs : Sound t natives { s with
        registry := (s.registry.load { s.world with journal := j } compiled).1
        world := (s.registry.load { s.world with journal := j } compiled).2.1 } :=
      ⟨h.table, h.operators, h.natives, h.registry.load hverified, h.threads⟩
    have hs' := hs.enqueue (e := .initializer ⟨compiled, s.world.scopes.size⟩)
      (.running (Activation.ready_start (hverified _ (.inr rfl)) _) (by simp))
    exact hs'.of_eq rfl rfl hs'.threads

/-- A report of an execution leaves a sound scheduler. -/
lemma Sound.settle (h : s.Sound t natives) {id : ThreadId} {e : Execution} {report : Report}
    (he : (∀ err, report ≠ .failed err) → e.phase.Sound s.registry.operators) :
    (s.settle id e report).Sound t natives := by
  cases report with
  | done v => exact h.of_eq rfl rfl h.threads
  | pending =>
    refine h.of_eq rfl rfl (List.forall_mem_append.mpr ⟨h.threads, ?_⟩)
    exact List.forall_mem_singleton.mpr (he (by simp))
  | failed err => exact h.of_eq rfl rfl h.threads

lemma run_sound {r : Registry} (hr : r.Sound) {w w' : World} {e e' : Execution}
    (he : e.phase.Sound r.operators) {fuel : Nat} {report : Report}
    (hrun : e.run fuel r w = some (w', e', report)) (hreport : ∀ err, report ≠ .failed err) :
    e'.phase.Sound r.operators := by
  obtain ⟨⟨w₁, p₁, report₁⟩, hphase, heq⟩ := Option.map_eq_some_iff.mp hrun
  cases heq
  exact Execution.runPhase_sound hr he hphase hreport

lemma Sound.invoke (h : s.Sound t natives) {fuel : Nat} {name : String} {arguments : List Value}
    {outcome : Except RuntimeError Invocation}
    (hinvoke : s.invoke fuel name arguments = some (s', outcome)) : s'.Sound t natives := by
  unfold Scheduler.invoke at hinvoke
  split at hinvoke
  · cases hinvoke
    exact h
  · next s₁ e hcall =>
    obtain ⟨h₁, hregistry, he⟩ := h.call hcall
    split at hinvoke
    · cases hinvoke
    · next world e' report hrun =>
      have hs : Sound t natives { s₁ with world := world } := h₁.of_eq rfl rfl h₁.threads
      have he' := run_sound h₁.registry (hregistry ▸ he) hrun
      cases report with
      | done v =>
        cases hinvoke
        exact hs
      | failed err =>
        cases hinvoke
        exact hs
      | pending =>
        cases hinvoke
        exact hs.enqueue (he' (by simp))

lemma Sound.tick (h : s.Sound t natives) {fuel : Nat} {more : Bool}
    (htick : s.tick fuel = some (s', more)) : s'.Sound t natives := by
  unfold Scheduler.tick at htick
  split at htick
  · cases htick
    exact h
  · next u queue hqueue =>
    have hthreads := h.threads
    rw [hqueue] at hthreads
    obtain ⟨hu, hrest⟩ := List.forall_mem_cons.mp hthreads
    have hs : Sound t natives { s with queue := queue } := h.of_eq rfl rfl hrest
    dsimp only at htick
    split at htick
    · cases htick
      exact hs.of_eq rfl rfl hrest
    · split at htick
      · cases htick
      · next world e report hrun =>
        cases htick
        have hs' : Sound t natives { s with queue := queue, world := world } :=
          hs.of_eq rfl rfl hrest
        exact hs'.settle (run_sound h.registry hu hrun)

lemma Sound.kill (h : s.Sound t natives) (id : ThreadId) : (s.kill id).1.Sound t natives := by
  unfold Scheduler.kill
  split
  · refine h.of_eq rfl rfl fun u hu => ?_
    obtain ⟨v, hv, rfl⟩ := List.mem_map.mp hu
    split
    · exact h.threads v hv
    · exact h.threads v hv
  · exact h

/-- **What all calls of a scheduler keep.** -/
theorem Reached.sound {strategy : Strategy} {j : Journal}
    (ht : (Script.constructTable strategy j).2 = .ok t) (hs : Reached t natives s) :
    s.Sound t natives := by
  induction hs with
  | start j =>
    refine ⟨rfl, rfl, rfl, ⟨Operators.standard_faultless, ?_⟩, by simp [Scheduler.start]⟩
    intro name file hfile
    cases hfile
  | load _ h hsmall ih => exact ih.load ht h hsmall
  | invoke _ h ih => exact ih.invoke h
  | @spawn s name arguments _ ih =>
    unfold Scheduler.spawn
    split
    · exact ih
    · next s₁ e hcall =>
      obtain ⟨h₁, hregistry, he⟩ := ih.call hcall
      have hs := h₁.enqueue (hregistry ▸ he)
      exact hs.of_eq rfl rfl hs.threads
  | tick _ h ih => exact ih.tick h
  | kill id _ ih => exact ih.kill id

/-- The executions of a sound scheduler have the shapes of their offsets at every turn. -/
lemma Sound.runs (h : s.Sound t natives) {w : World} {p : Phase} (hp : s.Runs w p) :
    p.Sound s.registry.operators := by
  induction hp with
  | @thread u queue hqueue _ => exact h.threads u (by simp [hqueue])
  | call hcall => exact (h.call hcall).2.2
  | @turn w p _ hnext ih =>
    have hturn := Execution.advance_turns (w := w) h.registry ih
    generalize Execution.advance s.registry w p = turn at hturn hnext
    cases hturn with
    | sound h' _ => exact h'
    | fails => cases hnext

end Scheduler

/-! ### What holds at every turn -/

namespace Function

/-- The number of operands before the instruction at an offset. -/
def heightAt (f : Function) (offset : Nat) : Nat :=
  (f.shapeAt? offset).elim 0 fun s => s.operands.length

/-- The number of blocks around the instruction at an offset. -/
def depthAt (f : Function) (offset : Nat) : Nat := (f.shapeAt? offset).elim 0 Shape.depth

end Function

/-- A variable is named where an instruction reads or writes one. -/
def Instruction.FindsReference : Instruction → List Value → Prop
  | read, vs => ∃ name rest, vs = .reference name :: rest
  | write, vs => ∃ v name rest, vs = v :: .reference name :: rest
  | _, _ => True

namespace Activation

/-- An activation stands at an instruction of its function, with as many operands and blocks as the
code says, but for some operands that are still to come. -/
structure InPlace (a : Activation) (missing : Nat) : Prop where
  boundary : a.function.Boundary a.offset
  lt : a.offset < a.function.code.size
  height : a.operands.length + missing = a.function.heightAt a.offset
  depth : a.outer.length = a.function.depthAt a.offset

/-- The instruction that an activation stands at can be read, finds the variable that it asks for,
and jumps, if at all, to an instruction of the same function. -/
structure Served (a : Activation) (i : Instruction) : Prop where
  decode : ∃ next, a.function.code.decode a.offset = .ok (i, next)
  reference : i.FindsReference a.operands
  jump : ∀ kind target, i = .jump kind target →
    a.function.Boundary target ∧ target < a.function.code.size

variable {o : Operators} {a : Activation}

/-- An activation that has the shape of its offset but for some values is in place but for them. -/
lemma Fits.inPlace {s : Shape} {missing : Nat} (h : a.Fits s)
    (hs : a.function.shapeAt? a.offset = some (s.pushValues missing)) : a.InPlace missing := by
  obtain ⟨hboundary, hlt⟩ := Function.boundary_of_shapeAt? hs
  refine ⟨hboundary, hlt, ?_, ?_⟩
  · rw [Function.heightAt, hs, ← h.operands.length_eq]
    simp [Shape.pushValues, Nat.add_comm]
  · rw [Function.depthAt, hs, h.depth]
    rfl

lemma Ready.inPlace (h : a.Ready o) : a.InPlace 0 := by
  obtain ⟨s, hs, hfits⟩ := h.fits
  exact hfits.inPlace hs

lemma Waiting.inPlace (h : a.Waiting o) : a.InPlace 1 := by
  obtain ⟨s, hs, hfits⟩ := h.fits
  exact hfits.inPlace hs

/-- An instruction that has what it asks for finds its variable. -/
lemma findsReference_of_effect {i : Instruction} {s s' : Shape} {vs : List Value}
    (heffect : i.effect s = some s') (hvs : List.Forall₂ Stands s.operands vs) :
    i.FindsReference vs := by
  obtain ⟨xs, depth⟩ := s
  cases i with
  | read =>
    cases hvs with
    | nil => cases heffect
    | @cons x v xs vs hv hvs =>
      cases x with
      | value => cases heffect
      | reference =>
        obtain ⟨name, rfl⟩ := hv
        exact ⟨name, vs, rfl⟩
  | write =>
    cases hvs with
    | nil => cases heffect
    | @cons x v xs vs hv hvs =>
      cases hvs with
      | nil => cases heffect
      | @cons y u xs vs hu hvs =>
        cases y with
        | value => cases heffect
        | reference =>
          obtain ⟨name, rfl⟩ := hu
          exact ⟨v, name, vs, rfl⟩
  | _ => trivial

lemma Ready.exists_served (h : a.Ready o) : ∃ i, a.Served i := by
  obtain ⟨s, hs, hfits⟩ := h.fits
  obtain ⟨i, next, s', hdecode, heffect, -, hleads⟩ := h.verified.step _ _ hs
  refine ⟨i, ⟨next, hdecode⟩, findsReference_of_effect heffect hfits.operands, ?_⟩
  rintro kind target rfl
  refine Function.boundary_of_shapeAt? (hleads target ?_)
  cases kind with
  | always => rfl
  | ifFalse | ifFalseKeep | ifTrueKeep => exact .inl rfl

end Activation

/-- What holds of an execution before a turn: the innermost call is about to execute an instruction
that finds what it asks for, or waits for a value as its callers do. -/
inductive Phase.Safe : Phase → Prop
  | running {current : Activation} {callers : List Activation} (h : current.InPlace 0)
      (hi : ∃ i, current.Served i) (hcallers : ∀ a ∈ callers, a.InPlace 1) :
      Safe (.active none current callers)
  | waiting {call : PendingCall} {current : Activation} {callers : List Activation}
      (h : current.InPlace 1) (hcallers : ∀ a ∈ callers, a.InPlace 1) :
      Safe (.active (some call) current callers)
  | finished (v : Value) : Safe (.finished v)

lemma Phase.Sound.safe {o : Operators} {p : Phase} (h : p.Sound o) : p.Safe := by
  cases h with
  | running h hcallers =>
    exact .running h.inPlace h.exists_served fun a ha => (hcallers a ha).inPlace
  | waiting h hcallers => exact .waiting h.inPlace fun a ha => (hcallers a ha).inPlace
  | finished v => exact .finished v

/-- **Scripts do not break the machine**: with a table of the language, whatever has been called
before, every execution stands at an instruction of its function, with the operands and in the
blocks that the code says, and what it fails with is no fault unless a native function says so. -/
theorem Scheduler.execution_safe {strategy : Strategy} {j : Journal} {t : ParsingTable}
    (ht : (Script.constructTable strategy j).2 = .ok t) {natives : Natives} {s : Scheduler}
    (hs : Reached t natives s) {w : World} {p : Phase} (hp : s.Runs w p) :
    p.Safe ∧ ∀ e, (Execution.advance s.registry w p).report? = some (.failed e) →
      natives.Excuse e := by
  have hsound := hs.sound ht
  have hphase := hsound.runs hp
  refine ⟨hphase.safe, fun e he => ?_⟩
  have hturn := Execution.advance_turns (w := w) hsound.registry hphase
  generalize Execution.advance s.registry w p = turn at hturn he
  cases hturn with
  | sound _ hreport => exact absurd he (hreport e)
  | fails h =>
    cases he
    rw [hsound.natives] at h
    exact h

/-- The initializer of the example stands at its first instruction. -/
theorem Scheduler.execution_safe_example : ∃ t s w p,
    (Script.constructTable .simple (.empty none)).2 = .ok t ∧ Reached t .standard s ∧
      s.Runs w p ∧ p.Safe := by
  obtain ⟨t, j, c, ht, hcompile, hsmall⟩ := Script.exists_compiled
  have hload : ∃ s, (start t .standard (.empty none)).load 1000 "main" Script.exampleSource =
      some (s, .ok c) ∧ ∃ u, s.queue = [u] ∧ u.killed = false := by
    unfold load
    have hcompile' : Script.compile 1000 (start t .standard (.empty none)).table
        (start t .standard (.empty none)).registry.operators "main" Script.exampleSource
        (start t .standard (.empty none)).world.journal = some (j, .ok c) := hcompile
    rw [hcompile']
    exact ⟨_, rfl, _, rfl, rfl⟩
  obtain ⟨s, hs, u, hqueue, hkilled⟩ := hload
  have hreached : Reached t .standard s := by
    refine (Reached.start (.empty none)).load hs fun c' hc => ?_
    cases hc
    exact hsmall
  have hruns : s.Runs s.world u.execution.phase := .thread hqueue hkilled
  exact ⟨t, s, _, _, ht, hreached, hruns, (execution_safe ht hreached hruns).1⟩

end Coscript
