import Coscript.Machine.Activation

/-!
# Executions

An execution runs a function together with all that it calls. It goes on until the function
returns, something fails, or a native call is pending; a pending execution can be resumed and then
asks the native call again. After an error an execution stays where it was, and can be run again
too.

* `Execution.advance`: one turn, which answers a pending call or executes one instruction;
* `Execution.run`: turns until there is something to report.
-/

namespace Coscript

/-- How far an execution has come. -/
inductive Phase
  /-- The calls that have not returned: the innermost one, which may be waiting for a native call,
  and its callers, the nearest first. -/
  | active (pending : Option PendingCall) (current : Activation) (callers : List Activation)
  | finished (v : Value)

/-- The execution of a function. -/
structure Execution where
  /-- The function it began with. -/
  root : Function
  phase : Phase

/-- What a run reports. -/
inductive Report
  | done (v : Value)
  | pending
  | failed (e : RuntimeError)
  deriving Repr, DecidableEq

namespace Execution

/-- The greatest number of script calls that have not returned. -/
def maxDepth : Nat := 10000

/-- The execution that begins with an activation. -/
def ofActivation (a : Activation) : Execution := ⟨a.function, .active none a []⟩

/-- The execution of a call. -/
def ofCall (w : World) (f : Function) (file : LoadedFile) (arguments : List Value) :
    Except RuntimeError (World × Execution) := do
  let (w, a) ← Activation.ofCall w f file arguments none
  return (w, ofActivation a)

/-- The execution of the statements of a file outside of functions, which run in the scope of its
global variables. -/
def initializer (file : LoadedFile) : Execution :=
  ofActivation (.start file.compiled.initializer file.globals)

/-- Whether the function has returned. -/
def isFinished (e : Execution) : Bool :=
  match e.phase with
  | .active .. => false
  | .finished _ => true

/-- The result of one turn: the world, the phase, and a report if there is one. -/
structure Turn where
  world : World
  phase : Phase
  report? : Option Report

/-- Executes one instruction of the innermost call. -/
def stepCurrent (r : Registry) (w : World) (current : Activation) (callers : List Activation) :
    Turn :=
  match Running.step r ⟨w, current⟩ with
  | .error e s => ⟨s.world, .active none s.activation callers, some (.failed e)⟩
  | .ok .next s => ⟨s.world, .active none s.activation callers, none⟩
  | .ok (.call callee) s =>
    if maxDepth ≤ callers.length + 1 then
      ⟨s.world, .active none s.activation callers,
        some (.failed (.callDepthExceeded callee.function.name maxDepth))⟩
    else ⟨s.world, .active none callee (s.activation :: callers), none⟩
  | .ok (.suspend call) s =>
    ⟨s.world.note .debug fun _ => s!"{s.activation.function.name} suspended",
      .active (some call) s.activation callers, none⟩
  | .ok (.ret v) s =>
    match callers with
    | [] => ⟨s.world, .finished v, some (.done v)⟩
    | caller :: rest =>
      ⟨s.world, .active none { caller with operands := v :: caller.operands } rest, none⟩

/-- Answers a pending call or executes one instruction. -/
def advance (r : Registry) (w : World) : Phase → Turn
  | .finished v => ⟨w, .finished v, some (.done v)⟩
  | .active none current callers => stepCurrent r w current callers
  | .active (some call) current callers =>
    match call.poll with
    | none => ⟨w, .active (some call.later) current callers, some .pending⟩
    | some v =>
      ⟨w, .active none { current with operands := v :: current.operands } callers, none⟩

/-- Takes turns until there is a report, at most `fuel` of them. -/
def runPhase (r : Registry) : Nat → World → Phase → Option (World × Phase × Report)
  | 0, _, _ => none
  | fuel + 1, w, p =>
    match advance r w p with
    | ⟨w, p, some report⟩ => some (w, p, report)
    | ⟨w, p, none⟩ => runPhase r fuel w p

/-- Runs an execution until there is a report, for at most `fuel` turns. -/
def run (fuel : Nat) (r : Registry) (w : World) (e : Execution) :
    Option (World × Execution × Report) :=
  (runPhase r fuel w e.phase).map fun (w, p, report) => (w, ⟨e.root, p⟩, report)

end Execution

end Coscript
