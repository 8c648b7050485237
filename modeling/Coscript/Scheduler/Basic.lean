import Coscript.Machine.Execution
import Coscript.Script.Compilation

/-!
# The scheduler

Scripts run on threads that take turns. A thread that is resumed runs until it finishes or waits
for a native call; then the next one is resumed, and a waiting thread goes to the end of the queue.
A thread that was killed stays in the queue until its turn comes, and is dropped then.

The outcome of a finished thread is kept until it is taken.

* `Scheduler.load`, `Scheduler.spawn`, `Scheduler.invoke`: three ways to begin a thread;
* `Scheduler.tick`, `Scheduler.runUntilIdle`: one turn, and all turns;
* `Scheduler.kill`, `Scheduler.isAlive`, `Scheduler.result?`, `Scheduler.takeResult`: the life of a
  thread from outside.
-/

namespace Coscript

/-- The number of a thread. -/
abbrev ThreadId := Nat

/-- An execution that takes turns with others. -/
structure Thread where
  id : ThreadId
  execution : Execution
  killed : Bool

/-- The loaded files, the threads and the outcomes of those that have finished. -/
structure Scheduler where
  table : ParsingTable
  registry : Registry
  world : World
  /-- The threads, the one that is resumed next first. -/
  queue : List Thread
  results : OrderedMap ThreadId (Except RuntimeError Value)
  nextId : ThreadId

/-- What comes of calling a function from outside. -/
inductive Invocation
  | complete (v : Value)
  /-- The call waits, and goes on as a thread. -/
  | pending (id : ThreadId)
  deriving Repr, DecidableEq

namespace Scheduler

/-- A scheduler without files and threads. -/
def start (t : ParsingTable) (natives : Natives) (j : Journal) : Scheduler :=
  ⟨t, .start .standard natives, { World.empty j.threshold with journal := j }, [], ∅, 0⟩

/-- Records something in the log. -/
def note (s : Scheduler) (level : Level) (text : Unit → String) : Scheduler :=
  { s with world := s.world.note level text }

/-! ### Beginning threads -/

/-- Puts an execution at the end of the queue as a new thread. -/
def enqueue (s : Scheduler) (e : Execution) : Scheduler × ThreadId :=
  ({ s with queue := s.queue ++ [⟨s.nextId, e, false⟩], nextId := s.nextId + 1 }, s.nextId)

/-- Compiles and loads a file, and queues its initializer. -/
def load (fuel : Nat) (s : Scheduler) (name source : String) :
    Option (Scheduler × Except Script.CompileError CompiledFile) :=
  match Script.compile fuel s.table s.registry.operators name source s.world.journal with
  | none => none
  | some (j, .error e) => some ({ s with world := { s.world with journal := j } }, .error e)
  | some (j, .ok compiled) =>
    let (registry, world, file) := s.registry.load { s.world with journal := j } compiled
    let (s, id) := enqueue { s with registry := registry, world := world } (.initializer file)
    let count := compiled.functions.size
    some (s.note .info fun _ =>
      s!"loaded {name} ({count} functions), initializer is thread {id}", .ok compiled)

/-- The execution of a function that is called from outside. Files are searched in the order in
which they were loaded. -/
def call (s : Scheduler) (name : String) (arguments : List Value) :
    Except RuntimeError (Scheduler × Execution) :=
  match s.registry.function? name "" with
  | none => .error (.undefinedFunction name none)
  | some (f, file) => do
    let (world, e) ← Execution.ofCall s.world f file arguments
    return ({ s with world := world }, e)

/-- Queues a call of a function. -/
def spawn (s : Scheduler) (name : String) (arguments : List Value) :
    Scheduler × Except RuntimeError ThreadId :=
  match s.call name arguments with
  | .error e => (s, .error e)
  | .ok (s, e) =>
    let (s, id) := s.enqueue e
    (s.note .info fun _ => s!"spawned {name} as thread {id}", .ok id)

/-- Calls a function at once. If the call waits, it is queued. -/
def invoke (fuel : Nat) (s : Scheduler) (name : String) (arguments : List Value) :
    Option (Scheduler × Except RuntimeError Invocation) :=
  match s.call name arguments with
  | .error e => some (s, .error e)
  | .ok (s, e) =>
    match e.run fuel s.registry s.world with
    | none => none
    | some (world, e, report) =>
      let s := { s with world := world }
      match report with
      | .done v => some (s, .ok (.complete v))
      | .failed err => some (s, .error err)
      | .pending =>
        let (s, id) := s.enqueue e
        some (s, .ok (.pending id))

/-! ### Turns -/

/-- Keeps the outcome of a thread. -/
def finish (s : Scheduler) (id : ThreadId) (outcome : Except RuntimeError Value) : Scheduler :=
  { s with results := s.results.insert id outcome }

/-- What comes of a thread that has run and reports. -/
def settle (s : Scheduler) (id : ThreadId) (e : Execution) : Report → Scheduler
  | .done v => (s.note .debug fun _ => s!"thread {id} finished with {v.display}").finish id (.ok v)
  | .pending => { s with queue := s.queue ++ [⟨id, e, false⟩] }
  | .failed err =>
    (s.note .error fun _ => s!"thread {id} in {e.root.name}: {err.message}").finish id (.error err)

/-- Resumes the next thread. Tells whether there was one. -/
def tick (fuel : Nat) (s : Scheduler) : Option (Scheduler × Bool) :=
  match s.queue with
  | [] => some (s, false)
  | t :: queue =>
    let s := { s with queue := queue }
    if t.killed then some (s.note .debug fun _ => s!"thread {t.id} dropped", true)
    else
      match t.execution.run fuel s.registry s.world with
      | none => none
      | some (world, e, report) => some (settle { s with world := world } t.id e report, true)

/-- Resumes threads until none is left, at most `turns` times. -/
def runTurns (fuel : Nat) : Nat → Scheduler → Option Scheduler
  | 0, _ => none
  | turns + 1, s =>
    match tick fuel s with
    | none => none
    | some (s, false) => some s
    | some (s, true) => runTurns fuel turns s

/-- Resumes threads until none is left, at most `fuel` times and each for at most `fuel` turns. -/
def runUntilIdle (fuel : Nat) (s : Scheduler) : Option Scheduler := runTurns fuel fuel s

/-! ### Threads from outside -/

/-- Whether a thread is queued and not killed. -/
def isAlive (s : Scheduler) (id : ThreadId) : Bool := s.queue.any fun t => t.id = id && !t.killed

/-- Kills a thread. Tells whether it was alive. -/
def kill (s : Scheduler) (id : ThreadId) : Scheduler × Bool :=
  if s.isAlive id then
    let queue := s.queue.map fun t => if t.id = id then { t with killed := true } else t
    ({ s with queue := queue }.note .info fun _ => s!"thread {id} killed", true)
  else (s, false)

/-- The outcome of a finished thread. -/
def result? (s : Scheduler) (id : ThreadId) : Option (Except RuntimeError Value) :=
  s.results.get? id

/-- Takes the outcome of a finished thread. -/
def takeResult (s : Scheduler) (id : ThreadId) :
    Scheduler × Option (Except RuntimeError Value) :=
  ({ s with results := s.results.erase id }, s.result? id)

/-- The compiled file with a name. -/
def file? (s : Scheduler) (name : String) : Option CompiledFile :=
  (s.registry.file? name).map LoadedFile.compiled

/-- The value of a global variable. -/
def global? (s : Scheduler) (file name : String) : Option Value :=
  s.registry.global? s.world file name

end Scheduler

end Coscript
