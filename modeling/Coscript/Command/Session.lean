import Coscript.Command.Host
import Coscript.Command.Options
import Coscript.Scheduler.Basic
import Coscript.Scheduler.Setup

/-!
# The command

The command loads the scripts below a path, runs them until no thread is left, and calls a function
if one is named. It can show the code of what it compiles, and it can store the parsing table and
read a stored one.

* `run`: the command with some arguments, and the code that it exits with.
-/

namespace Coscript.Command

/-- Why the command ends before it has done everything. -/
inductive Exit
  | code (n : UInt32)
  /-- It was not done after as many steps as were allowed. -/
  | unfinished
  deriving Repr, DecidableEq

variable {m : Type → Type} [Monad m]

/-- A part of the command. -/
abbrev Session (m : Type → Type) (α : Type) := ExceptT Exit m α

/-- Ends the command with a message. -/
def fail {α : Type} (h : Host m) (message : String) : Session m α := do
  h.err (message ++ "\n")
  throw (.code 1)

/-- What must be there unless there were too few steps. -/
def finished {α : Type} : Option α → Session m α
  | some a => pure a
  | none => throw .unfinished

/-- The journal of a scheduler, written to the log of the host. -/
def flush (h : Host m) (s : Scheduler) : Session m Scheduler := do
  for e in s.world.journal.entries do
    h.log e
  return { s with world := { s.world with journal := s.world.journal.cleared } }

/-- The order of files: by their names, from the outermost directory on. -/
def precedes : List String → List String → Bool
  | [], _ => true
  | _ :: _, [] => false
  | a :: as, b :: bs => a < b || (a = b && precedes as bs)

/-- Whether a file is a script: its name ends in `.earle`, and something stands before that. -/
def isScript (names : List String) : Bool :=
  match names.getLast? with
  | some name => name.endsWith ".earle" && name ≠ ".earle"
  | none => false

/-- The paths of the scripts below a directory, or the path itself if it is no directory. -/
def sourceFiles (h : Host m) (path : String) : Session m (List String) := do
  if ← h.isDirectory path then
    let files ← h.filesBelow path
    return ((files.filter isScript).mergeSort precedes).map fun names =>
      String.intercalate "/" (path :: names)
  else return [path]

/-- Shows the code of a compiled file. -/
def showCode (h : Host m) (file : CompiledFile) : Session m Unit := do
  for f in file.functions.values ++ [file.initializer] do
    match f.disassembly with
    | .ok code => h.out s!"{f.name}:\n{code}\n"
    | .error e => h.err s!"{f.name}: {e.message}\n"

/-- The message for an error in a script. -/
def errorText (path source : String) : Script.CompileError → String
  | .parse e => e.report path source
  | e =>
    match e.position? with
    | some p => s!"{path}:{p.line}:{p.column}: {e.message}\n"
    | none => s!"{path}: {e.message}\n"

/-- Loads a script, under its full path if it has one. Tells whether it could be loaded. -/
def load (h : Host m) (fuel : Nat) (shown : Bool) (s : Scheduler) (path : String) :
    Session m (Scheduler × Bool) := do
  let name := (← h.fullPath? path).getD path
  match ← h.read path with
  | .error e =>
    h.err s!"cannot read {name}: {e.message}\n"
    return (s, false)
  | .ok bytes =>
    match Bytes.toText? bytes with
    | none =>
      h.err s!"cannot read {name}: stream did not contain valid UTF-8\n"
      return (s, false)
    | some source =>
      let (s, outcome) ← finished (s.load fuel name source)
      match outcome with
      | .error e =>
        h.err (errorText name source e)
        return (s, false)
      | .ok file =>
        if shown then showCode h file
        return (s, true)

/-- Loads scripts one after the other. Tells whether all of them could be loaded. -/
def loadAll (h : Host m) (fuel : Nat) (shown : Bool) (s : Scheduler) (paths : List String) :
    Session m (Scheduler × Bool) :=
  paths.foldlM
    (fun (s, good) path => do
      let (s, loaded) ← load h fuel shown s path
      return (← flush h s, good && loaded))
    (s, true)

/-- Runs all threads. -/
def idle (h : Host m) (fuel : Nat) (s : Scheduler) : Session m Scheduler := do
  flush h (← finished (s.runUntilIdle fuel))

/-- Calls a function, waits for it and shows its value. -/
def callEntry (h : Host m) (fuel : Nat) (s : Scheduler) (entry : String) : Session m Unit := do
  let (s, outcome) ← finished (s.invoke fuel entry [])
  let s ← flush h s
  match outcome with
  | .error e => fail h e.message
  | .ok (.complete v) => h.out (v.display ++ "\n")
  | .ok (.pending id) =>
    let s ← idle h fuel s
    match s.result? id with
    | some (.ok v) => h.out (v.display ++ "\n")
    | some (.error e) => fail h e.message
    | none => fail h s!"`{entry}` never finished"

/-- The scheduler with the table that a request asks for. -/
def setup (h : Host m) (threshold : Threshold) (strategy : Strategy) (stored? : Option String) :
    Session m Scheduler := do
  let stored? ← match stored? with
    | none => pure none
    | some file =>
      match ← h.read file with
      | .ok bytes => pure (some bytes)
      | .error e => fail h s!"cannot read {file}: {e.message}"
  match Script.table strategy stored? (.empty threshold) with
  | (_, .error (.table e)) => fail h e.report
  | (_, .error e) => fail h e.message
  | (j, .ok t) => flush h (.start t .standard j)

/-- Does what a request asks for with the scripts below a path. -/
def runScripts (h : Host m) (fuel : Nat) (threshold : Threshold) (strategy : Strategy) (r : Request)
    (path : String) : Session m Unit := do
  let s ← setup h threshold strategy r.loadTable?
  match r.saveTable? with
  | none => pure ()
  | some file =>
    match ← h.write file s.table.encode with
    | .ok () => pure ()
    | .error e => fail h s!"cannot write {file}: {e.message}"
  let (s, good) ← loadAll h fuel r.disassemble s (← sourceFiles h path)
  unless good do throw (.code 1)
  let s ← idle h fuel s
  match r.entry? with
  | some entry => callEntry h fuel s entry
  | none => pure ()

/-- Does what some arguments ask for. -/
def session (h : Host m) (fuel : Nat) (threshold : Threshold) (program : String)
    (arguments : List String) : Session m Unit := do
  match Request.parse arguments with
  | .error e => fail h e.message
  | .ok r =>
    if r.help then h.out (usage program)
    else
      let strategy ← match r.type? with
        | none => pure default
        | some name =>
          match Strategy.ofName? name with
          | some strategy => pure strategy
          | none => fail h s!"unknown parser type `{name}`"
      match r.paths with
      | [path] => runScripts h fuel threshold strategy r path
      | _ =>
        h.out (usage program)
        throw (.code 1)

/-- The command with some arguments, and the code that it exits with if it is done within `fuel`
steps. -/
def run (h : Host m) (fuel : Nat) (threshold : Threshold) (program : String)
    (arguments : List String) : m (Option UInt32) := do
  match ← (session h fuel threshold program arguments).run with
  | .ok () => return some 0
  | .error (.code n) => return some n
  | .error .unfinished => return none

end Coscript.Command
