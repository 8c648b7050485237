import Coscript.Bytecode.Function
import Coscript.Log
import Coscript.Machine.Native
import Coscript.Machine.Operator
import Coscript.Machine.Scope

/-!
# What running code can reach

The **registry** holds what running code uses but does not change: the operators, the native
functions and the loaded files. The **world** holds what it does change: the scopes, the native
calls that were made, and the log.

A file has its global variables in a scope of its own. A file that is loaded again takes the place
of the older one and begins with new global variables; code that is running already keeps the old
ones.
-/

namespace Coscript

/-- A file and the scope of its global variables. -/
structure LoadedFile where
  compiled : CompiledFile
  globals : ScopeId

/-- What running code uses. -/
structure Registry where
  operators : Operators
  natives : Natives
  files : OrderedMap String LoadedFile

/-- What running code changes. -/
structure World where
  scopes : ScopeTree
  /-- The native calls made so far, the latest first. -/
  calls : List NativeCall
  journal : Journal

namespace World

/-- The world before anything has run. -/
def empty (threshold : Threshold) : World := ⟨.empty, [], .empty threshold⟩

/-- Records something in the log. -/
def note (w : World) (level : Level) (text : Unit → String) : World :=
  { w with journal := w.journal.note level text }

end World

namespace Registry

/-- The registry without files. -/
def start (operators : Operators) (natives : Natives) : Registry := ⟨operators, natives, ∅⟩

/-- Loads a file. -/
def load (r : Registry) (w : World) (compiled : CompiledFile) : Registry × World × LoadedFile :=
  let (scopes, globals) := w.scopes.addRoot
  let file : LoadedFile := ⟨compiled, globals⟩
  ({ r with files := r.files.insert compiled.name file }, { w with scopes := scopes }, file)

/-- The loaded file with a name. -/
def file? (r : Registry) (name : String) : Option LoadedFile := r.files.get? name

/-- The files in the order in which a name is looked up: the current file, then the others as they
were loaded. -/
def searchOrder (r : Registry) (current : String) : List LoadedFile :=
  (r.file? current).toList ++ (r.files.values.filter fun f => f.compiled.name ≠ current)

/-- The function that a name means in a file, and the file that defines it. -/
def function? (r : Registry) (name current : String) : Option (Function × LoadedFile) :=
  (r.searchOrder current).findSome? fun f =>
    (f.compiled.functions.get? name).map fun g => (g, f)

/-- The value of a global variable. -/
def global? (r : Registry) (w : World) (file name : String) : Option Value :=
  (r.file? file).bind fun f => w.scopes.lookup f.globals name

end Registry

end Coscript
