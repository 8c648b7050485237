import Coscript.Bytes.Word
import Coscript.Data.OrderedMap
import Coscript.Log

/-!
# What the command uses of its host

The command reads and writes files and writes texts. `Host` says what it needs for that. A
`Sandbox` is a host that keeps files in memory: `Sandbox.host` gives it the files below one
directory and collects what is written.

A path is followed name by name, from the root if it begins with a slash and else from the directory
of the sandbox. An empty name and a dot stay where they are, and two dots lead to the directory
around; all but the last name must be directories. Names and paths have a greatest length.
-/

namespace Coscript.Command

/-- Why a file could not be read or written. -/
inductive FileFault
  | notFound
  | notADirectory
  | isADirectory
  | nameTooLong
  /-- Any other reason, with its number. -/
  | other (reason : String) (number : Nat)
  deriving Repr, DecidableEq

/-- The text of a fault. -/
def FileFault.message : FileFault → String
  | notFound => "No such file or directory (os error 2)"
  | notADirectory => "Not a directory (os error 20)"
  | isADirectory => "Is a directory (os error 21)"
  | nameTooLong => "File name too long (os error 36)"
  | other reason number => s!"{reason} (os error {number})"

/-- What the command needs. -/
structure Host (m : Type → Type) where
  read : String → m (Except FileFault (List UInt8))
  write : String → List UInt8 → m (Except FileFault Unit)
  isDirectory : String → m Bool
  /-- The files below a directory, each by the names on the way to it. -/
  filesBelow : String → m (List (List String))
  /-- The full path of a file or directory that exists. -/
  fullPath? : String → m (Option String)
  /-- Writes to the standard output. -/
  out : String → m Unit
  /-- Writes to the standard error output. -/
  err : String → m Unit
  /-- Writes an entry of the log. -/
  log : LogEntry → m Unit

/-- Files in memory, and what has been written. -/
structure Sandbox where
  /-- The names on the way from the root to the directory that paths begin at. -/
  directory : List String
  /-- The files by the names on the way to them from the root. -/
  files : OrderedMap (List String) (List UInt8)
  out : String
  err : String
  log : List LogEntry

namespace Sandbox

/-- The place of a file that is always empty, whatever is written to it. -/
def nullDevice : List String := ["dev", "null"]

/-- The names that lead somewhere, of those in a path. -/
def properNames (path : String) : List String :=
  (path.splitOn "/").filter fun name => name ≠ "" ∧ name ≠ "."

/-- A sandbox with some files below a directory, which is given by its full path. -/
def ofFiles (directory : String) (files : List (String × List UInt8)) : Sandbox :=
  let directory := properNames directory
  let own := files.map fun (path, bytes) => (directory ++ properNames path, bytes)
  ⟨directory, .ofList ((nullDevice, []) :: own), "", "", []⟩

/-- The places of the files below a directory. -/
def placesBelow (s : Sandbox) (place : List String) : List (List String) :=
  s.files.keys.filter fun k => place.length < k.length && place.isPrefixOf k

/-- Whether some names from the root lead to a directory. -/
def hasDirectory (s : Sandbox) (place : List String) : Bool :=
  place.isPrefixOf s.directory || !(s.placesBelow place).isEmpty

/-- Nothing, if some names lead to a directory; else the fault of looking for more names there. -/
def enter (s : Sandbox) (place : List String) : Except FileFault Unit :=
  if s.hasDirectory place then .ok ()
  else if s.files.contains place then .error .notADirectory
  else .error .notFound

/-- The greatest number of bytes in a name. -/
def maxName : Nat := 255

/-- The greatest number of bytes in a path. -/
def maxPath : Nat := 4095

/-- Follows one more name. -/
def follow (s : Sandbox) (place : List String) (name : String) :
    Except FileFault (List String) := do
  s.enter place
  if name = "" ∨ name = "." then return place
  if name = ".." then return place.dropLast
  if maxName < name.utf8ByteSize then throw .nameTooLong
  return place ++ [name]

/-- Follows names from the beginning of a path. -/
def followAll (s : Sandbox) (path : String) (names : List String) :
    Except FileFault (List String) := do
  if path = "" then throw .notFound
  if maxPath < path.utf8ByteSize then throw .nameTooLong
  names.foldlM s.follow (if path.startsWith "/" then [] else s.directory)

/-- Where a path leads to. There need not be anything. -/
def locate (s : Sandbox) (path : String) : Except FileFault (List String) :=
  s.followAll path (path.splitOn "/")

/-- Whether a path leads to a directory. -/
def isDirectory (s : Sandbox) (path : String) : Bool :=
  match s.locate path with
  | .ok place => s.hasDirectory place
  | .error _ => false

/-- The bytes of the file that a path leads to. -/
def read (s : Sandbox) (path : String) : Except FileFault (List UInt8) := do
  let place ← s.locate path
  if s.hasDirectory place then throw .isADirectory
  match s.files.get? place with
  | some bytes => return bytes
  | none => throw .notFound

/-- Writes a file, which may be new. Its path must not end in a slash. -/
def write (s : Sandbox) (path : String) (bytes : List UInt8) : Except FileFault Sandbox := do
  let way := (path.splitOn "/").reverse
  let around := (way.dropWhile (· = "")).drop 1
  let parent ← s.followAll path around.reverse
  s.enter parent
  if way.head? = some "" then throw .isADirectory
  let place ← s.follow parent (way.headD "")
  if s.hasDirectory place then throw .isADirectory
  if place = nullDevice then return s
  return { s with files := s.files.insert place bytes }

/-- The files below the directory that a path leads to. -/
def filesBelow (s : Sandbox) (path : String) : List (List String) :=
  match s.locate path with
  | .ok place => (s.placesBelow place).map (·.drop place.length)
  | .error _ => []

/-- The full path of what a path leads to. -/
def fullPath? (s : Sandbox) (path : String) : Option String :=
  match s.locate path with
  | .ok place =>
    if s.hasDirectory place ∨ s.files.contains place then
      some ("/" ++ String.intercalate "/" place)
    else none
  | .error _ => none

/-- The size of the file that a path leads to. -/
def size? (s : Sandbox) (path : String) : Option Nat :=
  match s.read path with
  | .ok bytes => some bytes.length
  | .error _ => none

/-- The host with the files in memory. -/
def host : Host (StateM Sandbox) where
  read path := do return (← get).read path
  write path bytes := do
    match (← get).write path bytes with
    | .ok s =>
      set s
      return .ok ()
    | .error e => return .error e
  isDirectory path := do return (← get).isDirectory path
  filesBelow path := do return (← get).filesBelow path
  fullPath? path := do return (← get).fullPath? path
  out text := modify fun s => { s with out := s.out ++ text }
  err text := modify fun s => { s with err := s.err ++ text }
  log entry := modify fun s => { s with log := s.log ++ [entry] }

end Sandbox

end Coscript.Command
