import Coscript.Command.Session

/-!
# The program

The command on the files of the system. The log goes to the standard error output, from level
`INFO` up.
-/

namespace Coscript.Command.System

/-- The number and the text of a fault of the system. The number may be negated in 32 bits. -/
def cause : IO.Error → UInt32 × String
  | .noFileOrDirectory _ n s => (n, s)
  | .interrupted _ n s => (n, s)
  | .alreadyExists _ n s => (n, s)
  | .invalidArgument _ n s => (n, s)
  | .permissionDenied _ n s => (n, s)
  | .resourceExhausted _ n s => (n, s)
  | .inappropriateType _ n s => (n, s)
  | .noSuchThing _ n s => (n, s)
  | .otherError n s => (n, s)
  | .resourceBusy n s => (n, s)
  | .resourceVanished n s => (n, s)
  | .unsupportedOperation n s => (n, s)
  | .hardwareFault n s => (n, s)
  | .unsatisfiedConstraints n s => (n, s)
  | .illegalOperation n s => (n, s)
  | .protocolError n s => (n, s)
  | .timeExpired n s => (n, s)
  | .unexpectedEof => (0, "unexpected end of file")
  | .userError s => (0, s)

/-- A fault of the system as one of the command's host. -/
def fault (e : IO.Error) : FileFault :=
  let (n, reason) := cause e
  match min n.toNat (-n).toNat with
  | 2 => .notFound
  | 20 => .notADirectory
  | 21 => .isADirectory
  | 36 => .nameTooLong
  | number => .other reason number

/-- The result of an action, or the fault that ended it. -/
def attempt {α : Type} (action : IO α) : IO (Except FileFault α) := do
  try return .ok (← action)
  catch e => return .error (fault e)

/-- The files among entries of a directory and below them, each by the names on the way to it, which
begins with `way`. Links are not followed, and what cannot be looked at is passed over. -/
partial def filesAmong (way : List String) (entries : List IO.FS.DirEntry) :
    IO (List (List String)) := do
  let found ← entries.mapM fun entry => do
    let here := way ++ [entry.fileName]
    try
      match (← entry.path.symlinkMetadata).type with
      | .file => return [here]
      | .dir => filesAmong here (← entry.path.readDir).toList
      | _ => return []
    catch _ => return []
  return found.flatten

/-- The host with the files of the system. -/
def host : Host IO where
  read path := attempt do return (← IO.FS.readBinFile path).data.toList
  write path bytes := attempt (IO.FS.writeBinFile path ⟨bytes.toArray⟩)
  isDirectory path := do
    try (← IO.FS.realPath path).isDir
    catch _ => return false
  filesBelow path := do
    try filesAmong [] (← (← IO.FS.realPath path).readDir).toList
    catch _ => return []
  fullPath? path := do
    try return some (← IO.FS.realPath path).toString
    catch _ => return none
  out text := IO.print text
  err text := IO.eprint text
  log entry := IO.eprintln s!"[{entry.level.name}] {entry.text}"

/-- More steps than any run takes. -/
def fuel : Nat := 1000000000000000000

end Coscript.Command.System

/-- The command; its result is the code to exit with. -/
def main (arguments : List String) : IO UInt32 := do
  let program := (← IO.appPath).fileName.getD "earle"
  let exit ← Coscript.Command.run Coscript.Command.System.host Coscript.Command.System.fuel
    (some .info) program arguments
  return exit.getD 1
