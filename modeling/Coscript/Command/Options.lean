import Coscript.Data.OrderedMap

/-!
# The options of the command line

Options have a long name, given after two dashes, and some a short one, given after one dash or
two. The short names of several options may be given together after one dash. The value of an
option follows it: at once after a short name, after an equals sign behind two dashes and a name, or
as the next argument. All other arguments are paths, and so are all that come after two dashes
alone.

* `Request.parse`: what the arguments of the command ask for;
* `usage`: the text that explains the options.
-/

namespace Coscript.Command

/-- The options. -/
inductive Switch
  | type
  | entry
  | saveTable
  | loadTable
  | disassemble
  | help
  deriving Repr, DecidableEq

namespace Switch

/-- All options. -/
def all : List Switch := [type, entry, saveTable, loadTable, disassemble, help]

/-- The long name of an option. -/
def long : Switch → String
  | type => "type"
  | entry => "entry"
  | saveTable => "save-table"
  | loadTable => "load-table"
  | disassemble => "disassemble"
  | help => "help"

/-- The short name of an option. -/
def short? : Switch → Option Char
  | type => some 't'
  | entry => some 'e'
  | saveTable => none
  | loadTable => none
  | disassemble => some 'd'
  | help => some 'h'

/-- Whether an option has a value. -/
def takesValue : Switch → Bool
  | disassemble => false
  | help => false
  | _ => true

end Switch

/-- Why arguments are not understood. The text is the option's name. -/
inductive OptionError
  | unrecognized (name : String)
  | valueMissing (name : String)
  | unexpectedValue (name : String)
  | repeated (name : String)
  deriving Repr, DecidableEq

/-- The text of an error. -/
def OptionError.message : OptionError → String
  | unrecognized name => s!"Unrecognized option: '{name}'"
  | valueMissing name => s!"Argument to option '{name}' missing"
  | unexpectedValue name => s!"Option '{name}' does not take an argument"
  | repeated name => s!"Option '{name}' given more than once"

/-- The arguments read so far. -/
structure Arguments where
  /-- The options and their values, the latest first. -/
  given : List (Switch × Option String)
  /-- The paths, the latest first. -/
  paths : List String
  /-- An option whose value is the next argument, and the name it was given by. -/
  waiting? : Option (Switch × String)
  /-- Whether only paths follow. -/
  onlyPaths : Bool

namespace Arguments

/-- No arguments. -/
def none : Arguments := ⟨[], [], .none, false⟩

/-- Adds an option. -/
def add (a : Arguments) (s : Switch) (value? : Option String) : Arguments :=
  { a with given := (s, value?) :: a.given }

/-- Reads a name that was given after two dashes, with what stands behind an equals sign. -/
def addLong (a : Arguments) (name : String) (value? : Option String) :
    Except OptionError Arguments :=
  match Switch.all.find? fun s => s.long = name || s.short?.map String.singleton = some name with
  | .none => .error (.unrecognized name)
  | some s =>
    match s.takesValue, value? with
    | true, some v => .ok (a.add s (some v))
    | true, .none => .ok { a with waiting? := some (s, name) }
    | false, .none => .ok (a.add s .none)
    | false, some _ => .error (.unexpectedValue name)

/-- Reads short names. What follows the name of an option with a value is its value. -/
def addShort : List Char → Arguments → Except OptionError Arguments
  | [], a => .ok a
  | c :: cs, a =>
    match Switch.all.find? (·.short? = some c) with
    | .none => .error (.unrecognized (String.singleton c))
    | some s =>
      if !s.takesValue then addShort cs (a.add s .none)
      else if cs = [] then .ok { a with waiting? := some (s, String.singleton c) }
      else .ok (a.add s (some (String.ofList cs)))

/-- Reads one argument. -/
def read (a : Arguments) (argument : String) : Except OptionError Arguments :=
  match a.waiting? with
  | some (s, _) => .ok { a.add s (some argument) with waiting? := .none }
  | .none =>
    if a.onlyPaths then .ok { a with paths := argument :: a.paths }
    else
      match argument.toList with
      | ['-', '-'] => .ok { a with onlyPaths := true }
      | '-' :: '-' :: cs =>
        match cs.dropWhile (· ≠ '=') with
        | [] => a.addLong (String.ofList cs) .none
        | _ :: value =>
          a.addLong (String.ofList (cs.takeWhile (· ≠ '='))) (some (String.ofList value))
      | '-' :: c :: cs => addShort (c :: cs) a
      | _ => .ok { a with paths := argument :: a.paths }

/-- The values that an option was given. -/
def valuesOf (a : Arguments) (s : Switch) : List (Option String) :=
  (a.given.filter fun g => g.1 = s).map Prod.snd

/-- Reads all arguments. No option may be left without its value or be given twice. -/
def readAll (arguments : List String) : Except OptionError Arguments := do
  let a ← arguments.foldlM read none
  match a.waiting? with
  | some (_, name) => throw (.valueMissing name)
  | .none =>
    match Switch.all.find? fun s => 1 < (a.valuesOf s).length with
    | some s => throw (.repeated s.long)
    | .none => return a

end Arguments

/-- What the command is asked to do. -/
structure Request where
  type? : Option String
  entry? : Option String
  saveTable? : Option String
  loadTable? : Option String
  disassemble : Bool
  help : Bool
  paths : List String
  deriving Repr, DecidableEq

/-- What some arguments ask for. -/
def Request.parse (arguments : List String) : Except OptionError Request := do
  let a ← Arguments.readAll arguments
  let value (s : Switch) : Option String := (a.valuesOf s).head?.bind id
  let isGiven (s : Switch) : Bool := !(a.valuesOf s).isEmpty
  return {
    type? := value .type
    entry? := value .entry
    saveTable? := value .saveTable
    loadTable? := value .loadTable
    disassemble := isGiven .disassemble
    help := isGiven .help
    paths := a.paths.reverse }

/-- The text that explains the options. -/
def usage (program : String) : String :=
  s!"Usage: {program} [options] PATH\n\n" ++ String.intercalate "\n" [
    "Options:",
    "    -t, --type TYPE     Type of parsing table to build. Defaults to LALR.",
    "                        Supported types: SLR, LALR, CLR (case insensitive)",
    "    -e, --entry NAME    Function to call once every file is loaded",
    "        --save-table FILE",
    "                        Write the parsing table to FILE",
    "        --load-table FILE",
    "                        Read the parsing table from FILE instead of building",
    "                        it",
    "    -d, --disassemble   Print the bytecode of every compiled function",
    "    -h, --help          Print this message",
    ""]

end Coscript.Command
