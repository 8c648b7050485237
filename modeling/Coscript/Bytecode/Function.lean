import Coscript.Bytecode.Instruction
import Coscript.Data.OrderedMap

/-!
# Functions

A compiled function is its code, its parameters and the source lines of its calls. A compiled file
holds the functions that it defines and an initializer, which is the code of the statements outside
of them.

* `Function.disassembly`: the code as text, one instruction a line.
-/

namespace Coscript

/-- A compiled function. -/
structure Function where
  name : String
  /-- The name of the file that defines it. -/
  file : String
  parameters : List String
  code : Code
  /-- The source line of each call, by the offset of the instruction. -/
  callLines : OrderedMap Nat Nat
  deriving DecidableEq

/-- A compiled file. -/
structure CompiledFile where
  name : String
  functions : OrderedMap String Function
  initializer : Function
  deriving DecidableEq

namespace Function

/-- The name of the code that stands outside of all functions. -/
def initializerName : String := "<init>"

/-- The source line of the call at an offset. -/
def callLine? (f : Function) (offset : Nat) : Option Nat := f.callLines.get? offset

/-- A number with at least four digits. -/
def fourDigits (n : Nat) : String :=
  let digits := Nat.toDigits 10 n
  String.ofList (List.replicate (4 - digits.length) '0' ++ digits)

/-- The line that shows the instruction at an offset. -/
def line (f : Function) (offset : Nat) (i : Instruction) : String :=
  let mark := match f.callLine? offset with
    | some n => s!"  ; line {n}"
    | none => ""
  fourDigits offset ++ " " ++ i.display ++ mark ++ "\n"

/-- The lines from an offset on, after those in `shown`. -/
def disassemblyFrom (f : Function) (offset : Nat) (shown : String) : Except CodeFault String :=
  if _hlt : offset < f.code.size then
    match h : Code.decode f.code offset with
    | .error e => .error e
    | .ok (i, next) =>
      have := Code.lt_of_decode h
      disassemblyFrom f next (shown ++ f.line offset i)
  else .ok shown
termination_by f.code.size - offset

/-- The code of a function as text. -/
def disassembly (f : Function) : Except CodeFault String := f.disassemblyFrom 0 ""

end Function

end Coscript
