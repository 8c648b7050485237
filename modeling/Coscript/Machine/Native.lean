import Coscript.Data.OrderedMap
import Coscript.Machine.Error

/-!
# Native functions

Functions of the host that scripts can call. A native answers at once, or with a pending call that
is asked again and again until it has a value. What a native answers may depend on the calls made
before.

There are two natives to begin with: `print` shows its arguments in the log, and `wait` is pending
for a number of seconds, in whole nanoseconds. The clock of a wait advances by one microsecond each
time it is asked.
-/

namespace Coscript

/-- A call of a native function. -/
structure NativeCall where
  name : String
  arguments : List Value
  deriving Repr, DecidableEq

/-- A call that has not been answered yet. -/
structure PendingCall where
  /-- The answer when asked for the `n`-th time, counted from zero. -/
  answer : Nat → Option Value
  /-- How often it has been asked. -/
  asked : Nat

namespace PendingCall

/-- A call that has no answer a number of times and then answers with a value. -/
def after (times : Nat) (v : Value) : PendingCall :=
  ⟨fun n => if n < times then none else some v, 0⟩

/-- The answer when asked now. -/
def poll (c : PendingCall) : Option Value := c.answer c.asked

/-- The call after it has been asked without an answer. -/
def later (c : PendingCall) : PendingCall := { c with asked := c.asked + 1 }

end PendingCall

/-- How a native function answers. -/
inductive Reply
  | ready (v : Value)
  | pending (call : PendingCall)

/-- A function of the host. -/
structure Native where
  /-- The number of arguments, if it is fixed. -/
  arity : Option Nat
  /-- The answer to some arguments, given the calls made before, the latest first. -/
  reply : List NativeCall → List Value → Except RuntimeError Reply
  /-- The line that a call shows in the log. -/
  line? : List Value → Option String

/-- Native functions by their names. -/
abbrev Natives := OrderedMap String Native

namespace Native

/-- A native that answers by its arguments alone and shows nothing. -/
def pure (arity : Option Nat) (reply : List Value → Except RuntimeError Reply) : Native :=
  ⟨arity, fun _ arguments => reply arguments, fun _ => none⟩

/-- Shows its arguments. -/
def print : Native where
  arity := none
  reply _ _ := .ok (.ready .undefined)
  line? arguments := some (String.intercalate " " (arguments.map Value.display))

/-- How often a wait of some seconds is asked without an answer. A time that is no number, negative
or too long for a clock of 63 bits is refused. -/
def waitingTime? (seconds : UInt32) : Option Nat :=
  match Binary32.decode seconds with
  | .finite negative m q =>
    let (up, down) := Binary32.powerOfTwo q
    if (negative ∧ m ≠ 0) ∨ 0x8000000000000000 * down ≤ m * up then none
    else some ((Binary32.roundDiv (m * up * 1000000000) down + 999) / 1000)
  | _ => none

/-- Is pending for a number of seconds. -/
def wait : Native :=
  pure (some 1) fun arguments =>
    let found := arguments.headD .undefined
    match found.asFloat?.bind waitingTime? with
    | some times => .ok (.pending (.after times .undefined))
    | none => .error (.typeMismatch (.interval found))

end Native

/-- The natives to begin with. -/
def Natives.standard : Natives := .ofList [("print", .print), ("wait", .wait)]

end Coscript
