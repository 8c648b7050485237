import Coscript.Bytes.Reader
import Coscript.Decimal.Layout
import Coscript.Text.Quoted

/-!
# Instructions

The instructions of the stack machine, and the bytes of each: one byte tells the operation, its
operands follow. Numbers take four bytes, the least significant one first, and texts end with a zero
byte. Jumps go to an offset in the code of the same function.
-/

namespace Coscript

/-- When a jump is taken. -/
inductive JumpKind
  | always
  /-- Takes a value off the stack, and jumps if it is false. -/
  | ifFalse
  /-- Jumps if the value on the stack is false, and leaves it there. -/
  | ifFalseKeep
  /-- Jumps if the value on the stack is true, and leaves it there. -/
  | ifTrueKeep
  deriving Repr, DecidableEq

/-- What the machine can be told to do. -/
inductive Instruction
  | pop
  | pushUndefined
  | pushInt (n : Int32)
  /-- Pushes the number with these 32 bits. -/
  | pushFloat (bits : UInt32)
  | pushString (text : String)
  /-- Pushes the name of a variable. -/
  | pushReference (name : String)
  /-- Replaces the name of a variable by its value. -/
  | read
  /-- Takes a value and the name of a variable off the stack, assigns, and pushes the value. -/
  | write
  /-- Takes a value off the stack and binds a name to it in the innermost scope. -/
  | declare (name : String)
  | unary (symbol : String)
  | binary (symbol : String)
  | jump (kind : JumpKind) (target : Nat)
  | call (name : String) (arguments : UInt8)
  | ret
  | enterScope
  | leaveScope
  deriving Repr, DecidableEq

namespace JumpKind

/-- The name of a kind of jump. -/
def name : JumpKind → String
  | always => "Jump"
  | ifFalse => "JumpIfFalse"
  | ifFalseKeep => "JumpIfFalseKeep"
  | ifTrueKeep => "JumpIfTrueKeep"

/-- The kind of jump with a name. -/
def ofName? (s : String) : Option JumpKind :=
  [always, ifFalse, ifFalseKeep, ifTrueKeep].find? (·.name = s)

/-- The byte of a kind of jump. -/
def opcode : JumpKind → UInt8
  | always => 11
  | ifFalse => 12
  | ifFalseKeep => 13
  | ifTrueKeep => 14

end JumpKind

namespace Instruction

/-- The text of an instruction. -/
def display : Instruction → String
  | pop => "Pop"
  | pushUndefined => "PushUndefined"
  | pushInt n => s!"PushInt {n.toInt}"
  | pushFloat bits => "PushFloat " ++ Decimal.Layout.marked.text bits
  | pushString text => "PushString " ++ Quoted.string text
  | pushReference name => s!"PushRef {name}"
  | read => "Read"
  | write => "Write"
  | declare name => s!"Declare {name}"
  | unary symbol => s!"Unary {symbol}"
  | binary symbol => s!"Binary {symbol}"
  | jump kind target => s!"{kind.name} {target}"
  | call name arguments => s!"Call {name} {arguments.toNat}"
  | ret => "Return"
  | enterScope => "EnterScope"
  | leaveScope => "LeaveScope"

/-- The bytes of an instruction. Of a target the 32 low bits are kept. -/
def encode : Instruction → List UInt8
  | pop => [0]
  | pushUndefined => [1]
  | pushInt n => 2 :: Bytes.ofWord n.toUInt32.toNat
  | pushFloat bits => 3 :: Bytes.ofWord bits.toNat
  | pushString text => 4 :: Bytes.ofTerminated text
  | pushReference name => 5 :: Bytes.ofTerminated name
  | read => [6]
  | write => [7]
  | declare name => 8 :: Bytes.ofTerminated name
  | unary symbol => 9 :: Bytes.ofTerminated symbol
  | binary symbol => 10 :: Bytes.ofTerminated symbol
  | jump kind target => kind.opcode :: Bytes.ofWord target
  | call name arguments => 15 :: (Bytes.ofTerminated name ++ [arguments])
  | ret => [16]
  | enterScope => [17]
  | leaveScope => [18]

/-- The number of bytes of an instruction. -/
def width (i : Instruction) : Nat := i.encode.length

theorem width_pos (i : Instruction) : 0 < i.width := by
  cases i <;> simp [width, encode]

end Instruction

/-- The bytes of some instructions. -/
abbrev Code := Array UInt8

/-- Why bytes are no instruction. -/
inductive CodeFault
  | unknownOpcode (opcode : UInt8) (offset : Nat)
  /-- An operand is not complete, or is no text or no offset. -/
  | truncated (offset : Nat)
  deriving Repr, DecidableEq

namespace CodeFault

/-- The text of a fault. -/
def message : CodeFault → String
  | unknownOpcode opcode offset =>
    s!"unknown opcode 0x{DecodeError.hexByte opcode} at offset {offset}"
  | truncated offset => s!"truncated instruction at offset {offset}"

end CodeFault

namespace Code

/-- The number of 32 bits at an offset. -/
def wordAt? (code : Code) (offset : Nat) : Option Nat := do
  let a ← code[offset]?
  let b ← code[offset + 1]?
  let c ← code[offset + 2]?
  let d ← code[offset + 3]?
  return Bytes.toWord a b c d

/-- The offset of the first zero byte from an offset on. -/
def zeroFrom? (code : Code) (offset : Nat) : Option Nat :=
  if h : offset < code.size then
    if code[offset] = 0 then some offset else zeroFrom? code (offset + 1)
  else none
termination_by code.size - offset

/-- The text at an offset, and the offset behind the zero byte that ends it. -/
def textAt? (code : Code) (offset : Nat) : Option (String × Nat) := do
  let last ← code.zeroFrom? offset
  let text ← Bytes.toText? (code.extract offset last).toList
  return (text, last + 1)

/-- The instruction at an offset, and the offset behind it. -/
def decode (code : Code) (offset : Nat) : Except CodeFault (Instruction × Nat) :=
  let operand := offset + 1
  let word (make : Nat → Option Instruction) : Except CodeFault (Instruction × Nat) :=
    match (code.wordAt? operand).bind make with
    | some i => .ok (i, operand + 4)
    | none => .error (.truncated operand)
  let text (make : String → Instruction) : Except CodeFault (Instruction × Nat) :=
    match code.textAt? operand with
    | some (s, next) => .ok (make s, next)
    | none => .error (.truncated operand)
  let jump (kind : JumpKind) : Except CodeFault (Instruction × Nat) :=
    word fun n => if n < 0x80000000 then some (.jump kind n) else none
  match code[offset]? with
  | none => .error (.truncated offset)
  | some opcode =>
    match opcode.toNat with
    | 0 => .ok (.pop, operand)
    | 1 => .ok (.pushUndefined, operand)
    | 2 => word fun n => some (.pushInt (UInt32.ofNat n).toInt32)
    | 3 => word fun n => some (.pushFloat (UInt32.ofNat n))
    | 4 => text .pushString
    | 5 => text .pushReference
    | 6 => .ok (.read, operand)
    | 7 => .ok (.write, operand)
    | 8 => text .declare
    | 9 => text .unary
    | 10 => text .binary
    | 11 => jump .always
    | 12 => jump .ifFalse
    | 13 => jump .ifFalseKeep
    | 14 => jump .ifTrueKeep
    | 15 =>
      match code.textAt? operand with
      | none => .error (.truncated operand)
      | some (name, next) =>
        match code[next]? with
        | none => .error (.truncated next)
        | some arguments => .ok (.call name arguments, next + 1)
    | 16 => .ok (.ret, operand)
    | 17 => .ok (.enterScope, operand)
    | 18 => .ok (.leaveScope, operand)
    | _ => .error (.unknownOpcode opcode offset)

/-! ### Where the next instruction begins -/

theorem le_of_zeroFrom? {code : Code} {offset last : Nat}
    (h : code.zeroFrom? offset = some last) : offset ≤ last := by
  fun_induction zeroFrom? code offset with
  | case1 => simp_all
  | case2 offset hlt hne ih =>
    have := ih h
    omega
  | case3 => cases h

theorem lt_of_textAt? {code : Code} {offset next : Nat} {s : String}
    (h : code.textAt? offset = some (s, next)) : offset < next := by
  simp only [textAt?, Option.bind_eq_bind, Option.bind_eq_some_iff] at h
  obtain ⟨last, hlast, text, htext, h⟩ := h
  have := le_of_zeroFrom? hlast
  simp only [Option.pure_def, Option.some.injEq, Prod.mk.injEq] at h
  omega

/-- The next instruction begins behind this one. -/
theorem lt_of_decode {code : Code} {offset next : Nat} {i : Instruction}
    (h : code.decode offset = .ok (i, next)) : offset < next := by
  have hw : ∀ {make : Nat → Option Instruction},
      (match (code.wordAt? (offset + 1)).bind make with
        | some i => Except.ok (i, offset + 1 + 4)
        | none => .error (CodeFault.truncated (offset + 1))) = .ok (i, next) → offset < next := by
    intro make h
    split at h
    · cases h
      omega
    · cases h
  have ht : ∀ {make : String → Instruction},
      (match code.textAt? (offset + 1) with
        | some (s, next) => Except.ok (make s, next)
        | none => .error (CodeFault.truncated (offset + 1))) = .ok (i, next) → offset < next := by
    intro make h
    split at h
    · next hs =>
      cases h
      have := lt_of_textAt? hs
      omega
    · cases h
  unfold decode at h
  dsimp only at h
  split at h
  · cases h
  · split at h
    case h_16 =>
      split at h
      · cases h
      · next hs =>
        have := lt_of_textAt? hs
        split at h
        · cases h
        · cases h
          omega
    all_goals first
      | exact hw h
      | exact ht h
      | (cases h; omega)
      | cases h

end Code

end Coscript
