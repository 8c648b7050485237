import Coscript.Bytecode.Function

/-!
# Assembling code

An assembler appends instructions to code and notes the lines of calls. A jump whose target is not
known yet is appended with target `0`; its target is filled in later, when the code has grown up to
the place where the jump should go.
-/

namespace Coscript

/-- An instruction to append; a call may have a source line. -/
structure Emission where
  instruction : Instruction
  line? : Option Nat
  deriving Repr, DecidableEq

/-- The code assembled so far. -/
structure Assembler where
  code : Code
  callLines : OrderedMap Nat Nat

namespace Assembler

/-- No code. -/
def empty : Assembler := ⟨#[], ∅⟩

instance : Inhabited Assembler := ⟨empty⟩

/-- The offset of the next instruction. -/
def offset (a : Assembler) : Nat := a.code.size

/-- Appends an instruction, and notes its source line if it has one. -/
def append (a : Assembler) (e : Emission) : Assembler :=
  { code := a.code ++ e.instruction.encode.toArray
    callLines := match e.line? with
      | some line => a.callLines.insert a.offset line
      | none => a.callLines }

/-- Appends an instruction. -/
def emit (a : Assembler) (i : Instruction) : Assembler := a.append ⟨i, none⟩

/-- Appends a call that stands on a source line. -/
def emitCall (a : Assembler) (name : String) (arguments : UInt8) (line : Nat) : Assembler :=
  a.append ⟨.call name arguments, some line⟩

/-- Appends a jump to be patched, and gives the position of its target. -/
def emitJump (a : Assembler) (kind : JumpKind) : Assembler × Nat :=
  (a.emit (.jump kind 0), a.offset + 1)

/-- Lets the jump with its target at a position go to the current offset. -/
def patch (a : Assembler) (position : Nat) : Assembler :=
  let target := (Bytes.ofWord a.offset).zipIdx position
  ⟨target.foldl (fun code (b, i) => code.setIfInBounds i b) a.code, a.callLines⟩

/-- The function with the assembled code. -/
def finish (a : Assembler) (name file : String) (parameters : List String) : Function :=
  ⟨name, file, parameters, a.code, a.callLines⟩

end Assembler

end Coscript
