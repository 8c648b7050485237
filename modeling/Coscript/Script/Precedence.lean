/-!
# Operator precedence

A sequence of operands with binary operators between them is read as a tree. Of two operators next
to an operand, the one of higher precedence takes it, and of two of equal precedence the left one.

The sequence is read from left to right. Operators that still wait for their right operand are
pending, together with their left operands; an operator that is read completes those before it
that bind at least as tightly.
-/

namespace Coscript.Script

/-- Operands joined by binary operators. -/
inductive OperandTree (Op Leaf : Type)
  | leaf (x : Leaf)
  | node (op : Op) (left right : OperandTree Op Leaf)
  deriving Repr, DecidableEq

/-- A binary operator with its precedence. -/
structure RankedOperator (Op : Type) where
  op : Op
  precedence : Nat
  deriving Repr, DecidableEq

namespace OperandTree

variable {Op Leaf : Type}

/-- An operator that waits for its right operand. -/
structure Pending (Op Leaf : Type) where
  operator : RankedOperator Op
  left : OperandTree Op Leaf

/-- Completes the pending operators that bind at least as tightly as `precedence`, the last one
first, with `right` as the right operand of the last one. -/
def complete (precedence : Nat) (right : OperandTree Op Leaf) :
    List (Pending Op Leaf) → OperandTree Op Leaf × List (Pending Op Leaf)
  | [] => (right, [])
  | p :: pending =>
    if precedence ≤ p.operator.precedence then
      complete precedence (.node p.operator.op p.left right) pending
    else (right, p :: pending)

/-- Completes all pending operators. -/
def completeAll (right : OperandTree Op Leaf) : List (Pending Op Leaf) → OperandTree Op Leaf
  | [] => right
  | p :: pending => completeAll (.node p.operator.op p.left right) pending

/-- Reads the rest of a sequence after an operand. -/
def resolveFrom (pending : List (Pending Op Leaf)) (last : OperandTree Op Leaf) :
    List (RankedOperator Op × Leaf) → OperandTree Op Leaf
  | [] => completeAll last pending
  | (o, x) :: rest =>
    let (left, pending) := complete o.precedence last pending
    resolveFrom (⟨o, left⟩ :: pending) (.leaf x) rest

/-- The tree of a sequence: its first operand, and the operators each with the operand behind it. -/
def resolve (first : Leaf) (rest : List (RankedOperator Op × Leaf)) : OperandTree Op Leaf :=
  resolveFrom [] (.leaf first) rest

end OperandTree

end Coscript.Script
