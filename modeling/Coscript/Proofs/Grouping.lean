import Coscript.Script.Precedence
import Mathlib.Data.List.Basic
import Mathlib.Tactic.Lemma

/-!
# How operators group

A tree groups the sequence of its operands and operators as it should if every operator in a left
operand binds at least as tightly as the operator it is an operand of, and every operator in a right
operand binds tighter. A sequence can be grouped like this in one way only, and it is how sequences
are read.

* `OperandTree.Grouped`: tighter operators lie below looser ones, and equal ones lie to the left;
* `OperandTree.Grouped.unique`: a sequence is grouped in one way;
* `OperandTree.resolve_grouped`: the tree of a sequence groups it.
-/

namespace Coscript.Script.OperandTree

variable {Op Leaf : Type} {rank : Op → Nat}

/-- The first operand. -/
def first : OperandTree Op Leaf → Leaf
  | leaf x => x
  | node _ left _ => left.first

/-- The operators from left to right, each with the operand behind it. -/
def rest : OperandTree Op Leaf → List (Op × Leaf)
  | leaf _ => []
  | node op left right => left.rest ++ (op, right.first) :: right.rest

/-- All operators of a tree have a property. -/
def AllOperators (P : Op → Prop) (t : OperandTree Op Leaf) : Prop := ∀ x ∈ t.rest, P x.1

/-- **Operators group by rank**, and equal ones to the left. -/
def Grouped (rank : Op → Nat) : OperandTree Op Leaf → Prop
  | leaf _ => True
  | node op left right =>
    left.Grouped rank ∧ right.Grouped rank ∧
      left.AllOperators (fun op' => rank op ≤ rank op') ∧
      right.AllOperators (fun op' => rank op < rank op')

lemma allOperators_node {P : Op → Prop} {op : Op} {left right : OperandTree Op Leaf} :
    (node op left right).AllOperators P ↔
      left.AllOperators P ∧ P op ∧ right.AllOperators P := by
  simp [AllOperators, rest, or_imp, forall_and]

lemma AllOperators.imp {P Q : Op → Prop} {t : OperandTree Op Leaf} (h : t.AllOperators P)
    (hPQ : ∀ op, P op → Q op) : t.AllOperators Q := fun x hx => hPQ _ (h x hx)

/-! ### Uniqueness -/

/-- If one sequence is split before an operator and the same sequence before a later one, the later
operator is no looser than the first in one view, and tighter in the other. -/
lemma length_le_of_grouped {op op' : Op} {left right left' right' : OperandTree Op Leaf}
    (h : (node op left right).Grouped rank) (h' : (node op' left' right').Grouped rank)
    (hrest : (node op left right).rest = (node op' left' right').rest) :
    left'.rest.length ≤ left.rest.length := by
  by_contra hlt
  obtain ⟨-, -, -, hright⟩ := h
  obtain ⟨-, -, hleft', -⟩ := h'
  rw [rest, rest] at hrest
  rcases List.append_eq_append_iff.mp hrest with ⟨m, hl', hm⟩ | ⟨m, hl, -⟩
  · cases m with
    | nil => simp [hl'] at hlt
    | cons x m =>
      simp only [List.cons_append, List.cons.injEq] at hm
      have hle := hleft' x (by simp [hl'])
      have hlt := hright (op', right'.first) (by simp [hm.2])
      rw [← hm.1] at hle
      exact absurd hle (Nat.not_le.mpr hlt)
  · simp [hl] at hlt

/-- **A sequence is grouped in one way.** -/
theorem Grouped.unique {t t' : OperandTree Op Leaf} (h : t.Grouped rank) (h' : t'.Grouped rank)
    (hfirst : t.first = t'.first) (hrest : t.rest = t'.rest) : t = t' := by
  induction t generalizing t' with
  | leaf x =>
    cases t' with
    | leaf y => rw [show x = y from hfirst]
    | node => simp [rest] at hrest
  | node op left right ihl ihr =>
    cases t' with
    | leaf => simp [rest] at hrest
    | node op' left' right' =>
      have hlength := Nat.le_antisymm (length_le_of_grouped h' h hrest.symm)
        (length_le_of_grouped h h' hrest)
      obtain ⟨hl, hr⟩ := List.append_inj hrest hlength
      simp only [List.cons.injEq, Prod.mk.injEq] at hr
      rw [ihl h.1 h'.1 hfirst hl, ihr h.2.1 h'.2.1 hr.1.2 hr.2, hr.1.1]

/-! ### Reading sequences -/

/-- The first operand of pending operators and the operand behind them. -/
def pendingFirst : List (Pending Op Leaf) → OperandTree Op Leaf → Leaf
  | [], t => t.first
  | p :: ps, _ => pendingFirst ps p.left

/-- The operators and operands of pending operators and the operand behind them. -/
def pendingRest : List (Pending Op Leaf) → OperandTree Op Leaf → List (Op × Leaf)
  | [], t => t.rest
  | p :: ps, t => pendingRest ps p.left ++ (p.operator.op, t.first) :: t.rest

/-- What is read groups: each pending operator binds tighter than the one before it, and looser
than the operators behind it, and no tighter than those of its left operand. -/
def Waiting (rank : Op → Nat) : List (Pending Op Leaf) → OperandTree Op Leaf → Prop
  | [], t => t.Grouped rank
  | p :: ps, t =>
    t.Grouped rank ∧ t.AllOperators (fun op => rank p.operator.op < rank op) ∧
      p.left.AllOperators (fun op => rank p.operator.op ≤ rank op) ∧
      p.operator.precedence = rank p.operator.op ∧
      (∀ q ∈ ps.head?, rank q.operator.op < rank p.operator.op) ∧ Waiting rank ps p.left

variable {t : OperandTree Op Leaf} {ps : List (Pending Op Leaf)} {p : Pending Op Leaf}

lemma Waiting.grouped (h : Waiting rank ps t) : t.Grouped rank := by
  cases ps with
  | nil => exact h
  | cons p ps => exact h.1

/-- A pending operator is completed. -/
lemma Waiting.node (h : Waiting rank (p :: ps) t) :
    Waiting rank ps (.node p.operator.op p.left t) := by
  obtain ⟨ht, htight, hleft, -, hhead, hps⟩ := h
  have hgrouped : (OperandTree.node p.operator.op p.left t).Grouped rank :=
    ⟨hps.grouped, ht, hleft, htight⟩
  cases ps with
  | nil => exact hgrouped
  | cons q ps =>
    obtain ⟨-, hp, hrest⟩ := hps
    have hq : rank q.operator.op < rank p.operator.op := hhead q rfl
    exact ⟨hgrouped, allOperators_node.mpr ⟨hp, hq, htight.imp fun _ => Nat.lt_trans hq⟩, hrest⟩

lemma complete_spec (precedence : Nat) (h : Waiting rank ps t)
    (ht : t.AllOperators fun op => precedence ≤ rank op) :
    Waiting rank (complete precedence t ps).2 (complete precedence t ps).1 ∧
      (complete precedence t ps).1.AllOperators (fun op => precedence ≤ rank op) ∧
      (∀ q ∈ (complete precedence t ps).2.head?, rank q.operator.op < precedence) ∧
      pendingFirst (complete precedence t ps).2 (complete precedence t ps).1 = pendingFirst ps t ∧
      pendingRest (complete precedence t ps).2 (complete precedence t ps).1 = pendingRest ps t := by
  induction ps generalizing t with
  | nil => exact ⟨h, ht, by simp [complete], rfl, rfl⟩
  | cons p ps ih =>
    have hrank : p.operator.precedence = rank p.operator.op := h.2.2.2.1
    rw [complete]
    split
    · next hle =>
      rw [hrank] at hle
      have hall := allOperators_node.mpr ⟨h.2.2.1.imp fun _ => Nat.le_trans hle, hle, ht⟩
      obtain ⟨hw, ho, hh, hf, hr⟩ := ih h.node hall
      refine ⟨hw, ho, hh, hf.trans ?_, hr.trans ?_⟩
      · cases ps <;> rfl
      · cases ps <;> simp [pendingRest, rest, first]
    · next hlt =>
      refine ⟨h, ht, fun q hq => ?_, rfl, rfl⟩
      cases hq
      rw [← hrank]
      exact Nat.lt_of_not_le hlt

lemma completeAll_spec (h : Waiting rank ps t) :
    (completeAll t ps).Grouped rank ∧ (completeAll t ps).first = pendingFirst ps t ∧
      (completeAll t ps).rest = pendingRest ps t := by
  induction ps generalizing t with
  | nil => exact ⟨h, rfl, rfl⟩
  | cons p ps ih =>
    obtain ⟨hg, hf, hr⟩ := ih h.node
    refine ⟨hg, hf.trans ?_, hr.trans ?_⟩
    · cases ps <;> rfl
    · cases ps <;> simp [pendingRest, rest, first]

lemma resolveFrom_spec {x : Leaf} {xs : List (RankedOperator Op × Leaf)}
    (hxs : ∀ y ∈ xs, y.1.precedence = rank y.1.op) (h : Waiting rank ps (.leaf x)) :
    (resolveFrom ps (.leaf x) xs).Grouped rank ∧
      (resolveFrom ps (.leaf x) xs).first = pendingFirst ps (.leaf x) ∧
      (resolveFrom ps (.leaf x) xs).rest =
        pendingRest ps (.leaf x) ++ xs.map fun y => (y.1.op, y.2) := by
  induction xs generalizing ps x with
  | nil => simpa [resolveFrom] using completeAll_spec h
  | cons y xs ih =>
    obtain ⟨o, y⟩ := y
    obtain ⟨ho, hxs⟩ := List.forall_mem_cons.mp hxs
    obtain ⟨hw, hall, hhead, hf, hr⟩ := complete_spec o.precedence h (by
      simp [AllOperators, rest])
    rw [resolveFrom]
    have hnext : Waiting rank (⟨o, (complete o.precedence (.leaf x) ps).1⟩ ::
        (complete o.precedence (.leaf x) ps).2) (.leaf y) :=
      ⟨trivial, by simp [AllOperators, rest], ho ▸ hall, ho, ho ▸ hhead, hw⟩
    obtain ⟨hg, hf', hr'⟩ := ih hxs hnext
    refine ⟨hg, hf'.trans hf, hr'.trans ?_⟩
    simp [pendingRest, hr, rest, first]

/-- **The tree of a sequence groups it** by the precedence of its operators, and to the left. -/
theorem resolve_grouped {x : Leaf} {xs : List (RankedOperator Op × Leaf)}
    (hxs : ∀ y ∈ xs, y.1.precedence = rank y.1.op) :
    (resolve x xs).Grouped rank ∧ (resolve x xs).first = x ∧
      (resolve x xs).rest = xs.map fun y => (y.1.op, y.2) :=
  resolveFrom_spec hxs (show Grouped rank (.leaf x) from trivial)

end Coscript.Script.OperandTree
