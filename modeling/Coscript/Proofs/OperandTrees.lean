import Coscript.Proofs.Meaning

/-!
# Resolving precedence

The operands of a binary sequence and the operators between them are read to a tree before any of
the operands is elaborated. The tree says the sequence again when its nodes are visited in order,
and at every node the operators just below it bind as they should: one to the left at least as
tightly, one to the right tighter. There is no other such tree.

The reading can be done with two stacks, one of operands and one of operators, where a reduction
takes an operator and two operands off them. It could fail for want of an operand, but there is
always one more of them than there are operators.

* `OperandTree.Ordered`: neighbouring operators bind as they should;
* `OperandTree.ordered_iff_grouped`: then so do all operators below a node;
* `OperandTree.Stacks.read?_eq_resolve`: reading with two stacks never fails;
* `Elaboration.expression_eq_operandTree`: expressions are elaborated from their operand trees;
* `Elaboration.operandTree_unique`: the operand tree of a sequence is the only ordered one.
-/

namespace Coscript.Script

namespace OperandTree

variable {Op Leaf Leaf' : Type} {rank : Op → Nat}

/-! ### Orders of nodes -/

/-- The operands and operators of a tree in order. -/
def inorder : OperandTree Op Leaf → List (Leaf ⊕ Op)
  | leaf x => [.inl x]
  | node op left right => left.inorder ++ .inr op :: right.inorder

/-- The operator at the root. -/
def root? : OperandTree Op Leaf → Option Op
  | leaf _ => none
  | node op _ _ => some op

/-- **An operator below another one binds as it should**: at least as tightly if it is in the left
operand, and tighter if it is in the right one. -/
def Ordered (rank : Op → Nat) : OperandTree Op Leaf → Prop
  | leaf _ => True
  | node op left right =>
    (∀ op' ∈ left.root?, rank op ≤ rank op') ∧ (∀ op' ∈ right.root?, rank op < rank op') ∧
      left.Ordered rank ∧ right.Ordered rank

/-- A sequence in order. -/
def sequence (first : Leaf) (rest : List (Op × Leaf)) : List (Leaf ⊕ Op) :=
  .inl first :: rest.flatMap fun y => [.inr y.1, .inl y.2]

lemma inorder_eq_sequence (t : OperandTree Op Leaf) : t.inorder = sequence t.first t.rest := by
  induction t with
  | leaf x => rfl
  | node op left right ihl ihr => simp [inorder, ihl, ihr, sequence, first, rest]

lemma sequence_inj {first first' : Leaf} {rest rest' : List (Op × Leaf)}
    (h : sequence first rest = sequence first' rest') : first = first' ∧ rest = rest' := by
  induction rest generalizing first first' rest' with
  | nil =>
    cases rest' with
    | nil => exact ⟨by simpa [sequence] using h, rfl⟩
    | cons => simp [sequence] at h
  | cons y rest ih =>
    cases rest' with
    | nil => simp [sequence] at h
    | cons y' rest' =>
      obtain ⟨op, x⟩ := y
      obtain ⟨op', x'⟩ := y'
      simp only [sequence, List.flatMap_cons, List.cons_append, List.nil_append, List.cons.injEq,
        Sum.inl.injEq, Sum.inr.injEq] at h
      obtain ⟨rfl, rfl, h⟩ := h
      have hsequence : sequence x rest = sequence x' rest' := by simpa [sequence] using h
      obtain ⟨rfl, rfl⟩ := ih hsequence
      exact ⟨rfl, rfl⟩

/-- If neighbours bind as they should, an operator is not tighter than those in its left operand,
and looser than those in its right one. -/
lemma Ordered.allOperators {t : OperandTree Op Leaf} {P : Op → Prop} (h : t.Ordered rank)
    (hroot : ∀ op ∈ t.root?, P op) (hP : ∀ op op', P op → rank op ≤ rank op' → P op') :
    t.AllOperators P := by
  induction t with
  | leaf => simp [AllOperators, rest]
  | node op left right ihl ihr =>
    obtain ⟨hl, hr, hleft, hright⟩ := h
    have hop : P op := hroot op rfl
    refine allOperators_node.mpr ⟨ihl hleft fun op' h' => ?_, hop, ihr hright fun op' h' => ?_⟩
    · exact hP op op' hop (hl op' h')
    · exact hP op op' hop (hr op' h').le

lemma AllOperators.root {t : OperandTree Op Leaf} {P : Op → Prop} (h : t.AllOperators P) :
    ∀ op ∈ t.root?, P op := by
  cases t with
  | leaf => simp [root?]
  | node op left right =>
    rintro _ ⟨⟩
    exact (allOperators_node.mp h).2.1

/-- **It is enough to look at neighbours.** -/
theorem ordered_iff_grouped {t : OperandTree Op Leaf} : t.Ordered rank ↔ t.Grouped rank := by
  induction t with
  | leaf => exact Iff.rfl
  | node op left right ihl ihr =>
    constructor
    · rintro ⟨hl, hr, hleft, hright⟩
      exact ⟨ihl.mp hleft, ihr.mp hright, hleft.allOperators hl fun _ _ => Nat.le_trans,
        hright.allOperators hr fun _ _ => Nat.lt_of_lt_of_le⟩
    · rintro ⟨hleft, hright, hl, hr⟩
      exact ⟨hl.root, hr.root, ihl.mpr hleft, ihr.mpr hright⟩

/-! ### Two stacks -/

/-- Operands and operators on stacks of their own, the last ones first. -/
structure Stacks (Op Leaf : Type) where
  operands : List (OperandTree Op Leaf)
  operators : List (RankedOperator Op)

namespace Stacks

/-- Reduces by the last operators that are to be reduced. Fails if an operand is missing. -/
def reduce? (reduces : RankedOperator Op → Bool) :
    List (OperandTree Op Leaf) → List (RankedOperator Op) → Option (Stacks Op Leaf)
  | operands, [] => some ⟨operands, []⟩
  | operands, o :: operators =>
    if reduces o then
      match operands with
      | right :: left :: operands => reduce? reduces (.node o.op left right :: operands) operators
      | _ => none
    else some ⟨operands, o :: operators⟩

/-- Reads the rest of a sequence. -/
def read? (s : Stacks Op Leaf) : List (RankedOperator Op × Leaf) → Option (OperandTree Op Leaf)
  | [] => do
    let s ← reduce? (fun _ => true) s.operands s.operators
    s.operands.head?
  | (o, x) :: rest => do
    let s ← reduce? (o.precedence ≤ ·.precedence) s.operands s.operators
    read? ⟨.leaf x :: s.operands, o :: s.operators⟩ rest

/-- The stacks of pending operators and the operand behind them: there is one more operand. -/
def ofPending (last : OperandTree Op Leaf) (pending : List (Pending Op Leaf)) : Stacks Op Leaf :=
  ⟨last :: pending.map Pending.left, pending.map Pending.operator⟩

lemma reduce?_ofPending (precedence : Nat) (last : OperandTree Op Leaf)
    (pending : List (Pending Op Leaf)) :
    reduce? (precedence ≤ ·.precedence) (ofPending last pending).operands
      (ofPending last pending).operators =
        some (ofPending (complete precedence last pending).1
          (complete precedence last pending).2) := by
  induction pending generalizing last with
  | nil => rfl
  | cons p pending ih =>
    rw [complete]
    by_cases h : precedence ≤ p.operator.precedence
    · simpa [ofPending, reduce?, h] using ih (.node p.operator.op p.left last)
    · simp [ofPending, reduce?, h]

lemma reduce?_all (last : OperandTree Op Leaf) (pending : List (Pending Op Leaf)) :
    reduce? (fun _ => true) (ofPending last pending).operands (ofPending last pending).operators =
      some ⟨[completeAll last pending], []⟩ := by
  induction pending generalizing last with
  | nil => rfl
  | cons p pending ih =>
    simpa [ofPending, reduce?, completeAll] using ih (.node p.operator.op p.left last)

lemma read?_ofPending (last : OperandTree Op Leaf) (pending : List (Pending Op Leaf))
    (rest : List (RankedOperator Op × Leaf)) :
    (ofPending last pending).read? rest = some (resolveFrom pending last rest) := by
  induction rest generalizing last pending with
  | nil => simp [read?, reduce?_all, resolveFrom]
  | cons y rest ih =>
    obtain ⟨o, x⟩ := y
    rw [read?, reduce?_ofPending]
    exact ih (.leaf x) (⟨o, (complete o.precedence last pending).1⟩ ::
      (complete o.precedence last pending).2)

/-- **Reading with two stacks never fails.** -/
theorem read?_eq_resolve (first : Leaf) (rest : List (RankedOperator Op × Leaf)) :
    (Stacks.mk [.leaf first] []).read? rest = some (resolve first rest) :=
  read?_ofPending (.leaf first) [] rest

end Stacks

/-! ### Replacing operands -/

section Traverse

variable {m : Type → Type} [Monad m] [LawfulMonad m] (f : Leaf → m Leaf')

/-- Replaces the operands of a tree in order. -/
def traverse {m : Type → Type} [Monad m] (f : Leaf → m Leaf') :
    OperandTree Op Leaf → m (OperandTree Op Leaf')
  | leaf x => do return leaf (← f x)
  | node op left right => do
    let left ← left.traverse f
    let right ← right.traverse f
    return node op left right

/-- Replaces the operands of pending operators in order. -/
def Pending.traverseAll {m : Type → Type} [Monad m] (f : Leaf → m Leaf') :
    List (Pending Op Leaf) → m (List (Pending Op Leaf'))
  | [] => return []
  | p :: pending => do
    let pending ← traverseAll f pending
    let left ← p.left.traverse f
    return ⟨p.operator, left⟩ :: pending

lemma traverse_complete (precedence : Nat) (last : OperandTree Op Leaf)
    (pending : List (Pending Op Leaf)) :
    (do
      let pending ← Pending.traverseAll f pending
      let last ← last.traverse f
      return complete precedence last pending) =
    (do
      let completed ← Pending.traverseAll f (complete precedence last pending).2
      let last ← (complete precedence last pending).1.traverse f
      return (last, completed)) := by
  induction pending generalizing last with
  | nil => simp [complete, Pending.traverseAll]
  | cons p pending ih =>
    by_cases h : precedence ≤ p.operator.precedence
    · simpa [complete, Pending.traverseAll, h, traverse] using ih (.node p.operator.op p.left last)
    · simp [complete, Pending.traverseAll, h]

lemma traverse_completeAll (last : OperandTree Op Leaf) (pending : List (Pending Op Leaf)) :
    (do
      let pending ← Pending.traverseAll f pending
      let last ← last.traverse f
      return completeAll last pending) = (completeAll last pending).traverse f := by
  induction pending generalizing last with
  | nil => simp [completeAll, Pending.traverseAll]
  | cons p pending ih =>
    simpa [completeAll, Pending.traverseAll, traverse] using ih (.node p.operator.op p.left last)

/-- Replaces the operands behind operators in order. -/
def traverseRest {m : Type → Type} [Monad m] (f : Leaf → m Leaf')
    (rest : List (RankedOperator Op × Leaf)) : m (List (RankedOperator Op × Leaf')) :=
  rest.mapM fun y => do return (y.1, ← f y.2)

lemma traverse_resolveFrom (last : OperandTree Op Leaf) (pending : List (Pending Op Leaf))
    (rest : List (RankedOperator Op × Leaf)) :
    (do
      let pending ← Pending.traverseAll f pending
      let last ← last.traverse f
      let rest ← traverseRest f rest
      return resolveFrom pending last rest) = (resolveFrom pending last rest).traverse f := by
  induction rest generalizing last pending with
  | nil => simpa [traverseRest, resolveFrom] using traverse_completeAll f last pending
  | cons y rest ih =>
    obtain ⟨o, x⟩ := y
    have hcomplete := congrArg (· >>= fun c => do
      let x ← f x
      let rest ← traverseRest f rest
      return resolveFrom (⟨o, c.1⟩ :: c.2) (.leaf x) rest)
      (traverse_complete f o.precedence last pending)
    rw [resolveFrom, ← ih]
    simp only [bind_assoc, pure_bind] at hcomplete
    simpa [traverseRest, resolveFrom, Pending.traverseAll, traverse] using hcomplete

/-- **Operands may be replaced before or after a sequence is read.** -/
lemma traverse_resolve (first : Leaf) (rest : List (RankedOperator Op × Leaf)) :
    (do
      let first ← f first
      let rest ← traverseRest f rest
      return resolve first rest) = (resolve first rest).traverse f := by
  simpa [Pending.traverseAll, traverse, resolve] using
    traverse_resolveFrom f (.leaf first) [] rest

end Traverse

end OperandTree

namespace Elaboration

variable {o : Operators}

/-- The operand tree of a binary sequence: its operands as they are parsed. -/
def operandTree (o : Operators) (sequence : Tree) : Elaborated (OperandTree String Tree) :=
  match items ["BinaryTail"] sequence with
  | [] => .error (unsupported sequence)
  | first :: rest => do
    let rest ← operatorsAndOperands o sequence id rest
    match (OperandTree.Stacks.mk [.leaf first] []).read? rest with
    | some tree => return tree
    | none => .error (unsupported sequence)

lemma operatorsAndOperands_map {α β : Type} (whole : Tree) (tree : β → Tree) (f : α → β) :
    ∀ xs : List α, operatorsAndOperands o whole tree (xs.map f) =
      (operatorsAndOperands o whole (tree ∘ f) xs).map (List.map fun y => (y.1, f y.2))
  | [] => rfl
  | [x] => by
    simp only [List.map_cons, List.map_nil, operatorsAndOperands, Function.comp_apply]
    cases token (tree (f x)) with
    | error e => rfl
    | ok t =>
      simp only [bind, Except.bind]
      split <;> rfl
  | x :: y :: xs => by
    simp only [List.map_cons, operatorsAndOperands, Function.comp_apply,
      operatorsAndOperands_map whole tree f xs]
    cases token (tree (f x)) with
    | error e => rfl
    | ok t =>
      simp only [bind, Except.bind]
      split
      · rfl
      · cases operatorsAndOperands o whole (tree ∘ f) xs <;> rfl

/-- A binary sequence is elaborated by reading its operators and then its operands, in order. -/
lemma expression_of_sequence {t sequence : Tree} (ht : t.children = [sequence]) :
    expression o t = match items ["BinaryTail"] sequence with
      | [] => .error (unsupported sequence)
      | first :: rest => do
        let rest ← operatorsAndOperands o sequence id rest
        let first ← unary o first
        let rest ← OperandTree.traverseRest (unary o) rest
        return ofOperands (.resolve first rest) := by
  obtain ⟨⟨u, hu⟩, hparts⟩ : ∃ u, t.parts = [u] := by
    rw [← List.length_eq_one_iff, t.length_parts, ht]
    rfl
  obtain rfl : u = sequence := by simpa [ht] using (Tree.children_of_parts hparts).symm
  have hitems := map_smallerItems ["BinaryTail"] u
  rw [expression, hparts, ← hitems]
  dsimp only
  cases smallerItems ["BinaryTail"] u with
  | nil => rfl
  | cons first rest =>
    rw [List.map_cons]
    dsimp only
    rw [operatorsAndOperands_map u id Subtype.val, Function.id_comp]
    cases operatorsAndOperands o u Subtype.val rest with
    | error e => rfl
    | ok operands =>
      simp only [OperandTree.traverseRest, Except.map, List.mapM_map, bind, Except.bind]
      rfl

/-- **Expressions are elaborated from their operand trees**, operand by operand in order. -/
theorem expression_eq_operandTree {t sequence : Tree} (ht : t.children = [sequence]) :
    expression o t = (do
      let tree ← operandTree o sequence
      return ofOperands (← tree.traverse (unary o))) := by
  rw [expression_of_sequence ht, operandTree]
  cases items ["BinaryTail"] sequence with
  | nil => rfl
  | cons first rest =>
    dsimp only
    cases operatorsAndOperands o sequence id rest with
    | error e => rfl
    | ok operands =>
      simp only [OperandTree.Stacks.read?_eq_resolve]
      show _ = (do return ofOperands (← OperandTree.traverse (unary o) (.resolve first operands)))
      rw [← OperandTree.traverse_resolve]
      simp only [bind_assoc, pure_bind]
      rfl

/-- Operators that are registered are read with their precedence. -/
lemma operatorsAndOperands_flatMap (whole : Tree) {pairs : List (Token × Tree)}
    (h : ∀ y ∈ pairs, (o.precedence? y.1.text).isSome) :
    operatorsAndOperands o whole id (pairs.flatMap fun y => [.leaf y.1, y.2]) =
      .ok (pairs.map fun y => (⟨y.1.text, o.rank y.1.text⟩, y.2)) := by
  induction pairs with
  | nil => rfl
  | cons y pairs ih =>
    obtain ⟨hy, hpairs⟩ := List.forall_mem_cons.mp h
    obtain ⟨precedence, hprecedence⟩ := Option.isSome_iff_exists.mp hy
    have hrank : o.rank y.1.text = precedence := by
      rw [Operators.rank, hprecedence, Option.getD_some]
    rw [List.flatMap_cons, List.map_cons, hrank]
    simp only [List.cons_append, List.nil_append, operatorsAndOperands, id_eq, token, Tree.token?,
      bind, Except.bind, hprecedence, ih hpairs]
    rfl

/-- **The operand tree of a sequence of registered operators**: it is read without fault, says the
sequence again, has neighbouring operators bind as they should, and is the only tree that does. An
expression with this sequence is elaborated from it. -/
theorem operandTree_unique (o : Operators) {sequence first : Tree} {pairs : List (Token × Tree)}
    (hsequence : items ["BinaryTail"] sequence =
      first :: pairs.flatMap fun y => [.leaf y.1, y.2])
    (hknown : ∀ y ∈ pairs, (o.precedence? y.1.text).isSome) :
    ∃ tree, operandTree o sequence = .ok tree ∧
      tree.inorder = .inl first :: pairs.flatMap (fun y => [.inr y.1.text, .inl y.2]) ∧
      tree.Ordered o.rank ∧
      (∀ tree' : OperandTree String Tree, tree'.inorder = tree.inorder → tree'.Ordered o.rank →
        tree' = tree) ∧
      ∀ t, t.children = [sequence] →
        expression o t = (do return ofOperands (← tree.traverse (unary o))) := by
  let rest := pairs.map fun y => (RankedOperator.mk y.1.text (o.rank y.1.text), y.2)
  have hread : operandTree o sequence = .ok (.resolve first rest) := by
    rw [operandTree, hsequence]
    dsimp only
    rw [operatorsAndOperands_flatMap sequence hknown]
    simp only [OperandTree.Stacks.read?_eq_resolve]
    rfl
  have hranks : ∀ y ∈ rest, y.1.precedence = o.rank y.1.op := by
    intro y hy
    obtain ⟨z, -, rfl⟩ := List.mem_map.mp hy
    rfl
  obtain ⟨hgrouped, hfirst, hrest⟩ := OperandTree.resolve_grouped (x := first) hranks
  refine ⟨_, hread, ?_, OperandTree.ordered_iff_grouped.mpr hgrouped, fun tree' h ho => ?_,
    fun t ht => ?_⟩
  · rw [OperandTree.inorder_eq_sequence, hfirst, hrest]
    simp [OperandTree.sequence, rest, List.flatMap_map]
  · rw [OperandTree.inorder_eq_sequence, OperandTree.inorder_eq_sequence] at h
    obtain ⟨hfirst', hrest'⟩ := OperandTree.sequence_inj h
    exact (OperandTree.ordered_iff_grouped.mp ho).unique hgrouped hfirst' hrest'
  · rw [expression_eq_operandTree ht, hread]
    rfl

example : OperandTree.resolve 1 [(⟨"-", 5⟩, 2), (⟨"*", 6⟩, 3), (⟨"-", 5⟩, 4)] =
    .node "-" (.node "-" (.leaf 1) (.node "*" (.leaf 2) (.leaf 3))) (.leaf 4) := rfl

/-- An operand that is a number. -/
def numberOperand (text : String) : Tree :=
  .node "Unary" [.node "Primary" [.leaf ⟨.integer, text, .start⟩]]

/-- Operators with the operands behind them. -/
def numberPairs : List (Token × Tree) :=
  [("-", "2"), ("*", "3"), ("-", "4")].map fun y => (⟨.operator, y.1, .start⟩, numberOperand y.2)

/-- The tail of a sequence, as it is parsed. -/
def binaryTail : List (Token × Tree) → Tree
  | [] => .node "BinaryTail" []
  | (x, u) :: pairs => .node "BinaryTail" [.leaf x, u, binaryTail pairs]

/-- The sequence `1 - 2 * 3 - 4` has an operand tree. -/
theorem operandTree_unique_numbers :
    (items ["BinaryTail"] (.node "Binary" [numberOperand "1", binaryTail numberPairs]) =
      numberOperand "1" :: numberPairs.flatMap fun y => [.leaf y.1, y.2]) ∧
    (∀ y ∈ numberPairs, (Operators.standard.precedence? y.1.text).isSome) ∧
    ∃ tree, operandTree .standard (.node "Binary" [numberOperand "1", binaryTail numberPairs]) =
        .ok tree ∧
      tree.inorder = .inl (numberOperand "1") ::
        numberPairs.flatMap (fun y => [.inr y.1.text, .inl y.2]) ∧
      tree.Ordered Operators.standard.rank ∧
      (∀ tree' : OperandTree String Tree, tree'.inorder = tree.inorder →
        tree'.Ordered Operators.standard.rank → tree' = tree) ∧
      ∀ t, t.children = [.node "Binary" [numberOperand "1", binaryTail numberPairs]] →
        expression .standard t = (do return ofOperands (← tree.traverse (unary .standard))) := by
  have hsequence :
      items ["BinaryTail"] (.node "Binary" [numberOperand "1", binaryTail numberPairs]) =
        numberOperand "1" :: numberPairs.flatMap fun y => [.leaf y.1, y.2] := by
    rfl
  have hknown : ∀ y ∈ numberPairs, (Operators.standard.precedence? y.1.text).isSome := by
    decide
  exact ⟨hsequence, hknown, operandTree_unique .standard hsequence hknown⟩

end Elaboration

end Coscript.Script
