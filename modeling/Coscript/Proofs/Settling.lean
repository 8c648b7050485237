import Coscript.Proofs.Faults
import Coscript.Proofs.Nodes
import Coscript.Proofs.OperandTrees

/-!
# Elaboration is settled by faults

A derivation tree of an expression or a statement is elaborated unless there is a fault in it, and
then the error is one of its faults. So the shapes that elaboration knows are all the shapes of the
language: the error that a tree has none of them does not come up.

What a node is elaborated to is said once for each of its shapes. The shapes come from the
productions, and the induction is on the sizes of trees, as the items of a list are not children of
the node that they are elaborated in.

* `Script.Settles`: a computation fails just where there are faults, and with one of them;
* `Script.settled`: expressions and statements;
* `Script.declares`: declarations, and the names of functions.
-/

namespace Coscript.Script

open Elaboration

variable {α β : Type} {o : Operators} {g : Grammar} {fs gs : List CompileError}

/-! ### Computations that have faults -/

/-- A computation succeeds if there are no faults, and otherwise fails with one of them. -/
def Settles (r : Elaborated α) (fs : List CompileError) : Prop :=
  match r with
  | .ok _ => fs = []
  | .error e => e ∈ fs

namespace Settles

variable {r : Elaborated α}

lemma congr (h : Settles r fs) (hmem : ∀ e, e ∈ gs ↔ e ∈ fs) : Settles r gs := by
  cases r with
  | ok a =>
    obtain rfl : fs = [] := h
    exact List.eq_nil_iff_forall_not_mem.mpr fun e he => by simpa using (hmem e).mp he
  | error e => exact (hmem e).mpr h

lemma bind {f : α → Elaborated β} (h : Settles r fs) (hf : ∀ a, r = .ok a → Settles (f a) gs) :
    Settles (r >>= f) (fs ++ gs) := by
  cases r with
  | ok a =>
    obtain rfl : fs = [] := h
    exact hf a rfl
  | error e => exact List.mem_append_left _ h

lemma map (h : Settles r fs) (f : α → β) : Settles (do return f (← r)) fs := by
  cases r with
  | ok a => exact h
  | error e => exact h

lemma mapM {f : α → Elaborated β} {F : α → List CompileError} {xs : List α}
    (h : ∀ x ∈ xs, Settles (f x) (F x)) : Settles (xs.mapM f) (xs.flatMap F) := by
  induction xs with
  | nil => rfl
  | cons x xs ih =>
    obtain ⟨hx, hxs⟩ := List.forall_mem_cons.mp h
    rw [List.mapM_cons, List.flatMap_cons]
    exact hx.bind fun y _ => (ih hxs).map (y :: ·)

end Settles

/-! ### What is read from nodes -/

lemma expression_assign (x y : Token) (e : Tree) :
    expression o (.node "Expression" [.leaf x, .leaf y, e]) = (do
      return .assign x.text (← expression o e)) := by
  rw [expression]
  rfl

lemma unary_operator (x : Token) (u : Tree) :
    unary o (.node "Unary" [.leaf x, u]) =
      match o.unary? x.text with
      | none => .error (.unknownOperator x.text x.position)
      | some _ => do return .unary x.text (← unary o u) := by
  rw [unary]
  rfl

lemma unary_primary (p : Tree) : unary o (.node "Unary" [p]) = primary o p := by
  rw [unary]
  rfl

lemma primary_constant (x : Token) : primary o (.node "Primary" [.leaf x]) = constant x := by
  rw [primary]
  rfl

lemma primary_parentheses (l e r : Tree) :
    primary o (.node "Primary" [l, e, r]) = expression o e := by
  rw [primary]
  rfl

lemma primary_call (x : Token) (l arguments r : Tree) :
    primary o (.node "Primary" [.leaf x, l, arguments, r]) =
      if 255 < (items ["ArgumentList", "ArgumentTail"] arguments).length then
        .error (.tooManyArguments x.text x.position.line)
      else do
        let es ← (items ["ArgumentList", "ArgumentTail"] arguments).mapM (expression o)
        return .call x.text es x.position.line := by
  rw [primary, ← mapM_smallerItems, ← map_smallerItems, List.length_map]
  rfl

lemma statement_var (k s : Tree) (x : Token) :
    statement o (.node "Statement" [.node "VarStatement" [k, .leaf x, s]]) =
      .ok (.declare x.text none) := by
  rw [statement]
  rfl

lemma statement_varValue (k y e s : Tree) (x : Token) :
    statement o (.node "Statement" [.node "VarStatement" [k, .leaf x, y, e, s]]) = (do
      return .declare x.text (some (← expression o e))) := by
  rw [statement]
  rfl

lemma statement_if (ts : List Tree) :
    statement o (.node "Statement" [.node "IfStatement" ts]) =
      ifStatement o (.node "IfStatement" ts) := by
  rw [statement]
  rfl

lemma statement_while (k l e r b : Tree) :
    statement o (.node "Statement" [.node "WhileStatement" [k, l, e, r, b]]) = (do
      let e ← expression o e
      return .whileLoop e (← block o b)) := by
  rw [statement]
  rfl

lemma statement_return (k s : Tree) :
    statement o (.node "Statement" [.node "ReturnStatement" [k, s]]) = .ok (.ret none) := by
  rw [statement]
  rfl

lemma statement_returnValue (k e s : Tree) :
    statement o (.node "Statement" [.node "ReturnStatement" [k, e, s]]) = (do
      return .ret (some (← expression o e))) := by
  rw [statement]
  rfl

lemma statement_expression (e s : Tree) :
    statement o (.node "Statement" [.node "ExpressionStatement" [e, s]]) = (do
      return .expression (← expression o e)) := by
  rw [statement]
  rfl

lemma statement_block (ts : List Tree) :
    statement o (.node "Statement" [.node "Block" ts]) = (do
      return .block (← block o (.node "Block" ts))) := by
  rw [statement]
  rfl

lemma block_eq (l ss r : Tree) :
    block o (.node "Block" [l, ss, r]) = (items ["Statements"] ss).mapM (statement o) := by
  rw [block_eq_statements]
  rfl

lemma ifStatement_then (k l e r b : Tree) :
    ifStatement o (.node "IfStatement" [k, l, e, r, b, .node "ElseClause" []]) = (do
      let e ← expression o e
      return .ifThen e (← block o b)) := by
  rw [ifStatement]
  rfl

lemma ifStatement_else (k l e r b n : Tree) (ts : List Tree) :
    ifStatement o (.node "IfStatement"
        [k, l, e, r, b, .node "ElseClause" [n, .node "Block" ts]]) = (do
      let e ← expression o e
      let b ← block o b
      return .ifElse e b (.block (← block o (.node "Block" ts)))) := by
  rw [ifStatement]
  rfl

lemma ifStatement_elseIf (k l e r b n : Tree) (ts : List Tree) :
    ifStatement o (.node "IfStatement"
        [k, l, e, r, b, .node "ElseClause" [n, .node "IfStatement" ts]]) = (do
      let e ← expression o e
      let b ← block o b
      return .ifElse e b (← ifStatement o (.node "IfStatement" ts))) := by
  rw [ifStatement]
  rfl

lemma definition_eq (k l ps r l' ss r' : Tree) (x : Token) :
    definition o (.node "Function" [k, .leaf x, l, ps, r, .node "Block" [l', ss, r']]) = (do
      let parameters ← (items ["ParameterList", "ParameterTail"] ps).mapM token
      let body ← (items ["Statements"] ss).mapM (statement o)
      return ⟨x.text, parameters.map (·.text), body, x.position.line⟩) := rfl

lemma declaration_function (ts : List Tree) :
    declaration o (.node "Declaration" [.node "Function" ts]) = (do
      return .function (← definition o (.node "Function" ts))) := rfl

lemma declaration_statement (ts : List Tree) :
    declaration o (.node "Declaration" [.node "Statement" ts]) = (do
      return .statement (← statement o (.node "Statement" ts))) := rfl

/-! ### Constants and operators -/

lemma value_eq (x : Token) : x.value = ofDigits x.text.toList := by
  rw [Token.value, Nat.ofDigits_eq_foldr, List.foldr_map, List.foldr_reverse, ofDigits]
  congr 1
  funext n c
  exact Nat.add_comm _ _

lemma settles_constant {x : Token} (hx : x.type ∈ constantTypes) :
    Settles (constant x) (faults o (.leaf x)) := by
  rw [faults_leaf, fault?, constant, value_eq]
  simp only [constantTypes, List.mem_cons, List.not_mem_nil, or_false] at hx
  rcases hx with hx | hx | hx | hx <;> simp only [hx]
  · rfl
  · by_cases hvalue : ofDigits x.text.toList ≤ 2147483647
    · rw [if_pos hvalue, if_pos (Nat.lt_succ_of_le hvalue)]
      rfl
    · rw [if_neg hvalue, if_neg (by omega)]
      exact List.mem_singleton.mpr rfl
  · rfl
  · by_cases hzero : '\x00' ∈ x.text.toList
    · rw [if_pos hzero, if_pos (List.contains_iff_mem.mpr hzero)]
      exact List.mem_singleton.mpr rfl
    · rw [if_neg hzero, if_neg (by simpa using hzero)]
      rfl

/-- The fault of a binary operator. -/
def operatorFaults (o : Operators) (x : Token) : List CompileError :=
  if (o.binary? x.text).isSome then [] else [.unknownOperator x.text x.position]

lemma faults_tail (x : Token) (hx : x.type = .operator) (u rest : Tree) :
    faults o (.node "BinaryTail" [.leaf x, u, rest]) =
      operatorFaults o x ++ faults o u ++ faults o rest := by
  have hfault : (fault? o (.node "BinaryTail" [.leaf x, u, rest])).toList = operatorFaults o x := by
    rw [fault?, operatorFaults]
    split <;> rfl
  have hleaf : faults o (.leaf x) = [] := faults_leaf_eq_nil (by simp [hx]) (by simp [hx])
  simp [faults_node, hfault, hleaf]

/-- The tail of a binary sequence has operators and operands in turn. -/
lemma exists_pairs (hg : grammar = .ok g) {t : Tree} (h : g.Derives (part "BinaryTail") t) :
    ∃ pairs : List (Token × Tree),
      items ["BinaryTail"] t = pairs.flatMap (fun y => [.leaf y.1, y.2]) ∧
      (∀ y ∈ pairs, g.Derives (part "Unary") y.2) ∧
      faults o t = pairs.flatMap fun y => operatorFaults o y.1 ++ faults o y.2 := by
  rcases derives_binaryTail hg h with ⟨x, hx, u, hu, rest, hrest, rfl⟩ | rfl
  · obtain ⟨pairs, hitems, hpairs, hfaults⟩ := exists_pairs hg hrest
    refine ⟨(x, u) :: pairs, ?_, List.forall_mem_cons.mpr ⟨hu, hpairs⟩, ?_⟩
    · have hleaf : itemsOfAll ["BinaryTail"] [.leaf x, u, rest] =
          .leaf x :: itemsOfAll ["BinaryTail"] [u, rest] := by
        simp [itemsOfAll, isTail, isSeparator, hx]
      rw [items, hleaf, itemsOfAll_item (by decide) hu, itemsOfAll_tail (by decide) hrest, hitems]
      simp [itemsOfAll]
    · rw [faults_tail x hx, hfaults, List.flatMap_cons]
  · exact ⟨[], by simp [items, itemsOfAll], by simp, by simp [faults_node, fault?]⟩
termination_by t.size
decreasing_by
  subst_vars
  exact Tree.size_lt_of_mem (by simp [Tree.children])

/-- The operators of a binary sequence are read without fault if they are registered. -/
lemma settles_operators (whole : Tree) (pairs : List (Token × Tree)) :
    Settles (operatorsAndOperands o whole id (pairs.flatMap fun y => [.leaf y.1, y.2]))
      (pairs.flatMap fun y => operatorFaults o y.1) := by
  induction pairs with
  | nil => rfl
  | cons y pairs ih =>
    rw [List.flatMap_cons, List.flatMap_cons, operatorFaults]
    simp only [List.cons_append, List.nil_append, operatorsAndOperands, id_eq, token, Tree.token?,
      bind, Except.bind, Operators.precedence?]
    cases o.binary? y.1.text with
    | none => exact List.mem_append_left _ (List.mem_singleton.mpr rfl)
    | some b => exact ih.map ((⟨y.1.text, b.precedence⟩, y.2) :: ·)

/-- Where the operators are registered, the operands are those of the sequence. -/
lemma operands_eq {whole : Tree} {pairs : List (Token × Tree)}
    {rest : List (RankedOperator String × Tree)}
    (h : operatorsAndOperands o whole id (pairs.flatMap fun y => [.leaf y.1, y.2]) = .ok rest) :
    rest.map Prod.snd = pairs.map Prod.snd := by
  have hsettles := settles_operators (o := o) whole pairs
  rw [h] at hsettles
  have hknown : ∀ y ∈ pairs, (o.precedence? y.1.text).isSome := by
    intro y hy
    have hnone := List.flatMap_eq_nil_iff.mp hsettles y hy
    rw [operatorFaults] at hnone
    split at hnone
    · next hbinary => rwa [Operators.precedence?, Option.isSome_map]
    · cases hnone
  rw [operatorsAndOperands_flatMap whole hknown] at h
  cases h
  simp

/-- The operands of a binary sequence are elaborated unless there are faults in them or operators
are not registered. -/
lemma settles_sequence (whole : Tree) {first : Tree} {pairs : List (Token × Tree)}
    (hfirst : Settles (unary o first) (faults o first))
    (hpairs : ∀ y ∈ pairs, Settles (unary o y.2) (faults o y.2)) :
    Settles (do
        let rest ← operatorsAndOperands o whole id (pairs.flatMap fun y => [.leaf y.1, y.2])
        let first ← unary o first
        let rest ← OperandTree.traverseRest (unary o) rest
        return ofOperands (.resolve first rest))
      (faults o first ++ pairs.flatMap fun y => operatorFaults o y.1 ++ faults o y.2) := by
  have hoperands : ∀ rest,
      operatorsAndOperands o whole id (pairs.flatMap fun y => [.leaf y.1, y.2]) = .ok rest →
      Settles (OperandTree.traverseRest (unary o) rest) (pairs.flatMap fun y => faults o y.2) := by
    intro rest hrest
    have hsame := operands_eq hrest
    have hfaults : (pairs.flatMap fun y => faults o y.2) = rest.flatMap fun z => faults o z.2 := by
      rw [← List.flatMap_map, ← hsame, List.flatMap_map]
    rw [hfaults]
    refine Settles.mapM fun z hz => Settles.map ?_ _
    obtain ⟨y, hy, hyz⟩ := List.mem_map.mp (hsame ▸ List.mem_map_of_mem hz)
    exact hyz ▸ hpairs y hy
  refine ((settles_operators whole pairs).bind fun rest hrest =>
    hfirst.bind fun e _ => (hoperands rest hrest).map _).congr fun e => ?_
  simp [and_or_left, exists_or, or_left_comm]

/-! ### Derivation trees -/

/-- The computations for a tree are settled by its faults, as far as they are made for derivation
trees. -/
structure Settled (g : Grammar) (o : Operators) (t : Tree) : Prop where
  expression : g.Derives (part "Expression") t → Settles (expression o t) (faults o t)
  unary : g.Derives (part "Unary") t → Settles (unary o t) (faults o t)
  primary : g.Derives (part "Primary") t → Settles (primary o t) (faults o t)
  statement : g.Derives (part "Statement") t → Settles (statement o t) (faults o t)
  block : g.Derives (part "Block") t → Settles (block o t) (faults o t)
  ifStatement : g.Derives (part "IfStatement") t → Settles (ifStatement o t) (faults o t)

/-- All smaller trees are settled. -/
def Below (g : Grammar) (o : Operators) (t : Tree) : Prop := ∀ u, u.size < t.size → Settled g o u

section

variable {t : Tree} {name : String} {ts : List Tree}

lemma Below.child (h : Below g o (.node name ts)) {u : Tree} (hu : u ∈ ts) : Settled g o u :=
  h u (Tree.size_lt_of_mem hu)

lemma Below.below (h : Below g o (.node name ts)) {u : Tree} (hu : u ∈ ts) : Below g o u :=
  fun v hv => h v (hv.trans (Tree.size_lt_of_mem hu))

lemma Below.item (h : Below g o (.node name ts)) {list u : Tree} {tails : List String}
    (hlist : list ∈ ts) (hu : u ∈ items tails list) : Settled g o u :=
  h.below hlist u (size_lt_of_mem_items list hu)

/-! ### Expressions -/

lemma settles_expression (hg : grammar = .ok g) (ih : Below g o t)
    (h : g.Derives (part "Expression") t) : Settles (expression o t) (faults o t) := by
  rcases derives_expression hg h with ⟨x, hx, y, hy, e, he, rfl⟩ | ⟨b, hb, rfl⟩
  · have hfaults : faults o (.node "Expression" [.leaf x, .leaf y, e]) = faults o e := by
      rw [faults_of_not_watched (by decide)]
      simp [faults_leaf_eq_nil, hx, hy.1]
    rw [expression_assign, hfaults]
    exact ((ih.child (by simp)).expression he).map _
  · obtain ⟨u, hu, rest, hrest, rfl⟩ := derives_binary hg hb
    obtain ⟨pairs, hitems, hpairs, hfaults⟩ := exists_pairs (o := o) hg hrest
    have hsequence : items ["BinaryTail"] (.node "Binary" [u, rest]) =
        u :: pairs.flatMap fun y => [.leaf y.1, y.2] := by
      rw [items, itemsOfAll_item (by decide) hu, itemsOfAll_tail (by decide) hrest, hitems]
      simp [itemsOfAll]
    have hall : faults o (.node "Expression" [.node "Binary" [u, rest]]) =
        faults o u ++ pairs.flatMap fun y => operatorFaults o y.1 ++ faults o y.2 := by
      rw [faults_of_not_watched (by decide), ← hfaults, List.flatMap_singleton,
        faults_of_not_watched (by decide)]
      simp
    have hsettled : ∀ v ∈ u :: pairs.flatMap (fun y => [Tree.leaf y.1, y.2]), Settled g o v := by
      rw [← hsequence]
      exact fun v hv => ih.item (by simp) hv
    rw [expression_of_sequence rfl, hsequence, hall]
    refine settles_sequence _ ((hsettled u List.mem_cons_self).unary hu) fun y hy => ?_
    have hmem : y.2 ∈ pairs.flatMap fun y => [Tree.leaf y.1, y.2] :=
      List.mem_flatMap.mpr ⟨y, hy, by simp⟩
    exact (hsettled y.2 (List.mem_cons_of_mem _ hmem)).unary (hpairs y hy)

lemma settles_unary (hg : grammar = .ok g) (ih : Below g o t)
    (h : g.Derives (part "Unary") t) : Settles (unary o t) (faults o t) := by
  rcases derives_unary hg h with ⟨x, hx, u, hu, rfl⟩ | ⟨p, hp, rfl⟩
  · have hu := (ih.child (by simp)).unary hu
    have hfaults : faults o (.node "Unary" [.leaf x, u]) =
        (fault? o (.node "Unary" [.leaf x, u])).toList ++ faults o u := by
      simp [faults_node, faults_leaf_eq_nil, hx]
    rw [unary_operator, hfaults, fault?]
    cases o.unary? x.text with
    | none => exact List.mem_append_left _ (List.mem_singleton.mpr rfl)
    | some apply => exact hu.map _
  · have hfaults : faults o (.node "Unary" [p]) = faults o p := by
      simp [faults_node, fault?]
    rw [unary_primary, hfaults]
    exact (ih.child (by simp)).primary hp

/-- The arguments behind the first one are the items of their list. -/
lemma argumentCount_tail (hg : grammar = .ok g) {rest : Tree}
    (h : g.Derives (part "ArgumentTail") rest) :
    rest.argumentCount = (items ["ArgumentList", "ArgumentTail"] rest).length := by
  rcases derives_argumentTail hg h with ⟨x, hx, e, he, rest, hrest, rfl⟩ | rfl
  · have hcomma : itemsOfAll ["ArgumentList", "ArgumentTail"] [.leaf x, e, rest] =
        itemsOfAll ["ArgumentList", "ArgumentTail"] [e, rest] := by
      simp [itemsOfAll, isTail, isSeparator, hx.1, hx.2]
    rw [items, hcomma, itemsOfAll_item (by decide) he, itemsOfAll_tail (by decide) hrest,
      Tree.argumentCount, argumentCount_tail hg hrest]
    simp [itemsOfAll]
  · simp [items, itemsOfAll, Tree.argumentCount]
termination_by rest.size
decreasing_by
  subst_vars
  exact Tree.size_lt_of_mem (by simp [Tree.children])

/-- The arguments of a call are the items between its parentheses. -/
lemma argumentCount_eq (hg : grammar = .ok g) {arguments : Tree}
    (h : g.Derives (part "Arguments") arguments) :
    arguments.argumentCount = (items ["ArgumentList", "ArgumentTail"] arguments).length := by
  rcases derives_arguments hg h with ⟨list, hlist, rfl⟩ | rfl
  · obtain ⟨e, he, rest, hrest, rfl⟩ := derives_argumentList hg hlist
    rw [items, itemsOfAll_tail (by decide) hlist, items, itemsOfAll_item (by decide) he,
      itemsOfAll_tail (by decide) hrest, Tree.argumentCount, Tree.argumentCount,
      argumentCount_tail hg hrest]
    simp [itemsOfAll]
  · simp [items, itemsOfAll, Tree.argumentCount]

/-- The faults of a list of a derivation tree are those of its items. -/
lemma faults_list (tails : List String) (htails : ∀ a ∈ tails, a ∉ watched) {name : String}
    (hname : name ∉ watched) {list : Tree} (h : g.Derives (part name) list) :
    faults o list = (items tails list).flatMap (faults o) := by
  obtain ⟨ts, rfl⟩ := exists_node h
  exact faults_items htails hname ts

lemma settles_primary (hg : grammar = .ok g) (ih : Below g o t)
    (h : g.Derives (part "Primary") t) : Settles (primary o t) (faults o t) := by
  rcases derives_primary hg h with ⟨x, hx, rfl⟩ |
    ⟨x, hx, l, hl, arguments, harguments, r, hr, rfl⟩ | ⟨l, hl, e, he, r, hr, rfl⟩
  · have hfaults : faults o (.node "Primary" [.leaf x]) = faults o (.leaf x) := by
      simp [faults_node, fault?]
    rw [primary_constant, hfaults]
    exact settles_constant hx
  · have hfaults : faults o (.node "Primary" [.leaf x, .leaf l, arguments, .leaf r]) =
        (fault? o (.node "Primary" [.leaf x, .leaf l, arguments, .leaf r])).toList ++
          (items ["ArgumentList", "ArgumentTail"] arguments).flatMap (faults o) := by
      rw [← faults_list _ (by decide) (by decide) harguments]
      simp [faults_node, faults_leaf_eq_nil, hx, hl.1, hr.1]
    have hes : Settles ((items ["ArgumentList", "ArgumentTail"] arguments).mapM (expression o))
        ((items ["ArgumentList", "ArgumentTail"] arguments).flatMap (faults o)) :=
      .mapM fun e he => (ih.item (by simp) he).expression
        (derives_of_mem_items hg _ (part "Expression") (by decide) harguments he)
    rw [primary_call, hfaults, fault?, argumentCount_eq hg harguments]
    by_cases hcount : (items ["ArgumentList", "ArgumentTail"] arguments).length ≤ 255
    · rw [if_pos hcount, if_neg (Nat.not_lt.mpr hcount)]
      exact hes.map _
    · rw [if_neg hcount, if_pos (Nat.not_le.mp hcount)]
      exact List.mem_append_left _ (List.mem_singleton.mpr rfl)
  · have hfaults : faults o (.node "Primary" [.leaf l, e, .leaf r]) = faults o e := by
      simp [faults_node, fault?, faults_leaf_eq_nil, hl.1, hr.1]
    rw [primary_parentheses, hfaults]
    exact (ih.child (by simp)).expression he

/-! ### Statements -/

lemma settles_block (hg : grammar = .ok g) (ih : Below g o t)
    (h : g.Derives (part "Block") t) : Settles (block o t) (faults o t) := by
  obtain ⟨l, hl, ss, hss, r, hr, rfl⟩ := derives_block hg h
  have hfaults : faults o (.node "Block" [.leaf l, ss, .leaf r]) =
      (items ["Statements"] ss).flatMap (faults o) := by
    rw [← faults_list _ (by decide) (by decide) hss, faults_of_not_watched (by decide)]
    simp [faults_leaf_eq_nil, hl.1, hr.1]
  rw [block_eq, hfaults]
  exact .mapM fun s hs => (ih.item (by simp) hs).statement
    (derives_of_mem_items hg _ (part "Statement") (by decide) hss hs)

lemma settles_ifStatement (hg : grammar = .ok g) (ih : Below g o t)
    (h : g.Derives (part "IfStatement") t) : Settles (ifStatement o t) (faults o t) := by
  obtain ⟨k, hk, l, hl, e, he, r, hr, b, hb, alternative, halternative, rfl⟩ :=
    derives_ifStatement hg h
  have he := (ih.child (by simp)).expression he
  have hb := (ih.child (by simp)).block hb
  have hfaults : faults o (.node "IfStatement" [.leaf k, .leaf l, e, .leaf r, b, alternative]) =
      faults o e ++ (faults o b ++ faults o alternative) := by
    rw [faults_of_not_watched (by decide)]
    simp [faults_leaf_eq_nil, hk.1, hl.1, hr.1]
  have hclause : ∀ n : Token, n.Is .keyword "else" → ∀ c,
      faults o (.node "ElseClause" [.leaf n, c]) = faults o c := by
    intro n hn c
    rw [faults_of_not_watched (by decide)]
    simp [faults_leaf_eq_nil, hn.1]
  have ih : Below g o alternative := ih.below (by simp)
  rw [hfaults]
  rcases derives_elseClause hg halternative with
    ⟨n, hn, c, hc, rfl⟩ | ⟨n, hn, c, hc, rfl⟩ | rfl
  · have hcSettles := (ih.child (by simp)).block hc
    obtain ⟨ts, rfl⟩ := exists_node hc
    rw [ifStatement_else, hclause n hn]
    exact he.bind fun e _ => hb.bind fun b _ => hcSettles.map _
  · have hcSettles := (ih.child (by simp)).ifStatement hc
    obtain ⟨ts, rfl⟩ := exists_node hc
    rw [ifStatement_elseIf, hclause n hn]
    exact he.bind fun e _ => hb.bind fun b _ => hcSettles.map _
  · have hnone : faults o (.node "ElseClause" []) = [] := by
      rw [faults_of_not_watched (by decide), List.flatMap_nil]
    rw [ifStatement_then, hnone, List.append_nil]
    exact he.bind fun e _ => hb.map _

lemma settles_varStatement (hg : grammar = .ok g) (ih : Below g o t)
    (h : g.Derives (part "VarStatement") t) :
    Settles (statement o (.node "Statement" [t])) (faults o t) := by
  rcases derives_varStatement hg h with
    ⟨k, hk, x, hx, s, hs, rfl⟩ | ⟨k, hk, x, hx, y, hy, e, he, s, hs, rfl⟩
  · rw [statement_var, faults_of_not_watched (by decide)]
    simp [Settles, faults_leaf_eq_nil, hk.1, hx, hs.1]
  · have hfaults : faults o (.node "VarStatement" [.leaf k, .leaf x, .leaf y, e, .leaf s]) =
        faults o e := by
      rw [faults_of_not_watched (by decide)]
      simp [faults_leaf_eq_nil, hk.1, hx, hy.1, hs.1]
    rw [statement_varValue, hfaults]
    exact ((ih.child (by simp)).expression he).map _

lemma settles_whileStatement (hg : grammar = .ok g) (ih : Below g o t)
    (h : g.Derives (part "WhileStatement") t) :
    Settles (statement o (.node "Statement" [t])) (faults o t) := by
  obtain ⟨k, hk, l, hl, e, he, r, hr, b, hb, rfl⟩ := derives_whileStatement hg h
  have hfaults : faults o (.node "WhileStatement" [.leaf k, .leaf l, e, .leaf r, b]) =
      faults o e ++ faults o b := by
    rw [faults_of_not_watched (by decide)]
    simp [faults_leaf_eq_nil, hk.1, hl.1, hr.1]
  rw [statement_while, hfaults]
  exact ((ih.child (by simp)).expression he).bind fun e _ => ((ih.child (by simp)).block hb).map _

lemma settles_returnStatement (hg : grammar = .ok g) (ih : Below g o t)
    (h : g.Derives (part "ReturnStatement") t) :
    Settles (statement o (.node "Statement" [t])) (faults o t) := by
  rcases derives_returnStatement hg h with ⟨k, hk, s, hs, rfl⟩ | ⟨k, hk, e, he, s, hs, rfl⟩
  · rw [statement_return, faults_of_not_watched (by decide)]
    simp [Settles, faults_leaf_eq_nil, hk.1, hs.1]
  · have hfaults : faults o (.node "ReturnStatement" [.leaf k, e, .leaf s]) = faults o e := by
      rw [faults_of_not_watched (by decide)]
      simp [faults_leaf_eq_nil, hk.1, hs.1]
    rw [statement_returnValue, hfaults]
    exact ((ih.child (by simp)).expression he).map _

lemma settles_expressionStatement (hg : grammar = .ok g) (ih : Below g o t)
    (h : g.Derives (part "ExpressionStatement") t) :
    Settles (statement o (.node "Statement" [t])) (faults o t) := by
  obtain ⟨e, he, s, hs, rfl⟩ := derives_expressionStatement hg h
  have hfaults : faults o (.node "ExpressionStatement" [e, .leaf s]) = faults o e := by
    rw [faults_of_not_watched (by decide)]
    simp [faults_leaf_eq_nil, hs.1]
  rw [statement_expression, hfaults]
  exact ((ih.child (by simp)).expression he).map _

lemma settles_statement (hg : grammar = .ok g) (ih : Below g o t)
    (h : g.Derives (part "Statement") t) : Settles (statement o t) (faults o t) := by
  obtain ⟨name, hname, inner, hinner, rfl⟩ := derives_statement hg h
  have hfaults : faults o (.node "Statement" [inner]) = faults o inner := by
    rw [faults_of_not_watched (by decide), List.flatMap_singleton]
  have hsettled : Settled g o inner := ih.child (by simp)
  have ih : Below g o inner := ih.below (by simp)
  rw [hfaults]
  simp only [List.mem_cons, List.not_mem_nil, or_false] at hname
  rcases hname with rfl | rfl | rfl | rfl | rfl | rfl
  · exact settles_varStatement hg ih hinner
  · have hif := hsettled.ifStatement hinner
    obtain ⟨ts, rfl⟩ := exists_node hinner
    rwa [statement_if]
  · exact settles_whileStatement hg ih hinner
  · exact settles_returnStatement hg ih hinner
  · exact settles_expressionStatement hg ih hinner
  · have hblock := hsettled.block hinner
    obtain ⟨ts, rfl⟩ := exists_node hinner
    rw [statement_block]
    exact hblock.map _

end

/-- **Derivation trees are elaborated unless there are faults in them.** -/
theorem settled (hg : grammar = .ok g) (t : Tree) : Settled g o t := by
  induction hsize : t.size using Nat.strong_induction_on generalizing t with
  | _ n ih =>
    subst hsize
    have ih : Below g o t := fun u hu => ih _ hu u rfl
    exact ⟨settles_expression hg ih, settles_unary hg ih, settles_primary hg ih,
      settles_statement hg ih, settles_block hg ih, settles_ifStatement hg ih⟩

/-! ### Functions -/

/-- The names of the nodes that functions can be in. -/
def outer : List String := ["Program", "Declarations", "Declaration", "Function"]

mutual

/-- There are no functions in other functions or in statements. -/
lemma definedNames_eq_nil (hg : grammar = .ok g) : ∀ {t : Tree} {s : Symbol}, g.Derives s t →
    s ∉ outer.map part → t.definedNames = []
  | .leaf _, _, _, _ => rfl
  | .node _ ts, _, .node (p := p) hp hts, hs => by
    have hinner : ∀ p ∈ productions, part p.name ∉ outer.map part →
        p.name ≠ "Function" ∧ ∀ s ∈ p.body, s ∉ outer.map part := by decide
    obtain ⟨hname, hbody⟩ := hinner _ (mem_productions hg hp) hs
    rw [Tree.definedNames, Tree.nodes, List.filterMap_cons_none (definedName?_eq_none hname ts)]
    exact definedNames_eq_nil_of_derivesAll hg hts hbody

/-- So there are none in their children. -/
lemma definedNames_eq_nil_of_derivesAll (hg : grammar = .ok g) : ∀ {ts : List Tree}
    {ss : List Symbol}, g.DerivesAll ss ts → (∀ s ∈ ss, s ∉ outer.map part) →
    (Tree.nodesOfAll ts).filterMap Tree.definedName? = []
  | [], _, _, _ => rfl
  | _ :: _, _, .cons h hs, hss => by
    rw [Tree.nodesOfAll, List.filterMap_append,
      definedNames_eq_nil_of_derivesAll hg hs fun s hs => hss s (List.mem_cons_of_mem _ hs),
      List.append_nil]
    exact definedNames_eq_nil hg h (hss _ List.mem_cons_self)

end

/-- What a tree declares is settled by its faults, and a function that it declares is the one that
is defined in it. -/
structure Declares (o : Operators) (t : Tree) : Prop where
  settles : Settles (declaration o t) (faults o t)
  function : ∀ d, declaration o t = .ok (.function d) →
    ∃ x, t.definedNames = [x] ∧ d.name = x.text ∧ d.line = x.position.line
  statement : ∀ s, declaration o t = .ok (.statement s) → t.definedNames = []

variable {t : Tree}

/-- Parameters have no faults. -/
lemma settles_parameters (hg : grammar = .ok g) (h : g.Derives (part "Parameters") t) :
    Settles ((items ["ParameterList", "ParameterTail"] t).mapM token) [] ∧ faults o t = [] := by
  have hitems : ∀ u ∈ items ["ParameterList", "ParameterTail"] t,
      ∃ x : Token, x.type = .identifier ∧ u = .leaf x := by
    intro u hu
    have hderives := derives_of_mem_items hg _ (any .identifier) (by decide) h hu
    cases hderives with
    | leaf hx => exact ⟨_, Terminal.accepts_any.mp hx, rfl⟩
  constructor
  · refine (Settles.mapM (F := fun _ => []) fun u hu => ?_).congr fun e => by simp
    obtain ⟨x, -, rfl⟩ := hitems u hu
    exact rfl
  · rw [faults_list ["ParameterList", "ParameterTail"] (by decide) (by decide) h]
    refine List.flatMap_eq_nil_iff.mpr fun u hu => ?_
    obtain ⟨x, hx, rfl⟩ := hitems u hu
    exact faults_leaf_eq_nil (by simp [hx]) (by simp [hx])

lemma declares_function (hg : grammar = .ok g) (h : g.Derives (part "Function") t) :
    Declares o (.node "Declaration" [t]) := by
  obtain ⟨k, hk, x, hx, l, hl, ps, hps, r, hr, b, hb, rfl⟩ := derives_function hg h
  obtain ⟨l', hl', ss, hss, r', hr', rfl⟩ := derives_block hg hb
  obtain ⟨hparameters, hnone⟩ := settles_parameters (o := o) hg hps
  have hbody : Settles ((items ["Statements"] ss).mapM (statement o))
      ((items ["Statements"] ss).flatMap (faults o)) :=
    .mapM fun s hs => (settled hg s).statement
      (derives_of_mem_items hg _ (part "Statement") (by decide) hss hs)
  constructor
  case settles =>
    have hfaults : faults o (.node "Declaration" [.node "Function" [.leaf k, .leaf x, .leaf l, ps,
        .leaf r, .node "Block" [.leaf l', ss, .leaf r']]]) =
          [] ++ (items ["Statements"] ss).flatMap (faults o) := by
      rw [← faults_list _ (by decide) (by decide) hss, faults_of_not_watched (by decide),
        List.flatMap_singleton, faults_of_not_watched (by decide)]
      simp [faults_of_not_watched (show "Block" ∉ watched by decide), faults_leaf_eq_nil, hnone,
        hk.1, hx, hl.1, hr.1, hl'.1, hr'.1]
    rw [declaration_function, definition_eq, hfaults]
    exact (hparameters.bind fun parameters _ => hbody.map _).map _
  case function =>
    intro d hd
    refine ⟨x, ?_, ?_⟩
    · rw [definedNames_node, List.flatMap_singleton, definedNames_node]
      simp [Tree.definedName?, definedNames_leaf, definedNames_eq_nil hg hps (by decide),
        definedNames_eq_nil hg hb (by decide)]
    · rw [declaration_function, definition_eq] at hd
      obtain ⟨d', hd', hd⟩ := bind_eq_ok_iff.mp hd
      obtain ⟨parameters, -, hd'⟩ := bind_eq_ok_iff.mp hd'
      obtain ⟨body, -, hd'⟩ := bind_eq_ok_iff.mp hd'
      cases hd'
      cases hd
      exact ⟨rfl, rfl⟩
  case statement =>
    intro s hs
    rw [declaration_function] at hs
    obtain ⟨d, -, hs⟩ := bind_eq_ok_iff.mp hs
    cases hs

lemma declares_statement (hg : grammar = .ok g) (h : g.Derives (part "Statement") t) :
    Declares o (.node "Declaration" [t]) := by
  have hsettles := (settled (o := o) hg t).statement h
  have hnames := definedNames_eq_nil hg h (by decide)
  obtain ⟨ts, rfl⟩ := exists_node h
  constructor
  case settles =>
    rw [declaration_statement, faults_of_not_watched (by decide), List.flatMap_singleton]
    exact hsettles.map _
  case function =>
    intro d hd
    rw [declaration_statement] at hd
    obtain ⟨s, -, hd⟩ := bind_eq_ok_iff.mp hd
    cases hd
  case statement =>
    intro s hs
    rw [definedNames_node, List.flatMap_singleton, hnames]
    rfl

/-- **Declarations are elaborated unless there are faults in them.** -/
theorem declares (hg : grammar = .ok g) (h : g.Derives (part "Declaration") t) : Declares o t := by
  rcases derives_declaration hg h with ⟨f, hf, rfl⟩ | ⟨s, hs, rfl⟩
  · exact declares_function hg hf
  · exact declares_statement hg hs

end Coscript.Script
