import Coscript.Proofs.Containers
import Coscript.Proofs.Evaluation
import Coscript.Proofs.Grouping
import Coscript.Script.Elaboration

/-!
# What parse trees mean

The meaning of the parse trees of scripts as a relation, apart from how they are read: an assignment
has three children, operators group by precedence and to the left, a block holds the items of its
list of statements, and so on. A tree means at most one thing, and what it is elaborated to is what
it means.

* `Script.MeansExpression`, `Script.MeansStatement`, `Script.MeansDeclaration`: what trees mean;
* `Script.MeansExpression.unique`, `Script.MeansStatement.unique`: a tree means one thing;
* `Script.Elaboration.expression_means`, `Script.Elaboration.statement_means`: a tree means what it
  is elaborated to, which is checked;
* `Script.Contents.IsOf`: what the tree of a whole script means.
-/

namespace Coscript

/-- The precedence of a binary operator. -/
def Operators.rank (o : Operators) (symbol : String) : Nat := (o.precedence? symbol).getD 0

namespace Script

open Elaboration

/-! ### Expressions -/

mutual

/-- The tree of an expression is that of an assignment or of operands joined by operators, which
group by precedence and to the left. -/
inductive MeansExpression (o : Operators) : Tree → Expression → Prop
  | assign {t sign value : Tree} {name : Token} {e : Expression}
      (ht : t.children = [.leaf name, sign, value]) (hvalue : MeansExpression o value e) :
      MeansExpression o t (.assign name.text e)
  | operators {t sequence : Tree} {tree : OperandTree String Expression}
      (ht : t.children = [sequence])
      (hsequence : MeansSequence o (items ["BinaryTail"] sequence) tree.first tree.rest)
      (hgrouped : tree.Grouped o.rank) : MeansExpression o t (ofOperands tree)

/-- Operands with operators between them: the first one, and the others each with its operator. -/
inductive MeansSequence (o : Operators) :
    List Tree → Expression → List (String × Expression) → Prop
  | last {t : Tree} {e : Expression} (h : MeansUnary o t e) : MeansSequence o [t] e []
  | more {t : Tree} {ts : List Tree} {symbol : Token} {e e' : Expression}
      {rest : List (String × Expression)} (h : MeansUnary o t e)
      (hrest : MeansSequence o ts e' rest) :
      MeansSequence o (t :: .leaf symbol :: ts) e ((symbol.text, e') :: rest)

/-- An operand with or without prefix operators. -/
inductive MeansUnary (o : Operators) : Tree → Expression → Prop
  | unary {t operand : Tree} {symbol : Token} {e : Expression}
      (ht : t.children = [.leaf symbol, operand]) (h : MeansUnary o operand e) :
      MeansUnary o t (.unary symbol.text e)
  | primary {t operand : Tree} {e : Expression} (ht : t.children = [operand])
      (h : MeansPrimary o operand e) : MeansUnary o t e

/-- A constant or a variable, an expression in parentheses, or a call. -/
inductive MeansPrimary (o : Operators) : Tree → Expression → Prop
  | constant {t : Tree} {x : Token} {e : Expression} (ht : t.children = [.leaf x])
      (h : constant x = .ok e) : MeansPrimary o t e
  | parentheses {t left inner right : Tree} {e : Expression}
      (ht : t.children = [left, inner, right]) (h : MeansExpression o inner e) :
      MeansPrimary o t e
  | call {t left arguments right : Tree} {name : Token} {es : List Expression}
      (ht : t.children = [.leaf name, left, arguments, right])
      (h : MeansArguments o (items ["ArgumentList", "ArgumentTail"] arguments) es) :
      MeansPrimary o t (.call name.text es name.position.line)

/-- Arguments, from left to right. -/
inductive MeansArguments (o : Operators) : List Tree → List Expression → Prop
  | nil : MeansArguments o [] []
  | cons {t : Tree} {ts : List Tree} {e : Expression} {es : List Expression}
      (h : MeansExpression o t e) (hs : MeansArguments o ts es) :
      MeansArguments o (t :: ts) (e :: es)

end

/-! ### Statements -/

mutual

/-- The tree of a statement has that of a certain statement below it. -/
inductive MeansStatement (o : Operators) : Tree → Statement → Prop
  | intro {t inner : Tree} {s : Statement} (ht : t.children[0]? = some inner)
      (h : MeansForm o inner s) : MeansStatement o t s

/-- The forms of statements. -/
inductive MeansForm (o : Operators) : Tree → Statement → Prop
  | declare {t a b c d value : Tree} {name : Token} {e : Expression}
      (hlabel : t.label = "VarStatement") (hname : t.children[1]? = some (.leaf name))
      (ht : t.children = [a, b, c, value, d]) (hvalue : MeansExpression o value e) :
      MeansForm o t (.declare name.text (some e))
  | declareUndefined {t : Tree} {name : Token} (hlabel : t.label = "VarStatement")
      (hname : t.children[1]? = some (.leaf name)) (ht : t.children.length ≠ 5) :
      MeansForm o t (.declare name.text none)
  | ifStatement {t : Tree} {s : Statement} (hlabel : t.label = "IfStatement")
      (h : MeansIf o t s) : MeansForm o t s
  | whileLoop {t condition body : Tree} {e : Expression} {ss : List Statement}
      (hlabel : t.label = "WhileStatement") (hcondition : t.children[2]? = some condition)
      (hbody : t.children[4]? = some body) (he : MeansExpression o condition e)
      (hss : MeansBlock o body ss) : MeansForm o t (.whileLoop e ss)
  | ret {t a b value : Tree} {e : Expression} (hlabel : t.label = "ReturnStatement")
      (ht : t.children = [a, value, b]) (hvalue : MeansExpression o value e) :
      MeansForm o t (.ret (some e))
  | retUndefined {t : Tree} (hlabel : t.label = "ReturnStatement")
      (ht : t.children.length ≠ 3) : MeansForm o t (.ret none)
  | expression {t child : Tree} {e : Expression} (hlabel : t.label = "ExpressionStatement")
      (hchild : t.children[0]? = some child) (he : MeansExpression o child e) :
      MeansForm o t (.expression e)
  | block {t : Tree} {ss : List Statement} (hlabel : t.label = "Block")
      (hss : MeansBlock o t ss) : MeansForm o t (.block ss)

/-- A block holds the items of a list of statements. -/
inductive MeansBlock (o : Operators) : Tree → List Statement → Prop
  | intro {t body : Tree} {ss : List Statement} (hbody : t.children[1]? = some body)
      (h : MeansStatements o (items ["Statements"] body) ss) : MeansBlock o t ss

/-- Statements, one after the other. -/
inductive MeansStatements (o : Operators) : List Tree → List Statement → Prop
  | nil : MeansStatements o [] []
  | cons {t : Tree} {ts : List Tree} {s : Statement} {ss : List Statement}
      (h : MeansStatement o t s) (hs : MeansStatements o ts ss) :
      MeansStatements o (t :: ts) (s :: ss)

/-- A condition, what is done if it is true, and the alternative. -/
inductive MeansIf (o : Operators) : Tree → Statement → Prop
  | intro {t condition body alternative : Tree} {e : Expression} {ss : List Statement}
      {s : Statement} (hcondition : t.children[2]? = some condition)
      (hbody : t.children[4]? = some body) (halternative : t.children[5]? = some alternative)
      (he : MeansExpression o condition e) (hss : MeansBlock o body ss)
      (hs : MeansElse o e ss alternative s) : MeansIf o t s

/-- There is no alternative, or it is another condition, or a block. -/
inductive MeansElse (o : Operators) : Expression → List Statement → Tree → Statement → Prop
  | ifThen {t : Tree} {e : Expression} {ss : List Statement} (ht : t.children = []) :
      MeansElse o e ss t (.ifThen e ss)
  | elseIf {t keyword branch : Tree} {e : Expression} {ss : List Statement} {s : Statement}
      (ht : t.children = [keyword, branch]) (hlabel : branch.label = "IfStatement")
      (hs : MeansIf o branch s) : MeansElse o e ss t (.ifElse e ss s)
  | elseBlock {t keyword branch : Tree} {e : Expression} {ss ss' : List Statement}
      (ht : t.children = [keyword, branch]) (hlabel : branch.label ≠ "IfStatement")
      (hss' : MeansBlock o branch ss') : MeansElse o e ss t (.ifElse e ss (.block ss'))

end

/-! ### Declarations -/

/-- The tree of a declaration has that of a function or of a statement below it. -/
inductive MeansDeclaration (o : Operators) : Tree → Declaration → Prop
  | function {t inner list block : Tree} {name : Token} {parameters : List Token}
      {body : List Statement}
      (ht : t.children[0]? = some inner) (hlabel : inner.label = "Function")
      (hname : inner.children[1]? = some (.leaf name)) (hlist : inner.children[3]? = some list)
      (hparameters : items ["ParameterList", "ParameterTail"] list = parameters.map .leaf)
      (hblock : inner.children[5]? = some block) (hbody : MeansBlock o block body) :
      MeansDeclaration o t
        (.function ⟨name.text, parameters.map (·.text), body, name.position.line⟩)
  | statement {t inner : Tree} {s : Statement}
      (ht : t.children[0]? = some inner) (hlabel : inner.label ≠ "Function")
      (hs : MeansStatement o inner s) : MeansDeclaration o t (.statement s)

namespace Contents

/-- What some declarations say together: the functions and the statements, each in their order. -/
def ofDeclarations (ds : List Declaration) : Contents where
  definitions := ds.filterMap fun
    | .function d => some d
    | .statement _ => none
  statements := ds.filterMap fun
    | .function _ => none
    | .statement s => some s

/-- **What the tree of a script means.** -/
def IsOf (o : Operators) (tree : Tree) (x : Contents) : Prop :=
  ∃ list ds, tree.children[0]? = some list ∧
    List.Forall₂ (MeansDeclaration o) (items ["Declarations"] list) ds ∧ x = ofDeclarations ds

end Contents

/-! ### Uniqueness -/

section

variable {o : Operators}

mutual

/-- **A tree means one expression.** -/
theorem MeansExpression.unique : ∀ {t : Tree} {e : Expression}, MeansExpression o t e →
    ∀ {e' : Expression}, MeansExpression o t e' → e' = e
  | _, _, .assign ht hvalue, _, h' => by
    have ih := @hvalue.unique
    cases h' with
    | assign ht' hvalue' =>
      cases ht.symm.trans ht'
      rw [ih hvalue']
    | operators ht' => cases ht.symm.trans ht'
  | _, _, .operators ht hsequence hgrouped, _, h' => by
    have ih := @hsequence.unique
    cases h' with
    | assign ht' => cases ht.symm.trans ht'
    | operators ht' hsequence' hgrouped' =>
      cases ht.symm.trans ht'
      obtain ⟨hfirst, hrest⟩ := ih hsequence'
      rw [hgrouped'.unique hgrouped hfirst hrest]
termination_by structural _ _ h => h

theorem MeansSequence.unique : ∀ {ts : List Tree} {e : Expression}
    {rest : List (String × Expression)}, MeansSequence o ts e rest →
    ∀ {e' : Expression} {rest' : List (String × Expression)}, MeansSequence o ts e' rest' →
      e' = e ∧ rest' = rest
  | _, _, _, .last h, _, _, h' => by
    cases h' with
    | last h' => exact ⟨h.unique h', rfl⟩
  | _, _, _, .more h hrest, _, _, h' => by
    cases h' with
    | more h' hrest' =>
      obtain ⟨rfl, rfl⟩ := hrest.unique hrest'
      exact ⟨h.unique h', rfl⟩
termination_by structural _ _ _ h => h

theorem MeansUnary.unique : ∀ {t : Tree} {e : Expression}, MeansUnary o t e →
    ∀ {e' : Expression}, MeansUnary o t e' → e' = e
  | _, _, .unary ht h, _, h' => by
    have ih := @h.unique
    cases h' with
    | unary ht' h' =>
      cases ht.symm.trans ht'
      rw [ih h']
    | primary ht' => cases ht.symm.trans ht'
  | _, _, .primary ht h, _, h' => by
    have ih := @h.unique
    cases h' with
    | unary ht' => cases ht.symm.trans ht'
    | primary ht' h' =>
      cases ht.symm.trans ht'
      exact ih h'
termination_by structural _ _ h => h

theorem MeansPrimary.unique : ∀ {t : Tree} {e : Expression}, MeansPrimary o t e →
    ∀ {e' : Expression}, MeansPrimary o t e' → e' = e
  | _, _, .constant ht h, _, h' => by
    cases h' with
    | constant ht' h' =>
      cases ht.symm.trans ht'
      exact Except.ok.inj (h'.symm.trans h)
    | parentheses ht' | call ht' => cases ht.symm.trans ht'
  | _, _, .parentheses ht h, _, h' => by
    have ih := @h.unique
    cases h' with
    | parentheses ht' h' =>
      cases ht.symm.trans ht'
      exact ih h'
    | constant ht' | call ht' => cases ht.symm.trans ht'
  | _, _, .call ht h, _, h' => by
    have ih := @h.unique
    cases h' with
    | call ht' h' =>
      cases ht.symm.trans ht'
      rw [ih h']
    | constant ht' | parentheses ht' => cases ht.symm.trans ht'
termination_by structural _ _ h => h

theorem MeansArguments.unique : ∀ {ts : List Tree} {es : List Expression}, MeansArguments o ts es →
    ∀ {es' : List Expression}, MeansArguments o ts es' → es' = es
  | _, _, .nil, _, .nil => rfl
  | _, _, .cons h hs, _, .cons h' hs' => by rw [h.unique h', hs.unique hs']
termination_by structural _ _ h => h

end

mutual

/-- **A tree means one statement.** -/
theorem MeansStatement.unique : ∀ {t : Tree} {s : Statement}, MeansStatement o t s →
    ∀ {s' : Statement}, MeansStatement o t s' → s' = s
  | _, _, .intro ht h, _, .intro ht' h' => by
    have ih := @h.unique
    cases ht.symm.trans ht'
    exact ih h'
termination_by structural _ _ h => h

theorem MeansForm.unique : ∀ {t : Tree} {s : Statement}, MeansForm o t s →
    ∀ {s' : Statement}, MeansForm o t s' → s' = s
  | _, _, .declare hlabel hname ht hvalue, _, h' => by
    cases h' with
    | declare _ hname' ht' hvalue' =>
      cases hname.symm.trans hname'
      cases ht.symm.trans ht'
      rw [hvalue.unique hvalue']
    | declareUndefined _ _ ht' => simp [ht] at ht'
    | _ hlabel' => simp [hlabel] at hlabel'
  | _, _, .declareUndefined hlabel hname ht, _, h' => by
    cases h' with
    | declare _ _ ht' => simp [ht'] at ht
    | declareUndefined _ hname' =>
      cases hname.symm.trans hname'
      rfl
    | _ hlabel' => simp [hlabel] at hlabel'
  | _, _, .ifStatement hlabel h, _, h' => by
    have ih := @h.unique
    cases h' with
    | ifStatement _ h' => exact ih h'
    | _ hlabel' => simp [hlabel] at hlabel'
  | _, _, .whileLoop hlabel hcondition hbody he hss, _, h' => by
    have ih := @hss.unique
    cases h' with
    | whileLoop _ hcondition' hbody' he' hss' =>
      cases hcondition.symm.trans hcondition'
      cases hbody.symm.trans hbody'
      rw [he.unique he', ih hss']
    | _ hlabel' => simp [hlabel] at hlabel'
  | _, _, .ret hlabel ht hvalue, _, h' => by
    cases h' with
    | ret _ ht' hvalue' =>
      cases ht.symm.trans ht'
      rw [hvalue.unique hvalue']
    | retUndefined _ ht' => simp [ht] at ht'
    | _ hlabel' => simp [hlabel] at hlabel'
  | _, _, .retUndefined hlabel ht, _, h' => by
    cases h' with
    | ret _ ht' => simp [ht'] at ht
    | retUndefined => rfl
    | _ hlabel' => simp [hlabel] at hlabel'
  | _, _, .expression hlabel hchild he, _, h' => by
    cases h' with
    | expression _ hchild' he' =>
      cases hchild.symm.trans hchild'
      rw [he.unique he']
    | _ hlabel' => simp [hlabel] at hlabel'
  | _, _, .block hlabel hss, _, h' => by
    have ih := @hss.unique
    cases h' with
    | block _ hss' => rw [ih hss']
    | _ hlabel' => simp [hlabel] at hlabel'
termination_by structural _ _ h => h

theorem MeansBlock.unique : ∀ {t : Tree} {ss : List Statement}, MeansBlock o t ss →
    ∀ {ss' : List Statement}, MeansBlock o t ss' → ss' = ss
  | _, _, .intro hbody h, _, .intro hbody' h' => by
    have ih := @h.unique
    cases hbody.symm.trans hbody'
    exact ih h'
termination_by structural _ _ h => h

theorem MeansStatements.unique : ∀ {ts : List Tree} {ss : List Statement}, MeansStatements o ts ss →
    ∀ {ss' : List Statement}, MeansStatements o ts ss' → ss' = ss
  | _, _, .nil, _, .nil => rfl
  | _, _, .cons h hs, _, .cons h' hs' => by rw [h.unique h', hs.unique hs']
termination_by structural _ _ h => h

theorem MeansIf.unique : ∀ {t : Tree} {s : Statement}, MeansIf o t s →
    ∀ {s' : Statement}, MeansIf o t s' → s' = s
  | _, _, .intro hcondition hbody halternative he hss hs, _,
    .intro hcondition' hbody' halternative' he' hss' hs' => by
    have ihss := @hss.unique
    have ihs := @hs.unique
    cases hcondition.symm.trans hcondition'
    cases hbody.symm.trans hbody'
    cases halternative.symm.trans halternative'
    cases he.unique he'
    cases ihss hss'
    exact ihs hs'
termination_by structural _ _ h => h

theorem MeansElse.unique : ∀ {e : Expression} {ss : List Statement} {t : Tree} {s : Statement},
    MeansElse o e ss t s → ∀ {s' : Statement}, MeansElse o e ss t s' → s' = s
  | _, _, _, _, .ifThen ht, _, h' => by
    cases h' with
    | ifThen => rfl
    | elseIf ht' | elseBlock ht' => cases ht.symm.trans ht'
  | _, _, _, _, .elseIf ht hlabel hs, _, h' => by
    have ih := @hs.unique
    cases h' with
    | ifThen ht' => cases ht.symm.trans ht'
    | elseIf ht' _ hs' =>
      cases ht.symm.trans ht'
      rw [ih hs']
    | elseBlock ht' hlabel' =>
      cases ht.symm.trans ht'
      exact absurd hlabel hlabel'
  | _, _, _, _, .elseBlock ht hlabel hss, _, h' => by
    have ih := @hss.unique
    cases h' with
    | ifThen ht' => cases ht.symm.trans ht'
    | elseIf ht' hlabel' =>
      cases ht.symm.trans ht'
      exact absurd hlabel' hlabel
    | elseBlock ht' _ hss' =>
      cases ht.symm.trans ht'
      rw [ih hss']
termination_by structural _ _ _ _ h => h

end

/-- A tree means one declaration. -/
theorem MeansDeclaration.unique {t : Tree} {d d' : Declaration} (h : MeansDeclaration o t d)
    (h' : MeansDeclaration o t d') : d' = d := by
  cases h with
  | function ht hlabel hname hlist hparameters hblock hbody =>
    cases h' with
    | function ht' _ hname' hlist' hparameters' hblock' hbody' =>
      cases ht.symm.trans ht'
      cases hname.symm.trans hname'
      cases hlist.symm.trans hlist'
      cases hblock.symm.trans hblock'
      have hinjective : Function.Injective Tree.leaf := fun x y hxy => Tree.leaf.inj hxy
      rw [hbody.unique hbody',
        List.map_injective_iff.mpr hinjective (hparameters.symm.trans hparameters')]
    | statement ht' hlabel' =>
      cases ht.symm.trans ht'
      exact absurd hlabel hlabel'
  | statement ht hlabel hs =>
    cases h' with
    | function ht' hlabel' =>
      cases ht.symm.trans ht'
      exact absurd hlabel' hlabel
    | statement ht' _ hs' =>
      cases ht.symm.trans ht'
      rw [hs.unique hs']

end

/-! ### Checked syntax -/

namespace Expression

mutual

/-- The operators of an expression are known, and a byte can count the arguments of its calls. -/
def Checked (o : Operators) : Expression → Prop
  | .int _ => True
  | .float _ => True
  | .string _ => True
  | .variable _ => True
  | .assign _ value => Checked o value
  | .unary symbol operand => (o.unary? symbol).isSome ∧ Checked o operand
  | .binary symbol left right => (o.binary? symbol).isSome ∧ Checked o left ∧ Checked o right
  | .call _ arguments _ => arguments.length < 256 ∧ AllChecked o arguments

/-- All of some expressions are checked. -/
def AllChecked (o : Operators) : List Expression → Prop
  | [] => True
  | e :: es => Checked o e ∧ AllChecked o es

end

end Expression

namespace Statement

mutual

/-- The expressions of a statement are checked. -/
def Checked (o : Operators) : Statement → Prop
  | .declare _ value? => ∀ e ∈ value?, e.Checked o
  | .expression e => e.Checked o
  | .ret value? => ∀ e ∈ value?, e.Checked o
  | .block body => AllChecked o body
  | .whileLoop condition body => condition.Checked o ∧ AllChecked o body
  | .ifThen condition body => condition.Checked o ∧ AllChecked o body
  | .ifElse condition body alternative =>
    condition.Checked o ∧ AllChecked o body ∧ Checked o alternative

/-- All of some statements are checked. -/
def AllChecked (o : Operators) : List Statement → Prop
  | [] => True
  | s :: ss => Checked o s ∧ AllChecked o ss

end

end Statement

/-- The statements in a declaration are checked. -/
def Declaration.Checked (o : Operators) : Declaration → Prop
  | .function d => Statement.AllChecked o d.body
  | .statement s => s.Checked o

end Script

/-! ### Parts of trees -/

namespace Tree

lemma map_parts (t : Tree) : t.parts.map Subtype.val = t.children := by
  rw [parts, List.map_map]
  exact List.attach_map_subtype_val _

lemma children_of_parts {t : Tree} {us : List { u : Tree // u.size < t.size }} (h : t.parts = us) :
    t.children = us.map Subtype.val := by
  rw [← h, t.map_parts]

lemma length_parts (t : Tree) : t.parts.length = t.children.length := by
  rw [← t.map_parts, List.length_map]

end Tree

namespace Script.Elaboration

variable {o : Operators}

lemma token_eq_ok {t : Tree} {x : Token} (h : token t = .ok x) : t = .leaf x := by
  cases t with
  | leaf y =>
    cases h
    rfl
  | node => cases h

lemma child_eq_ok {t : Tree} {i : Nat} {u : { u : Tree // u.size < t.size }}
    (h : child t i = .ok u) : t.children[i]? = some u.val := by
  unfold child at h
  split at h
  · next v hv =>
    cases h
    rw [← t.map_parts, List.getElem?_map, hv, Option.map_some]
  · cases h

lemma map_smallerItems (tails : List String) (t : Tree) :
    (smallerItems tails t).map Subtype.val = items tails t := by
  rw [smallerItems, List.map_map]
  exact List.attach_map_subtype_val _

lemma mapM_smallerItems {α : Type} (tails : List String) (t : Tree) (f : Tree → Elaborated α) :
    ((smallerItems tails t).mapM fun u => f u.val) = (items tails t).mapM f := by
  rw [← map_smallerItems, List.mapM_map]
  rfl

/-! ### Elaborated expressions -/

lemma constant_checked {x : Token} {e : Expression} (h : constant x = .ok e) : e.Checked o := by
  unfold constant at h
  split at h
  · cases h
    trivial
  · dsimp only at h
    split at h
    · cases h
      trivial
    · cases h
  · cases h
    trivial
  · split at h
    · cases h
    · cases h
      trivial
  · cases h

/-- The expression of a tree of operands is checked if its operators are known and its operands are
checked. -/
lemma ofOperands_checked_iff {tree : OperandTree String Expression} :
    (ofOperands tree).Checked o ↔
      tree.first.Checked o ∧ ∀ x ∈ tree.rest, (o.binary? x.1).isSome ∧ x.2.Checked o := by
  induction tree with
  | leaf e => simp [ofOperands, OperandTree.first, OperandTree.rest]
  | node symbol left right ihl ihr =>
    rw [ofOperands, Expression.Checked, ihl, ihr, OperandTree.first, OperandTree.rest,
      List.forall_mem_append, List.forall_mem_cons]
    tauto

/-- Operators and operands that are read and elaborated are what their trees mean. -/
lemma operands_mean {whole : Tree} : ∀ {us : List { u : Tree // u.size < whole.size }}
    {operands : List (RankedOperator String × { u : Tree // u.size < whole.size })}
    {rest : List (RankedOperator String × Expression)},
    operatorsAndOperands o whole Subtype.val us = .ok operands →
    (operands.mapM fun (operator, ⟨operand, _⟩) => do return (operator, ← unary o operand)) =
      .ok rest →
    (∀ u ∈ us, ∀ e, unary o u.val = .ok e → MeansUnary o u.val e ∧ e.Checked o) →
    (∀ y ∈ rest, y.1.precedence = o.rank y.1.op) ∧
      (∀ y ∈ rest, (o.binary? y.1.op).isSome ∧ y.2.Checked o) ∧
      ∀ {first : Tree} {e : Expression}, MeansUnary o first e →
        MeansSequence o (first :: us.map Subtype.val) e (rest.map fun y => (y.1.op, y.2))
  | [], _, _, h, hrest, _ => by
    cases h
    cases hrest
    exact ⟨by simp, by simp, .last⟩
  | x :: us, _, _, h, hrest, hunary => by
    rw [operatorsAndOperands] at h
    obtain ⟨symbol, hsymbol, h⟩ := bind_eq_ok_iff.mp h
    split at h
    · cases h
    · next precedence hprecedence =>
      cases us with
      | nil => cases h
      | cons y us =>
        obtain ⟨more, hmore, h⟩ := bind_eq_ok_iff.mp h
        cases h
        rw [List.mapM_cons] at hrest
        obtain ⟨_, hfirst, hrest⟩ := bind_eq_ok_iff.mp hrest
        obtain ⟨e, he, hfirst⟩ := bind_eq_ok_iff.mp hfirst
        cases hfirst
        obtain ⟨rest, hmapM, hrest⟩ := bind_eq_ok_iff.mp hrest
        cases hrest
        obtain ⟨hmeans, hchecked⟩ := hunary y (by simp) e he
        obtain ⟨hranks, hall, hsequence⟩ :=
          operands_mean hmore hmapM fun u hu => hunary u (by simp [hu])
        obtain ⟨b, hb, -⟩ := Option.map_eq_some_iff.mp hprecedence
        refine ⟨List.forall_mem_cons.mpr ⟨by simp [Operators.rank, hprecedence], hranks⟩,
          List.forall_mem_cons.mpr ⟨⟨by simp [hb], hchecked⟩, hall⟩, fun h => ?_⟩
        rw [List.map_cons, List.map_cons, token_eq_ok hsymbol]
        exact .more h (hsequence hmeans)

/-- Arguments that are what their trees mean. -/
lemma arguments_mean {ts : List Tree} {es : List Expression}
    (h : List.Forall₂ (fun t e => MeansExpression o t e ∧ e.Checked o) ts es) :
    MeansArguments o ts es ∧ Expression.AllChecked o es := by
  induction h with
  | nil => exact ⟨.nil, trivial⟩
  | cons h _ ih => exact ⟨.cons h.1 ih.1, h.2, ih.2⟩

mutual

/-- **A tree means the expression that it is elaborated to**, and the expression is checked. -/
theorem expression_means {t : Tree} {e : Expression} (h : expression o t = .ok e) :
    MeansExpression o t e ∧ e.Checked o := by
  rw [expression] at h
  split at h
  · next target _ sign value _ hparts =>
    have ht : t.children = [target, sign.val, value] := Tree.children_of_parts hparts
    obtain ⟨name, hname, h⟩ := bind_eq_ok_iff.mp h
    obtain ⟨e, he, h⟩ := bind_eq_ok_iff.mp h
    cases h
    rw [token_eq_ok hname] at ht
    obtain ⟨hmeans, hchecked⟩ := expression_means he
    exact ⟨.assign ht hmeans, hchecked⟩
  · next sequence _ hparts =>
    split at h
    · cases h
    · next first _ us hitems =>
      have hitems : items ["BinaryTail"] sequence = first :: us.map Subtype.val := by
        rw [← map_smallerItems, hitems, List.map_cons]
      obtain ⟨operands, hoperands, h⟩ := bind_eq_ok_iff.mp h
      obtain ⟨e, he, h⟩ := bind_eq_ok_iff.mp h
      obtain ⟨rest, hrest, h⟩ := bind_eq_ok_iff.mp h
      cases h
      obtain ⟨hmeans, hchecked⟩ := unary_means he
      obtain ⟨hranks, hall, hsequence⟩ :=
        operands_mean hoperands hrest fun u _ e he => unary_means he
      obtain ⟨hgrouped, hfirst, hrest⟩ := OperandTree.resolve_grouped (x := e) hranks
      refine ⟨.operators (Tree.children_of_parts hparts) ?_ hgrouped, ofOperands_checked_iff.mpr ?_⟩
      · rw [hitems, hfirst, hrest]
        exact hsequence hmeans
      · rw [hfirst, hrest]
        exact ⟨hchecked, List.forall_mem_map.mpr hall⟩
  · cases h
termination_by t.size
decreasing_by all_goals omega

/-- A tree means the operand that it is elaborated to. -/
theorem unary_means {t : Tree} {e : Expression} (h : unary o t = .ok e) :
    MeansUnary o t e ∧ e.Checked o := by
  rw [unary] at h
  split at h
  · next operator _ operand _ hparts =>
    have ht : t.children = [operator, operand] := Tree.children_of_parts hparts
    obtain ⟨symbol, hsymbol, h⟩ := bind_eq_ok_iff.mp h
    split at h
    · cases h
    · next apply hknown =>
      obtain ⟨e, he, h⟩ := bind_eq_ok_iff.mp h
      cases h
      rw [token_eq_ok hsymbol] at ht
      obtain ⟨hmeans, hchecked⟩ := unary_means he
      exact ⟨.unary ht hmeans, Option.isSome_of_eq_some hknown, hchecked⟩
  · next hparts =>
    obtain ⟨hmeans, hchecked⟩ := primary_means h
    exact ⟨.primary (Tree.children_of_parts hparts) hmeans, hchecked⟩
  · cases h
termination_by t.size
decreasing_by all_goals omega

/-- A tree means the constant, variable, call or expression in parentheses that it is elaborated
to. -/
theorem primary_means {t : Tree} {e : Expression} (h : primary o t = .ok e) :
    MeansPrimary o t e ∧ e.Checked o := by
  rw [primary] at h
  split at h
  · next leaf _ hparts =>
    have ht : t.children = [leaf] := Tree.children_of_parts hparts
    obtain ⟨x, hx, h⟩ := bind_eq_ok_iff.mp h
    rw [token_eq_ok hx] at ht
    exact ⟨.constant ht h, constant_checked h⟩
  · next hparts =>
    obtain ⟨hmeans, hchecked⟩ := expression_means h
    exact ⟨.parentheses (Tree.children_of_parts hparts) hmeans, hchecked⟩
  · next name _ left arguments _ right hparts =>
    have ht : t.children = [name, left.val, arguments, right.val] := Tree.children_of_parts hparts
    obtain ⟨x, hx, h⟩ := bind_eq_ok_iff.mp h
    rw [token_eq_ok hx] at ht
    dsimp only at h
    split at h
    · cases h
    · next hcount =>
      obtain ⟨es, hes, h⟩ := bind_eq_ok_iff.mp h
      cases h
      have hlength := (forall₂_of_mapM hes).length_eq
      rw [mapM_smallerItems _ _ (expression o)] at hes
      have hall := forall₂_of_mapM_of_mem hes fun u hu e he =>
        have := size_lt_of_mem_items arguments hu
        expression_means he
      obtain ⟨hmeans, hchecked⟩ := arguments_mean hall
      exact ⟨.call ht hmeans, by omega, hchecked⟩
  · cases h
termination_by t.size
decreasing_by all_goals omega

end

/-! ### Elaborated statements -/

/-- Statements that are what their trees mean. -/
lemma statements_mean {ts : List Tree} {ss : List Statement}
    (h : List.Forall₂ (fun t s => MeansStatement o t s ∧ s.Checked o) ts ss) :
    MeansStatements o ts ss ∧ Statement.AllChecked o ss := by
  induction h with
  | nil => exact ⟨.nil, trivial⟩
  | cons h _ ih => exact ⟨.cons h.1 ih.1, h.2, ih.2⟩

/-- A block is elaborated to the statements of the list in it. -/
lemma block_eq_statements (o : Operators) (t : Tree) :
    block o t = child t 1 >>= fun list => statements o list.val := by
  rw [block]
  exact bind_congr fun list => mapM_smallerItems _ _ (statement o)

mutual

/-- **A tree means the statement that it is elaborated to**, and the statement is checked. -/
theorem statement_means {t : Tree} {s : Statement} (h : statement o t = .ok s) :
    MeansStatement o t s ∧ s.Checked o := by
  rw [statement] at h
  obtain ⟨⟨inner, _⟩, hinner, h⟩ := bind_eq_ok_iff.mp h
  suffices hform : MeansForm o inner s ∧ s.Checked o from
    hform.imp_left (.intro (child_eq_ok hinner))
  dsimp only at h
  split at h
  · next hlabel =>
    obtain ⟨⟨u, _⟩, hname, h⟩ := bind_eq_ok_iff.mp h
    obtain ⟨name, hx, h⟩ := bind_eq_ok_iff.mp h
    have hname := child_eq_ok hname
    rw [token_eq_ok hx] at hname
    split at h
    · next hparts =>
      obtain ⟨e, he, h⟩ := bind_eq_ok_iff.mp h
      cases h
      obtain ⟨hmeans, hchecked⟩ := expression_means he
      exact ⟨.declare hlabel hname (Tree.children_of_parts hparts) hmeans,
        by simpa [Statement.Checked] using hchecked⟩
    · next hparts =>
      cases h
      refine ⟨.declareUndefined hlabel hname fun hlength => ?_, by simp [Statement.Checked]⟩
      rw [← inner.length_parts] at hlength
      match hp : inner.parts, hlength with
      | [a, b, c, ⟨value, hvalue⟩, d], _ => exact hparts a b c value hvalue d hp
  · next hlabel => exact (ifStatement_means h).imp_left (.ifStatement hlabel)
  · next hlabel =>
    obtain ⟨⟨condition, _⟩, hcondition, h⟩ := bind_eq_ok_iff.mp h
    obtain ⟨e, he, h⟩ := bind_eq_ok_iff.mp h
    obtain ⟨⟨body, _⟩, hbody, h⟩ := bind_eq_ok_iff.mp h
    obtain ⟨ss, hss, h⟩ := bind_eq_ok_iff.mp h
    cases h
    obtain ⟨hcond, hcondChecked⟩ := expression_means he
    obtain ⟨hblock, hblockChecked⟩ := block_means hss
    exact ⟨.whileLoop hlabel (child_eq_ok hcondition) (child_eq_ok hbody) hcond hblock,
      hcondChecked, hblockChecked⟩
  · next hlabel =>
    split at h
    · next hparts =>
      obtain ⟨e, he, h⟩ := bind_eq_ok_iff.mp h
      cases h
      obtain ⟨hmeans, hchecked⟩ := expression_means he
      exact ⟨.ret hlabel (Tree.children_of_parts hparts) hmeans,
        by simpa [Statement.Checked] using hchecked⟩
    · next hparts =>
      cases h
      refine ⟨.retUndefined hlabel fun hlength => ?_, by simp [Statement.Checked]⟩
      rw [← inner.length_parts] at hlength
      match hp : inner.parts, hlength with
      | [a, ⟨value, hvalue⟩, b], _ => exact hparts a value hvalue b hp
  · next hlabel =>
    obtain ⟨⟨u, _⟩, hchild, h⟩ := bind_eq_ok_iff.mp h
    obtain ⟨e, he, h⟩ := bind_eq_ok_iff.mp h
    cases h
    obtain ⟨hmeans, hchecked⟩ := expression_means he
    exact ⟨.expression hlabel (child_eq_ok hchild) hmeans, hchecked⟩
  · next hlabel =>
    obtain ⟨ss, hss, h⟩ := bind_eq_ok_iff.mp h
    cases h
    exact (block_means hss).imp_left (.block hlabel)
  · cases h
termination_by t.size
decreasing_by all_goals omega

/-- A tree means the statements of the block that it is elaborated to. -/
theorem block_means {t : Tree} {ss : List Statement} (h : block o t = .ok ss) :
    MeansBlock o t ss ∧ Statement.AllChecked o ss := by
  rw [block_eq_statements] at h
  obtain ⟨⟨list, _⟩, hlist, h⟩ := bind_eq_ok_iff.mp h
  have hall := forall₂_of_mapM_of_mem h fun u hu s hs =>
    have := size_lt_of_mem_items list hu
    statement_means hs
  exact (statements_mean hall).imp_left (.intro (child_eq_ok hlist))
termination_by t.size
decreasing_by all_goals omega

/-- A tree means the condition with its alternative that it is elaborated to. -/
theorem ifStatement_means {t : Tree} {s : Statement} (h : ifStatement o t = .ok s) :
    MeansIf o t s ∧ s.Checked o := by
  rw [ifStatement] at h
  obtain ⟨⟨condition, _⟩, hcondition, h⟩ := bind_eq_ok_iff.mp h
  obtain ⟨e, he, h⟩ := bind_eq_ok_iff.mp h
  obtain ⟨⟨body, _⟩, hbody, h⟩ := bind_eq_ok_iff.mp h
  obtain ⟨ss, hss, h⟩ := bind_eq_ok_iff.mp h
  obtain ⟨⟨alternative, _⟩, halternative, h⟩ := bind_eq_ok_iff.mp h
  obtain ⟨he, heChecked⟩ := expression_means he
  obtain ⟨hss, hssChecked⟩ := block_means hss
  suffices helse : MeansElse o e ss alternative s ∧ s.Checked o from
    helse.imp_left (.intro (child_eq_ok hcondition) (child_eq_ok hbody)
      (child_eq_ok halternative) he hss)
  dsimp only at h
  split at h
  · next hparts =>
    cases h
    exact ⟨.ifThen (Tree.children_of_parts hparts), heChecked, hssChecked⟩
  · next keyword branch _ hparts =>
    have ht : alternative.children = [keyword.val, branch] := Tree.children_of_parts hparts
    split at h
    · next hlabel =>
      obtain ⟨s, hs, h⟩ := bind_eq_ok_iff.mp h
      cases h
      obtain ⟨hmeans, hchecked⟩ := ifStatement_means hs
      exact ⟨.elseIf ht hlabel hmeans, heChecked, hssChecked, hchecked⟩
    · next hlabel =>
      obtain ⟨ss', hss', h⟩ := bind_eq_ok_iff.mp h
      cases h
      obtain ⟨hmeans, hchecked⟩ := block_means hss'
      exact ⟨.elseBlock ht hlabel hmeans, heChecked, hssChecked, hchecked⟩
  · cases h
termination_by t.size
decreasing_by all_goals omega

end

/-! ### Elaborated declarations -/

/-- The names of parameters are tokens. -/
lemma map_leaf_of_mapM_token {ts : List Tree} {xs : List Token} (h : ts.mapM token = .ok xs) :
    ts = xs.map .leaf := by
  induction ts generalizing xs with
  | nil =>
    cases h
    rfl
  | cons t ts ih =>
    rw [List.mapM_cons] at h
    obtain ⟨x, hx, h⟩ := bind_eq_ok_iff.mp h
    obtain ⟨xs, hxs, h⟩ := bind_eq_ok_iff.mp h
    cases h
    rw [token_eq_ok hx, ih hxs, List.map_cons]

/-- The name, the parameters and the body of a function that is elaborated. -/
lemma definition_eq_ok {t : Tree} {d : Definition} (h : definition o t = .ok d) :
    ∃ (name : Token) (parameters : List Token) (list body : Tree) (ss : List Statement),
      d = ⟨name.text, parameters.map (·.text), ss, name.position.line⟩ ∧
        t.children[1]? = some (.leaf name) ∧ t.children[3]? = some list ∧
        items ["ParameterList", "ParameterTail"] list = parameters.map .leaf ∧
        t.children[5]? = some body ∧ block o body = .ok ss := by
  unfold definition at h
  obtain ⟨⟨u, _⟩, hname, h⟩ := bind_eq_ok_iff.mp h
  obtain ⟨name, hx, h⟩ := bind_eq_ok_iff.mp h
  obtain ⟨⟨list, _⟩, hlist, h⟩ := bind_eq_ok_iff.mp h
  obtain ⟨parameters, hparameters, h⟩ := bind_eq_ok_iff.mp h
  obtain ⟨⟨body, _⟩, hbody, h⟩ := bind_eq_ok_iff.mp h
  obtain ⟨inside, hinside, h⟩ := bind_eq_ok_iff.mp h
  obtain ⟨ss, hss, h⟩ := bind_eq_ok_iff.mp h
  cases h
  have hname := child_eq_ok hname
  rw [token_eq_ok hx] at hname
  refine ⟨name, parameters, list, body, ss, rfl, hname, child_eq_ok hlist,
    map_leaf_of_mapM_token hparameters, child_eq_ok hbody, ?_⟩
  exact (block_eq_statements o body).trans (bind_eq_ok_iff.mpr ⟨inside, hinside, hss⟩)

/-- **A tree means the declaration that it is elaborated to**, and the declaration is checked. -/
theorem declaration_means {t : Tree} {d : Declaration} (h : declaration o t = .ok d) :
    MeansDeclaration o t d ∧ d.Checked o := by
  unfold declaration at h
  obtain ⟨⟨inner, _⟩, hinner, h⟩ := bind_eq_ok_iff.mp h
  have ht := child_eq_ok hinner
  dsimp only at h
  split at h
  · next hlabel =>
    obtain ⟨d, hd, h⟩ := bind_eq_ok_iff.mp h
    cases h
    obtain ⟨name, parameters, list, body, ss, rfl, hname, hlist, hparameters, hbody, hss⟩ :=
      definition_eq_ok hd
    obtain ⟨hmeans, hchecked⟩ := block_means hss
    exact ⟨.function ht hlabel hname hlist hparameters hbody hmeans, hchecked⟩
  · next hlabel =>
    obtain ⟨s, hs, h⟩ := bind_eq_ok_iff.mp h
    cases h
    obtain ⟨hmeans, hchecked⟩ := statement_means hs
    exact ⟨.statement ht hlabel hmeans, hchecked⟩

end Elaboration

/-- **Elaborated declarations** are what the tree of the script means. -/
theorem Contents.isOf_iff {o : Operators} {tree : Tree} {ts : List Tree} {ds : List Declaration}
    (hts : Elaboration.declarations tree = .ok ts)
    (hds : ts.mapM (Elaboration.declaration o) = .ok ds) (x : Contents) :
    IsOf o tree x ↔ x = ofDeclarations ds := by
  obtain ⟨list, hlist, hts⟩ := bind_eq_ok_iff.mp hts
  cases hts
  have hlist := Elaboration.child_eq_ok hlist
  have hmeans := (forall₂_of_mapM hds).imp fun t d h => (Elaboration.declaration_means h).1
  constructor
  · rintro ⟨list', ds', hlist', hds', rfl⟩
    cases hlist.symm.trans hlist'
    have hunique : Relator.RightUnique (MeansDeclaration o) := fun _ _ _ h h' => h'.unique h
    rw [hunique.forall₂ hds' hmeans]
  · rintro rfl
    exact ⟨list, ds, hlist, hmeans, rfl⟩

end Script

end Coscript
