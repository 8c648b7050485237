import Coscript.Script.Elaboration
import Mathlib.Data.List.Nodup
import Mathlib.Data.Nat.Digits.Defs

/-!
# Faults in the trees of scripts

What a parse tree must be like so that it can be compiled. The operators in it must be registered,
whole numbers must be small enough, string literals must not hold the character zero, there must not
be too many arguments in a call, and functions must have different names. Each of these conditions
is about single nodes of the tree, apart from the last one, and is broken with an error of its own.

* `Tree.nodes`: the nodes of a tree;
* `Script.Compilable`: the trees that can be compiled;
* `Script.faults`, `Script.scriptFaults`: the errors where conditions are broken;
* `Script.compilable_iff`: the trees that can be compiled are those without faults.
-/

namespace Coscript

namespace Tree

mutual

/-- The nodes of a tree, leaves among them, each before those below it. -/
def nodes : Tree → List Tree
  | leaf x => [leaf x]
  | node name ts => node name ts :: nodesOfAll ts

/-- The nodes of trees. -/
def nodesOfAll : List Tree → List Tree
  | [] => []
  | t :: ts => nodes t ++ nodesOfAll ts

end

lemma nodesOfAll_eq_flatMap (ts : List Tree) : nodesOfAll ts = ts.flatMap nodes := by
  induction ts with
  | nil => rfl
  | cons t ts ih => rw [nodesOfAll, List.flatMap_cons, ih]

/-- The number of arguments in the tree between the parentheses of a call. -/
def argumentCount : Tree → Nat
  | node "Arguments" [list] => list.argumentCount
  | node "ArgumentList" [_, tail] => tail.argumentCount + 1
  | node "ArgumentTail" [_, _, tail] => tail.argumentCount + 1
  | _ => 0

/-- The name of the function that a node defines. -/
def definedName? : Tree → Option Token
  | node "Function" (_ :: leaf x :: _) => some x
  | _ => none

/-- The names of the functions in a tree. -/
def definedNames (t : Tree) : List Token := t.nodes.filterMap definedName?

end Tree

/-- The number that the digits of a token mean. -/
def Token.value (x : Token) : Nat :=
  Nat.ofDigits 10 (x.text.toList.reverse.map fun c => c.toNat - '0'.toNat)

namespace Script

/-- **The trees that can be compiled** with some operators. -/
structure Compilable (o : Operators) (tree : Tree) : Prop where
  /-- The operators of binary sequences are registered. -/
  binary : ∀ x operand rest, .node "BinaryTail" [.leaf x, operand, rest] ∈ tree.nodes →
    (o.binary? x.text).isSome
  /-- So are the prefix operators. -/
  unary : ∀ x operand, .node "Unary" [.leaf x, operand] ∈ tree.nodes → (o.unary? x.text).isSome
  integers : ∀ x, .leaf x ∈ tree.nodes → x.type = .integer → x.value ≤ 2147483647
  strings : ∀ x, .leaf x ∈ tree.nodes → x.type = .string → '\x00' ∉ x.text.toList
  calls : ∀ name left arguments right,
    .node "Primary" [.leaf name, left, arguments, right] ∈ tree.nodes →
      arguments.argumentCount ≤ 255
  functions : (tree.definedNames.map (·.text)).Nodup

/-- The fault of a node, apart from what is below it. -/
def fault? (o : Operators) : Tree → Option CompileError
  | .node "BinaryTail" [.leaf x, _, _] =>
    if (o.binary? x.text).isSome then none else some (.unknownOperator x.text x.position)
  | .node "Unary" [.leaf x, _] =>
    if (o.unary? x.text).isSome then none else some (.unknownOperator x.text x.position)
  | .node "Primary" [.leaf name, _, arguments, _] =>
    if arguments.argumentCount ≤ 255 then none
    else some (.tooManyArguments name.text name.position.line)
  | .leaf x =>
    match x.type with
    | .integer =>
      if x.value ≤ 2147483647 then none
      else some (.invalidConstant x.text x.position .tooLarge)
    | .string =>
      if '\x00' ∈ x.text.toList then some (.invalidConstant x.text x.position .containsZero)
      else none
    | _ => none
  | _ => none

/-- The faults of the nodes of a tree. -/
def faults (o : Operators) (t : Tree) : List CompileError := t.nodes.filterMap (fault? o)

/-- The names that are given again, where some are given before. -/
def repeated : List String → List Token → List Token
  | _, [] => []
  | given, x :: xs =>
    if x.text ∈ given then x :: repeated given xs else repeated (given ++ [x.text]) xs

/-- The error for a function whose name is given before. -/
def duplicate (x : Token) : CompileError := .duplicateFunction x.text x.position.line

/-- The faults of the tree of a script: those of its nodes, and the functions with a name that is
given before. -/
def scriptFaults (o : Operators) (tree : Tree) : List CompileError :=
  faults o tree ++ (repeated [] tree.definedNames).map duplicate

/-! ### Trees without faults -/

variable {o : Operators} {tree : Tree}

lemma Compilable.faults_eq_nil (h : Compilable o tree) : faults o tree = [] := by
  refine List.filterMap_eq_nil_iff.mpr fun u hu => ?_
  unfold fault?
  split
  · exact if_pos (h.binary _ _ _ hu)
  · exact if_pos (h.unary _ _ hu)
  · exact if_pos (h.calls _ _ _ _ hu)
  · split
    · next htype => exact if_pos (h.integers _ hu htype)
    · next htype => exact if_neg (h.strings _ hu htype)
    · rfl
  · rfl

lemma repeated_eq_nil_iff {given : List String} {names : List Token} :
    repeated given names = [] ↔ (names.map (·.text)).Nodup ∧ ∀ x ∈ names, x.text ∉ given := by
  induction names generalizing given with
  | nil => simp [repeated]
  | cons x xs ih =>
    rw [repeated]
    split
    · next h => simp [h]
    · next h =>
      rw [ih, List.map_cons, List.nodup_cons, List.forall_mem_cons]
      constructor
      · rintro ⟨hnodup, hnew⟩
        refine ⟨⟨fun hx => ?_, hnodup⟩, h, fun y hy hgiven => ?_⟩
        · obtain ⟨y, hy, hyx⟩ := List.mem_map.mp hx
          exact hnew y hy (by simp [hyx])
        · exact hnew y hy (by simp [hgiven])
      · rintro ⟨⟨hx, hnodup⟩, -, hnew⟩
        refine ⟨hnodup, fun y hy hgiven => ?_⟩
        rcases List.mem_append.mp hgiven with hgiven | hgiven
        · exact hnew y hy hgiven
        · exact hx (List.mem_map.mpr ⟨y, hy, List.mem_singleton.mp hgiven⟩)

/-- **The trees that can be compiled are those without faults.** -/
theorem compilable_iff : Compilable o tree ↔ scriptFaults o tree = [] := by
  rw [scriptFaults, List.append_eq_nil_iff, List.map_eq_nil_iff, repeated_eq_nil_iff]
  refine ⟨fun h => ⟨h.faults_eq_nil, h.functions, by simp⟩, fun ⟨hfaults, hnames, _⟩ => ?_⟩
  have hnone := List.filterMap_eq_nil_iff.mp hfaults
  constructor
  case functions => exact hnames
  case binary =>
    intro x operand rest hmem
    simpa [fault?, Option.isSome_iff_ne_none] using hnone _ hmem
  case unary =>
    intro x operand hmem
    simpa [fault?, Option.isSome_iff_ne_none] using hnone _ hmem
  case integers =>
    intro x hmem htype
    simpa [fault?, htype] using hnone _ hmem
  case strings =>
    intro x hmem htype
    simpa [fault?, htype] using hnone _ hmem
  case calls =>
    intro name left arguments right hmem
    simpa [fault?] using hnone _ hmem

example : scriptFaults .none (.node "BinaryTail"
    [.leaf ⟨.operator, "+", .start⟩, .node "Unary" [], .node "BinaryTail" []]) =
      [.unknownOperator "+" .start] := by
  decide

/-! ### Faults of parts -/

/-- What is found in the nodes of a tree is found in its root or below it. -/
lemma filterMap_node {β : Type} (f : Tree → Option β) (name : String) (ts : List Tree) :
    (Tree.node name ts).nodes.filterMap f =
      (f (.node name ts)).toList ++ ts.flatMap fun u => u.nodes.filterMap f := by
  rw [Tree.nodes, List.filterMap_cons, Tree.nodesOfAll_eq_flatMap, List.filterMap_flatMap]
  cases f (.node name ts) <;> rfl

lemma faults_node (name : String) (ts : List Tree) :
    faults o (.node name ts) = (fault? o (.node name ts)).toList ++ ts.flatMap (faults o) :=
  filterMap_node _ name ts

lemma definedNames_node (name : String) (ts : List Tree) :
    (Tree.node name ts).definedNames =
      (Tree.definedName? (.node name ts)).toList ++ ts.flatMap Tree.definedNames :=
  filterMap_node _ name ts

lemma faults_leaf (x : Token) : faults o (.leaf x) = (fault? o (.leaf x)).toList := by
  rw [faults, Tree.nodes, List.filterMap_cons]
  cases fault? o (.leaf x) <;> rfl

lemma definedNames_leaf (x : Token) : (Tree.leaf x).definedNames = [] := rfl

/-- The names of the nodes that can break a condition. -/
def watched : List String := ["BinaryTail", "Unary", "Primary"]

lemma fault?_eq_none {name : String} (h : name ∉ watched) (ts : List Tree) :
    fault? o (.node name ts) = none := by
  unfold fault?
  split <;> simp_all [watched]

/-- Only below a node that is not watched there are faults. -/
@[simp] lemma faults_of_not_watched {name : String} (h : name ∉ watched) (ts : List Tree) :
    faults o (.node name ts) = ts.flatMap (faults o) := by
  rw [faults_node, fault?_eq_none h, Option.toList_none, List.nil_append]

/-- Only numbers and texts have faults. -/
lemma faults_leaf_eq_nil {x : Token} (hinteger : x.type ≠ .integer) (hstring : x.type ≠ .string) :
    faults o (.leaf x) = [] := by
  rw [faults_leaf, fault?]
  split <;> simp_all

/-! ### Faults of lists -/

section Lists

open Elaboration

variable {β : Type} {f : Tree → Option β} {tails : List String}

mutual

/-- What is found in the nodes of a list is found in its items. -/
lemma filterMap_nodes (htail : ∀ u, isTail tails u = true → f u = none)
    (hseparator : ∀ u, isSeparator u = true → f u = none) : ∀ t : Tree, isTail tails t = true →
    t.nodes.filterMap f = (items tails t).flatMap fun u => u.nodes.filterMap f
  | .leaf _, h => by cases h
  | .node name cs, h => by
    rw [Tree.nodes, List.filterMap_cons_none (htail _ h), items]
    exact filterMap_nodesOfAll htail hseparator cs

/-- What is found in the nodes of some children of a list is found in the items. -/
lemma filterMap_nodesOfAll (htail : ∀ u, isTail tails u = true → f u = none)
    (hseparator : ∀ u, isSeparator u = true → f u = none) : ∀ cs : List Tree,
    (Tree.nodesOfAll cs).filterMap f =
      (itemsOfAll tails cs).flatMap fun u => u.nodes.filterMap f
  | [] => rfl
  | c :: cs => by
    rw [Tree.nodesOfAll, itemsOfAll, List.filterMap_append, List.flatMap_append,
      filterMap_nodesOfAll htail hseparator cs]
    congr 1
    split
    · next h => exact filterMap_nodes htail hseparator c h
    · split
      · next h =>
        cases c with
        | leaf x => simp [Tree.nodes, hseparator _ h]
        | node => cases h
      · simp

end

lemma fault?_of_isSeparator {u : Tree} (h : isSeparator u = true) : fault? o u = none := by
  cases u with
  | leaf x =>
    simp only [isSeparator, Bool.and_eq_true, decide_eq_true_eq] at h
    simp [fault?, h.1]
  | node => cases h

/-- The faults of a list are those of its items. -/
lemma faults_items (htails : ∀ name ∈ tails, name ∉ watched) {name : String} (h : name ∉ watched)
    (cs : List Tree) :
    faults o (.node name cs) = (items tails (.node name cs)).flatMap (faults o) := by
  rw [faults, Tree.nodes, List.filterMap_cons_none (fault?_eq_none h cs), items]
  refine filterMap_nodesOfAll (fun u hu => ?_) (fun u => fault?_of_isSeparator) cs
  cases u with
  | leaf => cases hu
  | node name ts => exact fault?_eq_none (htails name (by simpa [isTail] using hu)) ts

lemma definedName?_eq_none {name : String} (h : name ≠ "Function") (ts : List Tree) :
    Tree.definedName? (.node name ts) = none := by
  unfold Tree.definedName?
  split <;> simp_all

/-- The functions in a list are those in its items. -/
lemma definedNames_items (htails : "Function" ∉ tails) {name : String} (h : name ≠ "Function")
    (cs : List Tree) :
    (Tree.node name cs).definedNames =
      (items tails (.node name cs)).flatMap Tree.definedNames := by
  rw [Tree.definedNames, Tree.nodes, List.filterMap_cons_none (definedName?_eq_none h cs), items]
  refine filterMap_nodesOfAll (fun u hu => ?_) (fun u hu => ?_) cs
  · cases u with
    | leaf => cases hu
    | node name ts =>
      refine definedName?_eq_none (fun hname => htails ?_) ts
      subst hname
      simpa [isTail] using hu
  · cases u with
    | leaf => rfl
    | node => cases hu

end Lists

end Script

end Coscript
