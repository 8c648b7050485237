import Coscript.Grammar.Production
import Coscript.Token.Basic

/-!
# Parse trees

The leaves of a parse tree are tokens; an inner node has the name of the rule that it was made by,
and a child for each symbol of the rule's body.

* `Tree.word`: the leaves from left to right;
* `Tree.size_lt_of_mem`: a child is smaller than its parent, which is what recursion on trees uses.
-/

namespace Coscript

/-- Trees over tokens with named inner nodes. -/
inductive Tree
  | leaf (token : Token)
  | node (name : String) (children : List Tree)
  deriving Repr, Inhabited

namespace Tree

/-- The name of an inner node, or the text of a leaf. -/
def label : Tree → String
  | leaf t => t.text
  | node name _ => name

/-- The children of an inner node. -/
def children : Tree → List Tree
  | leaf _ => []
  | node _ cs => cs

/-- The token of a leaf. -/
def token? : Tree → Option Token
  | leaf t => some t
  | node _ _ => none

/-- Whether a tree stands for a symbol: a leaf for a terminal that accepts its token, an inner node
for its name. -/
def standsFor : Tree → Symbol → Bool
  | leaf t, .terminal x => x.accepts t.type t.text
  | node name _, .nonTerminal name' => name = name'
  | _, _ => false

/-- Whether trees stand for symbols, one for one. What is left over on either side is passed
over. -/
def standFor (ts : List Tree) (ss : List Symbol) : Bool :=
  (ts.zip ss).all fun (t, s) => t.standsFor s

mutual

/-- The text of a tree: a leaf's own text, or the name and the children between parentheses. -/
def display : Tree → String
  | leaf t => t.text
  | node name cs => "(" ++ name ++ displayAll cs ++ ")"

/-- The texts of trees, each after a space. -/
def displayAll : List Tree → String
  | [] => ""
  | t :: ts => " " ++ display t ++ displayAll ts

end

mutual

/-- The leaves of a tree from left to right. -/
def word : Tree → List Token
  | leaf t => [t]
  | node _ cs => wordAll cs

/-- The leaves of trees from left to right. -/
def wordAll : List Tree → List Token
  | [] => []
  | t :: ts => word t ++ wordAll ts

end

mutual

/-- The number of leaves and inner nodes. -/
def size : Tree → Nat
  | leaf _ => 1
  | node _ cs => sizeAll cs + 1

/-- The number of leaves and inner nodes of trees. -/
def sizeAll : List Tree → Nat
  | [] => 0
  | t :: ts => size t + sizeAll ts

end

/-! ### Sizes and parts -/

theorem size_le_sizeAll {t : Tree} {ts : List Tree} (h : t ∈ ts) : t.size ≤ sizeAll ts := by
  induction ts with
  | nil => cases h
  | cons u us ih =>
    rw [sizeAll]
    rcases List.mem_cons.mp h with rfl | h
    · omega
    · have := ih h
      omega

/-- A child is smaller than its parent. -/
theorem size_lt_of_mem {t u : Tree} (h : u ∈ t.children) : u.size < t.size := by
  cases t with
  | leaf => cases h
  | node name cs =>
    have : u.size ≤ sizeAll cs := size_le_sizeAll h
    rw [size]
    omega

/-- The children of a tree, with the fact that they are smaller. -/
def parts (t : Tree) : List { u : Tree // u.size < t.size } :=
  t.children.attach.map fun u => ⟨u.1, size_lt_of_mem u.2⟩

end Tree

end Coscript
