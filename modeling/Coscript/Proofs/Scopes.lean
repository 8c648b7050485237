import Coscript.Machine.Activation
import Mathlib.Tactic.Lemma

/-!
# Scopes stay where they are

Scopes are added and their bindings change, but a scope is never moved: what lies around it stays
the same. The outermost scope around a scope of a file is therefore always the one that holds the
global variables of the file.

* `ScopeTree.Grows`: some scopes are added, and the others stay where they are;
* `ScopeTree.Inside`: a scope lies inside another one that lies in none.
-/

namespace Coscript.ScopeTree

variable {t t' t'' : ScopeTree} {i j p globals scope : ScopeId} {x : String}

/-! ### Growing -/

/-- Scopes are added, and those that were there stay where they are. -/
structure Grows (t t' : ScopeTree) : Prop where
  size : t.size ≤ t'.size
  parent : ∀ i, i < t.size → t'.parent? i = t.parent? i

lemma Grows.refl (t : ScopeTree) : t.Grows t := ⟨Nat.le_refl _, fun _ _ => rfl⟩

lemma Grows.trans (h : t.Grows t') (h' : t'.Grows t'') : t.Grows t'' :=
  ⟨Nat.le_trans h.size h'.size, fun i hi =>
    (h'.parent i (Nat.lt_of_lt_of_le hi h.size)).trans (h.parent i hi)⟩

lemma grows_declare (t : ScopeTree) (i : ScopeId) (name : String) (v : Value) :
    t.Grows (t.declare i name v) :=
  ⟨by simp [size, declare], fun j _ => parent?_declare t i j name v⟩

lemma grows_bind (t : ScopeTree) (scope : ScopeId) (parameters : List String)
    (arguments : List Value) : t.Grows (Activation.bind t scope parameters arguments) := by
  unfold Activation.bind
  generalize parameters.zip arguments = bindings
  induction bindings generalizing t with
  | nil => exact .refl t
  | cons b bindings ih => exact (grows_declare t scope b.1 b.2).trans (ih _)

lemma addRoot_snd (t : ScopeTree) : t.addRoot.2 = t.size := rfl

lemma size_addRoot (t : ScopeTree) : t.addRoot.1.size = t.size + 1 := by
  simp [size, addRoot]

lemma parent?_addRoot (t : ScopeTree) (i : ScopeId) :
    t.addRoot.1.parent? i = if i = t.size then none else t.parent? i := by
  rw [parent?, addRoot, Array.getElem?_push]
  split <;> simp_all [size, parent?]

lemma grows_addRoot (t : ScopeTree) : t.Grows t.addRoot.1 :=
  ⟨by simp [size_addRoot], fun i hi => by rw [parent?_addRoot, if_neg (Nat.ne_of_lt hi)]⟩

lemma addChild_of_lt (hp : p < t.size) : (t.addChild p).2 = t.size ∧
    (t.addChild p).1.scopes = t.scopes.push ⟨∅, some p⟩ := by
  unfold addChild
  rw [dif_pos (show p < t.scopes.size from hp)]
  exact ⟨rfl, rfl⟩

lemma size_addChild (hp : p < t.size) : (t.addChild p).1.size = t.size + 1 := by
  rw [size, (addChild_of_lt hp).2, Array.size_push]
  rfl

lemma parent?_addChild (hp : p < t.size) :
    (t.addChild p).1.parent? i = if i = t.size then some p else t.parent? i := by
  rw [parent?, (addChild_of_lt hp).2, Array.getElem?_push]
  split <;> simp_all [size, parent?]

/-- A new scope moves no other one, wherever it should lie. -/
lemma grows_addChild (t : ScopeTree) (p : ScopeId) : t.Grows (t.addChild p).1 := by
  by_cases hp : p < t.size
  · exact ⟨by simp [size_addChild hp], fun i hi => by
      rw [parent?_addChild hp, if_neg (Nat.ne_of_lt hi)]⟩
  · rw [addChild, dif_neg (show ¬ p < t.scopes.size from hp)]
    exact grows_addRoot t

/-! ### What scopes bind -/

lemma local?_declare_of_ne (h : i ≠ j) (name : String) (v : Value) :
    (t.declare i name v).local? j x = t.local? j x := by
  unfold local? declare
  rw [Array.getElem?_modify, if_neg h]

/-- Nothing is bound in a new scope. -/
lemma local?_push {parent : Option ScopeId} (ht : t'.scopes = t.scopes.push ⟨∅, parent⟩) :
    t'.local? j x = t.local? j x := by
  unfold local?
  rw [ht, Array.getElem?_push]
  split
  · next hj =>
    rw [hj, Array.getElem?_eq_none (Nat.le_refl _)]
    rfl
  · rfl

lemma local?_addRoot (t : ScopeTree) (j : ScopeId) (x : String) :
    t.addRoot.1.local? j x = t.local? j x := local?_push rfl

lemma local?_addChild (t : ScopeTree) (p j : ScopeId) (x : String) :
    (t.addChild p).1.local? j x = t.local? j x := by
  unfold addChild
  split
  · exact local?_push rfl
  · exact local?_addRoot t j x

/-! ### Outermost scopes -/

lemma root_of_parent? (h : t.parent? i = some p) : t.root i = t.root p := by
  rw [root]
  split <;> simp_all

lemma root_of_parent?_none (h : t.parent? i = none) : t.root i = i := by
  rw [root]
  split <;> simp_all

lemma Grows.root (h : t.Grows t') (hi : i < t.size) : t'.root i = t.root i := by
  induction i using Nat.strongRecOn with
  | ind i ih =>
    cases hp : t.parent? i with
    | none => rw [root_of_parent?_none hp, root_of_parent?_none ((h.parent i hi).trans hp)]
    | some p =>
      have hlt := parent?_lt hp
      rw [root_of_parent? hp, root_of_parent? ((h.parent i hi).trans hp)]
      exact ih p hlt (Nat.lt_trans hlt hi)

/-- A scope lies in no other one. -/
structure Outermost (t : ScopeTree) (i : ScopeId) : Prop where
  lt : i < t.size
  parent : t.parent? i = none

/-- A scope lies, with others between them or without, in one that lies in none. -/
structure Inside (t : ScopeTree) (scope globals : ScopeId) : Prop where
  lt : scope < t.size
  root : t.root scope = globals

lemma Outermost.grows (h : t.Outermost globals) (hg : t.Grows t') : t'.Outermost globals :=
  ⟨Nat.lt_of_lt_of_le h.lt hg.size, (hg.parent globals h.lt).trans h.parent⟩

/-- A new scope without one around it is an outermost one. -/
lemma outermost_addRoot (t : ScopeTree) : t.addRoot.1.Outermost t.addRoot.2 :=
  ⟨by simp [size_addRoot, addRoot_snd], by rw [parent?_addRoot, addRoot_snd, if_pos rfl]⟩

lemma Outermost.inside (h : t.Outermost globals) : t.Inside globals globals :=
  ⟨h.lt, root_of_parent?_none h.parent⟩

lemma Inside.grows (h : t.Inside scope globals) (hg : t.Grows t') : t'.Inside scope globals :=
  ⟨Nat.lt_of_lt_of_le h.lt hg.size, (hg.root h.lt).trans h.root⟩

/-- A new scope inside one that lies inside of global variables lies there too. -/
lemma Inside.addChild (h : t.Inside scope globals) :
    (t.addChild scope).1.Inside (t.addChild scope).2 globals := by
  obtain ⟨hsnd, -⟩ := addChild_of_lt h.lt
  have hparent : (t.addChild scope).1.parent? t.size = some scope := by
    rw [parent?_addChild h.lt, if_pos rfl]
  refine ⟨by rw [hsnd, size_addChild h.lt]; exact Nat.lt_succ_self _, ?_⟩
  rw [hsnd, root_of_parent? hparent, (grows_addChild t scope).root h.lt, h.root]

/-- What is assigned to a name without a binding is bound among the global variables. -/
lemma Inside.assign (h : t.Inside scope globals) (name : String) (v : Value) :
    t.assign scope name v = t.declare ((t.binder? scope name).getD globals) name v := by
  rw [ScopeTree.assign, h.root]

end Coscript.ScopeTree
