import Coscript.Data.OrderedMap
import Coscript.Machine.Value

/-!
# Scopes

Variables are bound in scopes, and a scope may lie inside another one. A name means the binding in
the nearest scope: that of the scope itself or else of the first scope around it that binds the
name.

Scopes are numbered, and a scope is younger than the one around it, so that the way outward ends.

* `ScopeTree.binder?`: the nearest scope that binds a name, through which names are looked up and
  assigned;
* `ScopeTree.local?_declare`, `ScopeTree.parent?_declare`: what a declaration changes and keeps.
-/

namespace Coscript

/-- The number of a scope. -/
abbrev ScopeId := Nat

/-- Variables, and the scope around them. -/
structure Scope where
  bindings : OrderedMap String Value
  parent : Option ScopeId

/-- Numbered scopes, each younger than its parent. -/
structure ScopeTree where
  scopes : Array Scope
  parent_lt : ∀ (i : ScopeId) (s : Scope) (p : ScopeId),
    scopes[i]? = some s → s.parent = some p → p < i

namespace ScopeTree

/-- No scopes. -/
def empty : ScopeTree := ⟨#[], by simp⟩

instance : Inhabited ScopeTree := ⟨empty⟩

/-- The number of scopes. -/
def size (t : ScopeTree) : Nat := t.scopes.size

/-- Adds a scope that lies in no other. -/
def addRoot (t : ScopeTree) : ScopeTree × ScopeId :=
  (⟨t.scopes.push ⟨∅, none⟩, by
    intro i s p hs hp
    rw [Array.getElem?_push] at hs
    split at hs
    · cases hs
      cases hp
    · exact t.parent_lt i s p hs hp⟩, t.size)

/-- Adds a scope inside another one. A scope inside one that does not exist lies in none. -/
def addChild (t : ScopeTree) (parent : ScopeId) : ScopeTree × ScopeId :=
  if hlt : parent < t.scopes.size then
    (⟨t.scopes.push ⟨∅, some parent⟩, by
      intro i s p hs hp
      rw [Array.getElem?_push] at hs
      split at hs
      · next hi =>
        cases hs
        cases hp
        exact hi ▸ hlt
      · exact t.parent_lt i s p hs hp⟩, t.size)
  else t.addRoot

/-- Binds a name in a scope, whether it is bound there already or not. -/
def declare (t : ScopeTree) (i : ScopeId) (name : String) (v : Value) : ScopeTree :=
  ⟨t.scopes.modify i fun s => { s with bindings := s.bindings.insert name v }, by
    intro j s p hs hp
    rw [Array.getElem?_modify] at hs
    split at hs
    · next hij =>
      subst hij
      obtain ⟨s', hs', rfl⟩ := Option.map_eq_some_iff.mp hs
      exact t.parent_lt _ s' p hs' hp
    · exact t.parent_lt j s p hs hp⟩

/-- The value that a scope itself binds to a name. -/
def local? (t : ScopeTree) (i : ScopeId) (name : String) : Option Value :=
  (t.scopes[i]?).bind fun s => s.bindings.get? name

/-- The scope around a scope. -/
def parent? (t : ScopeTree) (i : ScopeId) : Option ScopeId := (t.scopes[i]?).bind Scope.parent

theorem parent?_lt {t : ScopeTree} {i p : ScopeId} (h : t.parent? i = some p) : p < i := by
  obtain ⟨s, hs, hp⟩ := Option.bind_eq_some_iff.mp h
  exact t.parent_lt i s p hs hp

/-- The nearest scope that binds a name. -/
def binder? (t : ScopeTree) (i : ScopeId) (name : String) : Option ScopeId :=
  if (t.local? i name).isSome then some i
  else
    match h : t.parent? i with
    | some p =>
      have := parent?_lt h
      binder? t p name
    | none => none
termination_by i

/-- The outermost scope around a scope. -/
def root (t : ScopeTree) (i : ScopeId) : ScopeId :=
  match h : t.parent? i with
  | some p =>
    have := parent?_lt h
    root t p
  | none => i
termination_by i

/-- The value of a name. -/
def lookup (t : ScopeTree) (i : ScopeId) (name : String) : Option Value :=
  (t.binder? i name).bind fun j => t.local? j name

/-- Changes the nearest binding of a name. A name without one is bound in the outermost scope. -/
def assign (t : ScopeTree) (i : ScopeId) (name : String) (v : Value) : ScopeTree :=
  t.declare ((t.binder? i name).getD (t.root i)) name v

/-! ### Local bindings -/

/-- A declaration changes one name in one scope. -/
theorem local?_declare (t : ScopeTree) (i j : ScopeId) (x y : String) (v : Value)
    (hi : i < t.size) :
    (t.declare i x v).local? j y = if i = j ∧ x = y then some v else t.local? j y := by
  unfold local? declare
  rw [Array.getElem?_modify]
  by_cases hij : i = j
  · subst hij
    simp only [size] at hi
    by_cases hxy : x = y <;> simp [hi, OrderedMap.get?_insert, hxy]
  · simp [hij]

/-- A declaration moves no scope. -/
theorem parent?_declare (t : ScopeTree) (i j : ScopeId) (x : String) (v : Value) :
    (t.declare i x v).parent? j = t.parent? j := by
  unfold parent? declare
  rw [Array.getElem?_modify]
  by_cases hij : i = j
  · subst hij
    cases t.scopes[i]? <;> simp
  · simp [hij]

end ScopeTree

end Coscript
