import Coscript.Proofs.Scopes

/-!
# Innermost bindings

Scopes are shared: a scope may lie around many others, and what is assigned in one of them may be
read in all of them. What a history of declarations and assignments means can still be said without
following the scopes. Each scope has its chain, itself and the scopes around it, and values are
stored one after the other. A scope binds a name as soon as a value was stored for it there. Names
are read and assigned where the chain first binds them, and a name that nothing on the chain binds
is assigned at the end of the chain.

* `ScopeTree.Step`, `ScopeTree.ofSteps`: histories of scopes, with several trees side by side;
* `ScopeTree.Record`: the chains and the stored values of a history;
* `ScopeTree.Agrees`, `ScopeTree.agrees_make`: scopes are as their record says, step by step;
* `ScopeTree.binder?_declare_of_bound`, `ScopeTree.binder?_declare_of_unbound`: where names are
  bound after an assignment;
* `ScopeTree.Updates`, `ScopeTree.innermost`: what lookups find, and what an assignment changes.
-/

namespace Coscript.ScopeTree

/-! ### Histories -/

/-- What is done with scopes. -/
inductive Step
  | root
  | child (parent : ScopeId)
  | declare (scope : ScopeId) (name : String) (v : Value)
  | assign (scope : ScopeId) (name : String) (v : Value)

/-- Makes a step. -/
def make (t : ScopeTree) : Step → ScopeTree
  | .root => t.addRoot.1
  | .child p => (t.addChild p).1
  | .declare i name v => t.declare i name v
  | .assign i name v => t.assign i name v

/-- The scopes after a history. -/
def ofSteps (steps : List Step) : ScopeTree := steps.foldl make empty

/-- A value that was stored for a name in a scope. -/
structure Stored where
  scope : ScopeId
  name : String
  value : Value

/-- What was done with scopes. -/
structure Record where
  /-- The chain of each scope: itself and those around it, the outermost one last. -/
  chains : List (List ScopeId)
  /-- The values that were stored, the last one first. -/
  stored : List Stored

namespace Record

/-- Nothing was done. -/
def empty : Record := ⟨[], []⟩

/-- A scope and those around it. -/
def chain (h : Record) (i : ScopeId) : List ScopeId := h.chains[i]?.getD []

/-- The value that was last stored for a name in a scope. -/
def last? (h : Record) (i : ScopeId) (name : String) : Option Value :=
  (h.stored.find? fun s => s.scope = i ∧ s.name = name).map Stored.value

/-- The nearest scope on a chain that binds a name. -/
def nearest? (h : Record) (i : ScopeId) (name : String) : Option ScopeId :=
  (h.chain i).find? fun k => (h.last? k name).isSome

/-- The outermost scope of a chain. -/
def outermost? (h : Record) (i : ScopeId) : Option ScopeId := (h.chain i).getLast?

/-- Where an assignment stores its value. -/
def target? (h : Record) (i : ScopeId) (name : String) : Option ScopeId :=
  (h.nearest? i name).or (h.outermost? i)

/-- Stores a value, if there is a scope for it. -/
def store (h : Record) (name : String) (v : Value) : Option ScopeId → Record
  | some i => { h with stored := ⟨i, name, v⟩ :: h.stored }
  | none => h

/-- Adds a scope in front of a chain. -/
def scope (h : Record) (around : List ScopeId) : Record :=
  { h with chains := h.chains ++ [h.chains.length :: around] }

/-- Enters a step. A declaration stores its value in the scope itself. -/
def enter (h : Record) : Step → Record
  | .root => h.scope []
  | .child p => h.scope (h.chain p)
  | .declare i name v => h.store name v (h.chain i).head?
  | .assign i name v => h.store name v (h.target? i name)

/-- The record of a history. -/
def ofSteps (steps : List Step) : Record := steps.foldl enter empty

variable {h : Record} {i k : ScopeId} {x y : String} {v : Value}

lemma chain_of_le (hi : h.chains.length ≤ i) : h.chain i = [] := by
  rw [chain, List.getElem?_eq_none hi, Option.getD_none]

lemma chain_scope (around : List ScopeId) :
    (h.scope around).chain i = if i = h.chains.length then i :: around else h.chain i := by
  rcases Nat.lt_trichotomy i h.chains.length with hi | rfl | hi
  · rw [if_neg (Nat.ne_of_lt hi), chain, scope, List.getElem?_append_left hi, chain]
  · simp [chain, scope]
  · rw [if_neg (Nat.ne_of_gt hi), chain_of_le (Nat.le_of_lt hi), chain_of_le]
    simpa [scope] using Nat.succ_le_of_lt hi

lemma chain_store (i? : Option ScopeId) : (h.store x v i?).chain k = h.chain k := by
  cases i? <;> rfl

/-- The last value is the one that was just stored, where it was stored. -/
lemma last?_store (i : ScopeId) :
    (h.store x v (some i)).last? k y = if i = k ∧ x = y then some v else h.last? k y := by
  by_cases hi : i = k ∧ x = y
  · simp [store, last?, hi]
  · rw [if_neg hi, store, last?, List.find?_cons_of_neg (by simpa using hi)]
    rfl

end Record

/-! ### Nearest bindings -/

variable {t t' : ScopeTree} {h : Record} {b i k p : ScopeId} {x y : String} {v : Value}

lemma local?_of_le (hi : t.size ≤ i) : t.local? i x = none := by
  rw [local?, Array.getElem?_eq_none hi, Option.bind_none]

lemma parent?_of_le (hi : t.size ≤ i) : t.parent? i = none := by
  rw [parent?, Array.getElem?_eq_none hi, Option.bind_none]

lemma lt_of_local? (hl : (t.local? i x).isSome) : i < t.size := by
  refine Nat.lt_of_not_le fun hi => ?_
  rw [local?_of_le hi] at hl
  cases hl

/-- What is declared in a scope that there is not is lost. -/
lemma declare_of_le (hi : t.size ≤ i) (x : String) (v : Value) : t.declare i x v = t := by
  obtain ⟨scopes, hlt⟩ := t
  unfold declare
  congr
  refine Array.ext_getElem? fun k => ?_
  rw [Array.getElem?_modify]
  split
  · next hik =>
    rw [← hik, Array.getElem?_eq_none hi]
    rfl
  · rfl

/-- A scope that binds a name is its nearest binding. -/
lemma binder?_of_local? (hi : (t.local? i x).isSome) : t.binder? i x = some i := by
  rw [binder?, if_pos hi]

/-- A name that a scope does not bind is looked for in the scope around it. -/
lemma binder?_of_not_local? (hi : ¬ (t.local? i x).isSome) :
    t.binder? i x = (t.parent? i).bind fun p => t.binder? p x := by
  rw [binder?, if_neg hi]
  split <;> simp_all

lemma local?_of_binder? (hb : t.binder? i x = some b) : (t.local? b x).isSome := by
  induction i using Nat.strongRecOn with
  | ind i ih =>
    by_cases hl : (t.local? i x).isSome
    · rw [binder?_of_local? hl, Option.some.injEq] at hb
      rwa [← hb]
    · rw [binder?_of_not_local? hl, Option.bind_eq_some_iff] at hb
      obtain ⟨p, hp, hb⟩ := hb
      exact ih p (parent?_lt hp) hb

lemma outermost_root (hi : i < t.size) : t.Outermost (t.root i) := by
  induction i using Nat.strongRecOn with
  | ind i ih =>
    cases hp : t.parent? i with
    | none => exact ⟨by rwa [root_of_parent?_none hp], by rwa [root_of_parent?_none hp]⟩
    | some p =>
      have hlt := parent?_lt hp
      rw [root_of_parent? hp]
      exact ih p hlt (Nat.lt_trans hlt hi)

/-- The scope where a value is assigned. -/
lemma target_lt (hi : i < t.size) (x : String) : (t.binder? i x).getD (t.root i) < t.size := by
  cases hb : t.binder? i x with
  | none => exact (outermost_root hi).lt
  | some b => exact lt_of_local? (local?_of_binder? hb)

/-- Where a name is bound depends on which scopes bind it, and not on the values. -/
lemma binder?_congr (hparent : ∀ i, t'.parent? i = t.parent? i)
    (hlocal : ∀ i, (t'.local? i x).isSome = (t.local? i x).isSome) (i : ScopeId) :
    t'.binder? i x = t.binder? i x := by
  induction i using Nat.strongRecOn with
  | ind i ih =>
    by_cases hl : (t.local? i x).isSome
    · rw [binder?_of_local? hl, binder?_of_local? ((hlocal i).trans hl)]
    · rw [binder?_of_not_local? hl, binder?_of_not_local? (by rwa [hlocal i]), hparent]
      cases hp : t.parent? i with
      | none => rfl
      | some p => exact ih p (parent?_lt hp)

/-- **A new value of a binding** moves no name. -/
theorem binder?_declare_of_bound (hb : (t.local? b x).isSome) (v : Value) (k : ScopeId)
    (y : String) : (t.declare b x v).binder? k y = t.binder? k y := by
  refine binder?_congr (fun i => parent?_declare t b i x v) (fun i => ?_) k
  rw [local?_declare t b i x y v (lt_of_local? hb)]
  split
  · next hby =>
    obtain ⟨rfl, rfl⟩ := hby
    rw [hb, Option.isSome_some]
  · rfl

/-- Other names stay where they are. -/
lemma binder?_declare_of_ne (hxy : x ≠ y) (b : ScopeId) (v : Value) (k : ScopeId) :
    (t.declare b x v).binder? k y = t.binder? k y := by
  refine binder?_congr (fun i => parent?_declare t b i x v) (fun i => ?_) k
  rcases Nat.lt_or_ge b t.size with hb | hb
  · rw [local?_declare t b i x y v hb, if_neg fun h => hxy h.2]
  · rw [declare_of_le hb]

/-- **A new binding in an outermost scope** is the one of those scopes of its tree that had none. -/
theorem binder?_declare_of_unbound (hb : t.Outermost b) (hnone : t.local? b x = none) (v : Value)
    (k : ScopeId) : (t.declare b x v).binder? k x =
      if t.binder? k x = none ∧ t.root k = b then some b else t.binder? k x := by
  induction k using Nat.strongRecOn with
  | ind k ih =>
    have hlocal := local?_declare t b k x x v hb.lt
    by_cases hk : b = k
    · subst hk
      rw [if_pos ⟨rfl, rfl⟩] at hlocal
      rw [binder?_of_local? (by rw [hlocal, Option.isSome_some]), if_pos]
      rw [binder?_of_not_local? (by simp [hnone]), hb.parent]
      exact ⟨rfl, root_of_parent?_none hb.parent⟩
    · rw [if_neg fun h => hk h.1] at hlocal
      by_cases hl : (t.local? k x).isSome
      · rw [binder?_of_local? (by rwa [hlocal]), binder?_of_local? hl, if_neg (by simp)]
      · rw [binder?_of_not_local? (by rwa [hlocal]), binder?_of_not_local? hl, parent?_declare]
        cases hp : t.parent? k with
        | none => simp [root_of_parent?_none hp, Ne.symm hk]
        | some p =>
          rw [root_of_parent? hp]
          exact ih p (parent?_lt hp)

/-! ### Scopes and their records -/

/-- Scopes are as a record says: they lie on its chains and bind its values. -/
structure Agrees (t : ScopeTree) (h : Record) : Prop where
  size : h.chains.length = t.size
  chain : ∀ i < t.size, h.chain i = i :: ((t.parent? i).map h.chain).getD []
  last : ∀ i x, h.last? i x = t.local? i x

namespace Agrees

lemma chain_of_le (ht : t.Agrees h) (hi : t.size ≤ i) : h.chain i = [] :=
  h.chain_of_le (by rwa [ht.size])

/-- **Names are bound in the nearest scope of the chain that was given a value.** -/
theorem nearest (ht : t.Agrees h) (i : ScopeId) (x : String) : h.nearest? i x = t.binder? i x := by
  induction i using Nat.strongRecOn with
  | ind i ih =>
    rcases Nat.lt_or_ge i t.size with hi | hi
    · by_cases hl : (t.local? i x).isSome
      · rw [binder?_of_local? hl, Record.nearest?, ht.chain i hi,
          List.find?_cons_of_pos (by rwa [ht.last])]
      · rw [binder?_of_not_local? hl, Record.nearest?, ht.chain i hi,
          List.find?_cons_of_neg (by rwa [ht.last])]
        cases hp : t.parent? i with
        | none => rfl
        | some p => exact ih p (parent?_lt hp)
    · rw [binder?_of_not_local? (by simp [local?_of_le hi]), parent?_of_le hi, Record.nearest?,
        ht.chain_of_le hi]
      rfl

/-- The outermost scope of a chain lies around all others. -/
theorem outermost (ht : t.Agrees h) (hi : i < t.size) : h.outermost? i = some (t.root i) := by
  induction i using Nat.strongRecOn with
  | ind i ih =>
    rw [Record.outermost?, ht.chain i hi]
    cases hp : t.parent? i with
    | none =>
      rw [root_of_parent?_none hp]
      rfl
    | some p =>
      have hlt := parent?_lt hp
      have hroot := ih p hlt (Nat.lt_trans hlt hi)
      rw [Record.outermost?] at hroot
      rw [root_of_parent? hp, Option.map_some, Option.getD_some, List.getLast?_cons, hroot,
        Option.getD_some]

/-- **A lookup finds the value that was last stored in the nearest scope.** -/
theorem lookup (ht : t.Agrees h) (i : ScopeId) (x : String) :
    t.lookup i x = (h.nearest? i x).bind fun b => h.last? b x := by
  simp only [ScopeTree.lookup, ht.nearest, ht.last]

/-- An assignment goes where the record says. -/
lemma target (ht : t.Agrees h) (hi : i < t.size) (x : String) :
    h.target? i x = some ((t.binder? i x).getD (t.root i)) := by
  rw [Record.target?, ht.nearest, ht.outermost hi]
  cases t.binder? i x <;> rfl

/-! ### Step by step -/

/-- A new scope stands in front of the chain of the one around it. -/
lemma scope (ht : t.Agrees h) {around : Option ScopeId}
    (hsize : t'.size = t.size + 1) (hlocal : ∀ i x, t'.local? i x = t.local? i x)
    (hparent : ∀ i, t'.parent? i = if i = t.size then around else t.parent? i) :
    t'.Agrees (h.scope ((around.map h.chain).getD [])) where
  size := by rw [hsize, ← ht.size, Record.scope, List.length_append, List.length_singleton]
  chain i hi := by
    have hle : i ≤ t.size := Nat.le_of_lt_succ (Nat.lt_of_lt_of_eq hi hsize)
    -- What lies around a scope is older than the new one.
    have hold : (t'.parent? i).map (h.scope ((around.map h.chain).getD [])).chain =
        (t'.parent? i).map h.chain := by
      cases hp : t'.parent? i with
      | none => rfl
      | some p =>
        have hlt := Nat.lt_of_lt_of_le (parent?_lt hp) hle
        rw [Option.map_some, Option.map_some, Record.chain_scope, ht.size,
          if_neg (Nat.ne_of_lt hlt)]
    rw [hold, Record.chain_scope, ht.size, hparent]
    split
    · rfl
    · next hne => exact ht.chain i (Nat.lt_of_le_of_ne hle hne)
  last i x := (ht.last i x).trans (hlocal i x).symm

/-- A declaration stores a value. -/
lemma declare (ht : t.Agrees h) (hi : i < t.size) (x : String) (v : Value) :
    (t.declare i x v).Agrees (h.store x v (some i)) where
  size := ht.size.trans (by simp [ScopeTree.size, ScopeTree.declare])
  chain k hk := by
    have hchain : (h.store x v (some i)).chain = h.chain := funext fun k => Record.chain_store _
    have hk : k < t.size := by simpa [ScopeTree.size, ScopeTree.declare] using hk
    rw [hchain, parent?_declare, ht.chain k hk]
  last k y := by rw [Record.last?_store, local?_declare t i k x y v hi, ht.last]

lemma addRoot (ht : t.Agrees h) : t.addRoot.1.Agrees (h.scope []) :=
  ht.scope (size_addRoot t) (local?_addRoot t) (parent?_addRoot t)

lemma addChild (ht : t.Agrees h) (p : ScopeId) : (t.addChild p).1.Agrees (h.scope (h.chain p)) := by
  by_cases hp : p < t.size
  · exact ht.scope (size_addChild hp) (local?_addChild t p) fun i => parent?_addChild hp
  · rw [ht.chain_of_le (Nat.le_of_not_lt hp), ScopeTree.addChild,
      dif_neg (show ¬ p < t.scopes.size from hp)]
    exact ht.addRoot

end Agrees

/-- **Scopes stay as their record says**, whatever is done. -/
theorem agrees_make (ht : t.Agrees h) (s : Step) : (t.make s).Agrees (h.enter s) := by
  cases s with
  | root => exact ht.addRoot
  | child p => exact ht.addChild p
  | declare i x v =>
    rw [make, Record.enter]
    rcases Nat.lt_or_ge i t.size with hi | hi
    · rw [ht.chain i hi]
      exact ht.declare hi x v
    · rw [declare_of_le hi, ht.chain_of_le hi]
      exact ht
  | assign i x v =>
    rw [make, Record.enter, assign]
    rcases Nat.lt_or_ge i t.size with hi | hi
    · rw [ht.target hi]
      exact ht.declare (target_lt hi x) x v
    · have hnone : h.target? i x = none := by
        rw [Record.target?, Record.nearest?, Record.outermost?, ht.chain_of_le hi]
        rfl
      rw [← ht.nearest, Record.nearest?, ht.chain_of_le hi, hnone, List.find?_nil,
        Option.getD_none, root_of_parent?_none (parent?_of_le hi), declare_of_le hi]
      exact ht

/-- The scopes after a history are as its record says. -/
theorem agrees_ofSteps (steps : List Step) : (ofSteps steps).Agrees (.ofSteps steps) := by
  suffices ∀ t h, t.Agrees h → (steps.foldl make t).Agrees (steps.foldl Record.enter h) from
    this _ _ ⟨rfl, fun i hi => absurd hi (Nat.not_lt_zero i),
      fun i x => (local?_of_le (Nat.zero_le i)).symm⟩
  induction steps with
  | nil => exact fun t h ht => ht
  | cons s steps ih => exact fun t h ht => ih _ _ (agrees_make ht s)

/-! ### What an assignment changes -/

/-- **An assignment of a value to a name in a scope**, with the scopes before and after it: `target`
is the scope where the value is stored. -/
structure Updates (h : Record) (i : ScopeId) (x : String) (v : Value) (target : ScopeId)
    (t t' : ScopeTree) : Prop where
  /-- The value is stored in the nearest scope that binds the name. If there is none, it is stored
  in the outermost one. -/
  nearest : h.nearest? i x = some target ∨
    h.nearest? i x = none ∧ h.outermost? i = some target
  /-- No other scope is changed, and no scope is added or moved. -/
  others : t'.size = t.size ∧ ∀ k, k ≠ target → t'.scopes[k]? = t.scopes[k]?
  moved : ∀ k, t'.parent? k = t.parent? k
  /-- In the scope itself, no other name is changed. -/
  stored : ∀ y, t'.local? target y = if x = y then some v else t.local? target y
  /-- The scope of the assignment reads the value. -/
  reads : t'.lookup i x = some v
  /-- Other names are read as before. -/
  names : ∀ k y, x ≠ y → t'.lookup k y = t.lookup k y
  /-- If the name was bound, those scopes read the value that have the same nearest binding. -/
  bound : ∀ b, h.nearest? i x = some b → ∀ k, t'.lookup k x =
    if h.nearest? k x = some b then some v else t.lookup k x
  /-- If not, those scopes of the same tree read it that had no binding of the name. -/
  unbound : h.nearest? i x = none → ∀ k, t'.lookup k x =
    if h.nearest? k x = none ∧ h.outermost? k = h.outermost? i then some v else t.lookup k x

/-- A name without a binding is not bound in the outermost scope. -/
lemma local?_root (hnone : t.binder? i x = none) : t.local? (t.root i) x = none := by
  induction i using Nat.strongRecOn with
  | ind i ih =>
    have hl : ¬ (t.local? i x).isSome := fun hl => by
      rw [binder?_of_local? hl] at hnone
      cases hnone
    rw [binder?_of_not_local? hl] at hnone
    cases hp : t.parent? i with
    | none => rwa [root_of_parent?_none hp, ← Option.not_isSome_iff_eq_none]
    | some p =>
      rw [hp, Option.bind_some] at hnone
      rw [root_of_parent? hp]
      exact ih p (parent?_lt hp) hnone

/-- What is read where a name is bound as before. -/
lemma lookup_declare (hb : b < t.size)
    (hbinder : (t.declare b x v).binder? k y = t.binder? k y) : (t.declare b x v).lookup k y =
      if t.binder? k y = some b ∧ x = y then some v else t.lookup k y := by
  rw [lookup, lookup, hbinder]
  cases t.binder? k y with
  | none => simp
  | some c =>
    rw [Option.bind_some, Option.bind_some, local?_declare t b c x y v hb]
    simp only [Option.some.injEq, eq_comm]

/-- A new binding in an outermost scope is read where there was none. -/
lemma lookup_declare_of_unbound (hb : t.Outermost b) (hnone : t.local? b x = none) :
    (t.declare b x v).lookup k x =
      if t.binder? k x = none ∧ t.root k = b then some v else t.lookup k x := by
  rw [lookup, binder?_declare_of_unbound hb hnone]
  split
  · rw [Option.bind_some, local?_declare t b b x x v hb.lt, if_pos ⟨rfl, rfl⟩]
  · rw [lookup]
    cases hc : t.binder? k x with
    | none => rfl
    | some c =>
      have hne : b ≠ c := by
        rintro rfl
        rw [← Option.not_isSome_iff_eq_none] at hnone
        exact hnone (local?_of_binder? hc)
      exact local?_declare_of_ne hne x v

namespace Agrees

/-- Chains end in the same scope as the ways outward. -/
lemma outermost_eq_iff (ht : t.Agrees h) (hi : i < t.size) :
    h.outermost? k = h.outermost? i ↔ t.root k = t.root i := by
  rw [ht.outermost hi]
  rcases Nat.lt_or_ge k t.size with hk | hk
  · rw [ht.outermost hk, Option.some.injEq]
  · have hne : t.root i ≠ k := Nat.ne_of_lt (Nat.lt_of_lt_of_le (outermost_root hi).lt hk)
    rw [Record.outermost?, ht.chain_of_le hk, root_of_parent?_none (parent?_of_le hk)]
    simp [hne.symm]

/-- **Assignments update the innermost binding.** -/
theorem updates (ht : t.Agrees h) (hi : i < t.size) (x : String) (v : Value) :
    Updates h i x v ((t.binder? i x).getD (t.root i)) t (t.assign i x v) := by
  have hlt := target_lt hi x
  have hbound : ∀ b, t.binder? i x = some b → ∀ k, (t.assign i x v).lookup k x =
      if t.binder? k x = some b then some v else t.lookup k x := by
    intro b hb k
    rw [assign, hb, Option.getD_some, lookup_declare (lt_of_local? (local?_of_binder? hb))
      (binder?_declare_of_bound (local?_of_binder? hb) v k x)]
    simp only [and_true]
  have hunbound : t.binder? i x = none → ∀ k, (t.assign i x v).lookup k x =
      if t.binder? k x = none ∧ t.root k = t.root i then some v else t.lookup k x := by
    intro hnone k
    rw [assign, hnone, Option.getD_none,
      lookup_declare_of_unbound (outermost_root hi) (local?_root hnone)]
  exact {
    nearest := by
      rw [ht.nearest, ht.outermost hi]
      cases t.binder? i x <;> simp
    others := ⟨by simp [ScopeTree.size, assign, ScopeTree.declare], fun k hk => by
      rw [assign, ScopeTree.declare, Array.getElem?_modify, if_neg (Ne.symm hk)]⟩
    moved := fun k => parent?_declare t _ k x v
    stored := fun y => by
      rw [assign, local?_declare t _ _ x y v hlt]
      simp only [true_and]
    reads := by
      cases hb : t.binder? i x with
      | none => rw [hunbound hb, if_pos ⟨hb, rfl⟩]
      | some b => rw [hbound b hb, if_pos hb]
    names := fun k y hxy => by
      rw [assign, lookup_declare hlt (binder?_declare_of_ne hxy _ v k), if_neg fun h => hxy h.2]
    bound := fun b hb k => by
      rw [ht.nearest] at hb ⊢
      exact hbound b hb k
    unbound := fun hnone k => by
      rw [ht.nearest] at hnone ⊢
      simp only [ht.outermost_eq_iff hi]
      exact hunbound hnone k }

end Agrees

/-- **Names are read and assigned where they are innermost**, after any history of scopes. A lookup
finds the value that was last stored for the name in the nearest scope of the chain that binds it.
An assignment changes that scope only, or the outermost one if none binds the name, and only what
the scopes with this binding, or without any in its tree, read of the name. -/
theorem innermost (steps : List Step) (i : ScopeId) (x : String) (v : Value)
    (hi : i < (ofSteps steps).size) :
    (∀ k y, (ofSteps steps).lookup k y =
      ((Record.ofSteps steps).nearest? k y).bind fun b => (Record.ofSteps steps).last? b y) ∧
    ∃ target, Updates (.ofSteps steps) i x v target (ofSteps steps)
      ((ofSteps steps).assign i x v) :=
  ⟨(agrees_ofSteps steps).lookup, _, (agrees_ofSteps steps).updates hi x v⟩

/-- A scope in a scope in global scope, where `a` is shadowed in the middle; another scope beside
them, and another global scope. -/
def shadowed : List Step :=
  [.root, .child 0, .child 1, .child 0, .root, .declare 0 "a" (.int 1), .declare 1 "a" (.int 2)]

/-- What the inner scope assigns to the shadowing name is read in the middle, and not beside it.
What it assigns to a new name is read beside it, and not in the other tree. -/
theorem innermost_shadowed : 2 < (ofSteps shadowed).size ∧
    ((ofSteps shadowed).assign 2 "a" (.int 3)).lookup 2 "a" = some (.int 3) ∧
    ((ofSteps shadowed).assign 2 "a" (.int 3)).lookup 1 "a" = some (.int 3) ∧
    ((ofSteps shadowed).assign 2 "a" (.int 3)).lookup 3 "a" = some (.int 1) ∧
    ((ofSteps shadowed).assign 2 "b" (.int 4)).lookup 3 "b" = some (.int 4) ∧
    ((ofSteps shadowed).assign 2 "b" (.int 4)).lookup 4 "b" = none := by
  have hsize : 2 < (ofSteps shadowed).size := by decide
  obtain ⟨hlookup, _, hbound⟩ := innermost shadowed 2 "a" (.int 3) hsize
  obtain ⟨-, _, hunbound⟩ := innermost shadowed 2 "b" (.int 4) hsize
  refine ⟨hsize, hbound.reads, ?_, ?_, ?_, ?_⟩
  · rw [hbound.bound 1 (by decide), if_pos (by decide)]
  · rw [hbound.bound 1 (by decide), if_neg (by decide), hlookup]
    decide
  · rw [hunbound.unbound (by decide), if_pos (by decide)]
  · rw [hunbound.unbound (by decide), if_neg (by decide), hlookup]
    decide

end Coscript.ScopeTree
