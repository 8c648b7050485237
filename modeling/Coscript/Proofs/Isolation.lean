import Coscript.Proofs.Sessions

/-!
# Calls are isolated

While a function that was called has not returned, its caller stays what it is: its operands,
without the arguments, the place in its code and its scopes. Nothing is bound meanwhile in any scope
but those of global variables and those that were made since the call. When the function returns,
its caller gets one operand more.

An execution may be interrupted between any two turns: others may then add scopes, bind names, call
natives and load files. They cannot move a scope.

* `ScopeTree.Shielded`: all scopes around a scope are ones that may be changed;
* `Execution.Course`: the turns of an execution, with what others do between them;
* `Execution.Isolated`, `Execution.isolated`: calls are isolated in every course;
* `Execution.Course.alone_run`: runs go along a course.
-/

namespace Coscript

/-! ### Scopes that may be changed -/

namespace ScopeTree

variable {t t' : ScopeTree} {g i j p scope : ScopeId} {x : String}

lemma local?_bind_of_ne (h : scope ≠ j) (parameters : List String) (arguments : List Value) :
    (Activation.bind t scope parameters arguments).local? j x = t.local? j x := by
  unfold Activation.bind
  generalize parameters.zip arguments = bindings
  induction bindings generalizing t with
  | nil => rfl
  | cons b bindings ih => exact ih.trans (local?_declare_of_ne h b.1 b.2)

lemma lt_size_of_parent? (h : t.parent? i = some p) : i < t.size := by
  obtain ⟨s, hs, -⟩ := Option.bind_eq_some_iff.mp h
  exact (Array.getElem?_eq_some_iff.mp hs).1

/-- A scope is an outermost one with global variables, or it is an own one and the scope around it
is shielded in turn. -/
inductive Shielded (t : ScopeTree) (globals own : ScopeId → Prop) : ScopeId → Prop
  | outermost {i : ScopeId} (hi : globals i) (ht : t.Outermost i) : Shielded t globals own i
  | inside {i p : ScopeId} (hi : own i) (hp : t.parent? i = some p)
    (h : Shielded t globals own p) : Shielded t globals own i

namespace Shielded

variable {globals own own' : ScopeId → Prop}

lemma mem (h : t.Shielded globals own i) : globals i ∨ own i := by
  cases h with
  | outermost hi => exact .inl hi
  | inside hi => exact .inr hi

lemma lt_size (h : t.Shielded globals own i) : i < t.size := by
  cases h with
  | outermost _ ht => exact ht.lt
  | inside _ hp => exact lt_size_of_parent? hp

lemma grows (h : t.Shielded globals own i) (hg : t.Grows t') (hown : ∀ j, own j → own' j) :
    t'.Shielded globals own' i := by
  induction h with
  | outermost hi ht => exact .outermost hi (ht.grows hg)
  | inside hi hp _ ih =>
    exact .inside (hown _ hi) ((hg.parent _ (lt_size_of_parent? hp)).trans hp) ih

/-- A name that is bound around a shielded scope is bound in one that may be changed. -/
lemma binder? (h : t.Shielded globals own i) (hj : t.binder? i x = some j) :
    globals j ∨ own j := by
  induction h with
  | outermost hi ht =>
    rw [ScopeTree.binder?] at hj
    split at hj
    · cases hj
      exact .inl hi
    · split at hj
      · next hp =>
        rw [ht.parent] at hp
        cases hp
      · cases hj
  | inside hi hp _ ih =>
    rw [ScopeTree.binder?] at hj
    split at hj
    · cases hj
      exact .inr hi
    · split at hj
      · next hp' =>
        rw [hp] at hp'
        cases hp'
        exact ih hj
      · cases hj

lemma root (h : t.Shielded globals own i) : globals (t.root i) := by
  induction h with
  | outermost hi ht => rwa [root_of_parent?_none ht.parent]
  | inside _ hp _ ih => rwa [root_of_parent? hp]

/-- What is assigned in a shielded scope is bound in one that may be changed. -/
lemma assign (h : t.Shielded globals own i) (name : String) (v : Value)
    (hj : ¬ globals j) (hown : ¬ own j) : (t.assign i name v).local? j x = t.local? j x := by
  refine local?_declare_of_ne ?_ name v
  rintro rfl
  cases hbinder : t.binder? i name with
  | none =>
    rw [hbinder] at hj
    exact hj h.root
  | some k =>
    rw [hbinder] at hj hown
    rcases h.binder? hbinder with hk | hk
    · exact hj hk
    · exact hown hk

end Shielded

lemma size_bind (t : ScopeTree) (scope : ScopeId) (parameters : List String)
    (arguments : List Value) : (Activation.bind t scope parameters arguments).size = t.size := by
  unfold Activation.bind
  generalize parameters.zip arguments = bindings
  induction bindings generalizing t with
  | nil => rfl
  | cons b bindings ih =>
    refine (ih _).trans ?_
    simp [size, declare]

lemma size_entered (ht : t.Outermost g) (parameters : List String) (arguments : List Value) :
    (t.entered g parameters arguments).size = t.size + 1 := by
  rw [entered, size_bind, size_addChild ht.lt]

/-- What a call binds is bound in its new scope. -/
lemma local?_entered (ht : t.Outermost g) (parameters : List String) (arguments : List Value)
    (hi : ¬ (t.size ≤ i ∧ i < (t.entered g parameters arguments).size)) :
    (t.entered g parameters arguments).local? i x = t.local? i x := by
  have hne : (t.addChild g).2 ≠ i := by
    rw [(addChild_of_lt ht.lt).1]
    rintro rfl
    rw [size_entered ht] at hi
    exact hi ⟨le_rfl, Nat.lt_succ_self _⟩
  rw [entered, local?_bind_of_ne hne, local?_addChild]

/-- The new scope of a call is shielded. -/
lemma shielded_entered {globals own : ScopeId → Prop} (ht : t.Outermost g) (hg : globals g)
    (parameters : List String) (arguments : List Value)
    (hown : ∀ j, t.size ≤ j → j < (t.entered g parameters arguments).size → own j) :
    (t.entered g parameters arguments).Shielded globals own (t.addChild g).2 := by
  have hscope := (addChild_of_lt ht.lt).1
  have hbind := grows_bind (t.addChild g).1 (t.addChild g).2 parameters arguments
  have hlt : t.size < (t.addChild g).1.size := size_addChild ht.lt ▸ Nat.lt_succ_self _
  have hown := hown t.size le_rfl (size_entered ht parameters arguments ▸ Nat.lt_succ_self _)
  have hparent : (t.entered g parameters arguments).parent? t.size = some g := by
    refine (hbind.parent _ hlt).trans ?_
    rw [parent?_addChild ht.lt, if_pos rfl]
  rw [hscope]
  exact .inside hown hparent (.outermost hg (ht.grows ((grows_addChild t g).trans hbind)))

end ScopeTree

namespace Place

variable {r : Registry} {p p' : Place} {globals own own' : ScopeId → Prop} {i : ScopeId}

/-- The scopes that an activation is in and returns to are shielded. -/
def Shielded (p : Place) (globals own : ScopeId → Prop) : Prop :=
  ∀ i ∈ p.scope :: p.outer, p.scopes.Shielded globals own i

lemma Shielded.grows {a : Activation} {t t' : ScopeTree} (h : (a.place t).Shielded globals own)
    (hg : t.Grows t') (hown : ∀ j, own j → own' j) : (a.place t').Shielded globals own' :=
  fun i hi => (h i hi).grows hg hown

/-- The files of a registry have their global variables in some outermost scopes. -/
def Rooted (r : Registry) (t : ScopeTree) (globals : ScopeId → Prop) : Prop :=
  ∀ key file, r.files.get? key = some file → globals file.globals ∧ t.Outermost file.globals

/-- A scope has been added. -/
def Adds (p p' : Place) (i : ScopeId) : Prop := p.scopes.size ≤ i ∧ i < p'.scopes.size

/-- What a step adds to shielded scopes is shielded, if the scopes that are added may be changed. -/
lemma Moves.shielded (h : p.Moves r p') (hp : p.Shielded globals own)
    (hown : ∀ j, own j → own' j) (hadds : ∀ j, p.Adds p' j → own' j) :
    p'.Shielded globals own' := by
  have hold : ∀ j ∈ p.scope :: p.outer, p'.scopes.Shielded globals own' j := fun j hj =>
    (hp j hj).grows h.grows hown
  cases h with
  | still | declare | assign | call => exact hold
  | leave houter =>
    intro j hj
    refine hold j (List.mem_cons_of_mem _ ?_)
    rwa [houter]
  | enter =>
    have hlt := (hp p.scope List.mem_cons_self).lt_size
    intro j hj
    rcases List.mem_cons.mp hj with rfl | hj
    · refine .inside (hadds _ ?_) ?_ (hold p.scope List.mem_cons_self)
      · dsimp only [Adds]
        rw [(ScopeTree.addChild_of_lt hlt).1, ScopeTree.size_addChild hlt]
        exact ⟨le_rfl, Nat.lt_succ_self _⟩
      · rw [(ScopeTree.addChild_of_lt hlt).1, ScopeTree.parent?_addChild hlt, if_pos rfl]
    · exact hold j hj

/-- **A step binds nothing** in scopes but global ones, own ones and those that it adds. -/
lemma Moves.local? (h : p.Moves r p') (hr : Rooted r p.scopes globals)
    (hp : p.Shielded globals own) (hglobal : ¬ globals i) (hown : ¬ own i) (hadds : ¬ p.Adds p' i)
    (x : String) : p'.scopes.local? i x = p.scopes.local? i x := by
  have hscope := hp p.scope List.mem_cons_self
  cases h with
  | still | leave => rfl
  | declare name v =>
    refine ScopeTree.local?_declare_of_ne ?_ name v
    rintro rfl
    exact hscope.mem.elim hglobal hown
  | assign name v => exact hscope.assign name v hglobal hown
  | enter => exact ScopeTree.local?_addChild _ _ _ _
  | call hfile parameters arguments =>
    exact ScopeTree.local?_entered (hr _ _ hfile).2 parameters arguments hadds

end Place

namespace Activation.Calls

variable {r : Registry} {t t' : ScopeTree} {a caller callee : Activation}
variable {globals own : ScopeId → Prop} {i : ScopeId}

lemma exists_instruction (h : a.Calls r t t' caller callee) : ∃ name count next,
    a.function.code.decode a.offset = .ok (.call name count, next) ∧
      count.toNat ≤ a.operands.length ∧
        caller = { a with offset := next, operands := a.operands.drop count.toNat } := by
  cases h with
  | intro hdecode hcount _ => exact ⟨_, _, _, hdecode, hcount, rfl⟩

/-- A call binds nothing but its arguments. -/
lemma local? (h : a.Calls r t t' caller callee) (hr : Place.Rooted r t globals)
    (hi : ¬ (t.size ≤ i ∧ i < t'.size)) (x : String) : t'.local? i x = t.local? i x := by
  cases h with
  | intro _ _ hfile => exact ScopeTree.local?_entered (hr _ _ hfile).2 _ _ hi

/-- What is called begins in a shielded scope. -/
lemma shielded (h : a.Calls r t t' caller callee) (hr : Place.Rooted r t globals)
    (hown : ∀ j, t.size ≤ j → j < t'.size → own j) : (callee.place t').Shielded globals own := by
  cases h with
  | intro _ _ hfile =>
    obtain ⟨hglobal, houtermost⟩ := hr _ _ hfile
    intro j hj
    rw [List.mem_singleton.mp hj]
    exact ScopeTree.shielded_entered houtermost hglobal _ _ hown

end Activation.Calls

namespace Execution

variable {r : Registry} {w w' : World} {p p' : Phase}

/-! ### Courses -/

/-- The turns of an execution. Between two turns others may change the world and the registry, but
they move no scope. The global variables of loaded files are in outermost scopes. -/
structure Course where
  registry : Nat → Registry
  /-- The world before each turn. -/
  world : Nat → World
  /-- The phase before each turn. -/
  phase : Nat → Phase
  begins : ∃ a, phase 0 = .active none a []
  turns : ∀ n, phase (n + 1) = (advance (registry n) (world n) (phase n)).phase
  others : ∀ n, (advance (registry n) (world n) (phase n)).world.scopes.Grows (world (n + 1)).scopes
  outermost : ∀ n key file, (registry n).files.get? key = some file →
    (world n).scopes.Outermost file.globals

namespace Course

variable {c : Course} {n m : Nat} {caller : Activation} {callers : List Activation}

/-- What a turn does. -/
def turn (c : Course) (n : Nat) : Turn := advance (c.registry n) (c.world n) (c.phase n)

/-- The number of calls that have not returned. -/
def depth (c : Course) (n : Nat) : Nat := (c.phase n).activations.length

/-- The global variables of some file are in a scope. -/
def Global (c : Course) (i : ScopeId) : Prop :=
  ∃ n key file, (c.registry n).files.get? key = some file ∧ file.globals = i

/-- A scope has been made by one of the turns from one to another. -/
def Made (c : Course) (n m : Nat) (i : ScopeId) : Prop :=
  ∃ k, n ≤ k ∧ k < m ∧ (c.world k).scopes.size ≤ i ∧ i < (c.turn k).world.scopes.size

/-- Up to a turn, the depth has been greater than before an earlier one. -/
def Deeper (c : Course) (n m : Nat) : Prop := ∀ k, n < k → k ≤ m → c.depth n < c.depth k

lemma rooted (c : Course) (n : Nat) :
    Place.Rooted (c.registry n) (c.world n).scopes c.Global := fun key file hfile =>
  ⟨⟨n, key, file, hfile, rfl⟩, c.outermost n key file hfile⟩

lemma phase_succ (c : Course) (n : Nat) : c.phase (n + 1) = (c.turn n).phase := c.turns n

/-- An execution that has finished stays so. -/
lemma phase_succ_of_finished {v : Value} (h : c.phase n = .finished v) :
    c.phase (n + 1) = .finished v := by
  rw [phase_succ, turn, h]
  rfl

lemma depth_of_active {pending : Option PendingCall} {current : Activation}
    (h : c.phase n = .active pending current callers) : c.depth n = callers.length + 1 := by
  rw [depth, h]
  rfl

lemma Made.succ {i : ScopeId} (h : c.Made n m i) : c.Made n (m + 1) i := by
  obtain ⟨k, hn, hm, hi⟩ := h
  exact ⟨k, hn, hm.trans (Nat.lt_succ_self m), hi⟩

lemma made_of_turn {i : ScopeId} (hn : n ≤ m) (hlow : (c.world m).scopes.size ≤ i)
    (hhigh : i < (c.turn m).world.scopes.size) : c.Made n (m + 1) i :=
  ⟨m, hn, Nat.lt_succ_self m, hlow, hhigh⟩

/-- A turn of a phase with a call. -/
lemma turned_of_phase {pending : Option PendingCall} {current : Activation}
    (h : c.phase n = .active pending current callers) :
    Turned (c.registry n) (c.world n) current callers (c.turn n).world (c.phase (n + 1)) := by
  rw [phase_succ, turn, h]
  exact turned (c.registry n) (c.world n) pending current callers

/-- **The number of calls is bounded.** -/
lemma depth_le (c : Course) (n : Nat) : (∃ v, c.phase n = .finished v) ∨
    ∃ pending current callers, c.phase n = .active pending current callers ∧
      callers.length < maxDepth := by
  induction n with
  | zero =>
    obtain ⟨a, ha⟩ := c.begins
    exact .inr ⟨none, a, [], ha, by decide⟩
  | succ n ih =>
    rcases ih with ⟨v, hv⟩ | ⟨pending, current, callers, hphase, hlt⟩
    · exact .inl ⟨v, phase_succ_of_finished hv⟩
    · have hturned := turned_of_phase hphase
      generalize c.phase (n + 1) = p at hturned
      cases hturned with
      | stay => exact .inr ⟨_, _, _, rfl, hlt⟩
      | push hdepth => exact .inr ⟨_, _, _, rfl, hdepth⟩
      | pop _ hcallers =>
        subst hcallers
        exact .inr ⟨_, _, _, rfl, (Nat.lt_succ_self _).trans hlt⟩
      | finish => exact .inl ⟨_, rfl⟩

/-! ### Calls that have not returned -/

/-- The phase of a call of `n` that has not returned: the caller is what it was, and the activations
above it are in shielded scopes. -/
structure Calling (c : Course) (n : Nat) (caller : Activation) (callers : List Activation)
    (m : Nat) (pending : Option PendingCall) (current : Activation) (above : List Activation) :
    Prop where
  phase : c.phase m = .active pending current (above ++ caller :: callers)
  shielded : ∀ a ∈ current :: above,
    (a.place (c.world m).scopes).Shielded c.Global (c.Made n m)

namespace Calling

variable {pending : Option PendingCall} {current : Activation} {above : List Activation}

/-- What is left by a turn is still shielded after others have done something. -/
lemma of_turn {pending' : Option PendingCall} {current' : Activation} {above' : List Activation}
    (hphase : c.phase (m + 1) = .active pending' current' (above' ++ caller :: callers))
    (hshielded : ∀ a ∈ current' :: above',
      (a.place (c.turn m).world.scopes).Shielded c.Global (c.Made n (m + 1))) :
    Calling c n caller callers (m + 1) pending' current' above' :=
  ⟨hphase, fun a ha => (hshielded a ha).grows (c.others m) fun _ hi => hi⟩

/-- The activations that a turn does not change stay in shielded scopes. -/
lemma kept (h : Calling c n caller callers m pending current above) {a : Activation}
    (ha : a ∈ current :: above) :
    (a.place (c.turn m).world.scopes).Shielded c.Global (c.Made n (m + 1)) := by
  obtain ⟨a', hmoves⟩ := (turned_of_phase h.phase).moves
  exact (h.shielded a ha).grows hmoves.grows fun _ => Made.succ

/-- The activation that a turn changes stays in shielded scopes. -/
lemma moved (h : Calling c n caller callers m pending current above) (hn : n ≤ m) {a : Activation}
    (hmoves : (current.place (c.world m).scopes).Moves (c.registry m)
      (a.place (c.turn m).world.scopes)) :
    (a.place (c.turn m).world.scopes).Shielded c.Global (c.Made n (m + 1)) :=
  hmoves.shielded (h.shielded current List.mem_cons_self) (fun _ => Made.succ)
    fun _ hadds => made_of_turn hn hadds.1 hadds.2

/-- **While a call has not returned**, its caller is what it was. -/
lemma advance (h : Calling c n caller callers m pending current above) (hn : n ≤ m)
    (hdepth : callers.length + 1 < c.depth (m + 1)) :
    ∃ pending' current' above', Calling c n caller callers (m + 1) pending' current' above' := by
  have hturned := turned_of_phase h.phase
  have hkept : ∀ a ∈ above, _ := fun a ha => h.kept (List.mem_cons_of_mem current ha)
  rw [depth] at hdepth
  generalize hphase : c.phase (m + 1) = p at hturned hdepth
  cases hturned with
  | stay hmoves =>
    refine ⟨_, _, above, of_turn hphase fun a ha => ?_⟩
    rcases List.mem_cons.mp ha with rfl | ha
    · exact h.moved hn hmoves
    · exact hkept a ha
  | @push caller' callee _ hcalls =>
    refine ⟨_, _, caller' :: above, of_turn hphase fun a ha => ?_⟩
    rcases List.mem_cons.mp ha with rfl | ha
    · exact hcalls.shielded (c.rooted m) fun i hlow hhigh => made_of_turn hn hlow hhigh
    · rcases List.mem_cons.mp ha with rfl | ha
      · exact h.moved hn hcalls.moves
      · exact hkept a ha
  | @pop a caller' rest v _ hcallers =>
    cases above with
    | nil =>
      cases hcallers
      exact absurd hdepth (Nat.lt_irrefl _)
    | cons b above =>
      rw [List.cons_append, List.cons.injEq] at hcallers
      obtain ⟨rfl, rfl⟩ := hcallers
      refine ⟨_, _, above, of_turn hphase fun a ha => ?_⟩
      rcases List.mem_cons.mp ha with rfl | ha
      · exact hkept b List.mem_cons_self
      · exact hkept a (List.mem_cons_of_mem b ha)
  | finish => exact absurd hdepth (Nat.not_lt_zero _)

/-- **When a call returns**, its caller gets one operand more. -/
lemma ret (h : Calling c n caller callers m pending current above)
    (hdepth : c.depth (m + 1) ≤ callers.length + 1) :
    ∃ v, c.phase (m + 1) =
      .active none { caller with operands := v :: caller.operands } callers := by
  have hturned := turned_of_phase h.phase
  rw [depth] at hdepth
  generalize c.phase (m + 1) = p at hturned hdepth
  cases hturned with
  | stay | push =>
    simp only [Phase.activations, List.length_cons, List.length_append] at hdepth
    omega
  | @pop a caller' rest v _ hcallers =>
    cases above with
    | nil =>
      cases hcallers
      exact ⟨v, rfl⟩
    | cons b above =>
      rw [List.cons_append, List.cons.injEq] at hcallers
      obtain ⟨rfl, rfl⟩ := hcallers
      simp only [Phase.activations, List.length_cons, List.length_append] at hdepth
      omega
  | finish _ hcallers => exact absurd hcallers (List.append_ne_nil_of_right_ne_nil _ nofun)

/-- **While a call has not returned**, nothing is bound in scopes that were there before. -/
lemma local? (h : Calling c n caller callers m pending current above) (hn : n ≤ m) {i : ScopeId}
    (hglobal : ¬ c.Global i) (hmade : ¬ c.Made n (m + 1) i) (x : String) :
    (c.turn m).world.scopes.local? i x = (c.world m).scopes.local? i x := by
  obtain ⟨a, hmoves⟩ := (turned_of_phase h.phase).moves
  exact hmoves.local? (c.rooted m) (h.shielded current List.mem_cons_self) hglobal
    (fun hi => hmade hi.succ) (fun hadds => hmade (made_of_turn hn hadds.1 hadds.2)) x

end Calling

/-- A turn that makes the number of calls greater begins a call. -/
lemma calls_of_depth_lt (h : c.depth n < c.depth (n + 1)) : ∃ pending current caller callee callers,
    c.phase n = .active pending current callers ∧
      c.phase (n + 1) = .active none callee (caller :: callers) ∧
        current.Calls (c.registry n) (c.world n).scopes (c.turn n).world.scopes caller callee := by
  rcases c.depth_le n with ⟨v, hv⟩ | ⟨pending, current, callers, hphase, -⟩
  · rw [depth, depth, hv, phase_succ_of_finished hv] at h
    exact absurd h (Nat.lt_irrefl _)
  · have hturned := turned_of_phase hphase
    rw [depth, depth, hphase] at h
    generalize hphase' : c.phase (n + 1) = p at hturned h
    cases hturned with
    | stay => exact absurd h (Nat.lt_irrefl _)
    | push _ hcalls => exact ⟨pending, current, _, _, callers, hphase, rfl, hcalls⟩
    | pop _ hcallers =>
      subst hcallers
      simp only [Phase.activations, List.length_cons] at h
      omega
    | finish => exact absurd h (Nat.not_lt_zero _)

/-- A call has not returned before the depth is what it was. -/
lemma calling_of_deeper {pending : Option PendingCall} {current callee : Activation}
    (hphase : c.phase n = .active pending current callers)
    (hphase' : c.phase (n + 1) = .active none callee (caller :: callers))
    (hcalls : current.Calls (c.registry n) (c.world n).scopes (c.turn n).world.scopes caller callee)
    (hn : n < m) (hdeeper : c.Deeper n m) :
    ∃ pending current above, Calling c n caller callers m pending current above := by
  have hdepth := depth_of_active hphase
  induction m, hn using Nat.le_induction with
  | base =>
    refine ⟨none, callee, [], Calling.of_turn hphase' fun a ha => ?_⟩
    rw [List.mem_singleton.mp ha]
    exact hcalls.shielded (c.rooted n) fun i hlow hhigh => made_of_turn le_rfl hlow hhigh
  | succ m hm ih =>
    obtain ⟨_, _, _, hcalling⟩ := ih fun k hk hkm => hdeeper k hk (Nat.le_succ_of_le hkm)
    refine hcalling.advance (Nat.le_of_succ_le hm) ?_
    rw [← hdepth]
    exact hdeeper (m + 1) (Nat.lt_succ_of_lt hm) le_rfl

end Course

/-! ### Isolation -/

/-- **Calls are isolated** in the course of an execution. -/
structure Isolated (c : Course) : Prop where
  /-- An execution that has not finished has at least one call, and no more than the greatest
  number. -/
  depth : ∀ n, (∃ v, c.phase n = .finished v) ∨ 1 ≤ c.depth n ∧ c.depth n ≤ maxDepth
  /-- A call that would be one too many fails and is not begun. -/
  exceeded : ∀ n current callers callee s, c.phase n = .active none current callers →
    Running.step (c.registry n) ⟨c.world n, current⟩ = .ok (.call callee) s →
      maxDepth < c.depth n + 1 →
        (c.turn n).report? =
            some (.failed (.callDepthExceeded callee.function.name maxDepth)) ∧
          c.phase (n + 1) = .active none s.activation callers
  /-- A turn that begins a call executes the instruction for it, and leaves the caller behind the
  instruction and without the arguments. So the caller stays until the depth is what it was, and
  then it has got one operand more. -/
  caller : ∀ n, c.depth n < c.depth (n + 1) →
    ∃ pending current callers name count next callee caller,
      c.phase n = .active pending current callers ∧
        current.function.code.decode current.offset = .ok (.call name count, next) ∧
        count.toNat ≤ current.operands.length ∧
        caller = { current with offset := next, operands := current.operands.drop count.toNat } ∧
        c.phase (n + 1) = .active none callee (caller :: callers) ∧
        ∀ m, n < m → c.Deeper n m →
          (∃ pending current above,
            c.phase m = .active pending current (above ++ caller :: callers)) ∧
          (c.depth (m + 1) ≤ c.depth n → ∃ v, c.phase (m + 1) =
            .active none { caller with operands := v :: caller.operands } callers)
  /-- From the turn that begins a call to the one in which it returns, nothing is bound in any scope
  but those of global variables and those that were made by these turns. -/
  bindings : ∀ n, c.depth n < c.depth (n + 1) → ∀ m, n ≤ m → c.Deeper n m →
    ∀ i, ¬ c.Global i → ¬ c.Made n (m + 1) i → ∀ x,
      (c.turn m).world.scopes.local? i x = (c.world m).scopes.local? i x

/-- **Calls are isolated** in every course of an execution. -/
theorem isolated (c : Course) : Isolated c := by
  constructor
  case depth =>
    intro n
    rcases c.depth_le n with hfinished | ⟨pending, current, callers, hphase, hlt⟩
    · exact .inl hfinished
    · rw [Course.depth_of_active hphase]
      exact .inr ⟨Nat.succ_le_succ (Nat.zero_le _), hlt⟩
  case exceeded =>
    intro n current callers callee s hphase hstep hdepth
    have hmax : maxDepth ≤ callers.length + 1 := by
      rw [Course.depth_of_active hphase] at hdepth
      exact Nat.le_of_lt_succ hdepth
    have hturn : c.turn n = ⟨s.world, .active none s.activation callers,
        some (.failed (.callDepthExceeded callee.function.name maxDepth))⟩ := by
      rw [Course.turn, hphase, advance, stepCurrent, hstep]
      exact if_pos hmax
    rw [c.phase_succ, hturn]
    exact ⟨rfl, rfl⟩
  case caller =>
    intro n hdepth
    obtain ⟨pending, current, caller, callee, callers, hphase, hphase', hcalls⟩ :=
      Course.calls_of_depth_lt hdepth
    have hdepth' := Course.depth_of_active hphase
    obtain ⟨name, count, next, hdecode, hcount, hcaller⟩ := hcalls.exists_instruction
    refine ⟨pending, current, callers, name, count, next, callee, caller, hphase, hdecode, hcount,
      hcaller, hphase', fun m hn hdeeper => ?_⟩
    obtain ⟨pending', current', above, hcalling⟩ :=
      Course.calling_of_deeper hphase hphase' hcalls hn hdeeper
    exact ⟨⟨pending', current', above, hcalling.phase⟩, fun hle => hcalling.ret (hdepth' ▸ hle)⟩
  case bindings =>
    intro n hdepth m hn hdeeper i hglobal hmade x
    obtain ⟨pending, current, caller, callee, callers, hphase, hphase', hcalls⟩ :=
      Course.calls_of_depth_lt hdepth
    rcases hn.eq_or_lt with rfl | hlt
    · exact hcalls.local? (c.rooted n) (fun hi => hmade (Course.made_of_turn le_rfl hi.1 hi.2)) x
    · obtain ⟨_, _, _, hcalling⟩ := Course.calling_of_deeper hphase hphase' hcalls hlt hdeeper
      exact hcalling.local? hn hglobal hmade x

/-! ### Undisturbed runs -/

/-- The world and the phase after a number of turns, whatever the turns report. -/
def after (r : Registry) (w : World) (p : Phase) : Nat → World × Phase
  | 0 => (w, p)
  | n + 1 =>
    let turn := advance r (after r w p n).1 (after r w p n).2
    (turn.world, turn.phase)

lemma after_add (r : Registry) (w : World) (p : Phase) (n m : Nat) :
    after r w p (n + m) = after r (after r w p n).1 (after r w p n).2 m := by
  induction m with
  | zero => rfl
  | succ m ih => rw [← Nat.add_assoc, after, ih, after]

/-- A run makes some turns. -/
lemma exists_after_of_runPhase {fuel : Nat} {report : Report}
    (h : runPhase r fuel w p = some (w', p', report)) :
    ∃ n, 0 < n ∧ after r w p n = (w', p') := by
  induction fuel generalizing w p with
  | zero => cases h
  | succ fuel ih =>
    rw [runPhase] at h
    split at h
    · next w₁ p₁ report₁ hturn =>
      cases h
      refine ⟨1, Nat.one_pos, ?_⟩
      simp only [after, hturn]
    · next w₁ p₁ hturn =>
      obtain ⟨n, -, hn⟩ := ih h
      refine ⟨1 + n, Nat.add_pos_left Nat.one_pos n, ?_⟩
      rw [after_add]
      simp only [after, hturn, hn]

/-- The course of an execution that nobody disturbs. -/
def Course.alone (r : Registry) (w : World) (a : Activation)
    (h : ∀ key file, r.files.get? key = some file → w.scopes.Outermost file.globals) : Course where
  registry _ := r
  world n := (after r w (.active none a []) n).1
  phase n := (after r w (.active none a []) n).2
  begins := ⟨a, rfl⟩
  turns _ := rfl
  others _ := .refl _
  outermost n key file hfile := by
    have hgrows : w.scopes.Grows (after r w (.active none a []) n).1.scopes := by
      induction n with
      | zero => exact .refl _
      | succ n ih => exact ih.trans (advance_grows r _ _)
    exact (h key file hfile).grows hgrows

/-- Runs of an execution, one after the other, go along its course. -/
theorem Course.alone_run {a : Activation}
    {h : ∀ key file, r.files.get? key = some file → w.scopes.Outermost file.globals} {n fuel : Nat}
    {e e' : Execution} {report : Report} (hphase : e.phase = (alone r w a h).phase n)
    (hrun : e.run fuel r ((alone r w a h).world n) = some (w', e', report)) :
    ∃ m, n < m ∧ (alone r w a h).world m = w' ∧ (alone r w a h).phase m = e'.phase := by
  obtain ⟨⟨w₁, p₁, report₁⟩, hrun, he⟩ := Option.map_eq_some_iff.mp hrun
  cases he
  rw [hphase] at hrun
  obtain ⟨k, hk, hafter⟩ := exists_after_of_runPhase hrun
  have hm := (after_add r w (.active none a []) n k).trans hafter
  exact ⟨n + k, Nat.lt_add_of_pos_right hk, congrArg Prod.fst hm, congrArg Prod.snd hm⟩

/-! ### A call -/

/-- A file with a function that binds a variable of its own and assigns another one, and an
initializer that calls it. -/
def exampleFile : CompiledFile :=
  let code (instructions : List Instruction) : Code :=
    (instructions.flatMap Instruction.encode).toArray
  let callee : Function := ⟨"f", "main", ["x"], code
    [.pushReference "x", .pushInt 2, .write, .pop, .pushReference "y", .pushInt 3, .write, .ret], ∅⟩
  ⟨"main", .ofList [("f", callee)], ⟨"<init>", "main", [], code
    [.pushInt 5, .pushInt 1, .call "f" 1, .binary "+", .ret], ∅⟩⟩

/-- The registry and the world after the example has been loaded. -/
def exampleSession : Registry × World × LoadedFile :=
  (Registry.start .standard .standard).load (.empty none) exampleFile

lemma exampleSession_session :
    Session .standard .standard exampleSession.1 exampleSession.2.1 :=
  .load (.start none) (.empty none) exampleFile

/-- The course of the example's initializer. -/
def exampleCourse : Course :=
  .alone exampleSession.1 exampleSession.2.1
    (.start exampleFile.initializer exampleSession.2.2.globals) fun _ _ hfile =>
      exampleSession_session.outermost hfile

/-- The call of the example begins in the third turn and returns in the eleventh. -/
theorem isolated_example : Isolated exampleCourse ∧
    exampleCourse.depth 2 < exampleCourse.depth 3 ∧ exampleCourse.Deeper 2 10 ∧
      exampleCourse.depth 11 = exampleCourse.depth 2 := by
  have hdepth : ∀ n < 12, exampleCourse.depth n = if 2 < n ∧ n < 11 then 2 else 1 := by
    decide +kernel
  refine ⟨isolated exampleCourse, ?_, fun k hk hk' => ?_, ?_⟩
  · rw [hdepth 2 (by decide), hdepth 3 (by decide)]
    decide
  · have hdepth' := hdepth k (by omega)
    rw [if_pos ⟨hk, by omega⟩] at hdepth'
    rw [hdepth', hdepth 2 (by decide)]
    decide
  · rw [hdepth 2 (by decide), hdepth 11 (by decide)]
    decide

end Execution

end Coscript
