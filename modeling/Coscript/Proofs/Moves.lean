import Coscript.Parse.Configuration
import Mathlib.Tactic.ByContra
import Mathlib.Tactic.Lemma

/-!
# Moves of a parser

Moves are the steps of a parser that never accepts: it shifts or reduces, whatever table it follows.
Moves leave acceptance out of account. A run makes the same moves until it accepts, and it accepts at
the end of the input only.

* `Configuration.run_of_moves`: a run makes the moves that can be made, or accepts before;
* `Configuration.EndsAfter.exists_moves`: what a run has moved to before its last step.
-/

namespace Coscript

namespace Configuration

/-- A token is looked up by its text, and by its type alone if this gives no action. -/
lemma lookup_some (t : ParsingTable) (state : Nat) (x : Token) :
    lookup t state (some x) =
      if t.action state (.literal x.type x.text) = .error then t.action state (.any x.type)
      else t.action state (.literal x.type x.text) := by
  simp only [lookup]
  cases t.action state (.literal x.type x.text) <;> rfl

/-- A token is looked up by a terminal that accepts it, unless it is asked for with its text where
the terminal accepts any text. -/
lemma lookup_of_accepts {t : ParsingTable} {state : Nat} {x : Token} {y : Terminal}
    (hy : y.accepts x.type x.text = true) (ha : t.action state y ≠ .error)
    (htext : y = .any x.type → t.action state (.literal x.type x.text) = .error) :
    lookup t state (some x) = t.action state y := by
  rw [lookup_some]
  cases y with
  | any type =>
    obtain rfl : type = x.type := of_decide_eq_true hy
    rw [if_pos (htext rfl)]
  | literal type text =>
    simp only [Terminal.accepts, Bool.and_eq_true, decide_eq_true_eq] at hy
    obtain ⟨rfl, rfl⟩ := hy
    rw [if_neg ha]
  | epsilon => cases hy
  | endOfInput => cases hy

/-- The step of a parser that never accepts. -/
def move? (t : ParsingTable) (c : Configuration) : Option Configuration :=
  match c.action t with
  | .shift next =>
    match c.rest with
    | [] => none
    | x :: rest => some ⟨next, (c.state, .leaf x) :: c.stack, rest, x.position⟩
  | .reduce slot =>
    match t.rule? slot with
    | none => none
    | some p =>
      match c.handle? p with
      | none => none
      | some h =>
        (t.goto? h.state p.name).map fun next =>
          { c with state := next, stack := (h.state, .node p.name h.children) :: h.below }
  | .error => none

/-- Several moves. -/
def moves (t : ParsingTable) : Nat → Configuration → Option Configuration
  | 0, c => some c
  | n + 1, c => (c.move? t).bind (moves t n)

lemma moves_add {t : ParsingTable} (m n : Nat) (c : Configuration) :
    moves t (m + n) c = (moves t m c).bind (moves t n) := by
  induction m generalizing c with
  | zero => simp [moves]
  | succ m ih =>
    rw [Nat.succ_add, moves, moves, Option.bind_assoc]
    congr 1
    funext c'
    exact ih c'

/-- A move shifts the next token, or reduces the handle of a rule. -/
lemma move?_cases {t : ParsingTable} {c c' : Configuration} (h : c.move? t = some c') :
    (∃ next x rest, c.action t = .shift next ∧ c.rest = x :: rest ∧
      c' = ⟨next, (c.state, .leaf x) :: c.stack, rest, x.position⟩) ∨
    ∃ slot p hd next, c.action t = .reduce slot ∧ t.rule? slot = some p ∧ c.handle? p = some hd ∧
      t.goto? hd.state p.name = some next ∧
      c' = ⟨next, (hd.state, .node p.name hd.children) :: hd.below, c.rest, c.last⟩ := by
  unfold move? at h
  split at h
  · next next ha =>
    split at h
    · cases h
    · next x rest hrest => exact .inl ⟨next, x, rest, ha, hrest, (Option.some.inj h).symm⟩
  · next slot ha =>
    split at h
    · cases h
    · next p hp =>
      split at h
      · cases h
      · next hd hhandle =>
        obtain ⟨next, hnext, rfl⟩ := Option.map_eq_some_iff.mp h
        exact .inr ⟨slot, p, hd, next, ha, hp, hhandle, hnext, rfl⟩
  · cases h

/-- A parser that can move does so or accepts, and accepts at the end of the input only. -/
lemma step_of_move? {t : ParsingTable} {c c' : Configuration} (h : c.move? t = some c') :
    c.step t = .continues c' ∨ c.rest = [] ∧ ∃ tree, c.step t = .ends (.ok tree) := by
  rcases move?_cases h with
    ⟨next, x, rest, ha, hrest, rfl⟩ | ⟨slot, p, hd, next, ha, hp, hhandle, hnext, rfl⟩
  · exact .inl (by simp only [step, ha, hrest])
  · simp only [step, ha, reduce, hp, hhandle, hnext]
    split
    · next haccept => exact .inr ⟨haccept.2.2, _, rfl⟩
    · exact .inl rfl

/-- A parser that goes on has moved. -/
lemma move?_of_step {t : ParsingTable} {c c' : Configuration} (h : c.step t = .continues c') :
    c.move? t = some c' := by
  unfold move?
  cases ha : c.action t with
  | shift next =>
    simp only [step, ha] at h ⊢
    cases hrest : c.rest with
    | nil =>
      rw [hrest] at h
      cases h
    | cons x rest =>
      rw [hrest] at h
      cases h
      rfl
  | reduce slot =>
    simp only [step, ha, reduce] at h ⊢
    cases hrule : t.rule? slot with
    | none =>
      rw [hrule] at h
      cases h
    | some p =>
      rw [hrule] at h
      dsimp only at h ⊢
      cases hhandle : c.handle? p with
      | none =>
        rw [hhandle] at h
        cases h
      | some hd =>
        simp only [hhandle] at h ⊢
        split at h
        · cases h
        · cases hgoto : t.goto? hd.state p.name with
          | none =>
            rw [hgoto] at h
            cases h
          | some next =>
            rw [hgoto] at h
            cases h
            rfl
  | error =>
    simp only [step, ha] at h
    cases h

/-- A parser accepts the handle of the default rule, at the end of the input, with nothing else
pushed. -/
lemma accepts_cases {t : ParsingTable} {c : Configuration} {tree : Tree}
    (h : c.step t = .ends (.ok tree)) :
    ∃ p hd, c.action t = .reduce t.defaultRule ∧ t.rule? t.defaultRule = some p ∧
      c.handle? p = some hd ∧ hd.below = [] ∧ c.rest = [] ∧ tree = .node p.name hd.children := by
  unfold step at h
  split at h
  · split at h <;> cases h
  · next slot ha =>
    unfold reduce at h
    split at h
    · cases h
    · next p hp =>
      split at h
      · cases h
      · next hd hhandle =>
        dsimp only at h
        split at h
        · next haccept =>
          cases h
          obtain ⟨rfl, hbelow, hrest⟩ := haccept
          exact ⟨p, hd, ha, hp, hhandle, hbelow, hrest, rfl⟩
        · split at h <;> cases h
  · cases h

/-- More fuel does not change an outcome. -/
lemma run_mono {t : ParsingTable} {fuel fuel' : Nat} {c : Configuration}
    {outcome : Except ParseError Tree} (h : run t fuel c = some outcome) (hle : fuel ≤ fuel') :
    run t fuel' c = some outcome := by
  induction fuel generalizing c fuel' with
  | zero => cases h
  | succ fuel ih =>
    obtain ⟨k, rfl⟩ := Nat.exists_eq_add_of_le' (Nat.le_of_succ_le hle)
    cases k with
    | zero => omega
    | succ k =>
      rw [Nat.succ_add, run]
      rw [run] at h
      split at h
      · exact h
      · next c' hc => exact ih h (by omega)

/-- A run ends in its step number `k + 1`. -/
def EndsAfter (t : ParsingTable) (k : Nat) (c : Configuration)
    (outcome : Except ParseError Tree) : Prop :=
  run t k c = none ∧ run t (k + 1) c = some outcome

lemma EndsAfter.unique {t : ParsingTable} {j k : Nat} {c : Configuration}
    {o o' : Except ParseError Tree} (h : EndsAfter t j c o) (h' : EndsAfter t k c o') :
    j = k ∧ o = o' := by
  have hjk : j = k := by
    by_contra hne
    rcases Nat.lt_or_gt_of_ne hne with hlt | hlt
    · cases (run_mono h.2 hlt).symm.trans h'.1
    · cases (run_mono h'.2 hlt).symm.trans h.1
  subst hjk
  exact ⟨rfl, Option.some.inj (h.2.symm.trans h'.2)⟩

/-- A run that ends does so in some step. -/
lemma exists_endsAfter {t : ParsingTable} {fuel : Nat} {c : Configuration}
    {o : Except ParseError Tree} (h : run t fuel c = some o) : ∃ k < fuel, EndsAfter t k c o := by
  induction fuel with
  | zero => cases h
  | succ fuel ih =>
    cases hf : run t fuel c with
    | none => exact ⟨fuel, by omega, hf, h⟩
    | some o' =>
      cases (run_mono hf (Nat.le_succ fuel)).symm.trans h
      obtain ⟨k, hk, he⟩ := ih hf
      exact ⟨k, by omega, he⟩

/-- A run along moves ends before their end, accepting, or goes on from where they lead. -/
lemma run_of_moves {t : ParsingTable} (n : Nat) {c c' : Configuration}
    (h : moves t n c = some c') :
    (∃ k < n, ∃ tree, EndsAfter t k c (.ok tree)) ∨
      run t n c = none ∧ ∀ fuel, run t (n + fuel) c = run t fuel c' := by
  induction n generalizing c with
  | zero =>
    cases h
    exact .inr ⟨rfl, fun fuel => by rw [Nat.zero_add]⟩
  | succ n ih =>
    obtain ⟨c₁, hc₁, h⟩ := Option.bind_eq_some_iff.mp h
    rcases step_of_move? hc₁ with hstep | ⟨-, tree, hstep⟩
    · rcases ih h with ⟨k, hk, tree, hnone, hsome⟩ | ⟨hnone, hrun⟩
      · refine .inl ⟨k + 1, by omega, tree, ?_, ?_⟩
        · rwa [run, hstep]
        · rwa [run, hstep]
      · refine .inr ⟨by rwa [run, hstep], fun fuel => ?_⟩
        rw [Nat.succ_add, run, hstep]
        exact hrun fuel
    · refine .inl ⟨0, by omega, tree, rfl, ?_⟩
      rw [run, hstep]

/-- A run that has not ended has moved. -/
lemma exists_moves {t : ParsingTable} (n : Nat) {c : Configuration} (h : run t n c = none) :
    ∃ c', moves t n c = some c' ∧ ∀ fuel, run t (n + fuel) c = run t fuel c' := by
  induction n generalizing c with
  | zero => exact ⟨c, rfl, fun fuel => by rw [Nat.zero_add]⟩
  | succ n ih =>
    rw [run] at h
    split at h
    · cases h
    · next c₁ hstep =>
      obtain ⟨c', hmoves, hrun⟩ := ih h
      refine ⟨c', ?_, fun fuel => ?_⟩
      · rw [moves, move?_of_step hstep, Option.bind_some, hmoves]
      · rw [Nat.succ_add, run, hstep]
        exact hrun fuel

/-- A run that ends in some step has moved to a configuration with this last step. -/
lemma EndsAfter.exists_moves {t : ParsingTable} {k : Nat} {c : Configuration}
    {o : Except ParseError Tree} (h : EndsAfter t k c o) :
    ∃ c', moves t k c = some c' ∧ c'.step t = .ends o := by
  obtain ⟨c', hmoves, hrun⟩ := Configuration.exists_moves k h.1
  refine ⟨c', hmoves, ?_⟩
  have hlast := (hrun 1).symm.trans h.2
  rw [run] at hlast
  split at hlast
  · next hstep =>
    cases hlast
    exact hstep
  · cases hlast

/-! ### Handles -/

/-- Trees on top of a stack that stand for the body of a production are its handle. -/
lemma handle?_of_append {c : Configuration} {p : Production} (frames below : List (Nat × Tree))
    (hstack : c.stack = frames ++ below) (hlen : frames.length = p.body.length)
    (hstand : Tree.standFor (frames.map (·.2)).reverse p.body = true) :
    c.handle? p =
      some ⟨((frames.getLast?).map (·.1)).getD c.state, (frames.map (·.2)).reverse, below⟩ := by
  unfold handle?
  have htake : c.stack.take p.body.length = frames := by
    rw [hstack, ← hlen, List.take_left]
  have hdrop : c.stack.drop p.body.length = below := by
    rw [hstack, ← hlen, List.drop_left]
  simp only [htake, hdrop, hlen, hstand, and_self, if_true]

/-- A handle is the top of the stack, and its trees stand for the body of the production. -/
lemma handle?_spec {c : Configuration} {p : Production} {h : Handle} (hh : c.handle? p = some h) :
    ∃ frames, c.stack = frames ++ h.below ∧ frames.length = p.body.length ∧
      h.children = (frames.map (·.2)).reverse ∧ Tree.standFor h.children p.body = true ∧
      h.state = ((frames.getLast?).map (·.1)).getD c.state := by
  unfold handle? at hh
  dsimp only at hh
  split at hh
  · next hc =>
    cases hh
    exact ⟨_, (List.take_append_drop _ _).symm, hc.1, rfl, hc.2, rfl⟩
  · cases hh

end Configuration

end Coscript
