import Coscript.Proofs.Grounding

/-!
# Paths of states

The states that trees were pushed in form a path of the automaton, which the trees determine. In a
grounded table a path makes its trees a viable prefix, so that in a grammar whose names all derive
trees whatever a parser has pushed can be completed to a sentence, and the run of this sentence comes
through the same configuration.

* `ParsingTable.Path.unique`: trees determine their path;
* `ParsingTable.Path.viable`: what is on a path is a viable prefix;
* `ParsingTable.exists_completion`: what has been pushed can be completed to a sentence.
-/

namespace Coscript

namespace ParsingTable

open Configuration

variable {t : ParsingTable} {g : Grammar} {production : Nat}
variable {I : Nat → Item Nat → Prop} {J : Nat → Item Unit → Prop}

/-- The state after a tree is pushed. -/
def Edge (t : ParsingTable) (state : Nat) : Tree → Nat → Prop
  | .leaf x, n => lookup t state (some x) = .shift n
  | .node a _, n => t.goto? state a = some n

lemma Edge.unique {state m n : Nat} {T : Tree} (h : t.Edge state T m) (h' : t.Edge state T n) :
    m = n := by
  cases T with
  | leaf x => exact Action.shift.inj (h.symm.trans h')
  | node a ts => exact Option.some.inj (h.symm.trans h')

/-- The states that pushed trees have led through. -/
inductive Path (t : ParsingTable) : Nat → List (Nat × Tree) → Prop
  | nil : Path t t.initial []
  | cons {state n : Nat} {T : Tree} {stack : List (Nat × Tree)} (h : Path t state stack)
    (e : t.Edge state T n) : Path t n ((state, T) :: stack)

/-- **Trees determine their path.** -/
theorem Path.unique {m n : Nat} {stack stack' : List (Nat × Tree)} (h : t.Path m stack)
    (h' : t.Path n stack') (he : stack.map (·.2) = stack'.map (·.2)) : m = n ∧ stack = stack' := by
  induction h generalizing n stack' with
  | nil =>
    cases h' with
    | nil => exact ⟨rfl, rfl⟩
    | cons _ _ => cases he
  | cons _ e ih =>
    cases h' with
    | nil => cases he
    | cons h' e' =>
      simp only [List.map_cons, List.cons.injEq] at he
      obtain ⟨rfl, rfl⟩ := ih h' he.2
      obtain rfl := he.1
      exact ⟨e.unique e', rfl⟩

/-- What lies below some trees of a path is a path to the state that the first of them was
pushed in. -/
lemma Path.drop {n : Nat} {frames below : List (Nat × Tree)} (h : t.Path n (frames ++ below)) :
    t.Path (((frames.getLast?).map (·.1)).getD n) below := by
  induction frames generalizing n with
  | nil => exact h
  | cons f frames ih =>
    cases h with
    | @cons state _ T _ h _ =>
      have := ih h
      cases frames with
      | nil => exact this
      | cons f' frames =>
        rw [List.getLast?_cons_cons]
        rw [List.getLast?_cons] at this ⊢
        exact this

/-- A move goes along a path. -/
lemma Path.move {c c' : Configuration} (h : t.Path c.state c.stack) (hmove : c.move? t = some c') :
    t.Path c'.state c'.stack := by
  rcases move?_cases hmove with
    ⟨next, x, rest, ha, hrest, rfl⟩ | ⟨slot, p, hd, next, -, -, hhandle, hnext, rfl⟩
  · refine .cons h ?_
    rwa [Configuration.action, hrest] at ha
  · obtain ⟨frames, hstack, -, -, -, hstate⟩ := handle?_spec hhandle
    rw [hstack] at h
    refine .cons ?_ hnext
    rw [hstate]
    exact h.drop

/-- Several moves go along a path. -/
lemma Path.moves (n : Nat) {c c' : Configuration} (h : t.Path c.state c.stack)
    (hmoves : moves t n c = some c') : t.Path c'.state c'.stack := by
  induction n generalizing c with
  | zero =>
    cases hmoves
    exact h
  | succ n ih =>
    obtain ⟨c₁, hmove, hmoves⟩ := Option.bind_eq_some_iff.mp hmoves
    exact ih (h.move hmove) hmoves

/-! ### Viable prefixes on paths -/

lemma viable_reaches {ts : List Tree} {i j : Item Unit} {β : List Symbol}
    (h : g.Viable production ts i β) (hr : Discipline.plain.Reaches g g.firstFollow i j) :
    ∃ β', g.Viable production ts j β' := by
  induction hr with
  | refl => exact ⟨β, h⟩
  | @tail j k _ hk ih =>
    obtain ⟨β', hj⟩ := ih
    obtain ⟨a, ha, hp, hdot, -⟩ := Discipline.mem_implied_iff.mp hk
    obtain ⟨p, d, l⟩ := k
    obtain rfl : d = 0 := hdot
    exact ⟨_, hj.down ha hp⟩

/-- A token that is shifted is shifted in the column of a terminal that accepts it. -/
lemma exists_column_of_lookup {state : Nat} {x : Token} {a : Action}
    (h : lookup t state (some x) = a) :
    ∃ y : Terminal, y.accepts x.type x.text = true ∧ t.action state y = a := by
  rw [lookup_some] at h
  split at h
  · exact ⟨.any x.type, by simp [Terminal.accepts], h⟩
  · exact ⟨.literal x.type x.text, by simp [Terminal.accepts], h⟩

/-- The edge of a tree leads from an item with a symbol that the tree derives from. -/
lemma Grounded.edge (h : t.Grounded g production J) {state n : Nat} {T : Tree}
    (hT : ∀ x, T.standsFor x = true → g.Derives x T) (e : t.Edge state T n) :
    ∃ x, g.Derives x T ∧ Targets g J state x n := by
  cases T with
  | leaf x =>
    obtain ⟨y, hy, hact⟩ := exists_column_of_lookup e
    exact ⟨.terminal y, .leaf hy, h.shift state y n hact⟩
  | node a ts => exact ⟨.nonTerminal a, hT _ (decide_eq_true rfl), h.goto state a n e⟩

/-- **What is on a path is a viable prefix**, for each item of the state that it leads to. -/
theorem Path.viable (h : t.Grounded g production J) {n : Nat} {stack : List (Nat × Tree)}
    (hpath : t.Path n stack) :
    (∀ f ∈ stack, ∀ x, f.2.standsFor x = true → g.Derives x f.2) →
      ∀ j, J n j → ∃ β, g.Viable production (stack.map (·.2)).reverse j β := by
  induction hpath with
  | nil =>
    intro _ j hj
    exact viable_reaches .start (h.only j hj)
  | @cons state n T stack _ e ih =>
    intro hderives j hj
    obtain ⟨x, hT, htarget⟩ := h.edge (hderives (state, T) List.mem_cons_self) e
    obtain ⟨i, hi, hx, hij⟩ := htarget.only j hj
    obtain ⟨β, hv⟩ := ih (fun f hf => hderives f (List.mem_cons_of_mem _ hf)) i hi
    rw [List.map_cons, List.reverse_cons]
    exact viable_reaches (hv.push hx hT) hij

/-- A state at the end of a path has an item. -/
lemma Path.exists_item (h : t.Grounded g production J) {n : Nat} {stack : List (Nat × Tree)}
    (hpath : t.Path n stack)
    (hderives : ∀ f ∈ stack, ∀ x, f.2.standsFor x = true → g.Derives x f.2) : ∃ j, J n j := by
  cases hpath with
  | nil => exact ⟨_, h.initial⟩
  | cons _ e =>
    obtain ⟨x, -, htarget⟩ := h.edge (hderives _ List.mem_cons_self) e
    obtain ⟨i, -, -, hi⟩ := htarget.moved
    exact ⟨_, hi⟩

/-- **What has been pushed can be completed to a sentence**, whose run comes through the same
configuration. -/
theorem exists_completion (hproductive : g.Productive) (ho : g.Ordinary) (hg : g.Unmixed)
    (hp : g.startProduction = .ok production) (hcovers : t.Covers g production I)
    (hground : t.Grounded g production J) {n : Nat} {stack : List (Nat × Tree)}
    (hpath : t.Path n stack)
    (hderives : ∀ f ∈ stack, ∀ x, f.2.standsFor x = true → g.Derives x f.2) :
    ∃ D y last, g.Derives (.nonTerminal g.start) D ∧
      D.word = Tree.wordAll (stack.map (·.2)).reverse ++ y ∧
      Tree.sizeAll (stack.map (·.2)).reverse < D.size ∧
      moves t (Tree.sizeAll (stack.map (·.2)).reverse)
          (.start t (Tree.wordAll (stack.map (·.2)).reverse ++ y)) = some ⟨n, stack, y, last⟩ := by
  obtain ⟨p, hprod, hname, -⟩ := Grammar.startProduction_spec hp
  obtain ⟨j, hj⟩ := hpath.exists_item hground hderives
  obtain ⟨β, hv⟩ := hpath.viable hground hderives j hj
  obtain ⟨hremaining, hβ⟩ := hv.exists_derives hproductive ho
  obtain ⟨us, hus⟩ := Grammar.exists_derivesAll hremaining
  obtain ⟨vs, hvs⟩ := Grammar.exists_derivesAll hβ
  obtain ⟨D, hD, hword, hsize⟩ := hv.derivation hprod hname hus hvs
  obtain ⟨n', frames, last, l, hmoves, hframes, -, -⟩ := hcovers.moves_viable hg hv hus hvs
  have hpath' := Path.moves _ .nil hmoves
  have htrees : frames.map (·.2) = stack.map (·.2) := by
    rw [← List.reverse_reverse (frames.map (·.2)), hframes, List.reverse_reverse]
  obtain ⟨rfl, rfl⟩ := hpath'.unique hpath htrees
  exact ⟨D, _, last, hD, hword, by omega, hmoves⟩

end ParsingTable

end Coscript
