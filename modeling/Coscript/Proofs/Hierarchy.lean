import Coscript.Proofs.Completeness
import Coscript.Proofs.Groups

/-!
# The strategies form a hierarchy

A grammar with a table without lookaheads has a merged one, and a grammar with a merged table has a
canonical one. Items that are valid for some symbols stand, without their lookaheads, in the state
that the same symbols lead to in the automaton without lookaheads, and their lookaheads may follow
the names of their productions. So a conflict of the canonical automaton, or one that merging brings
about, is a conflict of the automaton without lookaheads already.

Merging only brings about conflicts between reductions, and no table of any kind is ever refused for
two shifts or for two states after a reduction.

* `Discipline.valid_core`: valid items without their lookaheads are valid;
* `Strategy.exists_table_of_simple`, `Strategy.exists_table_of_merged`: the hierarchy;
* `Strategy.build_error`: why there is no table.
-/

namespace Coscript

open Discipline

variable {g : Grammar} {production : Nat} {c : Collection Nat} {c₀ : Collection Unit}

/-! ### Items without their lookaheads -/

/-- **Valid items are valid without their lookaheads.** -/
theorem Discipline.valid_core {s : FirstFollow} {σ : List Symbol} {i : Item Nat}
    (h : canonical.Valid g s production σ i) : plain.Valid g s production σ i.core := by
  induction h with
  | start => exact .start
  | implied _ hj ih =>
    obtain ⟨a, ha, hp, hdot, -⟩ := mem_implied_iff.mp hj
    exact ih.implied (mem_implied_iff.mpr ⟨a, ha, hp, hdot, List.mem_singleton.mpr rfl⟩)
  | advance _ hx ih => exact ih.advance hx

/-- A lookahead that may follow the name of the production is one to reduce on. -/
lemma InFollow.mem_reduceOn {i : Item Nat} (h : InFollow g i) :
    i.lookahead ∈ plain.reduceOn g g.firstFollow i.core := by
  obtain ⟨p, hp, hl⟩ := h
  exact (mem_reduceOn_plain (i := i.core) hp).mpr hl

/-- The cores of a canonical state stand together in a state without lookaheads. -/
lemma exists_state_of_cores (h₀ : c₀.Exact .plain g g.firstFollow production)
    (hvalid : ∀ state < c.size, ∃ σ, ∀ i, i ∈ c.itemsOf state ↔
      canonical.Valid g g.firstFollow production σ i) {m : Nat} {i : Item Nat}
    (hi : i ∈ c.itemsOf m) : ∃ n, ∀ j, Cores c m j → j ∈ c₀.itemsOf n := by
  obtain ⟨σ, hσ⟩ := hvalid m (Collection.lt_size_of_mem_itemsOf hi)
  obtain ⟨n, hn⟩ := h₀.exists_reach (valid_core ((hσ i).mp hi))
  refine ⟨n, ?_⟩
  rintro _ ⟨j, hj, rfl⟩
  exact (h₀.mem_itemsOf_iff hn).mpr (valid_core ((hσ j).mp hj))

/-- Without a conflict between items without lookaheads there is none between those with them. -/
lemma not_clash_of_simple (h₀ : c₀.Exact .plain g g.firstFollow production)
    (hc₀ : c₀.Consistent .plain g g.firstFollow)
    (hvalid : ∀ state < c.size, ∃ σ, ∀ i, i ∈ c.itemsOf state ↔
      canonical.Valid g g.firstFollow production σ i)
    (hfollow : ∀ state, ∀ i ∈ c.itemsOf state, InFollow g i) {e : TableError} :
    ¬ c.Clash .canonical g g.firstFollow e := by
  intro hclash
  cases hclash with
  | @shiftReduce state n i j x p hi hj hx hcomplete hn hterm hp =>
    obtain ⟨m, hm⟩ := exists_state_of_cores h₀ hvalid hi
    obtain rfl : n = j.lookahead := List.mem_singleton.mp hn
    exact hc₀.shift (hm _ ⟨i, hi, rfl⟩) (hm _ ⟨j, hj, rfl⟩) hx hcomplete
      (hfollow _ _ hj).mem_reduceOn hterm
  | @reduceReduce state n i j x p q hi hj hi' hj' hne hni hnj hterm hp hq =>
    obtain ⟨m, hm⟩ := exists_state_of_cores h₀ hvalid hi
    obtain rfl : n = j.lookahead := List.mem_singleton.mp hnj
    obtain heq : j.lookahead = i.lookahead := List.mem_singleton.mp hni
    exact hne (hc₀.reduce (hm _ ⟨i, hi, rfl⟩) (hm _ ⟨j, hj, rfl⟩) hi' hj'
      (heq ▸ (hfollow _ _ hi).mem_reduceOn) (hfollow _ _ hj).mem_reduceOn hterm)

/-- Nor is there one between the states of a group. -/
lemma not_mergingClash_of_simple (h₀ : c₀.Exact .plain g g.firstFollow production)
    (hc₀ : c₀.Consistent .plain g g.firstFollow)
    (hvalid : ∀ state < c.size, ∃ σ, ∀ i, i ∈ c.itemsOf state ↔
      canonical.Valid g g.firstFollow production σ i)
    (hfollow : ∀ state, ∀ i ∈ c.itemsOf state, InFollow g i) {e : TableError} :
    ¬ Merging.Clash g c e := by
  intro hclash
  cases hclash with
  | @reduceReduce m n i j x p q hgroup hi hj hi' hj' hne hl hterm hp hq =>
    obtain ⟨k, hk⟩ := exists_state_of_cores h₀ hvalid hj
    have hcores := (Merging.groupOf_eq_iff (Collection.lt_size_of_mem_itemsOf hi)
      (Collection.lt_size_of_mem_itemsOf hj)).mp hgroup
    have hci := hk _ ((hcores _).mp ⟨i, hi, rfl⟩)
    exact hne (hc₀.reduce hci (hk _ ⟨j, hj, rfl⟩) hi' hj' (hl ▸ (hfollow _ _ hi).mem_reduceOn)
      (hfollow _ _ hj).mem_reduceOn hterm)

/-! ### What the strategies build -/

namespace Strategy

/-- A construction fails if there is no start production, or no table of the collection, or nothing
is made of it. -/
lemma outcome_constructWith {L : Type} [DecidableEq L] [Hashable L] (d : Discipline L)
    (finish : Collection L → ParsingTable → Except TableError ParsingTable × List LogEntry) :
    (constructWith d g finish).outcome = (do
      let production ← g.startProduction
      let c := Collection.build d g g.firstFollow production
      let t ← c.table d g g.firstFollow production
      (finish c t).1) := by
  unfold constructWith
  cases g.startProduction with
  | error e => rfl
  | ok production =>
    dsimp only [bind, Except.bind]
    cases (Collection.build d g g.firstFollow production).table d g g.firstFollow production <;> rfl

lemma build_simple (g : Grammar) : simple.build g = (do
    let production ← g.startProduction
    (Collection.build .plain g g.firstFollow production).table .plain g g.firstFollow production) := by
  unfold build construct
  rw [outcome_constructWith]
  cases g.startProduction with
  | error e => rfl
  | ok production =>
    dsimp only [bind, Except.bind]
    cases (Collection.build .plain g g.firstFollow production).table .plain g g.firstFollow
      production <;> rfl

lemma build_canonical (g : Grammar) : canonical.build g = (do
    let production ← g.startProduction
    (Collection.build .canonical g g.firstFollow production).table .canonical g g.firstFollow
      production) := by
  unfold build construct
  rw [outcome_constructWith]
  cases g.startProduction with
  | error e => rfl
  | ok production =>
    dsimp only [bind, Except.bind]
    cases (Collection.build .canonical g g.firstFollow production).table .canonical g
      g.firstFollow production <;> rfl

lemma build_merged (g : Grammar) : merged.build g = (do
    let production ← g.startProduction
    let c := Collection.build .canonical g g.firstFollow production
    let t ← c.table .canonical g g.firstFollow production
    (Merging.ofCollection c).table g c t) := by
  unfold build construct
  rw [outcome_constructWith]
  cases g.startProduction with
  | error e => rfl
  | ok production =>
    dsimp only [bind, Except.bind]
    cases (Collection.build .canonical g g.firstFollow production).table .canonical g
      g.firstFollow production with
    | error e => rfl
    | ok t =>
      dsimp only
      cases (Merging.ofCollection (Collection.build .canonical g g.firstFollow production)).table g
        (Collection.build .canonical g g.firstFollow production) t <;> rfl

/-- What is known of the canonical collection of a grammar with a start production. -/
lemma canonical_collection (hp : g.startProduction = .ok production) :
    (Collection.build .canonical g g.firstFollow production).Exact .canonical g g.firstFollow
        production ∧
      production < g.productions.size ∧
      (∀ state, ∀ i ∈ (Collection.build .canonical g g.firstFollow production).itemsOf state,
        (LookaheadBound.canonical g).Proper i ∧ InFollow g i) := by
  obtain ⟨p, hprod, hname, -⟩ := Grammar.startProduction_spec hp
  have hlt := Grammar.lt_of_startProduction hp
  obtain ⟨hexact, hitems⟩ := Collection.build_exact (LookaheadBound.canonical g) hlt
  refine ⟨hexact, hlt, ?_⟩
  intro state i hi
  exact ⟨hitems _ ((LookaheadBound.canonical g).proper_inductive hlt) state i hi,
    hitems _ (inFollow_inductive hprod hname) state i hi⟩

/-- **A grammar with a table without lookaheads has a merged one.** -/
theorem exists_table_of_simple {t : ParsingTable} (ht : simple.build g = .ok t) :
    ∃ t', merged.build g = .ok t' := by
  rw [build_simple] at ht
  obtain ⟨production, hp, ht⟩ := bind_eq_ok_iff.mp ht
  obtain ⟨hexact, hlt, hitems⟩ := canonical_collection hp
  have hvalid := Collection.build_valid (LookaheadBound.canonical g) production
  have h₀ := (Collection.build_exact (LookaheadBound.plain g g.firstFollow) hlt).1
  have hproper₀ := Collection.build_proper (LookaheadBound.plain g g.firstFollow) hlt
  have hc₀ := Collection.consistent_of_table _ h₀ hproper₀ ht
  have hfollow := fun state i hi => (hitems state i hi).2
  rw [build_merged, hp]
  dsimp only [bind, Except.bind]
  cases htable : (Collection.build .canonical g g.firstFollow production).table .canonical g
      g.firstFollow production with
  | error e =>
    exact absurd (Collection.clash_of_table hexact hlt htable)
      (not_clash_of_simple h₀ hc₀ hvalid hfollow)
  | ok t₁ =>
    dsimp only
    have hc := Collection.consistent_of_table (LookaheadBound.canonical g) hexact
      (fun state i hi => (hitems state i hi).1) htable
    cases hmerge : (Merging.ofCollection
        (Collection.build .canonical g g.firstFollow production)).table g
        (Collection.build .canonical g g.firstFollow production) t₁ with
    | error e =>
      exact absurd (Merging.clash_of_table hexact hc htable hmerge)
        (not_mergingClash_of_simple h₀ hc₀ hvalid hfollow)
    | ok t₂ => exact ⟨t₂, rfl⟩

/-- **A grammar with a merged table has a canonical one**, which the merged one is made of. -/
theorem exists_table_of_merged {t : ParsingTable} (ht : merged.build g = .ok t) :
    ∃ t', canonical.build g = .ok t' := by
  rw [build_merged] at ht
  obtain ⟨production, hp, ht⟩ := bind_eq_ok_iff.mp ht
  obtain ⟨t', ht', -⟩ := bind_eq_ok_iff.mp ht
  refine ⟨t', ?_⟩
  rw [build_canonical, hp]
  exact ht'

/-- **The strategies form a hierarchy.** -/
theorem build_hierarchy (g : Grammar) :
    (∀ t, simple.build g = .ok t → ∃ t', merged.build g = .ok t') ∧
      ∀ t, merged.build g = .ok t → ∃ t', canonical.build g = .ok t' :=
  ⟨fun _ => exists_table_of_simple, fun _ => exists_table_of_merged⟩

/-- The lists of identifiers have all three tables. -/
theorem build_hierarchy_identifierLists : ∃ t₁ t₂ t₃, simple.build identifierLists = .ok t₁ ∧
    merged.build identifierLists = .ok t₂ ∧ canonical.build identifierLists = .ok t₃ := by
  have hok : (simple.build identifierLists).isOk = true := by decide +kernel
  cases h : simple.build identifierLists with
  | error e =>
    rw [h] at hok
    cases hok
  | ok t =>
    obtain ⟨t', h'⟩ := (build_hierarchy identifierLists).1 t h
    obtain ⟨t'', h''⟩ := (build_hierarchy identifierLists).2 t' h'
    exact ⟨t, t', t'', rfl, h', h''⟩

/-! ### Why there is no table -/

lemma startProduction_error {e : TableError} (h : g.startProduction = .error e) :
    ∃ symbol count, e = .startRule symbol count := by
  unfold Grammar.startProduction at h
  split at h
  · cases h
  · cases h
    exact ⟨_, _, rfl⟩

/-- **There are three reasons for having no table**: the start symbol has not exactly one
production, a state asks for a shift and a reduction, or it asks for two reductions. -/
theorem build_error {strategy : Strategy} {e : TableError} (h : strategy.build g = .error e) :
    (∃ symbol count, e = .startRule symbol count) ∨
      (∃ state items shift reduce, e = .shiftReduceConflict state items shift reduce) ∨
      ∃ state items lookahead reduce₁ reduce₂,
        e = .reduceReduceConflict state items lookahead reduce₁ reduce₂ := by
  -- A conflict in an automaton is of one of the last two kinds.
  have hclash : ∀ {L : Type} [DecidableEq L] [Hashable L] {d : Discipline L} {c : Collection L},
      c.Clash d g g.firstFollow e →
      (∃ state items shift reduce, e = .shiftReduceConflict state items shift reduce) ∨
        ∃ state items lookahead reduce₁ reduce₂,
          e = .reduceReduceConflict state items lookahead reduce₁ reduce₂ := by
    intro L _ _ d c hclash
    cases hclash with
    | shiftReduce => exact .inl ⟨_, _, _, _, rfl⟩
    | reduceReduce => exact .inr ⟨_, _, _, _, _, rfl⟩
  cases strategy with
  | simple =>
    rw [build_simple] at h
    rcases bind_eq_error_iff.mp h with hp | ⟨production, hp, htable⟩
    · exact .inl (startProduction_error hp)
    · obtain ⟨-, hlt, -⟩ := canonical_collection hp
      obtain ⟨h₀, -⟩ := Collection.build_exact (LookaheadBound.plain g g.firstFollow) hlt
      exact .inr (hclash (Collection.clash_of_table h₀ hlt htable))
  | canonical =>
    rw [build_canonical] at h
    rcases bind_eq_error_iff.mp h with hp | ⟨production, hp, htable⟩
    · exact .inl (startProduction_error hp)
    · obtain ⟨hexact, hlt, -⟩ := canonical_collection hp
      exact .inr (hclash (Collection.clash_of_table hexact hlt htable))
  | merged =>
    rw [build_merged] at h
    rcases bind_eq_error_iff.mp h with hp | ⟨production, hp, h⟩
    · exact .inl (startProduction_error hp)
    · obtain ⟨hexact, hlt, hitems⟩ := canonical_collection hp
      rcases bind_eq_error_iff.mp h with htable | ⟨t, htable, hmerge⟩
      · exact .inr (hclash (Collection.clash_of_table hexact hlt htable))
      · have hc := Collection.consistent_of_table (LookaheadBound.canonical g) hexact
          (fun state i hi => (hitems state i hi).1) htable
        obtain ⟨⟩ := Merging.clash_of_table hexact hc htable hmerge
        exact .inr (.inr ⟨_, _, _, _, _, rfl⟩)

/-- Where there is a canonical table, only two reductions can be in the way of a merged one. -/
lemma build_merged_of_canonical {t : ParsingTable} (ht : canonical.build g = .ok t) :
    (∃ t', merged.build g = .ok t') ∨ ∃ state items lookahead reduce₁ reduce₂,
      merged.build g =
        .error (.reduceReduceConflict state items lookahead reduce₁ reduce₂) := by
  rw [build_canonical] at ht
  obtain ⟨production, hp, htable⟩ := bind_eq_ok_iff.mp ht
  obtain ⟨hexact, -, hitems⟩ := canonical_collection hp
  have hc := Collection.consistent_of_table (LookaheadBound.canonical g) hexact
    (fun state i hi => (hitems state i hi).1) htable
  rw [build_merged, hp]
  dsimp only [bind, Except.bind]
  rw [htable]
  dsimp only
  cases hmerge : (Merging.ofCollection
      (Collection.build .canonical g g.firstFollow production)).table g
      (Collection.build .canonical g g.firstFollow production) t with
  | ok t' => exact .inl ⟨t', rfl⟩
  | error e =>
    obtain ⟨⟩ := Merging.clash_of_table hexact hc htable hmerge
    exact .inr ⟨_, _, _, _, _, rfl⟩

/-- **Merging brings about conflicts between reductions only**, and no strategy ever finds two
shifts in one place, or two states after a reduction to one name. -/
theorem build_conflicts (g : Grammar) :
    (∀ t, canonical.build g = .ok t → (∃ t', merged.build g = .ok t') ∨
      ∃ state items lookahead reduce₁ reduce₂, merged.build g =
        .error (.reduceReduceConflict state items lookahead reduce₁ reduce₂)) ∧
    ∀ (strategy : Strategy) (state : Nat) (symbol : String),
      strategy.build g ≠ .error (.shiftShiftConflict state symbol) ∧
        strategy.build g ≠ .error (.gotoConflict state symbol) := by
  refine ⟨fun _ => build_merged_of_canonical, fun strategy state symbol => ⟨?_, ?_⟩⟩
  · intro h
    rcases build_error h with ⟨_, _, he⟩ | ⟨_, _, _, _, he⟩ | ⟨_, _, _, _, _, he⟩ <;> cases he
  · intro h
    rcases build_error h with ⟨_, _, he⟩ | ⟨_, _, _, _, he⟩ | ⟨_, _, _, _, _, he⟩ <;> cases he

/-- Two names for `c` that different tokens follow, depending on what comes before. -/
def crossedRules : Array Production :=
  let c : Symbol := .terminal (.literal .identifier "c")
  let body (first : String) (name : String) (last : String) : List Symbol :=
    [.terminal (.literal .identifier first), .nonTerminal name, .terminal (.literal .identifier last)]
  #[⟨"Z", [.nonTerminal "S"]⟩, ⟨"S", body "a" "A" "d"⟩, ⟨"S", body "b" "B" "d"⟩,
    ⟨"S", body "a" "B" "e"⟩, ⟨"S", body "b" "A" "e"⟩, ⟨"A", [c]⟩, ⟨"B", [c]⟩]

/-- A grammar with a canonical table whose states cannot be merged. -/
def crossed : Grammar :=
  ⟨"Z", crossedRules, Grammar.indexOf crossedRules, Grammar.terminalsOf crossedRules, rfl, rfl,
    by decide +kernel, by decide +kernel⟩

/-- There is a canonical table of the crossed names, and two reductions are in the way of a merged
one. -/
theorem build_conflicts_crossed : ∃ t, canonical.build crossed = .ok t ∧
    ((∃ t', merged.build crossed = .ok t') ∨ ∃ state items lookahead reduce₁ reduce₂,
      merged.build crossed =
        .error (.reduceReduceConflict state items lookahead reduce₁ reduce₂)) ∧
    ¬ ∃ t', merged.build crossed = .ok t' := by
  have hok : (canonical.build crossed).isOk = true := by decide +kernel
  have herror : (merged.build crossed).isOk = false := by decide +kernel
  cases h : canonical.build crossed with
  | error e =>
    rw [h] at hok
    cases hok
  | ok t =>
    refine ⟨t, rfl, (build_conflicts crossed).1 t h, ?_⟩
    rintro ⟨t', h'⟩
    rw [h'] at herror
    cases herror

end Strategy

end Coscript
