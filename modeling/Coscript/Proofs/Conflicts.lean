import Coscript.Proofs.Covering

/-!
# Conflicts

A table is refused only for a conflict between two items of one state: one of them asks for a shift
of a terminal and the other one for a reduction before it, or both ask for reductions before it, by
different productions. Transitions are never in conflict. The error tells the state, the terminal
and the productions. Conversely there is no such pair in any state of an automaton that has a table.

* `TableBuilder.conflict_of_setAction`: what a refused demand says about the entry in its place;
* `Collection.Clash`: two items in conflict, and the error that tells about them;
* `Collection.clash_of_table`: a table is refused only for a conflict;
* `Collection.consistent_of_table`: an automaton with a table has no conflicts.
-/

namespace Coscript

namespace TableBuilder

/-! ### Refused demands -/

/-- A table with a number of rows in which nothing is entered as an error. -/
structure Regular (states : Nat) (b : TableBuilder) : Prop where
  size : b.rows.size = states
  entries : ∀ (state : Nat) row, b.rows[state]? = some row → ∀ x, row.actions.get? x ≠ some .error

variable {b b' : TableBuilder} {states state : Nat}

lemma Regular.setRow (h : b.Regular states) {row : TableRow}
    (hrow : ∀ x, row.actions.get? x ≠ some .error) : (b.setRow state row).Regular states where
  size := by simp [TableBuilder.setRow, h.size]
  entries := by
    intro k row' hk
    simp only [TableBuilder.setRow, Array.getElem?_setIfInBounds] at hk
    split at hk
    · split at hk
      · cases hk
        exact hrow
      · cases hk
    · exact h.entries k row' hk

/-- A granted demand for an action that is not an error enters no error. -/
lemma Regular.setAction (h : b.Regular states) {x : Terminal} {a : Action}
    {items : Unit → List String} (ha : a ≠ .error) (hset : b.setAction state x a items = .ok b') :
    b'.Regular states := by
  unfold TableBuilder.setAction at hset
  split at hset
  · cases hset
  · next row hrow =>
    dsimp only at hset
    split at hset
    · cases hset
      apply h.setRow
      intro y
      rw [OrderedMap.get?_insert]
      split
      · simpa using ha
      · exact h.entries state row hrow y
    · split at hset
      · cases hset
        exact h
      · cases hset

lemma Regular.setGoto (h : b.Regular states) {a : String} {target : Nat}
    (hset : b.setGoto state a target = .ok b') : b'.Regular states := by
  unfold TableBuilder.setGoto at hset
  split at hset
  · cases hset
  · next row hrow =>
    split at hset
    · cases hset
      exact h.setRow (h.entries state row hrow)
    · split at hset
      · cases hset
        exact h
      · cases hset

lemma regular_withRules (states : Nat) (rules : Array Production) :
    (withRules states rules).Regular states where
  size := by simp [withRules]
  entries := by
    intro k row hk x
    simp only [withRules, Array.getElem?_replicate] at hk
    split at hk
    · cases hk
      simp [TableRow.empty, show (∅ : OrderedMap Terminal Action).get? x = none from rfl]
    · cases hk

lemma Regular.of_rows (h : b.Regular states) (hrows : b'.rows = b.rows) : b'.Regular states where
  size := by rw [hrows, h.size]
  entries := by
    rw [hrows]
    exact h.entries

lemma rows_of_slot? {g : Grammar} {i slot : Nat} (h : b.slot? g i = some (b', slot)) :
    b'.rows = b.rows := by
  unfold slot? at h
  split at h
  · cases h
    rfl
  · obtain ⟨p, -, he⟩ := Option.map_eq_some_iff.mp h
    cases he
    rfl

lemma regular_start? {g : Grammar} {production : Nat} (h : start? g states production = some b) :
    b.Regular states := by
  obtain ⟨⟨b', slot⟩, hs, rfl⟩ := Option.map_eq_some_iff.mp h
  exact (regular_withRules states #[]).of_rows (rows_of_slot? hs)

/-- A demand for an action is refused for another action in its place. -/
lemma conflict_of_setAction {x : Terminal} {a : Action} {items : Unit → List String}
    {e : TableError} (hlt : state < b.rows.size) (h : b.setAction state x a items = .error e) :
    b.action state x ≠ .error ∧ b.action state x ≠ a ∧
      e = b.conflict state x (b.action state x) a (items ()) := by
  have hrow : b.rows[state]? = some b.rows[state] := Array.getElem?_eq_getElem hlt
  have hold : b.action state x = (b.rows[state].actions.get? x).getD .error := by
    simp [action, finish, ParsingTable.action, hlt]
  unfold setAction at h
  simp only [hrow, ← hold] at h
  split at h
  · cases h
  · next hne =>
    split at h
    · cases h
    · next hdiff =>
      cases h
      exact ⟨hne, hdiff, rfl⟩

/-- A demand for the state after a reduction is refused for another state in its place. -/
lemma conflict_of_setGoto {a : String} {target : Nat} {e : TableError}
    (hlt : state < b.rows.size) (h : b.setGoto state a target = .error e) :
    ∃ old, b.goto? state a = some old ∧ old ≠ target := by
  have hrow : b.rows[state]? = some b.rows[state] := Array.getElem?_eq_getElem hlt
  have hold : b.goto? state a = b.rows[state].gotos.get? a := by
    simp [goto?, finish, ParsingTable.goto?, hlt]
  unfold setGoto at h
  simp only [hrow, ← hold] at h
  split at h
  · cases h
  · next old hsome =>
    split at h
    · cases h
    · next hne => exact ⟨old, hsome, hne⟩

end TableBuilder

/-! ### Items in conflict -/

namespace Collection

variable {L : Type} [DecidableEq L] [Hashable L]
variable {d : Discipline L} {g : Grammar} {s : FirstFollow} {production : Nat} {c : Collection L}

/-- Two items of a state that ask for different actions before a terminal, and the error that tells
about them. -/
inductive Clash (d : Discipline L) (g : Grammar) (s : FirstFollow) (c : Collection L) :
    TableError → Prop
  | shiftReduce {state n : Nat} {i j : Item L} {x : Terminal} {p : Production}
      (hi : i ∈ c.itemsOf state) (hj : j ∈ c.itemsOf state)
      (hx : i.next? g = some (.terminal x)) (hcomplete : j.next? g = none)
      (hn : n ∈ d.reduceOn g s j) (hterm : g.terminal? n = some x)
      (hp : g.production? j.production = some p) :
      Clash d g s c (.shiftReduceConflict state (c.itemTexts d g state) x.display p.display)
  | reduceReduce {state n : Nat} {i j : Item L} {x : Terminal} {p q : Production}
      (hi : i ∈ c.itemsOf state) (hj : j ∈ c.itemsOf state) (hi' : i.next? g = none)
      (hj' : j.next? g = none) (hne : i.production ≠ j.production) (hni : n ∈ d.reduceOn g s i)
      (hnj : n ∈ d.reduceOn g s j) (hterm : g.terminal? n = some x)
      (hp : g.production? i.production = some p) (hq : g.production? j.production = some q) :
      Clash d g s c
        (.reduceReduceConflict state (c.itemTexts d g state) x.display p.display q.display)

/-- No two items of a state ask for different actions before a terminal. -/
structure Consistent (d : Discipline L) (g : Grammar) (s : FirstFollow) (c : Collection L) :
    Prop where
  shift : ∀ {state i j x n}, i ∈ c.itemsOf state → j ∈ c.itemsOf state →
    i.next? g = some (.terminal x) → j.next? g = none → n ∈ d.reduceOn g s j →
    g.terminal? n ≠ some x
  reduce : ∀ {state i j x n}, i ∈ c.itemsOf state → j ∈ c.itemsOf state → i.next? g = none →
    j.next? g = none → n ∈ d.reduceOn g s i → n ∈ d.reduceOn g s j → g.terminal? n = some x →
    i.production = j.production

lemma Consistent.not_clash (h : c.Consistent d g s) {e : TableError} : ¬ c.Clash d g s e := by
  intro hclash
  cases hclash with
  | shiftReduce hi hj hx hcomplete hn hterm _ => exact h.shift hi hj hx hcomplete hn hterm
  | reduceReduce hi hj hi' hj' hne hni hnj hterm _ _ =>
    exact hne (h.reduce hi hj hi' hj' hni hnj hterm)

/-! ### Refused tables -/

/-- A refused shift is in conflict with a reduction. -/
lemma clash_of_setShift (h : c.Exact d g s production) {b : TableBuilder} {state target : Nat}
    {x : Terminal} {e : TableError} (hb : c.Good d g s production b)
    (hlt : state < b.rows.size) (hrow : (c.row state).get? (.terminal x) = some target)
    (he : b.setAction state x (.shift target) (fun _ => c.itemTexts d g state) = .error e) :
    c.Clash d g s e := by
  obtain ⟨hne, hdiff, rfl⟩ := TableBuilder.conflict_of_setAction hlt he
  cases hold : b.action state x with
  | error => exact absurd hold hne
  | shift n =>
    have hn := hb.justified.shift state x n hold
    rw [hrow] at hn
    cases hn
    exact absurd hold hdiff
  | reduce slot =>
    obtain ⟨j, hj, hcomplete, hslot, n, hn, hterm⟩ := hb.justified.reduce state x slot hold
    obtain ⟨p, hp, hrule⟩ := hb.slots.rule _ slot hslot
    obtain ⟨i, hi, hx⟩ := (h.keys state _).mp ⟨target, hrow⟩
    simp only [TableBuilder.conflict, hrule]
    exact .shiftReduce hi hj hx hcomplete hn hterm hp

/-- A refused reduction is in conflict with a shift or with another reduction. -/
lemma clash_of_setReduce (h : c.Exact d g s production) {b : TableBuilder} {state slot n : Nat}
    {j : Item L} {x : Terminal} {e : TableError} (hb : c.Good d g s production b)
    (hlt : state < b.rows.size) (hj : j ∈ c.itemsOf state) (hcomplete : j.next? g = none)
    (hslot : b.slots.get? j.production = some slot) (hn : n ∈ d.reduceOn g s j)
    (hterm : g.terminal? n = some x)
    (he : b.setAction state x (.reduce slot) (fun _ => c.itemTexts d g state) = .error e) :
    c.Clash d g s e := by
  obtain ⟨hne, hdiff, rfl⟩ := TableBuilder.conflict_of_setAction hlt he
  obtain ⟨q, hq, hrule⟩ := hb.slots.rule _ slot hslot
  cases hold : b.action state x with
  | error => exact absurd hold hne
  | shift target =>
    have hrow := hb.justified.shift state x target hold
    obtain ⟨i, hi, hx⟩ := (h.keys state _).mp ⟨target, hrow⟩
    simp only [TableBuilder.conflict, hrule]
    exact .shiftReduce hi hj hx hcomplete hn hterm hq
  | reduce slot' =>
    obtain ⟨i, hi, hi', hslot', n', hn', hterm'⟩ := hb.justified.reduce state x slot' hold
    obtain ⟨p, hp, hrule'⟩ := hb.slots.rule _ slot' hslot'
    obtain rfl := Grammar.terminal?_inj hterm hterm'
    simp only [TableBuilder.conflict, hrule, hrule']
    refine .reduceReduce hi hj hi' hcomplete ?_ hn' hn hterm hp hq
    intro heq
    rw [heq, hslot] at hslot'
    cases hslot'
    exact hdiff hold

/-- What is kept while a table is built. -/
lemma good_enterItem {b b' : TableBuilder} {state : Nat} {i : Item L}
    (hb : c.Good d g s production b ∧ b.Regular c.size) (hi : i ∈ c.itemsOf state)
    (h : c.enterItem d g s state b i = .ok b') :
    c.Good d g s production b' ∧ b'.Regular c.size := by
  refine ⟨(enterItem_spec hb.1 hi h).1, ?_⟩
  unfold enterItem at h
  dsimp only at h
  split at h
  · split at h
    · exact hb.2.setAction (by simp) h
    · cases h
      exact hb.2
  · split at h
    · exact hb.2.setGoto h
    · cases h
      exact hb.2
  · split at h
    · cases h
      exact hb.2
    · next b₁ slot hslot =>
      refine foldlM_invariant (P := fun b' => b'.Regular c.size)
        (hb.2.of_rows (TableBuilder.rows_of_slot? hslot)) ?_ h
      intro b₂ b₃ x _ h₂ hset
      exact h₂.setAction (by simp) hset

/-- An item that cannot be entered is in conflict. -/
lemma clash_of_enterItem (h : c.Exact d g s production) {b : TableBuilder} {state : Nat}
    {i : Item L} {e : TableError} (hb : c.Good d g s production b ∧ b.Regular c.size)
    (hi : i ∈ c.itemsOf state) (he : c.enterItem d g s state b i = .error e) :
    c.Clash d g s e := by
  obtain ⟨hgood, hregular⟩ := hb
  have hlt : state < c.size := lt_size_of_mem_itemsOf hi
  unfold enterItem at he
  dsimp only at he
  split at he
  · next x hx =>
    split at he
    · next target hrow => exact clash_of_setShift h hgood (hregular.size.symm ▸ hlt) hrow he
    · cases he
  · next a ha =>
    split at he
    · next target hrow =>
      obtain ⟨old, hold, hne⟩ :=
        TableBuilder.conflict_of_setGoto (hregular.size.symm ▸ hlt) he
      have hn := hgood.justified.goto state a old hold
      rw [hrow] at hn
      cases hn
      exact absurd rfl hne
    · cases he
  · next hcomplete =>
    split at he
    · cases he
    · next b₁ slot hslot =>
      obtain ⟨-, -, -, hget⟩ := TableBuilder.slot?_spec hgood.slots hslot
      obtain ⟨b₂, x, hx, ⟨hgood₂, hget₂, hregular₂⟩, he⟩ := foldlM_error
        (P := fun b' => c.Good d g s production b' ∧ b'.slots.get? i.production = some slot ∧
          b'.Regular c.size)
        ⟨good_slot? hgood hslot, hget, hregular.of_rows (TableBuilder.rows_of_slot? hslot)⟩
        (by
          rintro b₂ b₃ x hx ⟨h₁, h₂, h₃⟩ hset
          refine ⟨good_setReduce h₁ hi hcomplete h₂ (mem_terminalsIn.mp hx) hset, ?_,
            h₃.setAction (by simp) hset⟩
          rwa [(TableBuilder.rules_setAction hset).2]) he
      obtain ⟨n, hn, hterm⟩ := mem_terminalsIn.mp hx
      exact clash_of_setReduce h hgood₂ (hregular₂.size.symm ▸ hlt) hi hcomplete hget₂ hn hterm he

/-- What is kept while the rows of a table are built. -/
lemma good_enterState {b b' : TableBuilder} {state : Nat}
    (hb : c.Good d g s production b ∧ b.Regular c.size)
    (h : c.enterState d g s b state = .ok b') :
    c.Good d g s production b' ∧ b'.Regular c.size :=
  foldlM_invariant (P := fun b' => c.Good d g s production b' ∧ b'.Regular c.size) hb
    (fun _ _ _ hi h₁ hstep => good_enterItem h₁ hi hstep) h

/-- **A table is refused only for a conflict between two items of a state.** -/
theorem clash_of_table (h : c.Exact d g s production) (hp : production < g.productions.size)
    {e : TableError} (he : c.table d g s production = .error e) : c.Clash d g s e := by
  unfold table at he
  split at he
  · next hstart =>
    have hnone : (g.production? production) = none := by
      have := Option.map_eq_none_iff.mp hstart
      exact TableBuilder.slot?_eq_none this
    rw [Grammar.production?, Array.getElem?_eq_getElem hp] at hnone
    cases hnone
  · next b₀ hstart =>
    have hstart' := (⟨good_start? hstart, TableBuilder.regular_start? hstart⟩ :
      c.Good d g s production b₀ ∧ b₀.Regular c.size)
    cases hfold : (List.range c.size).foldlM (c.enterState d g s) b₀ with
    | ok b =>
      rw [hfold] at he
      cases he
    | error e' =>
      rw [hfold] at he
      cases he
      obtain ⟨b, state, -, hb, hstate⟩ := foldlM_error
        (P := fun b' => c.Good d g s production b' ∧ b'.Regular c.size) hstart'
        (fun _ _ _ _ h₁ hstep => good_enterState h₁ hstep) hfold
      obtain ⟨b', i, hi, hb', hitem⟩ := foldlM_error
        (P := fun b' => c.Good d g s production b' ∧ b'.Regular c.size) hb
        (fun _ _ _ hi h₁ hstep => good_enterItem h₁ hi hstep) hstate
      exact clash_of_enterItem h hb' hi hitem

/-- The finished table has a row for each state and no entry for an error. -/
lemma regular_of_table {t : ParsingTable} (ht : c.table d g s production = .ok t) :
    ∃ b : TableBuilder, t = b.finish 0 ∧ c.Good d g s production b ∧ b.Regular c.size := by
  unfold table at ht
  split at ht
  · cases ht
  · next b₀ hstart =>
    obtain ⟨b, hfold, ht⟩ := bind_eq_ok_iff.mp ht
    cases ht
    exact ⟨b, rfl, foldlM_invariant
      (P := fun b' => c.Good d g s production b' ∧ b'.Regular c.size)
      ⟨good_start? hstart, TableBuilder.regular_start? hstart⟩
      (fun _ _ _ _ h₁ hstep => good_enterState h₁ hstep) hfold⟩

/-- **An automaton with a table has no conflicts.** -/
theorem consistent_of_table (b : LookaheadBound d g s) (h : c.Exact d g s production)
    (hproper : ∀ state, ∀ i ∈ c.itemsOf state, b.Proper i) {t : ParsingTable}
    (ht : c.table d g s production = .ok t) : c.Consistent d g s := by
  obtain ⟨b', rfl, ⟨hslots, -⟩, hdemand⟩ := table_spec ht
  -- The slot that a complete item of a state is reduced by.
  have hreduce : ∀ {state j}, j ∈ c.itemsOf state → j.next? g = none →
      ∃ slot, b'.slots.get? j.production = some slot ∧
        ∀ n ∈ d.reduceOn g s j, ∀ x, g.terminal? n = some x →
          b'.action state x = .reduce slot := by
    intro state j hj hcomplete
    obtain ⟨⟨p, hp, -⟩, -⟩ := hproper state j hj
    exact (hdemand state j hj).reduce hcomplete hp
  constructor
  · intro state i j x n hi hj hx hcomplete hn hterm
    obtain ⟨target, hrow⟩ := (h.keys state _).mpr ⟨i, hi, hx⟩
    have hshift := (hdemand state i hi).shift hx hrow
    obtain ⟨slot, -, hact⟩ := hreduce hj hcomplete
    cases hshift.symm.trans (hact n hn x hterm)
  · intro state i j x n hi hj hi' hj' hni hnj hterm
    obtain ⟨slot, hslot, hact⟩ := hreduce hi hi'
    obtain ⟨slot', hslot', hact'⟩ := hreduce hj hj'
    cases (hact n hni x hterm).symm.trans (hact' n hnj x hterm)
    exact hslots.inj _ _ _ hslot hslot'

end Collection

end Coscript
