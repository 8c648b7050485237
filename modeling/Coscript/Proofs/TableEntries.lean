import Coscript.Proofs.Hierarchy

/-!
# Tables hold what is asked for

The items of a state ask for actions: one with a terminal after its dot for a shift to the state that
the terminal leads to, a complete one for the reduction by its production before the terminals that
the discipline names. There is a table if and only if no state is asked for two actions before one
terminal, and then its cells are what is asked for. Otherwise the error tells about two items that
ask for different actions, and lists the items of their state.

* `Collection.Asks`: what an item of a state asks for;
* `Collection.Settled`: no state is asked for two actions before one terminal;
* `Collection.Reported`: an error that tells about a conflict;
* `Collection.cells_of_table`: the cells of a table are what is asked for, with a slot for each
  production;
* `Collection.tableExact`, `Grammar.tables_exact`: tables of automata, with and without lookaheads.
-/

namespace Coscript

/-- A request before a terminal: to push it and go to a state, or to reduce by a production. -/
inductive Request where
  | shift (target : Nat)
  | reduce (production : Nat)
  deriving Repr, DecidableEq

/-- The action that meets a request, if the production to reduce by has a slot. -/
def Request.action? (slot? : Nat → Option Nat) : Request → Option Action
  | .shift n => some (.shift n)
  | .reduce k => (slot? k).map .reduce

namespace ParsingTable

/-- The cell of a terminal in the row of a state. -/
def cell? (t : ParsingTable) (state : Nat) (x : Terminal) : Option Action :=
  (t.rows[state]?).bind fun r => r.actions.get? x

lemma action_eq_cell (t : ParsingTable) (state : Nat) (x : Terminal) :
    t.action state x = (t.cell? state x).getD .error := rfl

/-- An action that is not an error stands in its cell. -/
lemma cell?_of_action {t : ParsingTable} {state : Nat} {x : Terminal} {a : Action}
    (h : t.action state x = a) (ha : a ≠ .error) : t.cell? state x = some a := by
  rw [action_eq_cell] at h
  cases hcell : t.cell? state x with
  | none =>
    rw [hcell] at h
    exact absurd h.symm ha
  | some a' =>
    rw [hcell] at h
    rw [← h]
    rfl

end ParsingTable

namespace Collection

variable {L : Type} [DecidableEq L] [Hashable L]
variable {d : Discipline L} {g : Grammar} {s : FirstFollow} {production : Nat} {c : Collection L}

/-! ### What is asked for -/

/-- What an item asks for before a terminal in a state. -/
inductive Asks (d : Discipline L) (g : Grammar) (s : FirstFollow) (c : Collection L) (state : Nat)
    (i : Item L) (x : Terminal) : Request → Prop
  | shift {n : Nat} (hx : i.next? g = some (.terminal x))
      (hn : (c.row state).get? (.terminal x) = some n) : Asks d g s c state i x (.shift n)
  | reduce {n : Nat} (hcomplete : i.next? g = none) (hn : n ∈ d.reduceOn g s i)
      (hterm : g.terminal? n = some x) : Asks d g s c state i x (.reduce i.production)

/-- No state is asked for two actions before one terminal. -/
def Settled (d : Discipline L) (g : Grammar) (s : FirstFollow) (c : Collection L) : Prop :=
  ∀ state, ∀ i ∈ c.itemsOf state, ∀ j ∈ c.itemsOf state, ∀ x e e',
    c.Asks d g s state i x e → c.Asks d g s state j x e' → e = e'

/-- Nothing that is looked up for an item of a state is missing. -/
structure Known (d : Discipline L) (g : Grammar) (s : FirstFollow) (c : Collection L) : Prop where
  production : ∀ state, ∀ i ∈ c.itemsOf state, ∃ p, g.production? i.production = some p ∧
    p.name ∈ s.follow.keys
  target : ∀ state, ∀ i ∈ c.itemsOf state, ∀ x, i.next? g = some x →
    ∃ n, (c.row state).get? x = some n
  terminal : ∀ state, ∀ i ∈ c.itemsOf state, i.next? g = none → ∀ n ∈ d.reduceOn g s i,
    ∃ x, g.terminal? n = some x
  text : ∀ state, ∀ i ∈ c.itemsOf state, ∃ text, d.display? g i = some text

/-- Without conflicts, at most one action is asked for before each terminal. -/
lemma Consistent.settled (h : c.Consistent d g s) : c.Settled d g s := by
  intro state i hi j hj x e e' he he'
  cases he with
  | shift hx hn =>
    cases he' with
    | shift hx' hn' =>
      cases hn.symm.trans hn'
      rfl
    | reduce hcomplete hm hterm => exact absurd hterm (h.shift hi hj hx hcomplete hm)
  | reduce hcomplete hm hterm =>
    cases he' with
    | shift hx' hn' => exact absurd hterm (h.shift hj hi hx' hcomplete hm)
    | reduce hcomplete' hm' hterm' =>
      obtain rfl := Grammar.terminal?_inj hterm hterm'
      rw [h.reduce hi hj hcomplete hcomplete' hm hm' hterm]

/-! ### Errors -/

/-- The texts of all items of a state. -/
def ListsItems (d : Discipline L) (g : Grammar) (c : Collection L) (state : Nat)
    (texts : List String) : Prop :=
  ∃ all, (c.itemsOf state).map (d.display? g) = all.map some ∧ texts.Perm all

/-- An error that tells about two items of a state which ask for different actions before a
terminal, and lists the items of the state. -/
inductive Reported (d : Discipline L) (g : Grammar) (s : FirstFollow) (c : Collection L) :
    TableError → Prop
  | shiftReduce {state n : Nat} {i j : Item L} {x : Terminal} {p : Production}
      {texts : List String} (hi : i ∈ c.itemsOf state) (hj : j ∈ c.itemsOf state)
      (hshift : c.Asks d g s state i x (.shift n))
      (hreduce : c.Asks d g s state j x (.reduce j.production))
      (hp : g.production? j.production = some p) (htexts : c.ListsItems d g state texts) :
      Reported d g s c (.shiftReduceConflict state texts x.display p.display)
  | reduceReduce {state : Nat} {i j : Item L} {x : Terminal} {p q : Production}
      {texts : List String} (hi : i ∈ c.itemsOf state) (hj : j ∈ c.itemsOf state)
      (hasks : c.Asks d g s state i x (.reduce i.production))
      (hasks' : c.Asks d g s state j x (.reduce j.production))
      (hne : i.production ≠ j.production) (hp : g.production? i.production = some p)
      (hq : g.production? j.production = some q) (htexts : c.ListsItems d g state texts) :
      Reported d g s c (.reduceReduceConflict state texts x.display p.display q.display)

lemma map_eq_map_filterMap {α β : Type} {f : α → Option β} {xs : List α}
    (h : ∀ x ∈ xs, ∃ y, f x = some y) : xs.map f = (xs.filterMap f).map some := by
  induction xs with
  | nil => rfl
  | cons x xs ih =>
    obtain ⟨y, hy⟩ := h x List.mem_cons_self
    rw [List.map_cons, List.filterMap_cons_some hy, List.map_cons, hy,
      ih fun z hz => h z (List.mem_cons_of_mem x hz)]

/-- The report of a state lists its items. -/
lemma Known.listsItems (h : c.Known d g s) (state : Nat) :
    c.ListsItems d g state (c.itemTexts d g state) :=
  ⟨_, map_eq_map_filterMap (h.text state), List.mergeSort_perm _ _⟩

/-- Items in conflict ask for what is reported. -/
lemma Clash.reported (hknown : c.Known d g s) {e : TableError} (h : c.Clash d g s e) :
    c.Reported d g s e := by
  cases h with
  | @shiftReduce state m i j x p hi hj hx hcomplete hm hterm hp =>
    obtain ⟨n, hn⟩ := hknown.target state i hi _ hx
    exact .shiftReduce hi hj (.shift hx hn) (.reduce hcomplete hm hterm) hp
      (hknown.listsItems state)
  | @reduceReduce state m i j x p q hi hj hi' hj' hne hmi hmj hterm hp hq =>
    exact .reduceReduce hi hj (.reduce hi' hmi hterm) (.reduce hj' hmj hterm) hne hp hq
      (hknown.listsItems state)

/-- Where something is reported, a state is asked for two actions. -/
lemma Reported.not_settled {e : TableError} (h : c.Reported d g s e) : ¬ c.Settled d g s := by
  intro hsettled
  cases h with
  | shiftReduce hi hj hshift hreduce _ _ =>
    cases hsettled _ _ hi _ hj _ _ _ hshift hreduce
  | reduceReduce hi hj hasks hasks' hne _ _ _ =>
    exact hne (Request.reduce.inj (hsettled _ _ hi _ hj _ _ _ hasks hasks'))

/-! ### Cells -/

/-- A table whose cells are what the items of the states ask for. Each production that it reduces by
has a slot of its own, and slot `0` is that of the start production. -/
structure Cells (d : Discipline L) (g : Grammar) (s : FirstFollow) (production : Nat)
    (c : Collection L) (t : ParsingTable) (slot? : Nat → Option Nat) : Prop where
  size : t.size = c.size
  initial : t.initial = 0
  default : t.defaultRule = 0
  start : slot? production = some 0
  distinct : ∀ k l n, slot? k = some n → slot? l = some n → k = l
  rule : ∀ k n, slot? k = some n → ∃ p, g.production? k = some p ∧ t.rule? n = some p
  used : ∀ n p, t.rule? n = some p → ∃ k, slot? k = some n
  /-- There is a slot for what is asked for. -/
  slotted : ∀ state, ∀ i ∈ c.itemsOf state, ∀ x e, c.Asks d g s state i x e →
    ∃ a, e.action? slot? = some a
  cell : ∀ state x a, t.cell? state x = some a ↔
    ∃ i ∈ c.itemsOf state, ∃ e, c.Asks d g s state i x e ∧ e.action? slot? = some a
  goto : ∀ state a n, t.goto? state a = some n ↔
    (∃ i ∈ c.itemsOf state, i.next? g = some (.nonTerminal a)) ∧
      (c.row state).get? (.nonTerminal a) = some n

/-- A cell is asked for by an item of its state. -/
lemma Good.exists_asks {b : TableBuilder} (h : c.Exact d g s production)
    (hb : c.Good d g s production b) (hregular : b.Regular c.size) {state : Nat} {x : Terminal}
    {a : Action} (hcell : (b.finish 0).cell? state x = some a) :
    ∃ i ∈ c.itemsOf state, ∃ e, c.Asks d g s state i x e ∧ e.action? b.slots.get? = some a := by
  have hact : b.action state x = a := by
    change (b.finish 0).action state x = a
    rw [ParsingTable.action_eq_cell, hcell, Option.getD_some]
  cases a with
  | error =>
    obtain ⟨row, hrow, hx⟩ := Option.bind_eq_some_iff.mp hcell
    exact absurd hx (hregular.entries state row hrow x)
  | shift n =>
    have hn := hb.justified.shift state x n hact
    obtain ⟨i, hi, hx⟩ := (h.keys state _).mp ⟨n, hn⟩
    exact ⟨i, hi, _, .shift hx hn, rfl⟩
  | reduce slot =>
    obtain ⟨i, hi, hcomplete, hslot, n, hn, hterm⟩ := hb.justified.reduce state x slot hact
    exact ⟨i, hi, _, .reduce hcomplete hn hterm, by rw [Request.action?, hslot, Option.map_some]⟩

/-- What an item asks for stands in the cell, once its demand is met. -/
lemma Demands.exists_cell {b : TableBuilder} {state : Nat} {i : Item L}
    (h : c.Demands d g s (state, i) b) {p : Production} (hp : g.production? i.production = some p)
    {x : Terminal} {e : Request} (he : c.Asks d g s state i x e) :
    ∃ a, e.action? b.slots.get? = some a ∧ (b.finish 0).cell? state x = some a := by
  cases he with
  | shift hx hn => exact ⟨_, rfl, ParsingTable.cell?_of_action (h.shift hx hn) (by simp)⟩
  | reduce hcomplete hn hterm =>
    obtain ⟨slot, hslot, hact⟩ := h.reduce hcomplete hp
    refine ⟨.reduce slot, by rw [Request.action?, hslot, Option.map_some], ?_⟩
    exact ParsingTable.cell?_of_action (hact _ hn x hterm) (by simp)

/-- **The cells of a table are what is asked for.** -/
theorem cells_of_table (h : c.Exact d g s production) (hknown : c.Known d g s) {t : ParsingTable}
    (ht : c.table d g s production = .ok t) : ∃ slot?, c.Cells d g s production t slot? := by
  obtain ⟨b, rfl, hgood, hdemand⟩ := table_spec ht
  have hregular : b.Regular c.size := by
    obtain ⟨b', he, -, hb'⟩ := regular_of_table ht
    exact hb'.of_rows (congrArg ParsingTable.rows he)
  have hcell : ∀ state, ∀ i ∈ c.itemsOf state, ∀ x e, c.Asks d g s state i x e →
      ∃ a, e.action? b.slots.get? = some a ∧ (b.finish 0).cell? state x = some a :=
    fun state i hi x e he => by
      obtain ⟨p, hp, -⟩ := hknown.production state i hi
      exact (hdemand state i hi).exists_cell hp he
  refine ⟨b.slots.get?, hregular.size, rfl, rfl, hgood.slots.start, hgood.slots.inj,
    hgood.slots.rule, hgood.slots.slot, fun state i hi x e he => ?_, fun state x a => ⟨?_, ?_⟩,
    fun state a n => ⟨?_, ?_⟩⟩
  · obtain ⟨a, ha, -⟩ := hcell state i hi x e he
    exact ⟨a, ha⟩
  · exact hgood.exists_asks h hregular
  · rintro ⟨i, hi, e, he, ha⟩
    obtain ⟨a', ha', hx⟩ := hcell state i hi x e he
    rw [hx, ← ha, ha']
  · intro hgoto
    have hn := hgood.justified.goto state a n hgoto
    exact ⟨(h.keys state _).mp ⟨n, hn⟩, hn⟩
  · rintro ⟨⟨i, hi, hx⟩, hn⟩
    exact (hdemand state i hi).goto hx hn

/-! ### Tables -/

/-- The table of an automaton is exact: it is there if and only if no state is asked for two actions
before one terminal, its cells are what is asked for, and an error tells about a conflict. -/
structure TableExact (d : Discipline L) (g : Grammar) (s : FirstFollow) (production : Nat)
    (c : Collection L) : Prop where
  known : c.Known d g s
  exists_iff : (∃ t, c.table d g s production = .ok t) ↔ c.Settled d g s
  cells : ∀ t, c.table d g s production = .ok t → ∃ slot?, c.Cells d g s production t slot?
  reported : ∀ e, c.table d g s production = .error e → c.Reported d g s e

/-- **Tables of an automaton are exact.** -/
theorem tableExact (b : LookaheadBound d g s) (hp : production < g.productions.size)
    (h : c.Exact d g s production) (hproper : ∀ state, ∀ i ∈ c.itemsOf state, b.Proper i)
    (hknown : c.Known d g s) : c.TableExact d g s production where
  known := hknown
  exists_iff := by
    constructor
    · rintro ⟨t, ht⟩
      exact (consistent_of_table b h hproper ht).settled
    · intro hsettled
      cases ht : c.table d g s production with
      | ok t => exact ⟨t, rfl⟩
      | error e =>
        exact absurd hsettled ((clash_of_table h hp ht).reported hknown).not_settled
  cells _ ht := cells_of_table h hknown ht
  reported _ he := (clash_of_table h hp he).reported hknown

/-- **The table of the collection that is built is exact**, if the terminals that the discipline
names are numbered and its lookaheads have texts. -/
theorem build_tableExact (b : LookaheadBound d g g.firstFollow) (hp : production < g.productions.size)
    (hterm : ∀ i, b.Proper i → ∀ n ∈ d.reduceOn g g.firstFollow i, ∃ x, g.terminal? n = some x)
    (hsuffix : ∀ i, b.Proper i → ∃ suffix, d.suffix? g i.lookahead = some suffix) :
    (build d g g.firstFollow production).TableExact d g g.firstFollow production := by
  have h := (build_exact b hp).1
  have hproper := build_proper b hp
  refine tableExact b hp h hproper ⟨fun state i hi => ?_, fun state i hi x hx => ?_,
    fun state i hi _ => hterm i (hproper state i hi), fun state i hi => ?_⟩
  · obtain ⟨⟨p, hp, -⟩, -⟩ := hproper state i hi
    refine ⟨p, hp, ?_⟩
    rw [g.firstFollow_closed.2.within.keys_eq]
    exact Grammar.mem_names_iff.mpr ⟨_, p, hp, rfl⟩
  · exact (h.keys state x).mpr ⟨i, hi, hx⟩
  · obtain ⟨⟨p, hp, -⟩, -⟩ := hproper state i hi
    obtain ⟨suffix, hsuffix⟩ := hsuffix i (hproper state i hi)
    exact ⟨i.displayCore p ++ suffix, by simp [Discipline.display?, hp, hsuffix]⟩

end Collection

namespace Grammar

variable {g : Grammar} {production : Nat}

/-- **Tables are exact, and their conflicts are genuine**, with and without lookaheads. -/
theorem tables_exact (hp : g.startProduction = .ok production) :
    (Collection.build .plain g g.firstFollow production).TableExact .plain g g.firstFollow
        production ∧
      (Collection.build .canonical g g.firstFollow production).TableExact .canonical g g.firstFollow
        production := by
  have hlt := lt_of_startProduction hp
  constructor
  · refine Collection.build_tableExact (LookaheadBound.plain g g.firstFollow) hlt ?_
      fun _ _ => ⟨_, rfl⟩
    rintro i ⟨⟨p, hp, -⟩, -⟩ n hn
    have hn := (Discipline.mem_reduceOn_plain hp).mp hn
    exact Numbering.exists_get? (g.firstFollow_closed.2.within.lt _ _ hn)
  · refine Collection.build_tableExact (LookaheadBound.canonical g) hlt (fun i hi n hn => ?_)
      fun i hi => ?_
    · rw [List.mem_singleton.mp hn]
      exact hi.lookahead
    · obtain ⟨x, hx⟩ := hi.lookahead
      exact ⟨s!", {x.display}", by simp only [Discipline.canonical, hx, Option.map_some]⟩

/-- The crossed names have a table with lookaheads, whose cells are what is asked for. Without
lookaheads there is a conflict, which the error tells about. -/
theorem tables_exact_crossed : Strategy.crossed.startProduction = .ok 0 ∧
    (∃ t slot?, (Collection.build .canonical Strategy.crossed Strategy.crossed.firstFollow 0).table
        .canonical Strategy.crossed Strategy.crossed.firstFollow 0 = .ok t ∧
      (Collection.build .canonical Strategy.crossed Strategy.crossed.firstFollow 0).Cells .canonical
        Strategy.crossed Strategy.crossed.firstFollow 0 t slot?) ∧
    ∃ e, (Collection.build .plain Strategy.crossed Strategy.crossed.firstFollow 0).table
        .plain Strategy.crossed Strategy.crossed.firstFollow 0 = .error e ∧
      (Collection.build .plain Strategy.crossed Strategy.crossed.firstFollow 0).Reported .plain
        Strategy.crossed Strategy.crossed.firstFollow e := by
  have hp : Strategy.crossed.startProduction = .ok 0 := by decide +kernel
  obtain ⟨hplain, hcanonical⟩ := tables_exact hp
  have hok : ((Collection.build .canonical Strategy.crossed Strategy.crossed.firstFollow 0).table
      .canonical Strategy.crossed Strategy.crossed.firstFollow 0).isOk = true := by decide +kernel
  have herror : ((Collection.build .plain Strategy.crossed Strategy.crossed.firstFollow 0).table
      .plain Strategy.crossed Strategy.crossed.firstFollow 0).isOk = false := by decide +kernel
  refine ⟨hp, ?_, ?_⟩
  · cases ht : (Collection.build .canonical Strategy.crossed Strategy.crossed.firstFollow 0).table
        .canonical Strategy.crossed Strategy.crossed.firstFollow 0 with
    | error e =>
      rw [ht] at hok
      cases hok
    | ok t =>
      obtain ⟨slot?, hcells⟩ := hcanonical.cells t ht
      exact ⟨t, slot?, rfl, hcells⟩
  · cases he : (Collection.build .plain Strategy.crossed Strategy.crossed.firstFollow 0).table
        .plain Strategy.crossed Strategy.crossed.firstFollow 0 with
    | error e => exact ⟨e, rfl, hplain.reported e he⟩
    | ok t =>
      rw [he] at herror
      cases herror

end Grammar

end Coscript
