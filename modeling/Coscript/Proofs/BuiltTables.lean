import Coscript.Proofs.DecodedTables
import Coscript.Proofs.Groups
import Coscript.Proofs.StoredGrammars

/-!
# What built tables hold

A table that is built from a grammar, by whatever strategy, has no texts of its own: its rules are
productions of the grammar, its actions are on terminals of the grammar, and its other entries are
for names of the grammar. So its texts can be stored if those of the grammar can. There is a row for
each state of the automaton, or for each group of states, and entries refer to these rows only.

* `ParsingTable.Names`: the rules and entries of a table are those of a grammar;
* `Strategy.build_spec`: what built tables name and refer to;
* `ParsingTable.Names.storable`: texts that can be stored;
* `ParsingTable.Storable.unambiguous`: what the bytes of a table stand for.
-/

namespace Coscript

variable {g : Grammar}

/-! ### What a table names -/

/-- The entries of a row are for terminals and names of a grammar. -/
structure TableRow.Names (g : Grammar) (r : TableRow) : Prop where
  actions : ∀ e ∈ r.actions.entries, ∃ n, g.terminal? n = some e.1
  gotos : ∀ e ∈ r.gotos.entries, e.1 ∈ g.names

/-- **A table names only what a grammar has.** -/
structure ParsingTable.Names (g : Grammar) (t : ParsingTable) : Prop where
  rules : ∀ p ∈ t.rules, p ∈ g.productions
  rows : ∀ r ∈ t.rows, r.Names g

lemma TableRow.names_empty (g : Grammar) : empty.Names g := ⟨nofun, nofun⟩

/-! ### Building -/

namespace TableBuilder

variable {b b' : TableBuilder} {states state : Nat}

/-- A table that is being built has a number of rows, and names only what a grammar has. -/
structure Names (g : Grammar) (states : Nat) (b : TableBuilder) : Prop where
  size : b.rows.size = states
  rules : ∀ p ∈ b.rules, p ∈ g.productions
  rows : ∀ r ∈ b.rows, r.Names g

lemma Names.finish (h : b.Names g states) (initial : Nat) :
    (b.finish initial).Names g ∧ (b.finish initial).size = states :=
  ⟨⟨h.rules, h.rows⟩, h.size⟩

lemma Names.setRow (h : b.Names g states) {row : TableRow} (hrow : row.Names g) :
    (b.setRow state row).Names g states where
  size := Array.size_setIfInBounds.trans h.size
  rules := h.rules
  rows r hr := by
    rcases Array.mem_or_eq_of_mem_setIfInBounds hr with hr | rfl
    · exact h.rows r hr
    · exact hrow

lemma Names.setAction (h : b.Names g states) {x : Terminal} {a : Action}
    {items : Unit → List String} (hx : ∃ n, g.terminal? n = some x)
    (hset : b.setAction state x a items = .ok b') : b'.Names g states := by
  unfold TableBuilder.setAction at hset
  split at hset
  · cases hset
  · next row hrow =>
    have hrow := h.rows row (Array.mem_of_getElem? hrow)
    dsimp only at hset
    split at hset
    · cases hset
      refine h.setRow ⟨fun e he => ?_, hrow.gotos⟩
      rcases OrderedMap.mem_entries_insert he with rfl | he
      · exact hx
      · exact hrow.actions e he
    · split at hset
      · cases hset
        exact h
      · cases hset

lemma Names.setGoto (h : b.Names g states) {name : String} {target : Nat} (hname : name ∈ g.names)
    (hset : b.setGoto state name target = .ok b') : b'.Names g states := by
  unfold TableBuilder.setGoto at hset
  split at hset
  · cases hset
  · next row hrow =>
    have hrow := h.rows row (Array.mem_of_getElem? hrow)
    split at hset
    · cases hset
      refine h.setRow ⟨hrow.actions, fun e he => ?_⟩
      rcases OrderedMap.mem_entries_insert he with rfl | he
      · exact hname
      · exact hrow.gotos e he
    · split at hset
      · cases hset
        exact h
      · cases hset

lemma Names.slot? (h : b.Names g states) {production slot : Nat}
    (hslot : b.slot? g production = some (b', slot)) : b'.Names g states := by
  unfold TableBuilder.slot? at hslot
  split at hslot
  · cases hslot
    exact h
  · obtain ⟨p, hp, heq⟩ := Option.map_eq_some_iff.mp hslot
    cases heq
    refine ⟨h.size, fun q hq => ?_, h.rows⟩
    rcases Array.mem_push.mp hq with hq | rfl
    · exact h.rules q hq
    · exact Array.mem_of_getElem? hp

lemma names_withRules (states : Nat) {rules : Array Production}
    (h : ∀ p ∈ rules, p ∈ g.productions) : (withRules states rules).Names g states where
  size := Array.size_replicate
  rules := h
  rows r hr := by
    obtain rfl := Array.eq_of_mem_replicate hr
    exact TableRow.names_empty g

end TableBuilder

namespace Collection

variable {L : Type} [DecidableEq L] [Hashable L] {d : Discipline L} {s : FirstFollow}
  {c : Collection L} {b b' : TableBuilder} {t : ParsingTable} {states production : Nat}

/-- What is entered for an item is on terminals and for names of the grammar. -/
lemma names_enterItem (h : b.Names g states) {state : Nat} {i : Item L}
    (henter : c.enterItem d g s state b i = .ok b') : b'.Names g states := by
  unfold enterItem at henter
  dsimp only at henter
  cases hnext : i.next? g with
  | none =>
    simp only [hnext] at henter
    cases hslot : b.slot? g i.production with
    | none =>
      simp only [hslot] at henter
      cases henter
      exact h
    | some r =>
      obtain ⟨b₁, slot⟩ := r
      simp only [hslot] at henter
      refine foldlM_invariant (P := fun b => b.Names g states) (h.slot? hslot)
        (fun b₁ b₂ x hx hb hset => ?_) henter
      obtain ⟨n, -, hn⟩ := mem_terminalsIn.mp hx
      exact hb.setAction ⟨n, hn⟩ hset
  | some y =>
    obtain ⟨p, hp, hy⟩ := Item.exists_production_of_next? hnext
    have hmem := List.mem_of_getElem? hy
    cases y with
    | terminal x =>
      simp only [hnext] at henter
      split at henter
      · have hused := Grammar.mem_usedTerminals_iff.mpr ⟨_, p, hp, hmem⟩
        exact h.setAction (Grammar.exists_terminal?_iff.mpr (.inr (.inr hused))) henter
      · cases henter
        exact h
    | nonTerminal a =>
      simp only [hnext] at henter
      split at henter
      · exact h.setGoto (Grammar.mem_names_of_mem_body hp hmem) henter
      · cases henter
        exact h

/-- The table of an automaton has a row for each state. -/
lemma names_table (ht : c.table d g s production = .ok t) : t.Names g ∧ t.size = c.size := by
  unfold table at ht
  split at ht
  · cases ht
  · next b₀ hstart =>
    obtain ⟨b, hb, ht⟩ := bind_eq_ok_iff.mp ht
    cases ht
    obtain ⟨⟨b₁, slot⟩, hslot, rfl⟩ := Option.map_eq_some_iff.mp hstart
    have hnone : (TableBuilder.withRules c.size #[]).Names g c.size :=
      TableBuilder.names_withRules c.size (by simp)
    have hnames := foldlM_invariant (P := fun b => b.Names g c.size) (hnone.slot? hslot)
      (fun b₁ b₂ state _ hb henter => foldlM_invariant (P := fun b => b.Names g c.size) hb
        (fun _ _ i _ hb hitem => names_enterItem hb hitem) henter) hb
    exact hnames.finish 0

end Collection

/-- A merged table has a row for each group. -/
lemma Merging.names_table {m : Merging} {c : Collection Nat} {t t' : ParsingTable}
    (h : t.Names g) (ht : m.table g c t = .ok t') : t'.Names g ∧ t'.size = m.size := by
  obtain ⟨b, hb, ht⟩ := bind_eq_ok_iff.mp ht
  cases ht
  refine TableBuilder.Names.finish ?_ _
  refine foldlM_invariant (P := fun b : TableBuilder => b.Names g m.size)
    (TableBuilder.names_withRules m.size h.rules) (fun b₁ b₂ row hrow hb₁ henter => ?_) hb
  have hnames := h.rows row.1 (Array.mem_toList_iff.mp (List.fst_mem_of_mem_zipIdx hrow))
  obtain ⟨b₃, hactions, hgotos⟩ := bind_eq_ok_iff.mp henter
  have hb₃ : b₃.Names g m.size := foldlM_invariant (P := fun b : TableBuilder => b.Names g m.size)
    hb₁ (fun _ _ e he hb hset => hb.setAction (hnames.actions e he) hset) hactions
  exact foldlM_invariant (P := fun b : TableBuilder => b.Names g m.size) hb₃
    (fun _ _ e he hb hset => hb.setGoto (hnames.gotos e he) hset) hgotos

/-! ### What a table refers to -/

/-- A table whose actions and other entries refer to its own states and rules. -/
lemma ParsingTable.InRange.of_entries {t : ParsingTable} (hinitial : t.initial < t.size)
    (hdefault : t.defaultRule < t.rules.size)
    (haction : ∀ state x, (t.action state x).InRange t.size t.rules.size)
    (hgoto : ∀ state a n, t.goto? state a = some n → n < t.size) : t.InRange where
  initial := hinitial
  defaultRule := hdefault
  rows r hr := by
    obtain ⟨state, hstate⟩ := Array.mem_iff_getElem?.mp hr
    refine ⟨fun e he => ?_, fun e he => hgoto state e.1 e.2 (goto?_of_mem_entries hstate he)⟩
    rw [← action_of_mem_entries hstate he]
    exact haction state e.1

/-- The table of an automaton refers to its own states and rules only. -/
lemma Collection.inRange_table {L : Type} [DecidableEq L] [Hashable L] {d : Discipline L}
    {s : FirstFollow} {c : Collection L} {production : Nat} {t : ParsingTable}
    (h : c.Exact d g s production) (ht : c.table d g s production = .ok t) : t.InRange := by
  have hsize := (names_table ht).2
  obtain ⟨b, rfl, ⟨hslots, hjust⟩, -⟩ := table_spec ht
  refine .of_entries (hsize ▸ h.pos) (hslots.lt hslots.start) (fun state x => ?_)
    fun state a n hn => hsize ▸ (h.goto _ _ _ (hjust.goto state a n hn)).1
  cases ha : (b.finish 0).action state x with
  | error => trivial
  | shift n => exact hsize ▸ (h.goto _ _ _ (hjust.shift state x n ha)).1
  | reduce slot =>
    obtain ⟨i, -, -, hs, -⟩ := hjust.reduce state x slot ha
    exact hslots.lt hs

namespace Merging

variable {c : Collection Nat} {t t' : ParsingTable}

lemma inRange_action {a : Action} {rules : Nat} (h : a.InRange c.size rules) :
    ((ofCollection c).action a).InRange (ofCollection c).size rules := by
  cases a with
  | error => trivial
  | shift target => exact groupOf_lt h
  | reduce slot => exact h

/-- A merged table refers to groups and to the rules of the canonical table. -/
lemma inRange_table (hnames : t.Names g) (h : t.InRange) (hsize : t.size = c.size)
    (ht : (ofCollection c).table g c t = .ok t') : t'.InRange := by
  have hgroups := (names_table hnames ht).2
  obtain ⟨b, rfl, hjust, -⟩ := table_spec ht
  refine .of_entries ?_ ?_ (fun group x => ?_) fun group a n hn => ?_
  · rw [hgroups]
    exact groupOf_lt (hsize ▸ h.initial)
  · change 0 < b.rules.size
    rw [hjust.rules]
    exact Nat.zero_lt_of_lt h.defaultRule
  · change (b.action group x).InRange _ b.rules.size
    by_cases hx : b.action group x = .error
    · rw [hx]
      trivial
    · obtain ⟨state, -, -, heq⟩ := hjust.action group x hx
      rw [heq, hgroups, hjust.rules]
      exact inRange_action (hsize ▸ h.action state x)
  · obtain ⟨state, target, -, htarget, rfl⟩ := hjust.goto group a n hn
    rw [hgroups]
    exact groupOf_lt (hsize ▸ h.goto htarget)

end Merging

/-! ### Strategies -/

namespace Strategy

variable {strategy : Strategy} {t : ParsingTable}

/-- The table of the automaton that a grammar starts with. -/
lemma table_spec {L : Type} [DecidableEq L] [Hashable L] {d : Discipline L}
    (b : LookaheadBound d g g.firstFollow) {production : Nat}
    (hp : g.startProduction = .ok production)
    (ht : (Collection.build d g g.firstFollow production).table d g g.firstFollow production =
      .ok t) : t.Names g ∧ t.InRange :=
  ⟨(Collection.names_table ht).1, Collection.inRange_table
    (Collection.build_exact b (Grammar.lt_of_startProduction hp)).1 ht⟩

/-- **A built table names only what its grammar has, and refers to its own states and rules
only.** -/
theorem build_spec (h : strategy.build g = .ok t) : t.Names g ∧ t.InRange := by
  cases strategy with
  | simple =>
    obtain ⟨production, t₀, hp, ht₀, heq⟩ := exists_table_of_constructWith h
    cases heq
    exact table_spec (.plain g g.firstFollow) hp ht₀
  | canonical =>
    obtain ⟨production, t₀, hp, ht₀, heq⟩ := exists_table_of_constructWith h
    cases heq
    exact table_spec (.canonical g) hp ht₀
  | merged =>
    obtain ⟨production, t₀, hp, ht₀, heq⟩ := exists_table_of_constructWith h
    obtain ⟨hnames, hrange⟩ := table_spec (.canonical g) hp ht₀
    dsimp only at heq
    split at heq
    · cases heq
    · next t₁ hmerge =>
      cases heq
      exact ⟨(Merging.names_table hnames hmerge).1,
        Merging.inRange_table hnames hrange (Collection.names_table ht₀).2 hmerge⟩

end Strategy

/-! ### Texts -/

namespace Grammar

/-- The terminals of a grammar that can be stored can be stored. -/
lemma Storable.terminal (h : g.Storable) {n : Nat} {x : Terminal} (hx : g.terminal? n = some x) :
    (Element.terminal x).Storable := by
  rcases exists_terminal?_iff.mp ⟨n, hx⟩ with rfl | rfl | hused
  · exact List.not_mem_nil
  · exact List.not_mem_nil
  · obtain ⟨i, p, hp, hmem⟩ := mem_usedTerminals_iff.mp hused
    exact (h.rules p (Array.mem_of_getElem? hp)).body _ hmem

lemma Storable.zeroFree_name (h : g.Storable) {a : String} (ha : a ∈ g.names) : ZeroFree a := by
  obtain ⟨i, p, hp, rfl⟩ := mem_names_iff.mp ha
  exact (h.rules p (Array.mem_of_getElem? hp)).name

end Grammar

/-- The texts of a table can be stored if those of its grammar can, and the table can be stored if
its counts fit into 31 bits. -/
lemma ParsingTable.Names.storable {t : ParsingTable} (h : t.Names g) (hg : g.Storable)
    (hstates : t.size < 0x80000000) (hrules : t.rules.size < 0x80000000)
    (hentries : ∀ r ∈ t.rows, (entries r).length < 0x80000000) : t.Storable where
  states := hstates
  ruleCount := hrules
  entries := hentries
  rules p hp := hg.rules p (h.rules p hp)
  actions r hr e he := by
    obtain ⟨n, hn⟩ := (h.rows r hr).actions e he
    exact hg.terminal hn
  gotos r hr e he := hg.zeroFree_name ((h.rows r hr).gotos e he)

/-! ### Bytes -/

namespace ParsingTable

open Reader

variable {t t' : ParsingTable}

/-- A table that can be stored is read back without its error actions. -/
lemma Storable.decode (hs : t.Storable) (hr : t.InRange) :
    ParsingTable.decode t.encode = .ok t.withoutErrors := by
  have hread := (takes_tableBody hr hs).reads [] 0
  rw [List.append_nil] at hread
  rw [ParsingTable.decode, table_eq, run, ofBytes, andThen_ok hread]
  rfl

/-- Tables that can be stored, and are stored as the same bytes, differ in error actions only. -/
theorem Storable.unambiguous (hs : t.Storable) (hr : t.InRange) (hs' : t'.Storable)
    (hr' : t'.InRange) (h : t.encode = t'.encode) : t.withoutErrors = t'.withoutErrors := by
  have hdecode := hs.decode hr
  rw [h, hs'.decode hr'] at hdecode
  exact (Except.ok.inj hdecode).symm

end ParsingTable

end Coscript
