import Coscript.Proofs.Decisions
import Coscript.Proofs.Handles
import Coscript.Proofs.Renaming
import Coscript.Proofs.StoredGrammars

/-!
# Tables of a grammar with its productions in another order

The states of two automata, the slots of their productions and the numbers of their terminals are
given in the order in which they come up. If the productions of a grammar are moved, all of them may
change. The decisions of the parser do not, except that they name the productions by their new
places. So there is a table for both grammars or for none, and the two tables, which may look very
different, lead a parser through the same moves.

* `Grammar.Renaming.decisions`: the decisions of a strategy are renamed;
* `Grammar.Renaming.exists_table_iff`: there is a table for both grammars or for none;
* `Configuration.performed`: the moves of a parser, by tokens and productions;
* `ParsingTable.SameOutcome`: the same tree, or an error at the same token;
* `Twins.run`: two parsers that make the same decisions;
* `Strategy.rebuild_decoded`: a grammar that was stored and read back has the same parser.
-/

namespace Coscript

open Discipline

/-! ### Renamed decisions -/

/-- Decisions in which the productions have new places. -/
structure Decisions.Renamed (D D' : Decisions) (e : Nat ≃ Nat) : Prop where
  push : ∀ σ x, D'.push σ x ↔ D.push σ x
  reduce : ∀ σ y k, D'.reduce σ y (e k) ↔ D.reduce σ y k

lemma Decisions.Renamed.unique {D D' : Decisions} {e : Nat ≃ Nat} (h : D.Renamed D' e)
    (hu : D.Unique) : D'.Unique where
  shift := by
    intro σ y k hpush hreduce
    rw [← e.apply_symm_apply k, h.reduce] at hreduce
    exact hu.shift ((h.push σ _).mp hpush) hreduce
  reduce := by
    intro σ y k l hk hl
    rw [← e.apply_symm_apply k, h.reduce] at hk
    rw [← e.apply_symm_apply l, h.reduce] at hl
    exact e.symm.injective (hu.reduce hk hl)

namespace Grammar.Renaming

variable {g g' : Grammar} {production : Nat}

section Disciplines

variable {L : Type} {d : Discipline L} {r : g.Renaming g'} {φ : L → L}

lemma push_of_push (hd : d.Preserved r φ) {σ : List Symbol} {x : Symbol}
    (h : (d.decisions g g.firstFollow production).push σ x) :
    (d.decisions g' g'.firstFollow (r.place production)).push σ x := by
  obtain ⟨i, hi, hx⟩ := h
  refine ⟨r.item φ i, hi.item hd, ?_⟩
  rw [r.next?_item, hx]

lemma reduce_of_reduce (hd : d.Preserved r φ) {σ : List Symbol} {y : Terminal} {k : Nat}
    (h : (d.decisions g g.firstFollow production).reduce σ y k) :
    (d.decisions g' g'.firstFollow (r.place production)).reduce σ y (r.place k) := by
  obtain ⟨i, hi, hcomplete, rfl, n, hn, hterm⟩ := h
  refine ⟨r.item φ i, hi.item hd, ?_, rfl, r.number n, hd.reduceOn i n hn, ?_⟩
  · rw [r.next?_item, hcomplete]
  · rw [r.terminal, hterm]

/-- Decisions by the items of a discipline are renamed. -/
lemma renamed_of_preserved {ψ : L → L} (hd : d.Preserved r φ) (hd' : d.Preserved r.symm ψ) :
    (d.decisions g g.firstFollow production).Renamed
      (d.decisions g' g'.firstFollow (r.place production)) r.place where
  push σ x := by
    constructor
    · intro h
      have hback := push_of_push hd' h
      rwa [r.symm_place] at hback
    · exact push_of_push hd
  reduce σ y k := by
    constructor
    · intro h
      have hback := reduce_of_reduce hd' h
      rwa [r.symm_place, r.symm_place] at hback
    · exact reduce_of_reduce hd

end Disciplines

variable (r : g.Renaming g')

/-- Every valid item is a renamed one. -/
lemma exists_valid_iff (σ : List Symbol) (j : Item Unit) :
    (∃ i, g'.Valid (r.place production) σ i ∧ i.core = r.item id j) ↔
      ∃ i, g.Valid production σ i ∧ i.core = j := by
  constructor
  · rintro ⟨i, hi, hcore⟩
    have hback := hi.item (preserved_canonical r.symm)
    rw [r.symm_place] at hback
    refine ⟨_, hback, ?_⟩
    have hproduction : i.production = r.place j.production := congrArg Item.production hcore
    have hdot : i.dot = j.dot := congrArg Item.dot hcore
    rw [item, Item.core, hproduction, r.symm_place, hdot]
  · rintro ⟨i, hi, rfl⟩
    exact ⟨_, hi.item (preserved_canonical r), rfl⟩

/-- Symbols with the same cores still have the same cores. -/
lemma sameCores_iff {σ τ : List Symbol} :
    g'.SameCores (r.place production) σ τ ↔ g.SameCores production σ τ := by
  constructor
  · intro h j
    rw [← r.exists_valid_iff, ← r.exists_valid_iff]
    exact h _
  · intro h j
    have hj : r.item id (r.symm.item id j) = j := by
      rw [item, item, symm, Equiv.apply_symm_apply]
    rw [← hj, r.exists_valid_iff, r.exists_valid_iff]
    exact h _

/-- **The decisions of a strategy are renamed.** -/
theorem decisions (strategy : Strategy) : (strategy.decisions g production).Renamed
    (strategy.decisions g' (r.place production)) r.place := by
  have hcanonical : (canonical.decisions g g.firstFollow production).Renamed
      (canonical.decisions g' g'.firstFollow (r.place production)) r.place :=
    renamed_of_preserved (preserved_canonical r) (preserved_canonical r.symm)
  cases strategy with
  | simple => exact renamed_of_preserved (preserved_plain r) (preserved_plain r.symm)
  | canonical => exact hcanonical
  | merged =>
    refine ⟨hcanonical.push, fun σ y k => exists_congr fun τ => and_congr r.sameCores_iff ?_⟩
    exact hcanonical.reduce τ y k

/-- The start production is in its new place. -/
lemma startProduction (h : g.startProduction = .ok production) :
    g'.startProduction = .ok (r.place production) := by
  obtain ⟨p, hp, hname, hunique⟩ := startProduction_spec h
  have hlist : g'.productionsOf g'.start = [r.place production] := by
    refine List.perm_singleton.mp ((List.perm_ext_iff_of_nodup (g'.nodup_productionsOf _)
      (List.nodup_singleton _)).mpr fun k => ?_)
    rw [List.mem_singleton, ← r.place.apply_symm_apply k, r.start, r.mem_productionsOf,
      mem_productionsOf_iff, r.place.apply_eq_iff_eq]
    constructor
    · rintro ⟨q, hq, hqname⟩
      exact hunique _ q hq hqname
    · rintro hk
      exact ⟨p, hk ▸ hp, hname⟩
  rw [Grammar.startProduction, hlist]

/-- **There is a table for both grammars or for none.** -/
theorem exists_table_iff (r : g.Renaming g') (strategy : Strategy) :
    (∃ t, strategy.build g = .ok t) ↔ ∃ t, strategy.build g' = .ok t := by
  have general : ∀ {g g' : Grammar}, g.Renaming g' → (∃ t, strategy.build g = .ok t) →
      ∃ t, strategy.build g' = .ok t := by
    intro g g' r h
    obtain ⟨production, hp, hu⟩ := Strategy.exists_table_iff.mp h
    exact Strategy.exists_table_iff.mpr
      ⟨r.place production, r.startProduction hp, (r.decisions strategy).unique hu⟩
  exact ⟨general r, general r.symm⟩

end Grammar.Renaming

/-! ### Moves and outcomes -/

/-- A token that is pushed, or a production by which pushed trees are reduced. -/
inductive Move
  | shift (x : Token)
  | reduce (p : Production)
  deriving Repr, DecidableEq

namespace Configuration

/-- The move from a configuration. The reduction that accepts the input counts as a move. -/
def performed? (t : ParsingTable) (c : Configuration) : Option Move :=
  match c.action t with
  | .shift _ => c.rest.head?.map .shift
  | .reduce slot => do
    let p ← t.rule? slot
    let _ ← c.handle? p
    return .reduce p
  | .error => none

/-- The moves of a run of at most `fuel` steps. -/
def performed (t : ParsingTable) : Nat → Configuration → List Move
  | 0, _ => []
  | fuel + 1, c => (c.performed? t).toList ++
      match c.step t with
      | .ends _ => []
      | .continues c' => performed t fuel c'

/-- Moves are what is logged. -/
lemma isSome_logEntry? (t : ParsingTable) (c : Configuration) :
    (c.logEntry? t).isSome = (c.performed? t).isSome := by
  unfold logEntry? performed?
  cases c.action t with
  | error => rfl
  | shift n => simp
  | reduce slot =>
    dsimp only
    cases t.rule? slot with
    | none => rfl
    | some p =>
      simp only [Option.bind_eq_bind, Option.bind_some]
      cases c.handle? p <;> rfl

end Configuration

namespace ParsingTable

/-- The same tree, or errors at the same token, which list the same terminals. -/
inductive SameOutcome : Except ParseError Tree → Except ParseError Tree → Prop
  | tree (T : Tree) : SameOutcome (.ok T) (.ok T)
  | unexpected (found : Option Token) (position : Position) {expected expected' : List String}
      (h : ∀ x, x ∈ expected ↔ x ∈ expected') :
      SameOutcome (.error (.unexpectedToken found position expected))
        (.error (.unexpectedToken found position expected'))

/-- What a state expects are the texts of the terminals with entries, each of them once. -/
lemma exists_expected (t : ParsingTable) (state : Nat) :
    ∃ ys : List Terminal, t.expected state = ys.map Terminal.display ∧ ys.Nodup ∧
      ∀ y, y ∈ ys ↔ t.action state y ≠ .error := by
  unfold expected
  cases hrow : t.rows[state]? with
  | none => exact ⟨[], rfl, List.nodup_nil, fun y => by simp [action, hrow]⟩
  | some row =>
    refine ⟨(row.actions.entries.filter fun e => e.2 ≠ .error).map (·.1), ?_, ?_, fun y => ?_⟩
    · rw [List.map_map]
      rfl
    · exact row.actions.nodup.sublist (List.filter_sublist.map _)
    · simp only [List.mem_map, List.mem_filter, decide_eq_true_eq, Prod.exists, exists_and_right,
        exists_eq_right]
      constructor
      · rintro ⟨a, hmem, hne⟩
        rwa [action_of_mem_entries hrow hmem]
      · intro hy
        obtain ⟨row', hrow', hmem⟩ := exists_row_of_action hy
        cases hrow.symm.trans hrow'
        exact ⟨_, hmem, hy⟩

lemma mem_expected_iff {t : ParsingTable} {state : Nat} {x : String} :
    x ∈ t.expected state ↔ ∃ y, t.action state y ≠ .error ∧ y.display = x := by
  obtain ⟨ys, hexpected, -, hys⟩ := t.exists_expected state
  simp only [hexpected, List.mem_map, hys]

end ParsingTable

/-! ### Two parsers that make the same decisions -/

/-- Tables of two grammars that implement the same decisions, up to the places of productions. -/
structure Twins (g g' : Grammar) (t t' : ParsingTable) (R R' : Nat → List Symbol → Prop) where
  moved : g.Renaming g'
  production : Nat
  left : Decisions
  right : Decisions
  renamed : left.Renamed right moved.place
  implements : t.Implements g production left R
  implements' : t'.Implements g' (moved.place production) right R'

namespace Twins

open Configuration ParsingTable

variable {g g' : Grammar} {t t' : ParsingTable} {R R' : Nat → List Symbol → Prop}

/-- Actions that do the same when some symbols have been pushed. -/
inductive SameAction (t t' : ParsingTable) (R R' : Nat → List Symbol → Prop) (σ : List Symbol) :
    Action → Action → Prop
  | error : SameAction t t' R R' σ .error .error
  | shift {y : Terminal} {n n' : Nat} (hn : R n (.terminal y :: σ))
      (hn' : R' n' (.terminal y :: σ)) : SameAction t t' R R' σ (.shift n) (.shift n')
  | reduce {slot slot' : Nat} {p : Production} (hrule : t.rule? slot = some p)
      (hrule' : t'.rule? slot' = some p)
      (hdefault : slot = t.defaultRule ↔ slot' = t'.defaultRule) :
      SameAction t t' R R' σ (.reduce slot) (.reduce slot')

lemma SameAction.error_iff {σ : List Symbol} {a a' : Action} (h : SameAction t t' R R' σ a a') :
    a = .error ↔ a' = .error := by
  cases h <;> simp

/-- **In states for the same symbols, each terminal has the same action.** -/
theorem action (w : Twins g g' t t' R R') {σ : List Symbol} {n n' : Nat} (hn : R n σ)
    (hn' : R' n' σ) (y : Terminal) : SameAction t t' R R' σ (t.action n y) (t'.action n' y) := by
  cases ha : t.action n y with
  | shift m =>
    obtain ⟨hpush, hm⟩ := w.implements.shift hn ha
    obtain ⟨m', hm'⟩ := w.implements'.exists_shift hn' ((w.renamed.push σ _).mpr hpush)
    rw [hm']
    exact .shift hm (w.implements'.shift hn' hm').2
  | reduce slot =>
    obtain ⟨k, hk, ⟨p, hp, hrule⟩, hdefault⟩ := w.implements.reduce hn ha
    obtain ⟨slot', ha', ⟨p', hp', hrule'⟩, hdefault'⟩ :=
      w.implements'.exists_reduce hn' ((w.renamed.reduce σ y k).mpr hk)
    rw [w.moved.production, hp] at hp'
    cases hp'
    rw [w.moved.place.apply_eq_iff_eq] at hdefault'
    rw [ha']
    exact .reduce hrule hrule' (hdefault.trans hdefault'.symm)
  | error =>
    -- An action of the other table would be one of this table.
    cases ha' : t'.action n' y with
    | error => exact .error
    | shift m' =>
      obtain ⟨hpush, -⟩ := w.implements'.shift hn' ha'
      obtain ⟨m, hm⟩ := w.implements.exists_shift hn ((w.renamed.push σ _).mp hpush)
      cases ha.symm.trans hm
    | reduce slot' =>
      obtain ⟨k, hk, -⟩ := w.implements'.reduce hn' ha'
      rw [← w.moved.place.apply_symm_apply k, w.renamed.reduce] at hk
      obtain ⟨slot, hslot, -⟩ := w.implements.exists_reduce hn hk
      cases ha.symm.trans hslot

/-- The next token has the same action. -/
lemma lookup (w : Twins g g' t t' R R') {σ : List Symbol} {n n' : Nat} (hn : R n σ)
    (hn' : R' n' σ) (x : Option Token) :
    SameAction t t' R R' σ (Configuration.lookup t n x) (Configuration.lookup t' n' x) := by
  cases x with
  | none => exact w.action hn hn' .endOfInput
  | some x =>
    have hliteral := w.action hn hn' (.literal x.type x.text)
    rw [lookup_some, lookup_some]
    by_cases ha : t.action n (.literal x.type x.text) = .error
    · rw [if_pos ha, if_pos (hliteral.error_iff.mp ha)]
      exact w.action hn hn' (.any x.type)
    · rw [if_neg ha, if_neg (mt hliteral.error_iff.mpr ha)]
      exact hliteral

/-- States for the same symbols expect the same terminals. -/
lemma mem_expected_iff (w : Twins g g' t t' R R') {σ : List Symbol} {n n' : Nat} (hn : R n σ)
    (hn' : R' n' σ) (x : String) : x ∈ t.expected n ↔ x ∈ t'.expected n' := by
  rw [ParsingTable.mem_expected_iff, ParsingTable.mem_expected_iff]
  refine exists_congr fun y => and_congr_left' ?_
  rw [ne_eq, ne_eq, (w.action hn hn' y).error_iff]

/-- States for the same symbols lead on over the same names. -/
lemma goto? (w : Twins g g' t t' R R') {σ : List Symbol} {n n' : Nat} (hn : R n σ)
    (hn' : R' n' σ) (a : String) :
    (t.goto? n a = none ∧ t'.goto? n' a = none) ∨
      ∃ m m', t.goto? n a = some m ∧ t'.goto? n' a = some m' ∧ R m (.nonTerminal a :: σ) ∧
        R' m' (.nonTerminal a :: σ) := by
  cases hm : t.goto? n a with
  | some m =>
    obtain ⟨hpush, hm⟩ := w.implements.goto hn hm
    obtain ⟨m', hm'⟩ := w.implements'.exists_goto hn' ((w.renamed.push σ _).mpr hpush)
    exact .inr ⟨m, m', rfl, hm', hm, (w.implements'.goto hn' hm').2⟩
  | none =>
    cases hm' : t'.goto? n' a with
    | none => exact .inl ⟨rfl, rfl⟩
    | some m' =>
      obtain ⟨hpush, -⟩ := w.implements'.goto hn' hm'
      obtain ⟨m, hsome⟩ := w.implements.exists_goto hn ((w.renamed.push σ _).mp hpush)
      cases hm.symm.trans hsome

/-! ### Steps -/

/-- Two parsers have pushed the same trees for the same symbols and have the same input left. -/
structure Abreast (R R' : Nat → List Symbol → Prop) (c c' : Configuration) : Prop where
  along : ∃ σ, Along R c.state c.stack σ ∧ Along R' c'.state c'.stack σ
  trees : c.stack.map (·.2) = c'.stack.map (·.2)
  rest : c.rest = c'.rest
  last : c.last = c'.last

/-- Steps to configurations abreast, or to the same outcome. -/
inductive SameProgress (R R' : Nat → List Symbol → Prop) : Progress → Progress → Prop
  | continues {c c' : Configuration} (h : Abreast R R' c c') :
      SameProgress R R' (.continues c) (.continues c')
  | ends {o o' : Except ParseError Tree} (h : SameOutcome o o') :
      SameProgress R R' (.ends o) (.ends o')

variable {c c' : Configuration}

lemma Abreast.position (h : Abreast R R' c c') : c.position = c'.position := by
  rw [Configuration.position, Configuration.position, h.rest, h.last]

/-- The next token is unexpected for both parsers. -/
lemma unexpected (w : Twins g g' t t' R R') (h : Abreast R R' c c') {σ : List Symbol} {n n' : Nat}
    (hn : R n σ) (hn' : R' n' σ) :
    SameOutcome (.error (c.unexpected t n)) (.error (c'.unexpected t' n')) := by
  rw [Configuration.unexpected, Configuration.unexpected, h.rest, h.position]
  exact .unexpected _ _ (w.mem_expected_iff hn hn')

/-- Parsers abreast take the same trees for a production. -/
lemma Abreast.exists_handle (h : Abreast R R' c c') {p : Production} {hd : Handle}
    (hhandle : c.handle? p = some hd) : ∃ hd' σ, c'.handle? p = some hd' ∧
      hd.children = hd'.children ∧ hd.below.map (·.2) = hd'.below.map (·.2) ∧
      Along R hd.state hd.below σ ∧ Along R' hd'.state hd'.below σ := by
  obtain ⟨σ, hσ, hσ'⟩ := h.along
  obtain ⟨frames, hstack, hlength, hchildren, hstand, hstate⟩ := handle?_spec hhandle
  have hsplit := (List.take_append_drop frames.length c'.stack).symm
  have htrees : frames.map (·.2) = (c'.stack.take frames.length).map (·.2) ∧
      hd.below.map (·.2) = (c'.stack.drop frames.length).map (·.2) := by
    rw [List.map_take, List.map_drop, ← h.trees, hstack, List.map_append]
    exact ⟨(List.take_left' (List.length_map _)).symm, (List.drop_left' (List.length_map _)).symm⟩
  have hlength' : (c'.stack.take frames.length).length = frames.length := by
    have := congrArg List.length htrees.1
    rwa [List.length_map, List.length_map, eq_comm] at this
  refine ⟨_, σ.drop frames.length, handle?_of_append _ _ hsplit (hlength'.trans hlength) ?_, ?_,
    htrees.2, ?_, ?_⟩
  · rw [← htrees.1, ← hchildren]
    exact hstand
  · rw [← htrees.1, hchildren]
  · rw [hstack] at hσ
    rw [hstate]
    exact hσ.drop
  · rw [hsplit] at hσ'
    have hdrop := hσ'.drop
    rwa [hlength'] at hdrop

/-- **Parsers abreast make the same step**, if the trees for a reduction are there. -/
theorem step (w : Twins g g' t t' R R') (h : Abreast R R' c c')
    (hsafe : ∀ slot, c.action t = .reduce slot →
      ∃ p hd, t.rule? slot = some p ∧ c.handle? p = some hd) :
    c.performed? t = c'.performed? t' ∧ SameProgress R R' (c.step t) (c'.step t') := by
  obtain ⟨σ, hσ, hσ'⟩ := h.along
  have hsame : SameAction t t' R R' σ (c.action t) (c'.action t') := by
    rw [Configuration.action, Configuration.action, h.rest]
    exact w.lookup hσ.head hσ'.head _
  unfold performed? Configuration.step
  generalize ha : c.action t = a at hsame ⊢
  generalize c'.action t' = a' at hsame ⊢
  cases hsame with
  | error => exact ⟨rfl, .ends (w.unexpected h hσ.head hσ'.head)⟩
  | shift hn hn' =>
    dsimp only
    rw [← h.rest]
    refine ⟨rfl, ?_⟩
    cases hrest : c.rest with
    | nil => exact .ends (w.unexpected h hσ.head hσ'.head)
    | cons x rest =>
      refine .continues ⟨⟨_, hσ.cons hn, hσ'.cons hn'⟩, ?_, rfl, rfl⟩
      simp only [List.map_cons, h.trees]
  | @reduce slot slot' p hrule hrule' hdefault =>
    obtain ⟨p₁, hd, hrule₁, hhandle⟩ := hsafe slot ha
    cases hrule.symm.trans hrule₁
    obtain ⟨hd', τ, hhandle', hchildren, hbelow, hτ, hτ'⟩ := h.exists_handle hhandle
    have haccept : (slot = t.defaultRule ∧ hd.below = [] ∧ c.rest = []) ↔
        (slot' = t'.defaultRule ∧ hd'.below = [] ∧ c'.rest = []) := by
      rw [hdefault, h.rest, ← List.map_eq_nil_iff (f := (·.2)), hbelow, List.map_eq_nil_iff]
    simp only [hrule, hrule', Option.bind_eq_bind, Option.bind_some, hhandle, hhandle',
      Configuration.reduce]
    refine ⟨trivial, ?_⟩
    by_cases hends : slot = t.defaultRule ∧ hd.below = [] ∧ c.rest = []
    · rw [if_pos hends, if_pos (haccept.mp hends), hchildren]
      exact .ends (.tree _)
    · rw [if_neg hends, if_neg (mt haccept.mpr hends)]
      rcases w.goto? hτ.head hτ'.head p.name with ⟨hnone, hnone'⟩ | ⟨m, m', hm, hm', hR, hR'⟩
      · rw [hnone, hnone']
        exact .ends (w.unexpected h hτ.head hτ'.head)
      · rw [hm, hm']
        refine .continues ⟨⟨_, hτ.cons hR, hτ'.cons hR'⟩, ?_, h.rest, h.last⟩
        simp only [List.map_cons, hbelow, hchildren]

/-- **Parsers abreast make the same moves and come to the same outcome.** -/
theorem run (w : Twins g g' t t' R R') (fuel : Nat) (h : Abreast R R' c c')
    (hsafe : ∀ n c₁, moves t n c = some c₁ → ∀ slot, c₁.action t = .reduce slot →
      ∃ p hd, t.rule? slot = some p ∧ c₁.handle? p = some hd) :
    performed t fuel c = performed t' fuel c' ∧
      Option.Rel SameOutcome (Configuration.run t fuel c) (Configuration.run t' fuel c') := by
  induction fuel generalizing c c' with
  | zero => exact ⟨rfl, .none⟩
  | succ fuel ih =>
    obtain ⟨hmove, hprogress⟩ := w.step h (hsafe 0 c rfl)
    rw [performed, performed, Configuration.run, Configuration.run, hmove]
    cases hc : c.step t with
    | ends o =>
      rw [hc] at hprogress
      cases hc' : c'.step t' with
      | ends o' =>
        rw [hc'] at hprogress
        cases hprogress with
        | ends ho => exact ⟨rfl, .some ho⟩
      | continues c₂' =>
        rw [hc'] at hprogress
        cases hprogress
    | continues c₂ =>
      rw [hc] at hprogress
      cases hc' : c'.step t' with
      | ends o' =>
        rw [hc'] at hprogress
        cases hprogress
      | continues c₂' =>
        rw [hc'] at hprogress
        cases hprogress with
        | continues hnext =>
          obtain ⟨hmoves, hrun⟩ := ih hnext fun n c₁ hc₁ => hsafe (n + 1) c₁ (by
            rw [moves, move?_of_step hc, Option.bind_some, hc₁])
          exact ⟨congrArg _ hmoves, hrun⟩

/-- Parsers are abreast before they start. -/
lemma abreast_start (w : Twins g g' t t' R R') (tokens : List Token) :
    Abreast R R' (.start t tokens) (.start t' tokens) where
  along := ⟨[], .nil w.implements.initial, .nil w.implements'.initial⟩
  trees := rfl
  rest := rfl
  last := rfl

end Twins

/-! ### Grammars that were read back -/

namespace Strategy

open Configuration ParsingTable

variable {strategy : Strategy} {g g' : Grammar} {t t' : ParsingTable}

/-- Built tables find the trees for a reduction. -/
lemma exists_handle (ht : strategy.build g = .ok t) {tokens : List Token} {n slot : Nat}
    {c : Configuration} (hmoves : moves t n (.start t tokens) = some c)
    (hact : c.action t = .reduce slot) : ∃ p hd, t.rule? slot = some p ∧ c.handle? p = some hd := by
  obtain ⟨production, hp, hbuilt⟩ := built ht
  obtain ⟨I, hcovers⟩ := hbuilt.covers hp
  obtain ⟨J, hground⟩ := hbuilt.grounded hp
  exact hground.exists_handle (Path.moves _ .nil hmoves)
    (hcovers.derives_of_pushed (pushed_of_moves hmoves)) hact

/-- **Tables of grammars with permuted productions** lead to the same moves and outcomes. -/
theorem same_of_renaming (r : g.Renaming g') (ht : strategy.build g = .ok t)
    (ht' : strategy.build g' = .ok t') (fuel : Nat) (tokens : List Token) :
    performed t fuel (.start t tokens) = performed t' fuel (.start t' tokens) ∧
      Option.Rel SameOutcome (t.parse fuel tokens) (t'.parse fuel tokens) := by
  obtain ⟨production, R, hp, himplements⟩ := implements ht
  obtain ⟨production', R', hp', himplements'⟩ := implements ht'
  obtain rfl : production' = r.place production := by
    cases hp'.symm.trans (r.startProduction hp)
    rfl
  let w : Twins g g' t t' R R' :=
    ⟨r, production, _, _, r.decisions strategy, himplements, himplements'⟩
  exact w.run fuel (w.abreast_start tokens) fun _ _ hmoves _ hact => exists_handle ht hmoves hact

/-- **A grammar that was stored and read back has the same parser** by every strategy: there is a
table for both grammars or for none, and the parsers make the same moves and come to the same tree,
or to errors at the same token. -/
theorem rebuild_decoded (h : g.Storable) : ∃ g', Grammar.decode g.encode = .ok g' ∧
    ∀ strategy : Strategy,
      ((∃ t, strategy.build g = .ok t) ↔ ∃ t', strategy.build g' = .ok t') ∧
      ∀ t t', strategy.build g = .ok t → strategy.build g' = .ok t' → ∀ fuel tokens,
        performed t fuel (.start t tokens) = performed t' fuel (.start t' tokens) ∧
          Option.Rel SameOutcome (t.parse fuel tokens) (t'.parse fuel tokens) := by
  obtain ⟨g', htakes, hregroups⟩ := h.exists_takes
  obtain ⟨r⟩ := Grammar.exists_renaming hregroups.start (by
    rw [hregroups.productions]
    exact (Production.grouped_perm _).symm)
  exact ⟨g', Grammar.decode_of_takes htakes, fun strategy =>
    ⟨r.exists_table_iff strategy, fun _ _ ht ht' => same_of_renaming r ht ht'⟩⟩

/-- The grammar that is read back for lists of numbers and identifiers has its productions in
another order, and its merged table makes the same moves. -/
theorem rebuild_decoded_interleaved : Grammar.interleaved.Storable ∧
    ∃ g' t t', Grammar.decode Grammar.interleaved.encode = .ok g' ∧
      g'.productions ≠ Grammar.interleaved.productions ∧
      merged.build Grammar.interleaved = .ok t ∧ merged.build g' = .ok t' ∧
      performed t 9 (.start t [plainToken .identifier "x"]) =
        performed t' 9 (.start t' [plainToken .identifier "x"]) ∧
      Option.Rel SameOutcome (t.parse 9 [plainToken .identifier "x"])
        (t'.parse 9 [plainToken .identifier "x"]) := by
  have h : Grammar.interleaved.Storable := by decide +kernel
  have hok : (merged.build Grammar.interleaved).isOk = true := by decide +kernel
  obtain ⟨g', hdecode, hsame⟩ := rebuild_decoded h
  have hmoved : g'.productions ≠ Grammar.interleaved.productions := by
    have hread : ((Grammar.decode Grammar.interleaved.encode).toOption.map fun g' =>
        decide (g'.productions = Grammar.interleaved.productions)) = some false := by
      decide +kernel
    rw [hdecode] at hread
    exact of_decide_eq_false (Option.some.inj hread)
  cases ht : merged.build Grammar.interleaved with
  | error e =>
    rw [ht] at hok
    cases hok
  | ok t =>
    obtain ⟨htables, hparsers⟩ := hsame merged
    obtain ⟨t', ht'⟩ := htables.mp ⟨t, ht⟩
    obtain ⟨hmoves, houtcome⟩ := hparsers t t' ht ht' 9 [plainToken .identifier "x"]
    exact ⟨h, g', t, t', hdecode, hmoved, rfl, ht', hmoves, houtcome⟩

end Strategy

end Coscript
