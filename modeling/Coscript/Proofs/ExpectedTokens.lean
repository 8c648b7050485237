import Coscript.Proofs.ErrorPosition
import Coscript.Proofs.Rebuilding

/-!
# What the error of a canonical table expects

The error of a canonical table lists what may come next: the terminals whose tokens some sentence
goes on with, and the end of the input if what was read is a sentence already.

Every entry of a state is for a terminal that a valid item expects. In a grammar whose names all
derive trees, what an item expects can be made to come next: its lookahead is expected by what is
still to come after its production, so that trees for all of this complete the pushed trees to a
sentence. So a canonical table has no entry, not even for a reduction, before a token that no
sentence goes on with. The error is found right after the last shift, before which the parser has
not looked at the next token, and whatever comes in its place, the run gets to the same state. If
the tokens read go on with something, then this state has an entry for it.

* `Grammar.Valid.exists_viable`: valid items are under way, with their lookaheads behind them;
* `Grammar.ExpectedAt.goesOn`: what is expected can come next;
* `ParsingTable.Canonical.entry_iff`: the entries of the state in which an error is found;
* `Strategy.expected_canonical`: the errors of a canonical table list what may come next.
-/

namespace Coscript

open Configuration Discipline

namespace Item

variable {L : Type} {g : Grammar}

/-- Nothing is left of the body of a complete item. -/
lemma remaining_of_complete {i : Item L} (h : i.next? g = none) : i.remaining g = [] := by
  cases hp : g.production? i.production with
  | none => rw [remaining, hp, Option.map_none, Option.getD_none]
  | some p => rw [remaining_eq hp, List.drop_eq_nil_of_le ((next?_eq_none_iff hp).mp h)]

end Item

/-! ### What goes on with a word -/

namespace Grammar

variable {g : Grammar} {production z : Nat} {σ : List Symbol} {u : List Token} {x : Option Token}

/-- Some sentence begins with a word and the next token, or is the word if there is none. -/
def GoesOn (g : Grammar) (u : List Token) : Option Token → Prop
  | some x => g.Begun (u ++ [x])
  | none => g.Sentence u

/-- A terminal of the grammar may follow a word if some sentence goes on with one of its tokens, and
the end of the input if the word is a sentence. -/
def MayFollow (g : Grammar) (u : List Token) (y : Terminal) : Prop :=
  (y ∈ g.usedTerminals ∧ ∃ x : Token, y.accepts x.type x.text = true ∧ g.Begun (u ++ [x])) ∨
    y = .endOfInput ∧ g.Sentence u

lemma GoesOn.exists_sentence (h : g.GoesOn u x) : ∃ v, v.head? = x ∧ g.Sentence (u ++ v) := by
  cases x with
  | none => exact ⟨[], rfl, by rwa [List.append_nil]⟩
  | some x =>
    obtain ⟨D, hD, v, hword⟩ := h
    exact ⟨x :: v, rfl, D, hD, by rw [← hword, List.append_assoc, List.singleton_append]⟩

/-- Only the end of the input is in its column. -/
lemma isColumn_endOfInput_iff : g.IsColumn endOfInput x ↔ x = none := by
  constructor
  · intro hx
    cases x with
    | none => rfl
    | some x =>
      obtain ⟨y, hy, haccepts⟩ := hx
      cases g.terminal?_special.1.symm.trans hy
      cases haccepts
  · rintro rfl
    rfl

/-- The terminals that may follow a word have the columns of what it goes on with. -/
lemma mayFollow_iff {y : Terminal} :
    g.MayFollow u y ↔ ∃ z x, g.terminal? z = some y ∧ g.IsColumn z x ∧ g.GoesOn u x := by
  constructor
  · rintro (⟨hused, x, hx, hbegun⟩ | ⟨rfl, hsentence⟩)
    · obtain ⟨z, hz⟩ := exists_terminal?_iff.mpr (.inr (.inr hused))
      exact ⟨z, some x, hz, ⟨y, hz, hx⟩, hbegun⟩
    · exact ⟨endOfInput, none, g.terminal?_special.1, rfl, hsentence⟩
  · rintro ⟨z, x, hz, hx, hgoes⟩
    cases x with
    | none =>
      cases hx
      exact .inr ⟨Option.some.inj (hz.symm.trans g.terminal?_special.1), hgoes⟩
    | some x =>
      obtain ⟨y', hz', hx⟩ := hx
      cases hz.symm.trans hz'
      exact .inl ⟨mem_usedTerminals_of_accepts hz hx, x, hx, hgoes⟩

/-! ### What is expected can come next -/

/-- What is expected in place of a lookahead is expected before the symbols that expect it. -/
lemma Expects.append {l m : Nat} {xs ys : List Symbol} (h : g.Expects z xs l)
    (hl : g.Expects l ys m) : g.Expects z (xs ++ ys) m := by
  rcases h with h | ⟨hxs, rfl⟩
  · exact .inl (h.append ys)
  · exact hxs.expects hl

/-- **Valid items are under way** when trees for the pushed symbols are pushed, and the symbols that
come after the production of an item expect its lookahead. -/
theorem Valid.exists_viable (ho : g.Ordinary) {i : Item Nat} (h : g.Valid production σ i) :
    ∀ {ts : List Tree}, g.DerivesAll σ.reverse ts →
      ∃ β, g.Viable production ts i.core β ∧ g.Expects i.lookahead β endOfInput := by
  induction h with
  | start =>
    intro ts hts
    cases hts
    exact ⟨[], .start, .inr ⟨.nil, rfl⟩⟩
  | @implied σ i j _ hj ih =>
    intro ts hts
    obtain ⟨β, hv, hexp⟩ := ih hts
    obtain ⟨a, ha, hk, hdot, hl⟩ := mem_implied_iff.mp hj
    refine ⟨i.rest g ++ β, ?_, Expects.append ((mem_lookaheadsBehind_iff ho).mp hl) hexp⟩
    rw [Item.core, hdot]
    exact hv.down ha hk
  | @advance σ i x _ hx ih =>
    intro ts hts
    rw [List.reverse_cons] at hts
    obtain ⟨us, vs, rfl, hus, hvs⟩ := hts.split
    obtain ⟨β, hv, hexp⟩ := ih hus
    cases hvs with
    | cons hT hnil =>
      cases hnil
      exact ⟨β, hv.push hx hT, hexp⟩

lemma Vanishes.exists_trees {xs : List Symbol} (h : g.Vanishes xs) :
    ∃ ts, g.DerivesAll xs ts ∧ Tree.wordAll ts = [] := by
  induction h with
  | nil => exact ⟨[], .nil, rfl⟩
  | cons hp _ _ ihbody ihxs =>
    obtain ⟨us, hus, hu⟩ := ihbody
    obtain ⟨vs, hvs, hv⟩ := ihxs
    exact ⟨_, .cons (.node hp hus) hvs, by rw [Tree.wordAll, Tree.word, hu, hv, List.nil_append]⟩

/-- What begins symbols that derive trees is a token. -/
lemma Corner.exists_column (hproductive : g.Productive) (ho : g.Ordinary) {xs : List Symbol}
    (h : g.Corner z xs) :
    (∀ s ∈ xs, ∃ T, g.Derives s T) → ∃ x : Token, g.IsColumn z (some x) := by
  induction h with
  | @here y _ hy =>
    intro hxs
    obtain ⟨T, hT⟩ := hxs _ List.mem_cons_self
    cases hT with
    | leaf hx => exact ⟨_, y, hy, hx⟩
  | enter hp _ ih => exact fun _ => ih (hproductive.exists_derives ho hp)
  | behind _ _ ih => exact fun hxs => ih fun s hs => hxs s (List.mem_cons_of_mem _ hs)

/-- Symbols derive trees whose word begins with a given token, if its terminal begins the
symbols. -/
lemma Corner.exists_trees (hproductive : g.Productive) (ho : g.Ordinary) {x : Token}
    (hx : g.IsColumn z (some x)) {xs : List Symbol} (h : g.Corner z xs) :
    (∀ s ∈ xs, ∃ T, g.Derives s T) →
      ∃ ts w, g.DerivesAll xs ts ∧ Tree.wordAll ts = x :: w := by
  induction h with
  | @here y xs hy =>
    intro hxs
    obtain ⟨y', hy', haccepts⟩ := hx
    cases hy.symm.trans hy'
    obtain ⟨ts, hts⟩ := exists_derivesAll fun s hs => hxs s (List.mem_cons_of_mem _ hs)
    exact ⟨_, _, .cons (.leaf haccepts) hts, rfl⟩
  | @enter k p xs hp _ ih =>
    intro hxs
    obtain ⟨us, w, hus, hword⟩ := ih (hproductive.exists_derives ho hp)
    obtain ⟨ts, hts⟩ := exists_derivesAll fun s hs => hxs s (List.mem_cons_of_mem _ hs)
    refine ⟨_, w ++ Tree.wordAll ts, .cons (.node hp hus) hts, ?_⟩
    rw [Tree.wordAll, Tree.word, hword, List.cons_append]
  | @behind s xs hs _ ih =>
    intro hxs
    obtain ⟨us, hus, hnil⟩ := hs.exists_trees
    obtain ⟨ts, w, hts, hword⟩ := ih fun s hs => hxs s (List.mem_cons_of_mem _ hs)
    exact ⟨us ++ ts, w, hus.append hts, by rw [Tree.wordAll_append, hnil, hword, List.nil_append]⟩

/-- **What is expected can come next**, with any of its tokens, behind trees for the pushed
symbols. -/
theorem ExpectedAt.goesOn (hproductive : g.Productive) (ho : g.Ordinary)
    (hp : g.startProduction = .ok production) (h : g.ExpectedAt production z σ) {ts : List Tree}
    (hts : g.DerivesAll σ.reverse ts) :
    (∃ x, g.IsColumn z x) ∧ ∀ x, g.IsColumn z x → g.GoesOn (Tree.wordAll ts) x := by
  obtain ⟨i, hi, hexp⟩ := h
  obtain ⟨β, hv, hβ⟩ := Valid.exists_viable ho hi hts
  obtain ⟨p, hprod, hname, -⟩ := startProduction_spec hp
  obtain ⟨hremaining, hcome⟩ := hv.exists_derives hproductive ho
  have hall : ∀ s ∈ i.core.remaining g ++ β, ∃ T, g.Derives s T := fun s hs =>
    (List.mem_append.mp hs).elim (hremaining s) (hcome s)
  -- Trees for what is still to come complete the pushed ones.
  have hcomplete : ∀ {us}, g.DerivesAll (i.core.remaining g ++ β) us →
      ∃ D, g.Derives (.nonTerminal g.start) D ∧ D.word = Tree.wordAll ts ++ Tree.wordAll us := by
    intro us hus
    obtain ⟨us, vs, rfl, hus, hvs⟩ := hus.split
    obtain ⟨D, hD, hword, -⟩ := hv.derivation hprod hname hus hvs
    exact ⟨D, hD, by rw [hword, Tree.wordAll_append]⟩
  rcases hexp.append hβ with hcorner | ⟨hvanishes, rfl⟩
  · obtain ⟨x, hx⟩ := hcorner.exists_column hproductive ho hall
    refine ⟨⟨some x, hx⟩, ?_⟩
    rintro (_ | x') hx'
    · cases hx'
      cases isColumn_endOfInput_iff.mp hx
    · obtain ⟨us, w, hus, hword⟩ := hcorner.exists_trees hproductive ho hx' hall
      obtain ⟨D, hD, hDword⟩ := hcomplete hus
      exact ⟨D, hD, w, by rw [hDword, hword, List.append_assoc, List.singleton_append]⟩
  · refine ⟨⟨none, rfl⟩, ?_⟩
    intro x hx
    obtain rfl := isColumn_endOfInput_iff.mp hx
    obtain ⟨us, hus, hnil⟩ := hvanishes.exists_trees
    obtain ⟨D, hD, hDword⟩ := hcomplete hus
    exact ⟨D, hD, by rw [hDword, hnil, List.append_nil]⟩

end Grammar

variable {g : Grammar} {production : Nat} {t : ParsingTable} {R : Nat → List Symbol → Prop}
variable {I : Nat → Item Nat → Prop}

namespace ParsingTable

/-! ### Entries of canonical tables -/

/-- The trees on a path derive from symbols that its state stands for. -/
lemma Path.exists_symbols {D : Decisions} (h : t.Implements g production D R) {n : Nat}
    {stack : List (Nat × Tree)} (hpath : t.Path n stack) :
    (∀ f ∈ stack, ∀ x, f.2.standsFor x = true → g.Derives x f.2) →
      ∃ σ, R n σ ∧ g.DerivesAll σ.reverse (stack.map (·.2)).reverse := by
  induction hpath with
  | nil => exact fun _ => ⟨[], h.initial, .nil⟩
  | @cons state n T stack _ e ih =>
    intro hderives
    obtain ⟨σ, hσ, hts⟩ := ih fun f hf => hderives f (List.mem_cons_of_mem _ hf)
    obtain ⟨x, hT, hn⟩ : ∃ x, g.Derives x T ∧ R n (x :: σ) := by
      cases T with
      | leaf x =>
        obtain ⟨y, hy, hact⟩ := exists_column_of_lookup e
        exact ⟨.terminal y, .leaf hy, (h.shift hσ hact).2⟩
      | node a ts =>
        exact ⟨.nonTerminal a, hderives _ List.mem_cons_self _ (decide_eq_true rfl),
          (h.goto hσ e).2⟩
    refine ⟨x :: σ, hn, ?_⟩
    rw [List.reverse_cons, List.map_cons, List.reverse_cons]
    exact hts.append (.cons hT .nil)

/-- The entries of a canonical table are in the columns of terminals that are expected. -/
lemma Implements.exists_expectedAt
    (h : t.Implements g production (Discipline.canonical.decisions g g.firstFollow production) R)
    {n : Nat} {σ : List Symbol} (hn : R n σ) {y : Terminal} (hentry : t.action n y ≠ .error) :
    ∃ z, g.terminal? z = some y ∧ g.ExpectedAt production z σ := by
  cases hact : t.action n y with
  | error => exact absurd hact hentry
  | shift m =>
    obtain ⟨⟨i, hi, hy⟩, -⟩ := h.shift hn hact
    obtain ⟨p, hp, hget⟩ := Item.exists_production_of_next? hy
    obtain ⟨z, hz⟩ := Grammar.exists_terminal?_iff.mpr (.inr (.inr
      (Grammar.mem_usedTerminals_iff.mpr ⟨_, p, hp, List.mem_of_getElem? hget⟩)))
    refine ⟨z, hz, i, hi, .inl ?_⟩
    rw [Item.remaining_of_next? hy]
    exact .here hz
  | reduce slot =>
    obtain ⟨k, ⟨i, hi, hcomplete, -, z, hz, hy⟩, -⟩ := h.reduce hn hact
    obtain rfl : z = i.lookahead := List.mem_singleton.mp hz
    refine ⟨_, hy, i, hi, .inr ⟨?_, rfl⟩⟩
    rw [Item.remaining_of_complete hcomplete]
    exact .nil

/-- A canonical table of an ordinary grammar whose names all derive trees. -/
structure Canonical (t : ParsingTable) (g : Grammar) (production : Nat)
    (R : Nat → List Symbol → Prop) (I : Nat → Item Nat → Prop) : Prop where
  start : g.startProduction = .ok production
  ordinary : g.Ordinary
  productive : g.Productive
  covers : t.Covers g production I
  implements : t.Implements g production
    (Discipline.canonical.decisions g g.firstFollow production) R

variable {n : Nat} {c : Configuration} {u w : List Token} {y : Terminal}

/-- **Entries are for terminals that may come next**, with any of their tokens. -/
theorem Canonical.goesOn_of_entry (h : t.Canonical g production R I)
    (hmoves : moves t n (.start t w) = some c) (hw : w = u ++ c.rest)
    (hentry : t.action c.state y ≠ .error) :
    ∃ z, g.terminal? z = some y ∧ (∃ x, g.IsColumn z x) ∧ ∀ x, g.IsColumn z x → g.GoesOn u x := by
  have hpushed := pushed_of_moves hmoves
  obtain ⟨σ, hσ, hts⟩ := (Path.moves n .nil hmoves).exists_symbols h.implements
    (h.covers.derives_of_pushed hpushed)
  obtain ⟨z, hz, hexpected⟩ := h.implements.exists_expectedAt hσ hentry
  have hword : Tree.wordAll (c.stack.map (·.2)).reverse = u :=
    List.append_cancel_right (hpushed.word.trans hw)
  rw [← hword]
  exact ⟨z, hz, hexpected.goesOn h.productive h.ordinary h.start hts⟩

/-- A parser acts only before what goes on with the tokens that it has taken in. -/
lemma Canonical.goesOn_of_action (h : t.Canonical g production R I)
    (hmoves : moves t n (.start t w) = some c) (hw : w = u ++ c.rest)
    (hact : c.action t ≠ .error) : g.GoesOn u c.rest.head? := by
  unfold Configuration.action at hact
  cases hx : c.rest.head? with
  | none =>
    rw [hx] at hact
    obtain ⟨z, hz, -, hgoes⟩ := h.goesOn_of_entry hmoves hw hact
    exact hgoes none (Grammar.terminal?_inj hz g.terminal?_special.1)
  | some x =>
    rw [hx] at hact
    obtain ⟨y, hy, hentry⟩ := exists_column_of_lookup (Eq.refl (lookup t c.state (some x)))
    obtain ⟨z, hz, -, hgoes⟩ := h.goesOn_of_entry hmoves hw (hentry ▸ hact)
    exact hgoes (some x) ⟨y, hz, hy⟩

/-! ### Other tokens in the place of the next one -/

/-- Whatever comes behind some tokens, a run gets to the same state when it has taken them in. -/
def Comes (t : ParsingTable) (u : List Token) (c : Configuration) : Prop :=
  ∀ v, ∃ n, ∀ fuel, run t (n + fuel) (.start t (u ++ v)) = run t fuel { c with rest := v }

/-- A parser that shifts a token has not looked behind it. -/
lemma comes_of_shift {x : Token} {v : List Token} {next : Nat}
    (hmoves : moves t n (.start t (u ++ x :: v)) = some c) (hrest : c.rest = x :: v)
    (hact : c.action t = .shift next) :
    t.Comes (u ++ [x]) ⟨next, (c.state, .leaf x) :: c.stack, v, x.position⟩ := by
  intro v'
  obtain ⟨r, hr, hmoves'⟩ := moves_of_head n (r := u) v' hmoves rfl (hrest ▸ List.suffix_rfl)
  rw [hrest] at hr
  obtain rfl : r = [] := List.append_left_eq_self.mp hr.symm
  have hact' : Configuration.action t { c with rest := x :: v' } = .shift next := by
    rw [← hact]
    unfold Configuration.action
    rw [hrest]
    rfl
  refine ⟨n + 1, fun fuel => ?_⟩
  rw [Nat.add_assoc, Nat.add_comm 1, List.append_assoc]
  refine (run_of_moves_of_rest n hmoves' (List.cons_ne_nil x v') (fuel + 1)).trans ?_
  rw [List.nil_append, run, step, hact']

/-- **A state that a run gets to whatever comes next has entries for all that may come next.** -/
theorem Canonical.lookup_of_goesOn (h : t.Canonical g production R I) (hg : g.Unmixed)
    (hcomes : t.Comes u c) {x : Option Token} (hx : g.GoesOn u x) :
    lookup t c.state x ≠ .error := by
  intro herror
  obtain ⟨v, rfl, hsentence⟩ := hx.exists_sentence
  obtain ⟨n, hrun⟩ := hcomes v
  refine h.covers.run_ne_error hg h.start hsentence (n + 1)
    (unexpected t { c with rest := v } c.state) ?_
  rw [hrun 1, run, step, Configuration.action, herror]

/-- **What does not go on with the tokens taken in is found right after the last shift.** -/
theorem Canonical.comes_of_not_goesOn (h : t.Canonical g production R I)
    (hmoves : moves t n (.start t w) = some c) (hw : w = u ++ c.rest)
    (hnot : ¬ g.GoesOn u c.rest.head?) : t.Comes u c := by
  cases n with
  | zero =>
    cases hmoves
    obtain rfl : u = [] := List.append_left_eq_self.mp hw.symm
    exact fun v => ⟨0, fun fuel => by rw [Nat.zero_add]; rfl⟩
  | succ n =>
    rw [moves_add] at hmoves
    obtain ⟨c₁, hmoves₁, hlast⟩ := Option.bind_eq_some_iff.mp hmoves
    obtain ⟨c₂, hmove, hsame⟩ := Option.bind_eq_some_iff.mp hlast
    cases hsame
    rcases move?_cases hmove with
      ⟨next, x, rest, hact, hrest, rfl⟩ | ⟨slot, p, hd, next, hact, -, -, -, rfl⟩
    · have hword := (pushed_of_moves hmoves₁).word
      rw [hrest] at hword
      obtain rfl : Tree.wordAll (c₁.stack.map (·.2)).reverse ++ [x] = u := by
        have hw' : w = u ++ rest := hw
        rw [← hword, List.append_cons] at hw'
        exact List.append_cancel_right hw'
      rw [← hword] at hmoves₁
      exact comes_of_shift hmoves₁ hrest hact
    · -- The reduction before it is made before something that goes on.
      refine absurd (h.goesOn_of_action hmoves₁ hw ?_) hnot
      rw [hact]
      simp

/-! ### Errors -/

/-- **Where the next token does not go on with those taken in, the entries of the state are for what
may follow these**, and for nothing else. -/
theorem Canonical.entry_iff (h : t.Canonical g production R I) (hg : g.Unmixed)
    (hmoves : moves t n (.start t w) = some c) (hw : w = u ++ c.rest)
    (hnot : ¬ g.GoesOn u c.rest.head?) : t.action c.state y ≠ .error ↔ g.MayFollow u y := by
  rw [Grammar.mayFollow_iff]
  constructor
  · intro hentry
    obtain ⟨z, hz, ⟨x, hx⟩, hgoes⟩ := h.goesOn_of_entry hmoves hw hentry
    exact ⟨z, x, hz, hx, hgoes x hx⟩
  · rintro ⟨z, x, hz, hx, hgoes⟩
    rw [← h.covers.lookup_eq hg hx hz]
    exact h.lookup_of_goesOn hg (h.comes_of_not_goesOn hmoves hw hnot) hgoes

/-- What a parser fails at does not go on with the tokens that it has taken in. -/
lemma Canonical.not_goesOn (h : t.Canonical g production R I) (hg : g.Unmixed) {e : ParseError}
    (hend : EndsAfter t n (.start t (u ++ c.rest)) (.error e))
    (hmoves : moves t n (.start t (u ++ c.rest)) = some c) (hstep : c.step t = .ends (.error e)) :
    ¬ g.GoesOn u c.rest.head? := by
  cases hrest : c.rest with
  | nil =>
    intro hsentence
    rw [hrest, List.append_nil] at hend
    exact h.covers.run_ne_error hg h.start hsentence (n + 1) e hend.2
  | cons x v =>
    rw [hrest] at hmoves
    exact h.covers.not_begun hg h.start hmoves hstep hrest

/-- A parser fails when it has taken in the first tokens of its input, and the others are left. -/
def FailsAfter (t : ParsingTable) (u v : List Token) (e : ParseError) : Prop :=
  ∃ n c, moves t n (.start t (u ++ v)) = some c ∧ c.rest = v ∧ c.step t = .ends (.error e)

end ParsingTable

namespace Strategy

/-- What building the canonical table of such a grammar gives. -/
lemma exists_canonical (ho : g.Ordinary) (hproductive : g.Productive)
    (ht : canonical.build g = .ok t) : ∃ production R I, t.Canonical g production R I := by
  obtain ⟨production, R, hp, himplements⟩ := implements ht
  obtain ⟨production', hp', hbuilt⟩ := built ht
  cases hp.symm.trans hp'
  obtain ⟨I, hcovers⟩ := hbuilt.covers hp
  exact ⟨production, R, I, hp, ho, hproductive, hcovers, himplements⟩

/-- **The error of a canonical table lists what may come next**: each terminal of the grammar whose
tokens some sentence goes on with, and the end of the input if the tokens taken in are a sentence,
each of them once. -/
theorem expected_canonical (ho : g.Ordinary) (hg : g.Unmixed) (hproductive : g.Productive)
    (ht : canonical.build g = .ok t) {fuel : Nat} {w : List Token} {found : Option Token}
    {position : Position} {expected : List String}
    (hparse : t.parse fuel w = some (.error (.unexpectedToken found position expected))) :
    ∃ u v, w = u ++ v ∧ found = v.head? ∧
      t.FailsAfter u v (.unexpectedToken found position expected) ∧
      ∃ ys : List Terminal, expected = ys.map Terminal.display ∧ ys.Nodup ∧
        (∀ y, y ∈ ys ↔ g.MayFollow u y) ∧
        ∀ y ∈ ys, ∀ x : Token, y.accepts x.type x.text = true → g.Begun (u ++ [x]) := by
  obtain ⟨production, R, I, h⟩ := exists_canonical ho hproductive ht
  obtain ⟨n, -, hend⟩ := exists_endsAfter hparse
  obtain ⟨c, hmoves, hstep⟩ := hend.exists_moves
  obtain ⟨u, rfl⟩ : ∃ u, w = u ++ c.rest := ⟨_, (ParsingTable.pushed_of_moves hmoves).word.symm⟩
  have hnot := h.not_goesOn hg hend hmoves hstep
  have hfails : t.FailsAfter u c.rest (.unexpectedToken found position expected) :=
    ⟨n, c, hmoves, rfl, hstep⟩
  have herror : c.action t = .error := by
    by_contra hact
    exact hnot (h.goesOn_of_action hmoves rfl hact)
  rw [step, herror] at hstep
  cases hstep
  obtain ⟨ys, hexpected, hnodup, hys⟩ := t.exists_expected c.state
  refine ⟨u, c.rest, rfl, rfl, hfails, ys, hexpected, hnodup, ?_, ?_⟩
  · exact fun y => (hys y).trans (h.entry_iff hg hmoves rfl hnot)
  · intro y hy x hx
    obtain ⟨z, hz, -, hgoes⟩ := h.goesOn_of_entry hmoves rfl ((hys y).mp hy)
    exact hgoes (some x) ⟨y, hz, hx⟩

/-- The error that a parser ends with. -/
def failure? : Except ParseError Tree → Option ParseError
  | .error e => some e
  | .ok _ => none

lemma eq_error_of_failure {o : Option (Except ParseError Tree)} {e : ParseError}
    (h : o.bind failure? = some e) : o = some (.error e) := by
  obtain ⟨outcome, rfl, he⟩ := Option.bind_eq_some_iff.mp h
  cases outcome with
  | ok tree => cases he
  | error e' =>
    cases he
    rfl

/-- Behind an identifier, a list of identifiers may end or go on with another one. -/
theorem expected_canonical_identifierLists : ∃ t, identifierLists.Ordinary ∧
    identifierLists.Unmixed ∧ identifierLists.Productive ∧
    canonical.build identifierLists = .ok t ∧
    t.parse 20 [plainToken .identifier "x", plainToken .integer "1"] =
      some (.error (.unexpectedToken (some (plainToken .integer "1")) .start ["$", "Identifier"])) ∧
    ∃ u v, [plainToken .identifier "x", plainToken .integer "1"] = u ++ v ∧
      some (plainToken .integer "1") = v.head? ∧
      t.FailsAfter u v
        (.unexpectedToken (some (plainToken .integer "1")) .start ["$", "Identifier"]) ∧
      ∃ ys : List Terminal, ["$", "Identifier"] = ys.map Terminal.display ∧ ys.Nodup ∧
        (∀ y, y ∈ ys ↔ identifierLists.MayFollow u y) ∧
        ∀ y ∈ ys, ∀ x : Token, y.accepts x.type x.text = true →
          identifierLists.Begun (u ++ [x]) := by
  have ho : identifierLists.Ordinary := by decide +kernel
  have hg : identifierLists.Unmixed := by decide +kernel
  have hfails : ((canonical.build identifierLists).toOption.bind fun t =>
      (t.parse 20 [plainToken .identifier "x", plainToken .integer "1"]).bind failure?) =
        some (.unexpectedToken (some (plainToken .integer "1")) .start ["$", "Identifier"]) := by
    decide +kernel
  cases ht : canonical.build identifierLists with
  | error e =>
    rw [ht] at hfails
    cases hfails
  | ok t =>
    rw [ht] at hfails
    have hparse := eq_error_of_failure hfails
    exact ⟨t, ho, hg, identifierLists_productive, rfl, hparse,
      expected_canonical ho hg identifierLists_productive ht hparse⟩

end Strategy

end Coscript
