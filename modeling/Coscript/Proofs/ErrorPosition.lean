import Coscript.Proofs.LookaheadTermination

/-!
# Errors are found at the first offending token

In a grammar whose names all derive trees, a parser that does not find a tree has read a part of the
input that begins some sentence, and stops before a token with which no sentence goes on. However
many reductions a table makes before a wrong token, it never shifts one: what has been pushed can be
completed to a sentence at any time, and if the next token were right, the run of a sentence with
this token would make the same moves.

An answer comes from a canonical or merged table in any case. A table without lookaheads may reduce
for ever before a wrong token for the sake of names that the start symbol does not use.

* `Grammar.Offends`: the first offending token of a word;
* `ParsingTable.Grounded.unexpected`: a parser fails only by an unexpected token;
* `ParsingTable.Covers.offends`: the unexpected token is the first offending one;
* `Strategy.parse_offends`: what parsing gives for words that are not sentences;
* `Strategy.exists_endless_of_unused`: a table without lookaheads need not give anything.
-/

namespace Coscript

open Configuration

namespace Grammar

variable {g : Grammar} {production : Nat}

/-- The words of the derivation trees of the start symbol. -/
def Sentence (g : Grammar) (w : List Token) : Prop :=
  ∃ D, g.Derives (.nonTerminal g.start) D ∧ D.word = w

/-- The words that sentences begin with. -/
def Begun (g : Grammar) (u : List Token) : Prop :=
  ∃ D, g.Derives (.nonTerminal g.start) D ∧ u <+: D.word

/-- What is wrong with a word that is not a sentence: its first token with which no sentence goes
on, or that it is at its end. -/
def Offends (g : Grammar) (w : List Token) : Option Token → Prop
  | some x => ∃ u v, w = u ++ x :: v ∧ g.Begun u ∧ ¬ g.Begun (u ++ [x])
  | none => g.Begun w

lemma Begun.of_prefix {u v : List Token} (h : g.Begun v) (huv : u <+: v) : g.Begun u := by
  obtain ⟨D, hD, hv⟩ := h
  exact ⟨D, hD, huv.trans hv⟩

/-- A word offends at its end exactly if some sentence begins with it. -/
lemma Offends.eq_none_iff {w : List Token} {found : Option Token} (h : g.Offends w found) :
    found = none ↔ g.Begun w := by
  cases found with
  | none => exact ⟨fun _ => h, fun _ => rfl⟩
  | some x =>
    obtain ⟨u, v, rfl, -, hx⟩ := h
    refine ⟨fun he => (by cases he), fun hw => absurd (hw.of_prefix ?_) hx⟩
    exact ⟨v, by simp⟩

/-- The trees on top of a viable prefix derive from the part of the body before the dot. -/
lemma Viable.exists_suffix {ts : List Tree} {i : Item Unit} {β : List Symbol}
    (h : g.Viable production ts i β) {p : Production}
    (hp : g.production? i.production = some p) :
    ∃ us vs, ts = us ++ vs ∧ g.DerivesAll (p.body.take i.dot) vs := by
  induction h with
  | start =>
    refine ⟨[], [], rfl, ?_⟩
    rw [List.take_zero]
    exact .nil
  | @push ts i β x T _ hx hT ih =>
    obtain ⟨us, vs, rfl, hvs⟩ := ih hp
    obtain ⟨q, hq, hget⟩ := Item.exists_production_of_next? hx
    cases (show g.production? i.production = some p from hp).symm.trans hq
    obtain ⟨hlt, hget⟩ := List.getElem?_eq_some_iff.mp hget
    refine ⟨us, vs ++ [T], List.append_assoc _ _ _, ?_⟩
    rw [show i.advance.dot = i.dot + 1 from rfl, List.take_succ_eq_append_getElem hlt, hget]
    exact hvs.append (.cons hT .nil)
  | @down ts i β a k _ _ _ _ =>
    refine ⟨ts, [], (List.append_nil ts).symm, ?_⟩
    rw [List.take_zero]
    exact .nil

end Grammar

variable {g : Grammar} {production : Nat} {t : ParsingTable}
variable {I : Nat → Item Nat → Prop} {J : Nat → Item Unit → Prop}

/-! ### Failures -/

namespace ParsingTable

/-- The trees for a production that a grounded table reduces are on top of the stack. -/
lemma Grounded.exists_handle (h : t.Grounded g production J) {c : Configuration} {slot : Nat}
    (hpath : t.Path c.state c.stack)
    (hderives : ∀ f ∈ c.stack, ∀ x, f.2.standsFor x = true → g.Derives x f.2)
    (hact : c.action t = .reduce slot) :
    ∃ p hd, t.rule? slot = some p ∧ c.handle? p = some hd := by
  obtain ⟨y, hy, -⟩ := t.exists_column_of_action c
  obtain ⟨i, p, hi, hcomplete, hp, hrule, -⟩ := h.reduce _ _ _ (hy.trans hact)
  obtain ⟨β, hv⟩ := hpath.viable h hderives i hi
  obtain ⟨us, vs, htrees, hvs⟩ := hv.exists_suffix hp
  rw [List.take_of_length_le ((Item.next?_eq_none_iff hp).mp hcomplete)] at hvs
  -- The frames of the trees that derive from the body.
  have hframes : ((c.stack.take vs.length).map (·.2)).reverse = vs := by
    have hreverse : c.stack.map (·.2) = vs.reverse ++ us.reverse := by
      rw [← List.reverse_append, ← htrees, List.reverse_reverse]
    rw [List.map_take, hreverse, List.take_left' (List.length_reverse), List.reverse_reverse]
  refine ⟨p, _, hrule, handle?_of_append (c.stack.take vs.length) (c.stack.drop vs.length)
    (List.take_append_drop _ _).symm ?_ ?_⟩
  · rw [← hvs.length_eq, ← List.length_map (·.2), ← List.length_reverse, hframes]
  · rw [hframes]
    exact Tree.standFor_of_derivesAll hvs

/-- **A parser with a grounded table fails only by an unexpected token.** -/
theorem Grounded.unexpected (h : t.Grounded g production J) {c : Configuration}
    (hpath : t.Path c.state c.stack)
    (hderives : ∀ f ∈ c.stack, ∀ x, f.2.standsFor x = true → g.Derives x f.2) {e : ParseError}
    (hstep : c.step t = .ends (.error e)) :
    ∃ expected, e = .unexpectedToken c.rest.head? c.position expected := by
  cases hact : c.action t with
  | error =>
    simp only [step, hact] at hstep
    cases hstep
    exact ⟨_, rfl⟩
  | shift n =>
    simp only [step, hact] at hstep
    split at hstep
    · cases hstep
      exact ⟨_, rfl⟩
    · cases hstep
  | reduce slot =>
    obtain ⟨p, hd, hrule, hhandle⟩ := h.exists_handle hpath hderives hact
    simp only [step, hact, Configuration.reduce, hrule, hhandle] at hstep
    split at hstep
    · cases hstep
    · split at hstep
      · cases hstep
      · cases hstep
        exact ⟨_, rfl⟩

end ParsingTable

/-! ### Runs of words with a common part -/

namespace Configuration

/-- What is behind the next token makes no difference to a move, unless the next token is behind
it. -/
lemma move?_of_head {c c' : Configuration} {x : Token} {r v : List Token} (y : List Token)
    (h : c.move? t = some c') (hrest : c.rest = r ++ x :: v) (hx : x :: v <:+ c'.rest) :
    ∃ r', c'.rest = r' ++ x :: v ∧
      move? t { c with rest := r ++ x :: y } = some { c' with rest := r' ++ x :: y } := by
  have hhead : (r ++ x :: y).head? = c.rest.head? := by
    rw [hrest]
    cases r <;> rfl
  have haction : action t { c with rest := r ++ x :: y } = c.action t := by
    unfold action
    rw [hhead]
  rcases move?_cases h with
    ⟨next, z, rest, hact, hc, rfl⟩ | ⟨slot, p, hd, next, hact, hrule, hhandle, hnext, rfl⟩
  · cases r with
    | nil =>
      rw [hrest] at hc
      cases hc
      exact absurd hx.length_le (by simp)
    | cons z' r =>
      rw [hrest] at hc
      cases hc
      refine ⟨r, rfl, ?_⟩
      unfold move?
      rw [List.cons_append] at haction ⊢
      simp only [haction, hact]
  · refine ⟨r, hrest, ?_⟩
    have hhandle' : handle? { c with rest := r ++ x :: y } p = some hd := hhandle
    unfold move?
    simp only [haction, hact, hrule, hhandle', hnext, Option.map_some]

/-- What is behind a token makes no difference before the token is shifted. -/
lemma moves_of_head (n : Nat) {c c' : Configuration} {x : Token} {r v : List Token}
    (y : List Token) (h : moves t n c = some c') (hrest : c.rest = r ++ x :: v)
    (hx : x :: v <:+ c'.rest) :
    ∃ r', c'.rest = r' ++ x :: v ∧
      moves t n { c with rest := r ++ x :: y } = some { c' with rest := r' ++ x :: y } := by
  induction n generalizing c r with
  | zero =>
    cases h
    exact ⟨r, hrest, rfl⟩
  | succ n ih =>
    obtain ⟨c₁, hmove, h⟩ := Option.bind_eq_some_iff.mp h
    obtain ⟨r₁, hrest₁, hmove'⟩ := move?_of_head y hmove hrest (hx.trans (rest_suffix n h))
    obtain ⟨r', hrest', hmoves⟩ := ih h hrest₁
    exact ⟨r', hrest', by rw [moves, hmove', Option.bind_some, hmoves]⟩

/-- A run has not ended where tokens are left: a parser accepts at the end of the input only, and
does not come back from there. -/
lemma run_of_moves_of_rest (n : Nat) {c c' : Configuration} (h : moves t n c = some c')
    (hrest : c'.rest ≠ []) (fuel : Nat) : run t (n + fuel) c = run t fuel c' := by
  rcases run_of_moves n h with ⟨k, hk, tree, hend⟩ | ⟨-, hrun⟩
  · obtain ⟨d, hd, hlast⟩ := hend.exists_moves
    obtain ⟨-, -, -, -, -, -, hnil, -⟩ := accepts_cases hlast
    obtain ⟨d', hd', hlater⟩ := exists_moves_le hk.le h
    cases hd.symm.trans hd'
    have hsuffix := rest_suffix _ hlater
    rw [hnil, List.suffix_nil] at hsuffix
    exact absurd hsuffix hrest
  · exact hrun fuel

/-- A failure does not depend on what is behind the next token. -/
lemma step_error_of_head {c : Configuration} {e : ParseError} {x : Token} {v : List Token}
    (y : List Token) (h : c.step t = .ends (.error e)) (hrest : c.rest = x :: v) :
    ∃ e', step t { c with rest := x :: y } = .ends (.error e') := by
  have haction : action t { c with rest := x :: y } = c.action t := by
    unfold action
    rw [hrest]
    rfl
  cases hact : c.action t with
  | error =>
    simp only [step, haction, hact]
    exact ⟨_, rfl⟩
  | shift n =>
    simp only [step, hact, hrest] at h
    cases h
  | reduce slot =>
    simp only [step, hact, Configuration.reduce] at h
    simp only [step, haction, hact, Configuration.reduce]
    cases hrule : t.rule? slot with
    | none => exact ⟨_, rfl⟩
    | some p =>
      rw [hrule] at h
      dsimp only at h ⊢
      have hsame : handle? { c with rest := x :: y } p = c.handle? p := rfl
      rw [hsame]
      cases hhandle : c.handle? p with
      | none => exact ⟨_, rfl⟩
      | some hd =>
        simp only [hhandle, hrest, reduceCtorEq, and_false, if_false] at h ⊢
        cases hgoto : t.goto? hd.state p.name with
        | none => exact ⟨_, rfl⟩
        | some next =>
          rw [hgoto] at h
          cases h

end Configuration

/-! ### The first offending token -/

namespace ParsingTable

/-- A run on a sentence does not fail. -/
lemma Covers.run_ne_error (h : t.Covers g production I) (hg : g.Unmixed)
    (hp : g.startProduction = .ok production) {w : List Token} (hw : g.Sentence w) (fuel : Nat)
    (e : ParseError) : run t fuel (.start t w) ≠ some (.error e) := by
  intro hrun
  obtain ⟨D, hD, rfl⟩ := hw
  obtain ⟨k, tree, haccepts, -, -⟩ := h.accepts hg hp hD
  cases (run_mono hrun (Nat.le_add_right fuel (k + 1))).symm.trans
    (run_mono haccepts.2 (Nat.le_add_left (k + 1) fuel))

/-- No sentence goes on with a token that a parser fails at. -/
lemma Covers.not_begun (h : t.Covers g production I) (hg : g.Unmixed)
    (hp : g.startProduction = .ok production) {k : Nat} {c : Configuration} {e : ParseError}
    {u v : List Token} {x : Token} (hmoves : moves t k (.start t (u ++ x :: v)) = some c)
    (hstep : c.step t = .ends (.error e)) (hrest : c.rest = x :: v) :
    ¬ g.Begun (u ++ [x]) := by
  rintro ⟨D, hD, y, hword⟩
  rw [List.append_assoc, List.singleton_append] at hword
  obtain ⟨r, hr, hmoves'⟩ := moves_of_head k (c := .start t (u ++ x :: v)) (r := u) y hmoves rfl
    (hrest ▸ List.suffix_rfl)
  rw [hrest] at hr
  obtain rfl : r = [] := List.append_left_eq_self.mp hr.symm
  obtain ⟨e', hstep'⟩ := step_error_of_head y hstep hrest
  have hstart : ({ Configuration.start t (u ++ x :: v) with rest := u ++ x :: y } :
      Configuration) = .start t D.word := by
    rw [← hword]
    rfl
  rw [hstart] at hmoves'
  refine h.run_ne_error hg hp ⟨D, hD, rfl⟩ (k + 1) e' ?_
  rw [run_of_moves_of_rest k hmoves' (List.cons_ne_nil x y) 1, run, List.nil_append, hstep']

/-- **A parser fails at the first offending token.** -/
theorem Covers.offends (h : t.Covers g production I) (hground : t.Grounded g production J)
    (hproductive : g.Productive) (ho : g.Ordinary) (hg : g.Unmixed)
    (hp : g.startProduction = .ok production) {w : List Token} {k : Nat} {e : ParseError}
    (hend : EndsAfter t k (.start t w) (.error e)) :
    ∃ found position expected, e = .unexpectedToken found position expected ∧
      g.Offends w found := by
  obtain ⟨c, hmoves, hstep⟩ := hend.exists_moves
  have hpushed := pushed_of_moves hmoves
  have hderives := h.derives_of_pushed hpushed
  have hpath := Path.moves k .nil hmoves
  obtain ⟨expected, rfl⟩ := hground.unexpected hpath hderives hstep
  refine ⟨_, _, _, rfl, ?_⟩
  obtain ⟨D, y, -, hD, hDword, -⟩ := exists_completion hproductive ho hg hp h hground hpath
    hderives
  have hword := hpushed.word
  have hbegun : g.Begun (Tree.wordAll (c.stack.map (·.2)).reverse) := ⟨D, hD, y, hDword.symm⟩
  cases hrest : c.rest with
  | nil =>
    rw [hrest, List.append_nil] at hword
    rw [hword] at hbegun
    exact hbegun
  | cons x v =>
    rw [hrest] at hword
    refine ⟨_, v, hword.symm, hbegun, ?_⟩
    rw [← hword] at hmoves
    exact h.not_begun hg hp hmoves hstep hrest

end ParsingTable

/-- A grammar whose names all derive trees is open. -/
lemma Grammar.Productive.open (hproductive : g.Productive) (ho : g.Ordinary) : g.Open := by
  intro k p hp _ α a β hbody
  have hmem : ∀ x ∈ β, x ∈ p.body := by
    intro x hx
    rw [hbody]
    simp [hx]
  obtain ⟨ts, hts⟩ := exists_derivesAll fun x hx => hproductive.exists_derives ho hp x (hmem x hx)
  have hbegins := g.firstFollow_closed.1.begins_trees ts hts
    (fun u hu => mem_usedTerminals_iff.mpr ⟨k, p, hp, hmem _ hu⟩)
    (show g.Begins g.firstFollow.first [] [] from rfl)
  rw [List.append_nil, List.append_nil] at hbegins
  cases hword : Tree.wordAll ts with
  | nil =>
    rw [hword] at hbegins
    exact .inl hbegins
  | cons x w =>
    rw [hword] at hbegins
    obtain ⟨n, hn, -⟩ := hbegins
    exact .inr ⟨n, hn⟩

namespace Strategy

variable {strategy : Strategy}

/-- **Parsing a word that is not a sentence gives its first offending token**, if it gives anything:
tables with lookaheads always do, and tables without if no name is useless. -/
theorem parse_offends (ho : g.Ordinary) (hg : g.Unmixed) (hproductive : g.Productive)
    (ht : strategy.build g = .ok t) {w : List Token} (hw : ¬ g.Sentence w) :
    (∀ fuel outcome, t.parse fuel w = some outcome → ∃ found position expected,
      outcome = .error (.unexpectedToken found position expected) ∧ g.Offends w found ∧
        (found = none ↔ g.Begun w)) ∧
    (strategy ≠ simple ∨ (∀ a ∈ g.names, g.Reachable a) →
      ∃ fuel outcome, t.parse fuel w = some outcome) := by
  constructor
  · intro fuel outcome hrun
    obtain ⟨production, hp, hbuilt⟩ := built ht
    obtain ⟨I, hcovers⟩ := hbuilt.covers hp
    obtain ⟨J, hground⟩ := hbuilt.grounded hp
    obtain ⟨k, -, hend⟩ := exists_endsAfter hrun
    cases outcome with
    | ok tree =>
      obtain ⟨hD, hword, -⟩ := hcovers.sound hp hend
      exact absurd ⟨tree, hD, hword⟩ hw
    | error e =>
      obtain ⟨found, position, expected, rfl, hoffends⟩ :=
        hcovers.offends hground hproductive ho hg hp hend
      exact ⟨found, position, expected, rfl, hoffends, hoffends.eq_none_iff⟩
  · intro hanswer
    by_cases hs : strategy = simple
    · have hreachable := hanswer.resolve_left (absurd hs)
      exact exists_parse_of_reduced ⟨hproductive, hreachable⟩ ho hg ht w
    · obtain ⟨production, R, hp, hd, htracks⟩ := tracks hs ht
      exact htracks.exists_run ho (hproductive.open ho) hp hd w

/-- What a table gives an error for is not a sentence. -/
lemma not_sentence_of_error (hg : g.Unmixed) (ht : strategy.build g = .ok t) {w : List Token}
    {fuel : Nat} {e : ParseError} (h : t.parse fuel w = some (.error e)) : ¬ g.Sentence w := by
  intro hw
  obtain ⟨production, hp, hbuilt⟩ := built ht
  obtain ⟨I, hcovers⟩ := hbuilt.covers hp
  exact hcovers.run_ne_error hg hp hw fuel e h

lemma identifierLists_productive : identifierLists.Productive := by
  have hempty : identifierLists.Derives (.nonTerminal "List") (.node "List" []) :=
    .node (i := 1) (p := ⟨"List", []⟩) rfl .nil
  have hinput : identifierLists.Derives (.nonTerminal "Input")
      (.node "Input" [.node "List" []]) :=
    .node (i := 0) (p := ⟨"Input", [.nonTerminal "List"]⟩) rfl (.cons hempty .nil)
  intro a ha
  rw [show identifierLists.names = ["Input", "List"] by decide +kernel] at ha
  rcases List.mem_pair.mp ha with rfl | rfl
  · exact ⟨_, hinput⟩
  · exact ⟨_, hempty⟩

/-- An integer behind an identifier is what is wrong with a list of identifiers. -/
theorem parse_offends_identifierLists : ∃ t, identifierLists.Ordinary ∧ identifierLists.Unmixed ∧
    identifierLists.Productive ∧ merged.build identifierLists = .ok t ∧
    ¬ identifierLists.Sentence [plainToken .identifier "x", plainToken .integer "1"] ∧
    ∃ fuel found position expected,
      t.parse fuel [plainToken .identifier "x", plainToken .integer "1"] =
        some (.error (.unexpectedToken found position expected)) ∧
      identifierLists.Offends [plainToken .identifier "x", plainToken .integer "1"] found := by
  have ho : identifierLists.Ordinary := by decide +kernel
  have hg : identifierLists.Unmixed := by decide +kernel
  have herror : ((merged.build identifierLists).toOption.bind fun t =>
      (t.parse 20 [plainToken .identifier "x", plainToken .integer "1"]).map (·.isOk)) =
        some false := by decide +kernel
  cases ht : merged.build identifierLists with
  | error e =>
    rw [ht] at herror
    cases herror
  | ok t =>
    rw [ht] at herror
    obtain ⟨fuel, e, he⟩ := exists_error_of_isOk herror
    have hw := not_sentence_of_error hg ht he
    obtain ⟨hwrong, hanswer⟩ := parse_offends ho hg identifierLists_productive ht hw
    obtain ⟨fuel, outcome, hrun⟩ := hanswer (.inl (by simp))
    obtain ⟨found, position, expected, rfl, hoffends, -⟩ := hwrong fuel outcome hrun
    exact ⟨t, ho, hg, identifierLists_productive, rfl, hw, fuel, found, position, expected, hrun,
      hoffends⟩

/-- The rules of the document with a name that is not used. -/
def unreachableRules : Document.TableFact simple unreachableDocument :=
  ⟨fun g _ => g.names = ["S", "A", "P"] ∧
    g.production? 0 = some ⟨"S", [.nonTerminal "A"]⟩ ∧
    g.production? 2 = some ⟨"A", [.terminal (.literal .identifier "c")]⟩ ∧
    g.production? 3 = some ⟨"P", [.nonTerminal "S", .terminal (.literal .identifier "f")]⟩,
    by decide +kernel⟩

/-- All names of the document derive trees, also the one that is not used. -/
lemma productive_of_unreachable (hparse : Document.parse unreachableDocument = .ok g) :
    g.Productive := by
  obtain ⟨g', t, hparse', -, hfacts⟩ := unreachableRules.exists_table
  cases hparse.symm.trans hparse'
  obtain ⟨hnames, h₀, h₂, h₃⟩ := of_decide_eq_true hfacts
  have hA : g.Derives (.nonTerminal "A") (.node "A" [.leaf (plainToken .identifier "c")]) :=
    .node h₂ (.cons (.leaf (by decide)) .nil)
  have hS := Grammar.Derives.node h₀ (.cons hA .nil)
  have hf : g.Derives (.terminal (.literal .identifier "f")) (.leaf (plainToken .identifier "f")) :=
    .leaf (by decide)
  have hP := Grammar.Derives.node h₃ (.cons hS (.cons hf .nil))
  intro a ha
  rw [hnames] at ha
  simp only [List.mem_cons, List.not_mem_nil, or_false] at ha
  rcases ha with rfl | rfl | rfl
  · exact ⟨_, hS⟩
  · exact ⟨_, hA⟩
  · exact ⟨_, hP⟩

/-- **A table without lookaheads may go on for ever** before a wrong token, where a name that derives
trees is not used. -/
theorem exists_endless_of_unused : ∃ g t, Document.parse unreachableDocument = .ok g ∧
    g.Ordinary ∧ g.Unmixed ∧ g.Productive ∧ simple.build g = .ok t ∧
    ¬ g.Sentence [plainToken .identifier "c", plainToken .identifier "f"] ∧
    ∀ fuel, t.parse fuel [plainToken .identifier "c", plainToken .identifier "f"] = none := by
  obtain ⟨g, t, hparse, hg, hbuild, hendless, fuel, e, herror⟩ := exists_endless_of_unreachable
  exact ⟨g, t simple, hparse, Document.parse_ordinary hparse, hg,
    productive_of_unreachable hparse, hbuild simple,
    not_sentence_of_error hg (hbuild canonical) herror, hendless⟩

end Strategy

end Coscript
