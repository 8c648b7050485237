import Coscript.Proofs.Agreement
import Coscript.Proofs.Tracking

/-!
# Tables with lookaheads give an answer

A parser with a canonical or merged table gives an answer to any input, in any grammar in which
something may stand behind every name. Names may be useless, vanish or be recursive, and tokens of
one type may be asked for with any text and with a given text.

A run that did not end would reduce for ever. Each of its reductions is by an item that is valid for
the pushed symbols with some lookahead. One of finitely many lookaheads returns again and again, and
what is expected later is a lookahead of all earlier reductions, so that all of them are reductions
before this one terminal, whatever the next token is. Such reductions only go on for ever before the
end of the input, and then come through the body of the start production with nothing else pushed. At
the end of the input the parser accepts there. Before a token it does not, but then the start
production has another lookahead somewhere, and the same reductions go on for ever before that one.

Where nothing may stand behind a name, the canonical automaton drops the items that the name implies,
and the conflict between two reductions may be among the dropped ones.

* `ParsingTable.Tracks.exists_run`: every run with a table that tracks valid items ends;
* `Strategy.parse_terminates`: parsing with canonical and merged tables ends;
* `Strategy.exists_endless_of_dropped`: it need not where items are dropped.
-/

namespace Coscript

open Configuration

/-- A sequence whose every element has a next one. -/
lemma exists_sequence {α : Type} {P : Nat → α → Prop} {Q : Nat → α → α → Prop} {a : α}
    (ha : P 0 a) (step : ∀ n a, P n a → ∃ b, P (n + 1) b ∧ Q n a b) :
    ∃ f : Nat → α, ∀ n, P n (f n) ∧ Q n (f n) (f (n + 1)) := by
  choose next hP hQ using step
  let f : (n : Nat) → {a // P n a} :=
    Nat.rec ⟨a, ha⟩ fun n x => ⟨next n x.1 x.2, hP n x.1 x.2⟩
  exact ⟨fun n => (f n).1, fun n => ⟨(f n).2, hQ n _ _⟩⟩

variable {g : Grammar} {production : Nat} {t : ParsingTable} {R : Nat → List Symbol → Prop}

/-- **Reductions that go on for ever have one lookahead in common.** -/
theorem Grammar.exists_common_lookahead (ho : g.Ordinary) (hp : production < g.productions.size)
    {f : Nat → List Symbol} {k : Nat → Nat}
    (h : ∀ n, ∃ l, g.Reduction production (k n) l (f n) (f (n + 1))) :
    ∃ z, ∀ n, g.Reduction production (k n) z (f n) (f (n + 1)) := by
  choose l hl using h
  have hlt : ∀ n, l n < g.terminals.size := by
    intro n
    obtain ⟨p, τ, -, hvalid, -, -⟩ := hl n
    obtain ⟨-, x, hx⟩ := Valid.proper hp hvalid
    exact lt_size_of_terminal? hx
  obtain ⟨z, hz⟩ := exists_frequent_value hlt
  refine ⟨z, fun n => (hl n).before ho ?_⟩
  -- What is expected later is expected right after this reduction.
  have hdown : ∀ m, g.ExpectedAt production z (f (n + 1 + m)) →
      g.ExpectedAt production z (f (n + 1)) := by
    intro m
    induction m with
    | zero => exact id
    | succ m ih => exact fun h => ih ((hl _).before ho h).expectedAt
  obtain ⟨m, hm, rfl⟩ := hz (n + 1)
  obtain ⟨j, rfl⟩ := Nat.exists_eq_add_of_le hm
  exact hdown j (hl _).expectedAt

/-- A parser that reduces the default rule at the end of the input, with nothing else pushed, does
not go on. -/
lemma Configuration.not_continues {c c' : Configuration} {p : Production}
    (ha : c.action t = .reduce t.defaultRule) (hrule : t.rule? t.defaultRule = some p)
    (hlen : c.stack.length = p.body.length) (hrest : c.rest = []) :
    c.step t ≠ .continues c' := by
  intro hstep
  simp only [step, ha, Configuration.reduce, hrule] at hstep
  cases hhandle : c.handle? p with
  | none =>
    rw [hhandle] at hstep
    cases hstep
  | some hd =>
    obtain ⟨frames, hstack, hframes, -⟩ := handle?_spec hhandle
    have hbelow : hd.below = [] := by
      rw [hstack, List.length_append, hframes] at hlen
      exact List.eq_nil_of_length_eq_zero (by omega)
    simp only [hhandle, hbelow, hrest, and_self, if_true] at hstep
    cases hstep

namespace ParsingTable

/-- The symbols that an endless run pushes. Once it has settled, it reduces them in every step. -/
lemma Tracks.exists_symbols (h : t.Tracks g production R) {input rest : List Token} {settled : Nat}
    {c : Nat → Configuration} (he : Endless t input rest settled c) :
    ∃ f : Nat → List Symbol, ∀ n, Along R (c n).state (c n).stack (f n) ∧
      (settled ≤ n → t.ReducesBy g production (c n) (f n) (f (n + 1))) := by
  refine exists_sequence (P := fun n σ => Along R (c n).state (c n).stack σ)
    (Q := fun n σ σ' => settled ≤ n → t.ReducesBy g production (c n) σ σ') (a := []) ?_ ?_
  · have hstart : Configuration.start t input = c 0 := Option.some.inj (he.moves 0)
    rw [← hstart]
    exact .nil h.initial
  · intro n σ ha
    obtain ⟨σ', ha', hreduces⟩ := h.move ha (move?_of_step (he.step n))
    refine ⟨σ', ha', fun hn => hreduces ?_⟩
    rw [he.rest n hn, he.rest (n + 1) (by omega)]

/-- **Every run with a table that tracks valid items ends.** -/
theorem Tracks.exists_run (h : t.Tracks g production R) (ho : g.Ordinary) (hopen : g.Open)
    (hp : g.startProduction = .ok production) (hd : g.Deterministic production)
    (input : List Token) : ∃ fuel outcome, run t fuel (.start t input) = some outcome := by
  by_contra hnone
  obtain ⟨rest, settled, c, he⟩ := exists_endless (t := t) input fun fuel =>
    Option.eq_none_iff_forall_ne_some.mpr fun outcome heq => hnone ⟨fuel, outcome, heq⟩
  obtain ⟨f, hf⟩ := h.exists_symbols he
  choose k l slot hreduction haction hrule hslot hother using
    fun n => (hf (settled + n)).2 (Nat.le_add_right settled n)
  obtain ⟨q, hq, -⟩ := Grammar.startProduction_spec hp
  obtain ⟨z, hz⟩ := Grammar.exists_common_lookahead (f := fun n => f (settled + n)) ho
    (Array.getElem?_eq_some_iff.mp hq).1 fun n => ⟨l n, hreduction n⟩
  obtain ⟨rfl, n, p, hprod, hbody, hvalid⟩ := hd.ends_of_endless
    (f := fun n => f (settled + n)) ho hopen hp fun n => ⟨k n, hz n⟩
  -- The parser reduces the start production there.
  have hk : k n = production := by
    obtain ⟨p', τ, hp', hvalid', -, -⟩ := hz n
    exact hd.reduce hvalid' hvalid (Grammar.next?_complete hp' _) (Grammar.next?_complete hprod _)
      rfl
  cases hrest : rest with
  | nil =>
    have hdefault := (hslot n).mpr hk
    have hact := haction n
    have hrule' := hrule n
    rw [hdefault] at hact hrule'
    rw [hk, hprod] at hrule'
    refine not_continues hact hrule' ?_ ?_ (he.step (settled + n))
    · rw [(hf (settled + n)).1.length_eq, hbody, List.length_reverse]
    · rw [he.rest _ (Nat.le_add_right settled n), hrest]
  | cons x rest' =>
    obtain ⟨p', τ, l', hp', hτ, hne⟩ := hother n (by
      rw [he.rest _ (Nat.le_add_right settled n), hrest]
      simp)
    rw [hk] at hp' hτ
    obtain ⟨ρ, -, hbegin⟩ := hτ.begun hp'
    exact hne (hd.ends_of_endless (f := fun n => f (settled + n) ++ ρ) ho hopen hp
      fun n => ⟨k n, (hz n).under ho hbegin⟩).1

end ParsingTable

/-! ### Documents -/

/-- Whether a document has a table by a strategy, and something holds of its grammar and it. -/
def Document.holdsOf (strategy : Strategy) (text : String) (P : Grammar → ParsingTable → Bool) :
    Bool :=
  match Document.parse text with
  | .error _ => false
  | .ok g =>
    match strategy.build g with
    | .error _ => false
    | .ok t => P g t

lemma Document.exists_of_holdsOf {strategy : Strategy} {text : String}
    {P : Grammar → ParsingTable → Bool} (h : holdsOf strategy text P = true) :
    ∃ g t, Document.parse text = .ok g ∧ strategy.build g = .ok t ∧ P g t = true := by
  unfold holdsOf at h
  split at h
  · cases h
  · next g hg =>
    split at h
    · cases h
    · next t ht => exact ⟨g, t, hg, ht, h⟩

/-- Something that an evaluation says about the grammar of a document and its table by a strategy. -/
structure Document.TableFact (strategy : Strategy) (text : String) where
  property : Grammar → ParsingTable → Bool
  evaluated : Document.holdsOf strategy text property = true

lemma Document.TableFact.exists_table {strategy : Strategy} {text : String}
    (fact : TableFact strategy text) :
    ∃ g t, Document.parse text = .ok g ∧ strategy.build g = .ok t ∧ fact.property g t = true :=
  exists_of_holdsOf fact.evaluated

/-- Evaluated FIRST sets show that a grammar is open. -/
lemma Grammar.open_of_all_first
    (h : g.names.all (fun a => !(g.firstFollow.first.of a).toList.isEmpty) = true) : g.Open :=
  open_of_first (exists_first_of_all h)

namespace Strategy

/-- **Parsing with a canonical or merged table ends**, whatever the input, if something may stand
behind every name of the grammar. -/
theorem parse_terminates {text : String} (h : Document.parse text = .ok g) (hopen : g.Open)
    {strategy : Strategy} (hs : strategy ≠ simple) (ht : strategy.build g = .ok t)
    (input : List Token) : ∃ fuel outcome, t.parse fuel input = some outcome := by
  obtain ⟨production, R, hp, hd, htracks⟩ := tracks hs ht
  exact htracks.exists_run (Document.parse_ordinary h) hopen hp hd input

/-- A document with a recursive name, one that vanishes, one that derives nothing and one that is
not used; identifiers are asked for with any text and with a given text. -/
def variedDocument : String :=
  "%start Z\nZ -> S\nS -> S Identifier\n  | N\n  | `x` A\nA -> `a` A\nN -> ()\nU -> `u`\n"

/-- The merged table of the document gives an answer to the token `x`. -/
theorem parse_terminates_varied : ∃ g t, Document.parse variedDocument = .ok g ∧ g.Open ∧
    merged ≠ simple ∧ merged.build g = .ok t ∧
    ∃ fuel outcome, t.parse fuel [plainToken .identifier "x"] = some outcome := by
  have hholds : Document.holdsOf merged variedDocument (fun g _ =>
      g.names.all fun a => !(g.firstFollow.first.of a).toList.isEmpty) = true := by decide +kernel
  obtain ⟨g, t, hparse, hbuild, hfirst⟩ := Document.exists_of_holdsOf hholds
  have hopen := Grammar.open_of_all_first hfirst
  exact ⟨g, t, hparse, hopen, by simp, hbuild,
    parse_terminates hparse hopen (by simp) hbuild [plainToken .identifier "x"]⟩

/-! ### Dropped items -/

/-- Nothing begins what the symbol `Q` derives, so that nothing may stand behind `C`. -/
def droppedDocument : String :=
  "%start S\nS -> X\nX -> A C Q\nA -> B\nB -> A\n  | `c`\nC -> `z`\nQ -> Q `q`\n"

/-- Before the token `z`, the names `A` and `B` are reduced to each other. -/
def droppedCycle (t : ParsingTable) : Bool :=
  t.initial = 0 ∧ lookup t 0 (some (plainToken .identifier "c")) = .shift 4 ∧
    lookup t 4 (some (plainToken .identifier "z")) = .reduce 3 ∧
    lookup t 3 (some (plainToken .identifier "z")) = .reduce 2 ∧
    lookup t 2 (some (plainToken .identifier "z")) = .reduce 1 ∧
    t.rule? 3 = some ⟨"B", [.terminal (.literal .identifier "c")]⟩ ∧
    t.rule? 2 = some ⟨"A", [.nonTerminal "B"]⟩ ∧ t.rule? 1 = some ⟨"B", [.nonTerminal "A"]⟩ ∧
    t.goto? 0 "A" = some 2 ∧ t.goto? 0 "B" = some 3

/-- The canonical table of the document has the cycle. -/
def droppedCanonical : Document.TableFact canonical droppedDocument :=
  ⟨fun _ => droppedCycle, by decide +kernel⟩

/-- The merged table of the document has the cycle. -/
def droppedMerged : Document.TableFact merged droppedDocument :=
  ⟨fun _ => droppedCycle, by decide +kernel⟩

/-- The names `A` and `B` are reduced to each other before a token that is never shifted, because
the item that shifts it is dropped. -/
lemma endless_of_dropped {strategy : Strategy}
    (h : Document.holdsOf strategy droppedDocument (fun _ => droppedCycle) = true) :
    ∃ g t, Document.parse droppedDocument = .ok g ∧ strategy.build g = .ok t ∧
      ∀ fuel, t.parse fuel [plainToken .identifier "c", plainToken .identifier "z"] = none := by
  obtain ⟨g, t, hparse, hbuild, hcycle⟩ := Document.exists_of_holdsOf h
  obtain ⟨hinitial, hc, hz₄, hz₃, hz₂, hr₃, hr₂, hr₁, hA, hB⟩ := of_decide_eq_true hcycle
  have hshift : step t (.start t [plainToken .identifier "c", plainToken .identifier "z"]) =
      .continues ⟨4, [(0, .leaf (plainToken .identifier "c"))], [plainToken .identifier "z"],
        .start⟩ := by
    simp only [step, action, start, hinitial, List.head?_cons, hc]
    rfl
  have hreduce := step_single hz₄ hr₃ hB
    (show Tree.standsFor (.leaf (plainToken .identifier "c")) _ = true by decide) [] .start
  refine ⟨g, t, hparse, hbuild, ?_⟩
  refine run_none_of_step hshift (run_none_of_step hreduce fun fuel => ?_)
  exact (run_none_of_cycle hz₃ hr₂ hA hz₂ hr₁ hB .start fuel _).1

/-- **Something has to stand behind every name**: where items are dropped, parsing with a canonical
or a merged table may go on for ever. -/
theorem exists_endless_of_dropped :
    (∃ g t, Document.parse droppedDocument = .ok g ∧ canonical.build g = .ok t ∧
      ∀ fuel, t.parse fuel [plainToken .identifier "c", plainToken .identifier "z"] = none) ∧
    ∃ g t, Document.parse droppedDocument = .ok g ∧ merged.build g = .ok t ∧
      ∀ fuel, t.parse fuel [plainToken .identifier "c", plainToken .identifier "z"] = none :=
  ⟨endless_of_dropped droppedCanonical.evaluated, endless_of_dropped droppedMerged.evaluated⟩

end Strategy

end Coscript
