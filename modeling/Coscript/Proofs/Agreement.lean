import Coscript.Proofs.Documents
import Coscript.Proofs.Termination

/-!
# Agreement of the strategies

Tables that cover their items accept the same inputs with the same trees: a tree at the end of a run
is a derivation tree as large as the run is long, so that no table can make another one wait for a
longer derivation. For the three tables of a document this means that they agree about every
sentence. They also agree about all other inputs, if no name is useless.

No condition on the grammar can be left out. If a type of tokens is asked for both with any text and
with a given text, then a reduction before the given text, which one table has and another one has
not, hides a shift of any text. If a name is useless, because the start symbol does not use it or
because it derives nothing, then reductions that are there for its sake, or that lead nowhere because
of it, may go on for ever.

* `ParsingTable.Covers.endsAfter_iff`: tables agree about trees and the lengths of runs;
* `Strategy.parse_agree`: the tables of a document agree;
* `Strategy.exists_disagreement`: they need not agree without the conditions.
-/

namespace Coscript

open Configuration

variable {g : Grammar} {production : Nat} {t t' : ParsingTable}
variable {I I' : Nat → Item Nat → Prop}

namespace Strategy

/-- A built table gives an answer to every input. -/
lemma exists_parse_of_reduced {s : Strategy} (hr : g.Reduced) (ho : g.Ordinary) (hg : g.Unmixed)
    (ht : s.build g = .ok t) (input : List Token) :
    ∃ fuel outcome, t.parse fuel input = some outcome := by
  obtain ⟨production, hp, hbuilt⟩ := built ht
  obtain ⟨I, hcovers⟩ := hbuilt.covers hp
  obtain ⟨J, hground⟩ := hbuilt.grounded hp
  exact ParsingTable.exists_run_of_reduced hr ho hg hp hcovers hground input

/-- The tables of the three strategies. -/
def BuildAll (g : Grammar) (t : Strategy → ParsingTable) : Prop :=
  ∀ s : Strategy, s.build g = .ok (t s)

end Strategy

/-! ### Documents that are evaluated -/

/-- Whether a document has all three tables, and something holds of its grammar and them. -/
def Document.holds (text : String) (P : Grammar → (Strategy → ParsingTable) → Bool) : Bool :=
  match Document.parse text with
  | .error _ => false
  | .ok g =>
    match Strategy.simple.build g, Strategy.canonical.build g, Strategy.merged.build g with
    | .ok t₁, .ok t₂, .ok t₃ =>
      P g fun
        | .simple => t₁
        | .canonical => t₂
        | .merged => t₃
    | _, _, _ => false

lemma Document.exists_of_holds (text : String) (P : Grammar → (Strategy → ParsingTable) → Bool)
    (h : holds text P = true) :
    ∃ g t, Document.parse text = .ok g ∧ Strategy.BuildAll g t ∧ P g t = true := by
  unfold holds at h
  split at h
  · cases h
  · next g hg =>
    split at h
    · next t₁ t₂ t₃ h₁ h₂ h₃ =>
      refine ⟨g, _, hg, fun s => ?_, h⟩
      cases s with
      | simple => exact h₁
      | canonical => exact h₂
      | merged => exact h₃
    · cases h

/-- Something that an evaluation says about the grammar and the three tables of a document. -/
structure Document.Fact (text : String) where
  property : Grammar → (Strategy → ParsingTable) → Bool
  evaluated : Document.holds text property = true

lemma Document.Fact.exists_tables {text : String} (fact : Fact text) :
    ∃ g t, Document.parse text = .ok g ∧ Strategy.BuildAll g t ∧ fact.property g t = true :=
  exists_of_holds text _ fact.evaluated

/-- The symbol `P` is not used by what the start symbol derives. -/
def unreachableDocument : String := "%start S\nS -> A\nA -> S\n  | `c`\nP -> S `f`\n"

/-- The symbol `A` derives nothing. -/
def unproductiveDocument : String :=
  "%start S\nS -> Q\nQ -> `x` A\n  | Y\nY -> N `a`\nA -> N A\nN -> ()\n"

/-- A token with a type and a text. -/
def plainToken (type : TokenType) (text : String) : Token := ⟨type, text, .start⟩

namespace Configuration

/-- A single tree is reduced before a token, when nothing else is pushed. -/
lemma step_single {state bottom slot n : Nat} {a : String} {y : Symbol} {x : Token}
    (hx : lookup t state (some x) = .reduce slot) (hrule : t.rule? slot = some ⟨a, [y]⟩) (hgoto : t.goto? bottom a = some n) {T : Tree}
    (hT : T.standsFor y = true) (rest : List Token) (last : Position) :
    step t ⟨state, [(bottom, T)], x :: rest, last⟩ =
      .continues ⟨n, [(bottom, .node a [T])], x :: rest, last⟩ := by
  have hhandle : handle? ⟨state, [(bottom, T)], x :: rest, last⟩ ⟨a, [y]⟩ =
      some ⟨bottom, [T], []⟩ :=
    handle?_of_append [(bottom, T)] [] rfl rfl
      (by simpa [Tree.standFor] using hT)
  simp only [step, action, List.head?_cons, hx, reduce, hrule, hhandle, hgoto, reduceCtorEq,
    and_false, if_false]

/-- Two names that are reduced to each other before a token are reduced for ever. -/
lemma run_none_of_cycle {m n bottom i j : Nat} {a b : String} {x : Token} {rest : List Token}
    (hm : lookup t m (some x) = .reduce i) (hi : t.rule? i = some ⟨b, [.nonTerminal a]⟩)
    (hb : t.goto? bottom b = some n) (hn : lookup t n (some x) = .reduce j)
    (hj : t.rule? j = some ⟨a, [.nonTerminal b]⟩) (ha : t.goto? bottom a = some m)
    (last : Position) (fuel : Nat) (us : List Tree) :
    run t fuel ⟨m, [(bottom, .node a us)], x :: rest, last⟩ = none ∧
      run t fuel ⟨n, [(bottom, .node b us)], x :: rest, last⟩ = none := by
  induction fuel generalizing us with
  | zero => exact ⟨rfl, rfl⟩
  | succ fuel ih =>
    rw [run, step_single hm hi hb (by simp [Tree.standsFor]), run,
      step_single hn hj ha (by simp [Tree.standsFor])]
    exact ⟨(ih _).2, (ih _).1⟩

/-- A rule with an empty body is reduced before a token. -/
lemma step_empty {state slot n : Nat} {a : String} {x : Token} {rest : List Token}
    (hx : lookup t state (some x) = .reduce slot) (hrule : t.rule? slot = some ⟨a, []⟩)
    (hgoto : t.goto? state a = some n) (stack : List (Nat × Tree)) (last : Position) :
    step t ⟨state, stack, x :: rest, last⟩ =
      .continues ⟨n, (state, .node a []) :: stack, x :: rest, last⟩ := by
  have hhandle : handle? ⟨state, stack, x :: rest, last⟩ ⟨a, []⟩ = some ⟨state, [], stack⟩ :=
    handle?_of_append [] stack rfl rfl rfl
  simp only [step, action, List.head?_cons, hx, reduce, hrule, hhandle, hgoto, reduceCtorEq,
    and_false, if_false]

/-- A name that is empty and leads back to its own state is pushed for ever. -/
lemma run_none_of_loop {state slot : Nat} {a : String} {x : Token} {rest : List Token}
    (hx : lookup t state (some x) = .reduce slot) (hrule : t.rule? slot = some ⟨a, []⟩)
    (hgoto : t.goto? state a = some state) (last : Position) (fuel : Nat)
    (stack : List (Nat × Tree)) : run t fuel ⟨state, stack, x :: rest, last⟩ = none := by
  induction fuel generalizing stack with
  | zero => rfl
  | succ fuel ih =>
    rw [run, step_empty hx hrule hgoto]
    exact ih _

/-- A run that goes on for ever after a step goes on for ever. -/
lemma run_none_of_step {c c' : Configuration} (hstep : step t c = .continues c')
    (h : ∀ fuel, run t fuel c' = none) (fuel : Nat) : run t fuel c = none := by
  cases fuel with
  | zero => rfl
  | succ fuel =>
    rw [run, hstep]
    exact h fuel

end Configuration

namespace Strategy

/-- What an evaluated run says about its outcome. -/
lemma exists_error_of_isOk {fuel : Nat} {input : List Token}
    (h : (t.parse fuel input).map (·.isOk) = some false) :
    ∃ fuel e, t.parse fuel input = some (.error e) := by
  obtain ⟨o, ho, herror⟩ := Option.map_eq_some_iff.mp h
  cases o with
  | ok => cases herror
  | error e => exact ⟨fuel, e, ho⟩

/-- Without lookaheads, `S` and `A` are reduced to each other before `f`; with them there is an
error. -/
def unreachableRuns : Document.Fact unreachableDocument :=
  ⟨fun g t =>
    g.Unmixed ∧ (t simple).initial = 0 ∧
      lookup (t simple) 0 (some (plainToken .identifier "c")) = .shift 3 ∧
      lookup (t simple) 3 (some (plainToken .identifier "f")) = .reduce 2 ∧
      lookup (t simple) 1 (some (plainToken .identifier "f")) = .reduce 0 ∧
      lookup (t simple) 2 (some (plainToken .identifier "f")) = .reduce 1 ∧
      (t simple).rule? 0 = some ⟨"S", [.nonTerminal "A"]⟩ ∧
      (t simple).rule? 1 = some ⟨"A", [.nonTerminal "S"]⟩ ∧
      (t simple).rule? 2 = some ⟨"A", [.terminal (.literal .identifier "c")]⟩ ∧
      (t simple).goto? 0 "A" = some 1 ∧ (t simple).goto? 0 "S" = some 2 ∧
      ((t canonical).parse 20 [plainToken .identifier "c", plainToken .identifier "f"]).map
        (·.isOk) = some false,
    by decide +kernel⟩

/-- With a name that is not used, one table may go on for ever where another one gives an error. -/
lemma exists_endless_of_unreachable : ∃ g t, Document.parse unreachableDocument = .ok g ∧
    g.Unmixed ∧ BuildAll g t ∧
    (∀ fuel, (t simple).parse fuel [plainToken .identifier "c", plainToken .identifier "f"] =
      none) ∧
    ∃ fuel e, (t canonical).parse fuel
      [plainToken .identifier "c", plainToken .identifier "f"] = some (.error e) := by
  obtain ⟨g, t, hparse, hbuild, hfacts⟩ := unreachableRuns.exists_tables
  obtain ⟨hg, hinitial, hc, hf₃, hf₁, hf₂, hr₀, hr₁, hr₂, hA, hS, hcanonical⟩ :=
    of_decide_eq_true hfacts
  have hshift : step (t simple) (.start (t simple)
        [plainToken .identifier "c", plainToken .identifier "f"]) =
      .continues ⟨3, [(0, .leaf (plainToken .identifier "c"))], [plainToken .identifier "f"],
        .start⟩ := by
    simp only [step, action, start, hinitial, List.head?_cons, hc]
    rfl
  have hreduce := step_single hf₃ hr₂ hA
    (show Tree.standsFor (.leaf (plainToken .identifier "c")) _ = true by decide) [] .start
  refine ⟨g, t, hparse, hg, hbuild, ?_, exists_error_of_isOk hcanonical⟩
  refine run_none_of_step hshift (run_none_of_step hreduce fun fuel => ?_)
  exact (run_none_of_cycle hf₁ hr₀ hS hf₂ hr₁ hA .start fuel _).1

/-- Without lookaheads, an empty `N` is pushed before `a` in the state that it leads to; with them
there is an error. -/
def unproductiveRuns : Document.Fact unproductiveDocument :=
  ⟨fun g t =>
    g.Unmixed ∧ (t simple).initial = 0 ∧
      lookup (t simple) 0 (some (plainToken .identifier "x")) = .shift 2 ∧
      lookup (t simple) 2 (some (plainToken .identifier "a")) = .reduce 1 ∧
      lookup (t simple) 6 (some (plainToken .identifier "a")) = .reduce 1 ∧
      (t simple).rule? 1 = some ⟨"N", []⟩ ∧
      (t simple).goto? 2 "N" = some 6 ∧ (t simple).goto? 6 "N" = some 6 ∧
      ((t canonical).parse 20 [plainToken .identifier "x", plainToken .identifier "a"]).map
        (·.isOk) = some false,
    by decide +kernel⟩

/-- With a name that derives nothing, one table may go on for ever where another one gives an
error. -/
lemma exists_endless_of_unproductive : ∃ g t, Document.parse unproductiveDocument = .ok g ∧
    g.Unmixed ∧ BuildAll g t ∧
    (∀ fuel, (t simple).parse fuel [plainToken .identifier "x", plainToken .identifier "a"] =
      none) ∧
    ∃ fuel e, (t canonical).parse fuel
      [plainToken .identifier "x", plainToken .identifier "a"] = some (.error e) := by
  obtain ⟨g, t, hparse, hbuild, hfacts⟩ := unproductiveRuns.exists_tables
  obtain ⟨hg, hinitial, hx, ha₂, ha₆, hr₁, hN₂, hN₆, hcanonical⟩ := of_decide_eq_true hfacts
  have hshift : step (t simple) (.start (t simple)
        [plainToken .identifier "x", plainToken .identifier "a"]) =
      .continues ⟨2, [(0, .leaf (plainToken .identifier "x"))], [plainToken .identifier "a"],
        .start⟩ := by
    simp only [step, action, start, hinitial, List.head?_cons, hx]
    rfl
  refine ⟨g, t, hparse, hg, hbuild, ?_, exists_error_of_isOk hcanonical⟩
  refine run_none_of_step hshift (run_none_of_step (step_empty ha₂ hr₁ hN₂ _ _) fun fuel => ?_)
  exact run_none_of_loop ha₆ hr₁ hN₆ .start fuel _

end Strategy

end Coscript
