import Coscript.Proofs.Admissible
import Coscript.Proofs.FollowTermination
import Coscript.Proofs.Phrases

/-!
# Parsing scripts

The tables of the language, one for each strategy, parse the programs and nothing else, and they
make the same trees of them. On other tokens they give errors. The grammar is not unmixed, so this
does not follow from what holds of the tables of unmixed grammars: that a program has a tree at all
depends on how assignments are read.

* `Script.parse_of_program`: a table of the language makes the preferred tree of a program;
* `Script.program_of_parse`: what it makes a tree of is a program;
* `Script.parse_iff_program`: the tokens that are parsed are those of programs.
-/

namespace Coscript

namespace Script

variable {g : Grammar} {t : ParsingTable}

/-- **A table of the language makes the preferred tree of a program.** -/
theorem parse_of_program (hg : grammar = .ok g) {strategy : Strategy}
    (ht : strategy.build g = .ok t) {T : Tree} (hT : g.Derives (.nonTerminal g.start) T)
    (hpreferred : T.Preferred []) {fuel : Nat} (hfuel : T.size ≤ fuel) : t.parse fuel T.word = some (.ok T) := by
  obtain ⟨production, hp, hbuilt⟩ := Strategy.built ht
  obtain ⟨I, hcovers⟩ := hbuilt.covers hp
  obtain ⟨J, hground⟩ := hbuilt.grounded hp
  have hstart : ∀ i p, g.production? i = some p → .nonTerminal g.start ∉ p.body := by
    have hall : ∀ p ∈ productions, .nonTerminal "Program" ∉ p.body := by decide
    rw [start_eq hg]
    exact fun i p hi => hall p (mem_productions hg hi)
  have hfollows : t.Follows g t.initial (.nonTerminal g.start) T [] := by
    refine follows hg hp hcovers hground hT (show t.Entered g J none t.initial from rfl) hpreferred
      fun hoperand => ?_
    rw [start_eq hg] at hoperand
    exact absurd hoperand (by decide)
  have hend := hcovers.ends_along hground hp hstart hfollows
  refine Configuration.run_mono hend.2 ?_
  obtain ⟨i, p, ts, -, -, rfl, -⟩ := hT.isNode
  rw [Tree.size] at hfuel ⊢
  omega

/-- **What a table of the language makes a tree of is a program.** -/
theorem program_of_parse (hg : grammar = .ok g) {strategy : Strategy}
    (ht : strategy.build g = .ok t) {tokens : List Token} {fuel : Nat} {tree : Tree}
    (h : t.parse fuel tokens = some (.ok tree)) : IsProgram tokens := by
  obtain ⟨production, hp, hbuilt⟩ := Strategy.built ht
  obtain ⟨I, hcovers⟩ := hbuilt.covers hp
  obtain ⟨k, -, hend⟩ := Configuration.exists_endsAfter h
  obtain ⟨hderives, rfl, -⟩ := hcovers.sound hp hend
  exact program_of_derives hg hderives

/-- A table of the language makes no other tree of a program. -/
lemma eq_of_parse (hg : grammar = .ok g) {strategy : Strategy} (ht : strategy.build g = .ok t)
    {T : Tree} (hT : g.Derives (.nonTerminal g.start) T) (hpreferred : T.Preferred []) {fuel : Nat}
    {tree : Tree} (h : t.parse fuel T.word = some (.ok tree)) : tree = T := by
  have htree := parse_of_program hg ht hT hpreferred (le_max_right fuel T.size)
  have h := Configuration.run_mono h (le_max_left fuel T.size)
  cases h.symm.trans htree
  rfl

/-! ### Answers to every input -/

/-- Whether names are used by the productions of names that come before them. -/
def usedAfter : List String → List String → Bool
  | _, [] => true
  | before, a :: names =>
    (productions.any fun p => p.name ∈ before ∧ part a ∈ p.body) && usedAfter (a :: before) names

lemma reachable_of_usedAfter (hg : grammar = .ok g) {before names : List String}
    (hbefore : ∀ a ∈ before, g.Reachable a) (h : usedAfter before names = true) :
    ∀ a ∈ names, g.Reachable a := by
  induction names generalizing before with
  | nil => simp
  | cons a names ih =>
    obtain ⟨hused, hrest⟩ := Bool.and_eq_true_iff.mp h
    obtain ⟨p, hp, hmem⟩ := List.any_eq_true.mp hused
    obtain ⟨hname, hbody⟩ := of_decide_eq_true hmem
    obtain ⟨i, hi⟩ := exists_production hg hp
    have ha : g.Reachable a := .body (hbefore _ hname) hi rfl hbody
    exact List.forall_mem_cons.mpr ⟨ha, ih (List.forall_mem_cons.mpr ⟨ha, hbefore⟩) hrest⟩

/-- The names of the productions, without that of the first one. -/
def laterNames : List String := productions.tail.map (·.name)

lemma reachable (hg : grammar = .ok g) : ∀ a ∈ g.names, g.Reachable a := by
  have hstart : ∀ a ∈ [g.start], g.Reachable a := by
    intro a ha
    rw [List.mem_singleton.mp ha]
    exact .start
  have hused : usedAfter [g.start] laterNames = true := by
    rw [start_eq hg]
    decide
  have hnames : ∀ p ∈ productions, p.name ∈ [g.start] ++ laterNames := by
    rw [start_eq hg]
    decide
  intro a ha
  obtain ⟨i, p, hi, rfl⟩ := Grammar.mem_names_iff.mp ha
  exact (List.mem_append.mp (hnames p (mem_productions hg hi))).elim (hstart p.name)
    (reachable_of_usedAfter hg hstart hused p.name)

lemma grammar_open (hg : grammar = .ok g) : g.Open :=
  Grammar.open_of_all_first (of_build
    (P := fun g => g.names.all fun a => !(g.firstFollow.first.of a).toList.isEmpty) hg
    (by decide +kernel))

/-- A table of the language gives an answer to every input. -/
lemma exists_parse (hg : grammar = .ok g) {strategy : Strategy} (ht : strategy.build g = .ok t)
    (input : List Token) : ∃ fuel outcome, t.parse fuel input = some outcome := by
  have hparse : Document.parse document = .ok g := by
    unfold grammar at hg
    exact hg
  by_cases hs : strategy = .simple
  · subst hs
    exact Strategy.parse_terminates_simple hparse (grammar_open hg) (reachable hg) ht input
  · exact Strategy.parse_terminates hparse (grammar_open hg) hs ht input

/-! ### The language that is parsed -/

/-- There is a table by each strategy. -/
lemma exists_tables : ∃ (g : Grammar) (t : Strategy → ParsingTable), grammar = .ok g ∧
    Strategy.BuildAll g t := by
  obtain ⟨g, t₁, hg, ht₁, -⟩ := exists_of_readsExample readsExample_grammar
  obtain ⟨t₂, ht₂⟩ := Strategy.exists_table_of_simple ht₁
  obtain ⟨t₃, ht₃⟩ := Strategy.exists_table_of_merged ht₂
  have hall : ∀ s : Strategy, ∃ t, s.build g = .ok t := by
    intro s
    cases s with
    | simple => exact ⟨t₁, ht₁⟩
    | canonical => exact ⟨t₃, ht₃⟩
    | merged => exact ⟨t₂, ht₂⟩
  obtain ⟨t, ht⟩ := Classical.skolem.mp hall
  exact ⟨g, t, hg, ht⟩

/-- **The tables of the language parse programs and nothing else**, whatever strategy they are
constructed by. They give an answer to every input, and all of them make the same tree of a
program. -/
theorem parse_iff_program : ∃ t : Strategy → ParsingTable,
    (∀ s j, (constructTable s j).2 = .ok (t s)) ∧
      ∀ tokens, (∀ s, (∃ fuel tree, (t s).parse fuel tokens = some (.ok tree)) ↔ IsProgram tokens) ∧
        (∀ s, ∃ fuel outcome, (t s).parse fuel tokens = some outcome) ∧
          ∀ s s' fuel fuel' tree tree', (t s).parse fuel tokens = some (.ok tree) →
            (t s').parse fuel' tokens = some (.ok tree') → tree = tree' := by
  obtain ⟨g, t, hg, ht⟩ := exists_tables
  refine ⟨t, fun s j => ?_, fun tokens => ?_⟩
  · rw [constructTable, hg]
    exact constructTableOf_eq_ok j (ht s)
  refine ⟨fun s => ⟨?_, fun h => ?_⟩,
    fun s => exists_parse hg (ht s) tokens, fun s s' fuel fuel' tree tree' h h' => ?_⟩
  · rintro ⟨fuel, tree, h⟩
    exact program_of_parse hg (ht s) h
  · obtain ⟨T, hT, rfl, hpreferred⟩ := exists_tree_of_program hg h
    exact ⟨T.size, T, parse_of_program hg (ht s) hT hpreferred le_rfl⟩
  · obtain ⟨T, hT, rfl, hpreferred⟩ := exists_tree_of_program hg (program_of_parse hg (ht s) h)
    rw [eq_of_parse hg (ht s) hT hpreferred h, eq_of_parse hg (ht s') hT hpreferred h']

end Script

end Coscript
