import Coscript.Proofs.Acceptance
import Coscript.Proofs.Settling

/-!
# Which scripts are compiled

A script is compiled just if it has a parse tree and this tree can be compiled: its operators are
registered, its constants fit, its calls have at most 255 arguments and its functions have different
names. Otherwise a script that is parsed is refused with one of the faults of its tree.

* `Script.settles_compileTree`: the compilation of a tree is settled by its faults;
* `Script.compilesTo_iff`: which source texts are compiled, and what the others are refused with.
-/

namespace Coscript.Script

open Elaboration

variable {o : Operators} {g : Grammar}

/-! ### Files -/

/-- What is compiled of declarations is settled by the faults in them and the repeated names. -/
lemma settles_addAll {ts : List Tree} (hts : ∀ u ∈ ts, Declares o u) (file : String) (j : Journal)
    (d : Draft) :
    Settles (Draft.addAll o file ts j d).2
      (ts.flatMap (faults o) ++
        (repeated d.functions.keys (ts.flatMap Tree.definedNames)).map duplicate) := by
  induction ts generalizing j d with
  | nil => rfl
  | cons u ts ih =>
    obtain ⟨hu, hts⟩ := List.forall_mem_cons.mp hts
    have hsettles := hu.settles
    rw [List.flatMap_cons, List.flatMap_cons, Draft.addAll]
    split
    · next e he =>
      rw [he] at hsettles
      exact List.mem_append_left _ (List.mem_append_left _ hsettles)
    · next s hs =>
      rw [hs] at hsettles
      rw [show faults o u = [] from hsettles, hu.statement s hs, List.nil_append, List.nil_append]
      exact ih hts j _
    · next f hf =>
      rw [hf] at hsettles
      obtain ⟨x, hnames, hname, hline⟩ := hu.function f hf
      rw [show faults o u = [] from hsettles, hnames, List.nil_append, List.singleton_append,
        repeated]
      have hcontains : d.functions.contains f.name = true ↔ x.text ∈ d.functions.keys := by
        rw [OrderedMap.contains, Option.isSome_iff_ne_none, ne_eq, OrderedMap.get?_eq_none_iff,
          not_not, hname]
      have hadd : d.addFunction (f.function file) f.line =
          if d.functions.contains f.name then .error (.duplicateFunction f.name f.line)
          else .ok { d with functions := d.functions.insert f.name (f.function file) } := rfl
      dsimp only
      rw [hadd]
      by_cases hgiven : x.text ∈ d.functions.keys
      · rw [if_pos hgiven, if_pos (hcontains.mpr hgiven), hname, hline, List.map_cons]
        exact List.mem_append_right _ List.mem_cons_self
      · rw [if_neg hgiven, if_neg (mt hcontains.mp hgiven)]
        have hkeys : (d.functions.insert f.name (f.function file)).keys =
            d.functions.keys ++ [x.text] := by
          rw [OrderedMap.keys_insert_of_not_mem (hname ▸ hgiven), hname]
        rw [← hkeys]
        exact ih hts _ { d with functions := d.functions.insert f.name (f.function file) }

/-- **Scripts are compiled unless there are faults in them.** -/
theorem settles_compileTree (hg : grammar = .ok g) {tree : Tree}
    (h : g.Derives (part "Program") tree) (file : String) (j : Journal) :
    Settles (compileTree o file tree j).2 (scriptFaults o tree) := by
  obtain ⟨ds, hds, rfl⟩ := derives_program hg h
  have hfaults : faults o (.node "Program" [ds]) =
      (items ["Declarations"] ds).flatMap (faults o) := by
    rw [faults_of_not_watched (by decide), List.flatMap_singleton,
      faults_list ["Declarations"] (by decide) (by decide) hds]
  have hnames : (Tree.node "Program" [ds]).definedNames =
      (items ["Declarations"] ds).flatMap Tree.definedNames := by
    obtain ⟨ts, rfl⟩ := exists_node hds
    rw [definedNames_node, List.flatMap_singleton,
      definedNames_items (show "Function" ∉ ["Declarations"] by decide) (by decide)]
    rfl
  have hdeclares : ∀ u ∈ items ["Declarations"] ds, Declares o u := fun u hu =>
    declares hg (derives_of_mem_items hg _ (part "Declaration") (by decide) hds hu)
  have hadd := settles_addAll hdeclares file j .empty
  rw [scriptFaults, hfaults, hnames]
  exact hadd.map fun d => d.finish file

/-- The errors that a script which is parsed can be refused with. -/
def CompileError.OfScript : CompileError → Prop
  | .unknownOperator _ _ | .invalidConstant _ _ _ | .tooManyArguments _ _
  | .duplicateFunction _ _ => True
  | .lexical _ | .parse _ | .unsupported _ => False

lemma ofScript_of_fault? {u : Tree} {e : CompileError} (h : fault? o u = some e) : e.OfScript := by
  unfold fault? at h
  split at h
  · split at h <;> cases h
    trivial
  · split at h <;> cases h
    trivial
  · split at h <;> cases h
    trivial
  · split at h
    · split at h <;> cases h
      trivial
    · split at h <;> cases h
      trivial
    · cases h
  · cases h

lemma ofScript_of_mem {tree : Tree} {e : CompileError} (he : e ∈ scriptFaults o tree) :
    e.OfScript := by
  rcases List.mem_append.mp he with he | he
  · obtain ⟨u, -, hu⟩ := List.mem_filterMap.mp he
    exact ofScript_of_fault? hu
  · obtain ⟨x, -, rfl⟩ := List.mem_map.mp he
    trivial

/-- A source text is lexed and parsed, and has a tree. -/
def HasParseTree (t : ParsingTable) (source : String) (tree : Tree) : Prop :=
  ∃ fuel tokens, Lexer.tokenize .script source = .ok tokens ∧
    t.parse fuel tokens = some (.ok tree)

/-- The compilation of a source text ends with a compiled file or an error. -/
def CompilesTo (t : ParsingTable) (o : Operators) (file source : String) (j : Journal)
    (r : Except CompileError CompiledFile) : Prop :=
  ∃ fuel j', compile fuel t o file source j = some (j', r)

variable {table : ParsingTable} {file source : String} {j : Journal}

lemma HasParseTree.unique {tree tree' : Tree} (h : HasParseTree table source tree)
    (h' : HasParseTree table source tree') : tree = tree' := by
  obtain ⟨fuel, tokens, htokens, hparse⟩ := h
  obtain ⟨fuel', tokens', htokens', hparse'⟩ := h'
  cases htokens.symm.trans htokens'
  have hmore := Configuration.run_mono hparse (le_max_left fuel fuel')
  have hmore' := Configuration.run_mono hparse' (le_max_right fuel fuel')
  cases hmore.symm.trans hmore'
  rfl

section

variable {strategy : Strategy}

/-- The tree of a source text is a derivation tree of a program. -/
lemma HasParseTree.derives (hg : grammar = .ok g) (ht : strategy.build g = .ok table) {tree : Tree}
    (h : HasParseTree table source tree) : g.Derives (part "Program") tree := by
  obtain ⟨fuel, tokens, -, hparse⟩ := h
  obtain ⟨production, hp, hbuilt⟩ := Strategy.built ht
  obtain ⟨I, hcovers⟩ := hbuilt.covers hp
  obtain ⟨k, -, hend⟩ := Configuration.exists_endsAfter hparse
  obtain ⟨hderives, -, -⟩ := hcovers.sound hp hend
  rwa [start_eq hg] at hderives

/-- Every compilation ends. -/
lemma exists_compilesTo (hg : grammar = .ok g) (ht : strategy.build g = .ok table)
    (o : Operators) (file source : String) (j : Journal) :
    ∃ r, CompilesTo table o file source j r := by
  obtain ⟨fuel, ⟨j', r⟩, h⟩ : ∃ fuel x, compile fuel table o file source j = some x := by
    cases htokens : Lexer.tokenize .script source with
    | error e => exact ⟨0, _, by rw [compile, htokens]⟩
    | ok tokens =>
      obtain ⟨fuel, outcome, hparse⟩ := exists_parse hg ht tokens
      refine ⟨fuel, ?_⟩
      rw [compile, htokens]
      simp only [hparse]
      cases outcome <;> exact ⟨_, rfl⟩
  exact ⟨r, fuel, j', h⟩

/-- Where a source text has a tree, its compilation is settled by the faults of the tree, and
otherwise it fails. -/
lemma CompilesTo.settles (hg : grammar = .ok g) (ht : strategy.build g = .ok table)
    {r : Except CompileError CompiledFile} (h : CompilesTo table o file source j r) :
    (∃ tree, HasParseTree table source tree ∧ Settles r (scriptFaults o tree)) ∨
      ((∀ tree, ¬ HasParseTree table source tree) ∧ ∃ e, r = .error e) := by
  obtain ⟨fuel, j', h⟩ := h
  unfold compile at h
  split at h
  · next e htokens =>
    cases h
    refine .inr ⟨?_, _, rfl⟩
    rintro tree ⟨fuel', tokens', htokens', -⟩
    cases htokens.symm.trans htokens'
  · next tokens htokens =>
    dsimp only at h
    split at h
    · cases h
    · next e hparse =>
      cases h
      refine .inr ⟨?_, _, rfl⟩
      rintro tree ⟨fuel', tokens', htokens', hparse'⟩
      cases htokens.symm.trans htokens'
      have hmore := Configuration.run_mono hparse (le_max_left fuel fuel')
      have hmore' := Configuration.run_mono hparse' (le_max_right fuel fuel')
      cases hmore.symm.trans hmore'
    · next tree hparse =>
      have htree : HasParseTree table source tree := ⟨fuel, tokens, htokens, hparse⟩
      refine .inl ⟨tree, htree, ?_⟩
      have hsettles := settles_compileTree (o := o) hg (htree.derives hg ht) file
        ((j.noteMany .trace fun _ => table.parseLog fuel tokens).note .debug
          fun _ => s!"parsed {file}")
      rwa [Option.some.inj h] at hsettles

end

/-- **Which scripts are compiled.** There is a table of the language by each strategy, with which
every compilation ends. A source text is compiled just if it has a parse tree and this tree can be
compiled. If it has a parse tree that cannot be compiled, then the error is one of those of the
tree: an unknown operator, an invalid constant, too many arguments, or a second function with the
same name. -/
theorem compilesTo_iff : ∃ t : Strategy → ParsingTable,
    (∀ s j, (constructTable s j).2 = .ok (t s)) ∧
      ∀ s o file source j, (∃ r, CompilesTo (t s) o file source j r) ∧
        ∀ r, CompilesTo (t s) o file source j r →
          ((∃ c, r = .ok c) ↔ ∃ tree, HasParseTree (t s) source tree ∧ Compilable o tree) ∧
          ∀ tree, HasParseTree (t s) source tree → ¬ Compilable o tree →
            ∃ e, r = .error e ∧ e ∈ scriptFaults o tree ∧ e.OfScript := by
  obtain ⟨g, t, hg, ht⟩ := exists_tables
  refine ⟨t, fun s j => ?_, fun s o file source j =>
    ⟨exists_compilesTo hg (ht s) o file source j, fun r hr => ?_⟩⟩
  · rw [constructTable, hg]
    exact constructTableOf_eq_ok j (ht s)
  rcases hr.settles hg (ht s) with ⟨tree, htree, hsettles⟩ | ⟨hnone, e, rfl⟩
  · refine ⟨⟨?_, ?_⟩, ?_⟩
    · rintro ⟨c, rfl⟩
      exact ⟨tree, htree, compilable_iff.mpr hsettles⟩
    · rintro ⟨tree', htree', hcompilable⟩
      cases htree.unique htree'
      cases r with
      | ok c => exact ⟨c, rfl⟩
      | error e =>
        have he : e ∈ scriptFaults o tree := hsettles
        rw [compilable_iff.mp hcompilable] at he
        cases he
    · intro tree' htree' hnot
      cases htree.unique htree'
      cases r with
      | ok c => exact absurd (compilable_iff.mpr hsettles) hnot
      | error e => exact ⟨e, rfl, hsettles, ofScript_of_mem hsettles⟩
  · refine ⟨⟨?_, ?_⟩, fun tree htree => absurd htree (hnone tree)⟩
    · rintro ⟨c, hc⟩
      cases hc
    · rintro ⟨tree, htree, -⟩
      exact absurd htree (hnone tree)

end Coscript.Script
