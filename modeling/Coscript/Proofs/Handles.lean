import Coscript.Proofs.ErrorPosition

/-!
# Built tables reduce what has been pushed

Whenever a parser with a built table is told to reduce, the trees for the rule are there: as many as
its body has symbols, and each stands for its symbol. For the states of the pushed trees are a path of
the automaton, and the complete item that the reduction is by is backed by the trees on this path. The
input does not matter for this. A token may be wrong, a reduction may be made before a terminal that
only another state of a merged group has behind it, and a token may have been shifted for its text or
for its type alone.

* `ParsingTable.CanReduce`: the trees for a rule are on top of the stack;
* `Strategy.reduces_pushed`: reductions by built tables find their trees.
-/

namespace Coscript

open Configuration

variable {g : Grammar} {production : Nat} {t : ParsingTable}
variable {I : Nat → Item Nat → Prop} {J : Nat → Item Unit → Prop}

namespace ParsingTable

/-- There is a rule in a slot, and the trees on top of the stack stand for its body, one for one. -/
def CanReduce (t : ParsingTable) (c : Configuration) (slot : Nat) : Prop :=
  ∃ p frames below, t.rule? slot = some p ∧ c.stack = frames ++ below ∧
    frames.length = p.body.length ∧ Tree.StandForAll (frames.map (·.2)).reverse p.body

/-- A handle is what a reduction takes. -/
lemma canReduce_of_handle {c : Configuration} {slot : Nat} {p : Production} {hd : Handle}
    (hrule : t.rule? slot = some p) (hhandle : c.handle? p = some hd) : t.CanReduce c slot := by
  obtain ⟨frames, hstack, hlength, hchildren, hstand, -⟩ := handle?_spec hhandle
  refine ⟨p, frames, hd.below, hrule, hstack, hlength, ?_⟩
  rw [← hchildren]
  refine Tree.standForAll_of_standFor ?_ hstand
  rw [hchildren, List.length_reverse, List.length_map, hlength]

/-- Where a parser that is on a path is told to reduce, it can. -/
lemma Grounded.canReduce (h : t.Grounded g production J) {c : Configuration} {slot : Nat}
    (hpath : t.Path c.state c.stack)
    (hderives : ∀ f ∈ c.stack, ∀ x, f.2.standsFor x = true → g.Derives x f.2)
    (hact : c.action t = .reduce slot) : t.CanReduce c slot := by
  obtain ⟨p, hd, hrule, hhandle⟩ := h.exists_handle hpath hderives hact
  exact canReduce_of_handle hrule hhandle

end ParsingTable

namespace Strategy

variable {strategy : Strategy}

/-- **Reductions by built tables find their trees**, in every configuration that a parser comes to
and whatever the input is. So a parser with a built table never reports that the table is malformed:
the only errors are unexpected tokens. -/
theorem reduces_pushed (ht : strategy.build g = .ok t) (tokens : List Token) :
    (∀ n c slot, moves t n (.start t tokens) = some c → c.action t = .reduce slot →
      t.CanReduce c slot) ∧
    ∀ fuel e, t.parse fuel tokens = some (.error e) →
      ∃ found position expected, e = .unexpectedToken found position expected := by
  obtain ⟨production, hp, hbuilt⟩ := built ht
  obtain ⟨I, hcovers⟩ := hbuilt.covers hp
  obtain ⟨J, hground⟩ := hbuilt.grounded hp
  have hpath : ∀ {n c}, moves t n (.start t tokens) = some c → t.Path c.state c.stack :=
    fun hmoves => ParsingTable.Path.moves _ .nil hmoves
  have hderives : ∀ {n c}, moves t n (.start t tokens) = some c →
      ∀ f ∈ c.stack, ∀ x, f.2.standsFor x = true → g.Derives x f.2 :=
    fun hmoves => hcovers.derives_of_pushed (ParsingTable.pushed_of_moves hmoves)
  constructor
  · intro n c slot hmoves hact
    exact hground.canReduce (hpath hmoves) (hderives hmoves) hact
  · intro fuel e hrun
    obtain ⟨k, -, hend⟩ := exists_endsAfter hrun
    obtain ⟨c, hmoves, hstep⟩ := hend.exists_moves
    obtain ⟨expected, rfl⟩ := hground.unexpected (hpath hmoves) (hderives hmoves) hstep
    exact ⟨_, _, _, rfl⟩

/-- The merged table of the document with dropped items reduces the identifier `c` before a token that
it never shifts. -/
theorem reduces_pushed_dropped : ∃ g t, Document.parse droppedDocument = .ok g ∧
    merged.build g = .ok t ∧
    (∃ n c slot, moves t n (.start t [plainToken .identifier "c", plainToken .identifier "z"]) =
      some c ∧ c.action t = .reduce slot ∧ t.CanReduce c slot) ∧
    ∀ fuel e, t.parse fuel [plainToken .identifier "c", plainToken .identifier "z"] =
      some (.error e) → ∃ found position expected, e = .unexpectedToken found position expected := by
  have hholds : Document.holdsOf merged droppedDocument (fun _ t =>
      (moves t 1 (.start t [plainToken .identifier "c", plainToken .identifier "z"])).map
        (·.action t) = some (.reduce 3)) = true := by decide +kernel
  obtain ⟨g, t, hparse, hbuild, hfacts⟩ := Document.exists_of_holdsOf hholds
  obtain ⟨c, hmoves, hact⟩ := Option.map_eq_some_iff.mp (of_decide_eq_true hfacts)
  obtain ⟨hreduce, herror⟩ := reduces_pushed hbuild
    [plainToken .identifier "c", plainToken .identifier "z"]
  exact ⟨g, t, hparse, hbuild, ⟨1, c, 3, hmoves, hact, hreduce 1 c 3 hmoves hact⟩, herror⟩

end Strategy

end Coscript
