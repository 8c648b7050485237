import Coscript.Proofs.Derivation
import Coscript.Proofs.Moves

/-!
# Trees that a parser makes

Whatever a table says, also where it contradicts itself, a parser checks the trees that it replaces
and drops no token. So a tree at the end of a run is made by the table's rules, its root by the
default rule, and its leaves are the input.

* `ParsingTable.Makes`: the trees that are made by the rules of a table;
* `ParsingTable.Pushed`: what every configuration of a run keeps;
* `ParsingTable.parse_made`: a tree at the end of a run is made by the default rule of the input.
-/

namespace Coscript

namespace Tree

/-- Trees stand for symbols, one for one. -/
def StandForAll (ts : List Tree) (xs : List Symbol) : Prop :=
  List.Forall₂ (fun u x => u.standsFor x = true) ts xs

lemma standForAll_of_standFor {ts : List Tree} {xs : List Symbol} (hlength : ts.length = xs.length)
    (h : standFor ts xs = true) : StandForAll ts xs := by
  induction ts generalizing xs with
  | nil =>
    obtain rfl := List.eq_nil_of_length_eq_zero hlength.symm
    exact .nil
  | cons t ts ih =>
    cases xs with
    | nil => cases hlength
    | cons x xs =>
      obtain ⟨ht, hts⟩ := Bool.and_eq_true_iff.mp h
      exact .cons ht (ih (Nat.succ.inj hlength) hts)

end Tree

namespace ParsingTable

/-- The trees that are made by the rules of a table: an inner node has the name of a rule, and its
children stand for the symbols of the rule's body, one for one. -/
inductive Makes (t : ParsingTable) : Tree → Prop
  | leaf (x : Token) : Makes t (.leaf x)
  | node {slot : Nat} {p : Production} {ts : List Tree} (hrule : t.rule? slot = some p)
    (hstand : Tree.StandForAll ts p.body) (h : ∀ u ∈ ts, Makes t u) : Makes t (.node p.name ts)

/-- What is pushed after some moves: trees that the table makes, as large as the moves are many,
with the tokens of the input that are not left. -/
structure Pushed (t : ParsingTable) (input : List Token) (n : Nat) (c : Configuration) : Prop where
  made : ∀ f ∈ c.stack, t.Makes f.2
  word : Tree.wordAll (c.stack.map (·.2)).reverse ++ c.rest = input
  size : Tree.sizeAll (c.stack.map (·.2)).reverse = n

section

open Configuration

variable {t : ParsingTable} {input : List Token} {n : Nat} {c c' : Configuration}

lemma pushed_start (t : ParsingTable) (input : List Token) : t.Pushed input 0 (.start t input) :=
  ⟨fun _ hf => absurd hf List.not_mem_nil, rfl, rfl⟩

/-- The handle of a rule is made into a tree, and what is below it stays. -/
lemma Pushed.reduce (hc : t.Pushed input n c) {slot : Nat} {p : Production} {hd : Handle}
    (hrule : t.rule? slot = some p) (hhandle : c.handle? p = some hd) :
    Tree.StandForAll hd.children p.body ∧ t.Makes (.node p.name hd.children) ∧
      Tree.wordAll (hd.below.map (·.2)).reverse ++ Tree.wordAll hd.children ++ c.rest = input ∧
      Tree.sizeAll (hd.below.map (·.2)).reverse + Tree.sizeAll hd.children = n ∧
      ∀ f ∈ hd.below, f ∈ c.stack := by
  obtain ⟨frames, hstack, hlength, hchildren, hstand, -⟩ := handle?_spec hhandle
  have hword := hc.word
  have hsize := hc.size
  rw [hstack, List.map_append, List.reverse_append, ← hchildren] at hword hsize
  rw [Tree.wordAll_append] at hword
  rw [Tree.sizeAll_append] at hsize
  have hall : Tree.StandForAll hd.children p.body := by
    refine Tree.standForAll_of_standFor ?_ hstand
    rw [hchildren, List.length_reverse, List.length_map, hlength]
  refine ⟨hall, .node hrule hall fun u hu => ?_, hword, hsize, fun f hf => by simp [hstack, hf]⟩
  rw [hchildren, List.mem_reverse, List.mem_map] at hu
  obtain ⟨f, hf, rfl⟩ := hu
  exact hc.made f (by simp [hstack, hf])

/-- **A move** makes a tree, and loses no token. -/
lemma Pushed.move (hc : t.Pushed input n c) (hmove : c.move? t = some c') :
    t.Pushed input (n + 1) c' := by
  rcases move?_cases hmove with
    ⟨next, x, rest, -, hrest, rfl⟩ | ⟨slot, p, hd, next, -, hrule, hhandle, -, rfl⟩
  · have hword := hc.word
    have hsize := hc.size
    rw [hrest] at hword
    refine ⟨List.forall_mem_cons.mpr ⟨.leaf x, hc.made⟩, ?_, ?_⟩
    · simpa [Tree.wordAll, Tree.word] using hword
    · simp only [List.map_cons, List.reverse_cons, Tree.sizeAll_append, Tree.sizeAll, Tree.size,
        hsize]
  · obtain ⟨-, hmade, hword, hsize, hbelow⟩ := hc.reduce hrule hhandle
    refine ⟨List.forall_mem_cons.mpr ⟨hmade, fun f hf => hc.made f (hbelow f hf)⟩, ?_, ?_⟩
    · simpa [Tree.wordAll, Tree.word] using hword
    · simp only [List.map_cons, List.reverse_cons, Tree.sizeAll_append, Tree.sizeAll, Tree.size]
      omega

/-- Several moves make trees, and lose no token. -/
lemma Pushed.moves {m : Nat} (hc : t.Pushed input n c) (hmoves : Configuration.moves t m c = some c') :
    t.Pushed input (n + m) c' := by
  induction m generalizing n c with
  | zero =>
    cases hmoves
    exact hc
  | succ m ih =>
    obtain ⟨c₁, hmove, hmoves⟩ := Option.bind_eq_some_iff.mp hmoves
    have := ih (hc.move hmove) hmoves
    rwa [Nat.add_assoc, Nat.add_comm 1 m] at this

/-- What a run has pushed. -/
lemma pushed_of_moves {m : Nat} (hmoves : Configuration.moves t m (.start t input) = some c) :
    t.Pushed input m c := by
  have := (pushed_start t input).moves hmoves
  rwa [Nat.zero_add] at this

/-- **A tree at the end of a run** is made by the default rule of the whole input, and it is as
large as the run is long. -/
theorem made_of_endsAfter {k : Nat} {tree : Tree}
    (hend : EndsAfter t k (.start t input) (.ok tree)) :
    ∃ p ts, t.rule? t.defaultRule = some p ∧ tree = .node p.name ts ∧
      Tree.StandForAll ts p.body ∧ t.Makes tree ∧ tree.word = input ∧ tree.size = k + 1 := by
  obtain ⟨c, hmoves, hstep⟩ := hend.exists_moves
  obtain ⟨p, hd, -, hrule, hhandle, hbelow, hrest, rfl⟩ := accepts_cases hstep
  obtain ⟨hstand, hmade, hword, hsize, -⟩ := (pushed_of_moves hmoves).reduce hrule hhandle
  rw [hbelow, hrest] at hword
  rw [hbelow] at hsize
  refine ⟨p, hd.children, hrule, rfl, hstand, hmade, ?_, ?_⟩
  · simpa [Tree.word, Tree.wordAll] using hword
  · simpa [Tree.size, Tree.sizeAll] using hsize

end

/-- **Whatever a table says, a tree that is parsed is made by its default rule**: the children of the
root stand for the body of this rule, every inner node is made by some rule of the table, and the
leaves are the tokens that were parsed, all of them and in their order. -/
theorem parse_made (t : ParsingTable) {tokens : List Token} {fuel : Nat} {tree : Tree}
    (h : t.parse fuel tokens = some (.ok tree)) :
    ∃ p ts, t.rule? t.defaultRule = some p ∧ tree = .node p.name ts ∧
      Tree.StandForAll ts p.body ∧ t.Makes tree ∧ tree.word = tokens := by
  obtain ⟨k, -, hend⟩ := Configuration.exists_endsAfter h
  obtain ⟨p, ts, hrule, htree, hstand, hmade, hword, -⟩ := made_of_endsAfter hend
  exact ⟨p, ts, hrule, htree, hstand, hmade, hword⟩

/-- A table that is no parser of any grammar: on an operator it goes to a state that is not there, or
reduces by a rule that is not there. -/
def malformed : ParsingTable where
  initial := 0
  rows := #[
    ⟨OrderedMap.empty.insert (.any .identifier) (.shift 1), ∅⟩,
    ⟨(OrderedMap.empty.insert .endOfInput (.reduce 1)).insert (.any .operator) (.shift 7),
      OrderedMap.empty.insert "List" 2⟩,
    ⟨(OrderedMap.empty.insert .endOfInput (.reduce 0)).insert (.any .operator) (.reduce 7), ∅⟩]
  rules := #[⟨"Input", [.terminal (.any .identifier), .nonTerminal "List"]⟩, ⟨"List", []⟩]
  defaultRule := 0

/-- The malformed table parses one identifier. -/
theorem parse_made_malformed : ∃ x tree, malformed.parse 3 [x] = some (.ok tree) ∧
    ∃ p ts, malformed.rule? malformed.defaultRule = some p ∧ tree = .node p.name ts ∧
      Tree.StandForAll ts p.body ∧ malformed.Makes tree ∧ tree.word = [x] :=
  have h : malformed.parse 3 [⟨.identifier, "x", .start⟩] =
      some (.ok (.node "Input" [.leaf ⟨.identifier, "x", .start⟩, .node "List" []])) := rfl
  ⟨_, _, h, malformed.parse_made h⟩

end ParsingTable

end Coscript
