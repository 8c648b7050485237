import Coscript.Proofs.FirstFollow

/-!
# Convergence of the FIRST and FOLLOW sets

Both families of sets are built by a loop. It repeats passes over the productions, notes in a flag
whether some set got larger, and ends behind the first pass that leaves the flag down. The loops are
described here as they run, with the flag, with no bound on the number of passes, and with a failure
where a symbol is met that the grammar does not know. They meet no such symbol and they end, with the
sets and the numbers of passes of `Grammar.firstFollow`.

The sets only grow and hold numbers of terminals of the grammar. So every pass but the last adds a
terminal to the set of some name, and the passes are at most one more than there are pairs of a name
and a terminal.

* `TerminalSets.Converges`: a loop that ends with some sets after a number of passes;
* `TerminalSets.settle_converges`: repeated passes with enough fuel are the loop, and every pass but
  the last adds a terminal;
* `Grammar.firstRound?_eq`, `Grammar.followRound?_eq`: a pass with its flag;
* `Grammar.firstFollow_converges`: both loops end, within the bound.
-/

namespace Coscript

/-! ### Sets that get larger -/

namespace TerminalSets

/-- Adds terminals to the set of a name. The flag goes up if the set gets larger. -/
def raise (name : String) (more : IdSet) (t : TerminalSets × Bool) : TerminalSets × Bool :=
  let s := t.1.grow name more
  (s, t.2 || decide ((s.of name).size ≠ (t.1.of name).size))

/-- Sets together with the flag that tells whether they are other ones than before. -/
def flagged (before s : TerminalSets) : TerminalSets × Bool := (s, decide (s ≠ before))

/-- Terminals are new to the set of a name just if the set gets larger. -/
lemma grow_eq_iff {s : TerminalSets} {a : String} {more : IdSet} :
    s.grow a more = s ↔ ((s.grow a more).of a).size = (s.of a).size := by
  constructor
  · intro h
    rw [h]
  · intro hsize
    refine Le.antisymm ⟨s.keys_grow a more, fun b n hn => ?_⟩ (s.le_grow a more)
    rcases mem_of_mem_grow hn with hold | ⟨rfl, -⟩
    · exact hold
    · rwa [IdSet.eq_of_size_le ((s.le_grow b more).2 b) hsize.le]

/-- The flag tells whether the sets are other ones than before, whatever is added to them. -/
lemma raise_flagged {before s : TerminalSets} (h : before.Le s) (a : String) (more : IdSet) :
    raise a more (flagged before s) = flagged before (s.grow a more) := by
  refine Prod.ext rfl ?_
  by_cases hs : s = before
  · subst hs
    simp only [raise, flagged, ne_eq, not_true_eq_false, decide_false, Bool.false_or, grow_eq_iff]
  · have hgrown : s.grow a more ≠ before := fun he => by
      have hle := s.le_grow a more
      rw [he] at hle
      exact hs (Le.antisymm hle h)
    simp [raise, flagged, hs, hgrown]

/-- Turns that keep the flag right, one after another. -/
lemma foldlM_flagged {α : Type} {turn? : TerminalSets × Bool → α → Option (TerminalSets × Bool)}
    {step : TerminalSets → α → TerminalSets} {before : TerminalSets} {xs : List α}
    (hturn : ∀ x ∈ xs, ∀ s, before.Le s →
      turn? (flagged before s) x = some (flagged before (step s x)))
    (hstep : ∀ x ∈ xs, ∀ s : TerminalSets, s.Le (step s x)) {s : TerminalSets} (h : before.Le s) :
    xs.foldlM turn? (flagged before s) = some (flagged before (xs.foldl step s)) := by
  induction xs generalizing s with
  | nil => rfl
  | cons x xs ih =>
    rw [List.foldlM_cons, hturn x List.mem_cons_self s h, Option.bind_eq_bind, Option.bind_some,
      List.foldl_cons]
    exact ih (fun y hy => hturn y (List.mem_cons_of_mem x hy))
      (fun y hy => hstep y (List.mem_cons_of_mem x hy)) (h.trans (hstep x List.mem_cons_self s))

/-! ### Loops -/

/-- A loop that repeats a pass until one leaves its flag down: from the sets `s` it ends with the
sets `r` after `n` passes. A loop does not end where a pass fails, nor if no pass leaves its flag
down. -/
inductive Converges (round? : TerminalSets → Option (TerminalSets × Bool)) :
    TerminalSets → TerminalSets → Nat → Prop
  | last {s r : TerminalSets} (h : round? s = some (r, false)) : Converges round? s r 1
  | again {s t r : TerminalSets} {n : Nat} (h : round? s = some (t, true))
      (rest : Converges round? t r n) : Converges round? s r (n + 1)

/-- A loop ends in one way at most. -/
lemma Converges.unique {round? : TerminalSets → Option (TerminalSets × Bool)}
    {s r r' : TerminalSets} {n n' : Nat} (h : Converges round? s r n)
    (h' : Converges round? s r' n') : r' = r ∧ n' = n := by
  induction h generalizing r' n' with
  | last hlast =>
    cases h' with
    | last hlast' =>
      cases hlast.symm.trans hlast'
      exact ⟨rfl, rfl⟩
    | again hagain => cases hlast.symm.trans hagain
  | again hagain _ ih =>
    cases h' with
    | last hlast => cases hagain.symm.trans hlast
    | again hagain' hrest =>
      cases hagain.symm.trans hagain'
      obtain ⟨rfl, rfl⟩ := ih hrest
      exact ⟨rfl, rfl⟩

/-- **Repeated passes are the loop**, given fuel for as many of them as there are pairs of a name and
a terminal left to add. Each pass but the last adds a pair. -/
theorem settle_converges {names : List String} {bound : Nat} (pass : TerminalSets → TerminalSets)
    {round? : TerminalSets → Option (TerminalSets × Bool)}
    (grows : ∀ s, s.Within names bound → s.Le (pass s) ∧ (pass s).Within names bound)
    (hround : ∀ s, s.Within names bound → round? s = some (flagged s (pass s))) :
    ∀ (fuel : Nat) (s : TerminalSets), s.Within names bound →
      names.length * bound < fuel + (s.pairs bound).card →
      Converges round? s (settle pass fuel s).1 (settle pass fuel s).2 ∧
        (settle pass fuel s).2 + (s.pairs bound).card ≤
          ((settle pass fuel s).1.pairs bound).card + 1 := by
  refine settle_induction (P := fun s r => Converges round? s r.1 r.2 ∧
    r.2 + (s.pairs bound).card ≤ (r.1.pairs bound).card + 1) grows (fun s hs he => ?_)
    fun s r hs he ⟨hrest, hcard⟩ => ?_
  · refine ⟨.last ?_, (Nat.add_comm ..).le⟩
    rw [hround s hs, he, flagged]
    simp
  · have hlt : (s.pairs bound).card < ((pass s).pairs bound).card :=
      card_pairs_lt (grows s hs).2 (grows s hs).1 he
    refine ⟨.again ?_ hrest, by dsimp only; omega⟩
    rw [hround s hs, flagged, decide_eq_true he]

end TerminalSets

open TerminalSets (raise flagged Converges foldlM_flagged raise_flagged settle_converges)

namespace Grammar

variable {g : Grammar}

/-! ### Passes with a flag -/

/-- The turn of a production in a pass for the FIRST sets. There is none if its body has a symbol
that the grammar does not know where the leading terminals are looked for. -/
def firstTurn? (g : Grammar) (t : TerminalSets × Bool) (p : Production) :
    Option (TerminalSets × Bool) :=
  match (g.leading t.1 p.body).ending with
  | .unknown _ => none
  | _ => some (raise p.name (g.firstDemand t.1 p) t)

/-- A pass for the FIRST sets, with the flag that tells whether a set got larger. -/
def firstRound? (g : Grammar) (s : TerminalSets) : Option (TerminalSets × Bool) :=
  g.productions.toList.foldlM g.firstTurn? (s, false)

/-- The turns of the names in a part of a production's body in a pass for the FOLLOW sets. There are
none if a symbol is met that the grammar does not know. -/
def followTurns? (g : Grammar) (first : TerminalSets) (name : String) :
    List Symbol → TerminalSets × Bool → Option (TerminalSets × Bool)
  | [], t => some t
  | .terminal _ :: rest, t => g.followTurns? first name rest t
  | .nonTerminal a :: rest, t =>
    let l := g.leading first rest
    match l.ending with
    | .unknown _ => none
    | .stops => g.followTurns? first name rest (raise a l.terminals t)
    | .vanishes =>
      (t.1.get? name).bind fun s =>
        g.followTurns? first name rest (raise a (l.terminals.union s) t)

/-- A pass for the FOLLOW sets, with the flag that tells whether a set got larger. -/
def followRound? (g : Grammar) (first s : TerminalSets) : Option (TerminalSets × Bool) :=
  g.productions.toList.foldlM (fun t p => g.followTurns? first p.name p.body t) (s, false)

/-- With sets for all names, no symbol of a production's body is unknown. -/
lemma ending_ne_unknown {first : TerminalSets} (hkeys : first.keys = g.names) {i : Nat}
    {p : Production} (hp : g.production? i = some p) {β : List Symbol} (hβ : ∀ x ∈ β, x ∈ p.body)
    (x : Symbol) : (g.leading first β).ending ≠ .unknown x := by
  induction β with
  | nil => simp [leading]
  | cons y β ih =>
    have ih := ih fun z hz => hβ z (List.mem_cons_of_mem y hz)
    have hy := hβ y List.mem_cons_self
    cases y with
    | terminal t =>
      obtain ⟨n, hn⟩ := exists_terminalNumber? (mem_usedTerminals_iff.mpr ⟨i, p, hp, hy⟩)
      simp [leading, hn]
    | nonTerminal a =>
      have ha : a ∈ first.keys := hkeys ▸ mem_names_of_mem_body hp hy
      rw [leading, TerminalSets.get?_of_mem_keys ha]
      dsimp only
      split
      · exact ih
      · simp

/-- The turn of a production adds what it demands. -/
lemma firstTurn?_eq {before s : TerminalSets} (hle : before.Le s) (hkeys : before.keys = g.names)
    {p : Production} (hp : p ∈ g.productions.toList) :
    g.firstTurn? (flagged before s) p =
      some (flagged before (s.grow p.name (g.firstDemand s p))) := by
  obtain ⟨i, hi⟩ := Array.mem_iff_getElem?.mp (Array.mem_toList_iff.mp hp)
  have hknown := ending_ne_unknown (hle.1 ▸ hkeys) hi (fun _ => id)
  unfold firstTurn?
  rw [raise_flagged hle]
  split
  · next x hx => exact absurd hx (hknown x)
  · rfl

/-- **A pass for the FIRST sets meets no unknown symbol**, and its flag tells whether it changed
something. -/
theorem firstRound?_eq {s : TerminalSets} (hkeys : s.keys = g.names) :
    g.firstRound? s = some (flagged s (g.firstPass s)) := by
  have hstart : (s, false) = flagged s s := by simp [flagged]
  rw [firstRound?, hstart]
  exact foldlM_flagged (fun p hp t ht => firstTurn?_eq ht hkeys hp) (fun p _ t => t.le_grow _ _)
    (.refl s)

/-- The turns of the names in a body add what is demanded at their places. -/
lemma followTurns?_eq {first before : TerminalSets} (hfirst : first.keys = g.names)
    (hkeys : before.keys = g.names) {i : Nat} {p : Production} (hp : g.production? i = some p) :
    ∀ (β : List Symbol), (∀ x ∈ β, x ∈ p.body) → ∀ s : TerminalSets, before.Le s →
      g.followTurns? first p.name β (flagged before s) =
        some (flagged before (g.followBody first p.name β s)) := by
  intro β
  induction β with
  | nil => exact fun _ _ _ => rfl
  | cons x β ih =>
    intro hβ s hle
    have hβ' : ∀ y ∈ β, y ∈ p.body := fun y hy => hβ y (List.mem_cons_of_mem x hy)
    cases x with
    | terminal t => exact ih hβ' s hle
    | nonTerminal a =>
      have hknown := ending_ne_unknown hfirst hp hβ'
      have hname : p.name ∈ s.keys := by
        rw [← hle.1, hkeys]
        exact mem_names_iff.mpr ⟨i, p, hp, rfl⟩
      have hrest (more : IdSet) := ih hβ' (s.grow a more) (hle.trans (s.le_grow a more))
      rw [followBody_nonTerminal, followTurns?]
      split
      · next y hy => exact absurd hy (hknown y)
      · next hstops =>
        rw [raise_flagged hle, hrest, followDemand, if_neg (by simp [hstops])]
      · next hvanishes =>
        rw [flagged, TerminalSets.get?_of_mem_keys hname, Option.bind_some, ← flagged,
          raise_flagged hle, hrest, followDemand, if_pos hvanishes]

/-- **A pass for the FOLLOW sets meets no unknown symbol**, and its flag tells whether it changed
something. -/
theorem followRound?_eq {first s : TerminalSets} (hfirst : first.keys = g.names)
    (hkeys : s.keys = g.names) :
    g.followRound? first s = some (flagged s (g.followPass first s)) := by
  have hstart : (s, false) = flagged s s := by simp [flagged]
  rw [followRound?, hstart]
  refine foldlM_flagged (fun p hp t ht => ?_) (fun p _ t => le_followBody _ _ _ t) (.refl s)
  obtain ⟨i, hi⟩ := Array.mem_iff_getElem?.mp (Array.mem_toList_iff.mp hp)
  exact followTurns?_eq hfirst hkeys hi p.body (fun _ => id) t ht

/-! ### Both loops -/

/-- The FIRST sets are those that the loop ends with. -/
lemma firstSets_converges (g : Grammar) :
    Converges g.firstRound? (.none g.names) g.firstSets.1 g.firstSets.2 ∧
      g.firstSets.2 ≤ (g.firstSets.1.pairs g.terminals.size).card + 1 := by
  have hstart := TerminalSets.within_none g.nodup_names g.terminals.size
  obtain ⟨hconverges, hcard⟩ := settle_converges g.firstPass (fun _ hs => firstPass_grows hs)
    (fun _ hs => firstRound?_eq hs.keys_eq) g.passBound _ hstart (by unfold passBound; omega)
  exact ⟨hconverges, by unfold firstSets; omega⟩

/-- The FOLLOW sets are those that the loop ends with. -/
lemma followSets_converges {first : TerminalSets} (h : first.Within g.names g.terminals.size) :
    Converges (g.followRound? first)
        ((TerminalSets.none g.names).grow g.start (IdSet.insert ∅ endOfInput))
        (g.followSets first).1 (g.followSets first).2 ∧
      (g.followSets first).2 ≤ ((g.followSets first).1.pairs g.terminals.size).card + 1 := by
  obtain ⟨hconverges, hcard⟩ := settle_converges (g.followPass first)
    (fun _ hs => followPass_grows h hs)
    (fun _ hs => followRound?_eq h.keys_eq hs.keys_eq) g.passBound _ g.within_endOfInput
    (by unfold passBound; omega)
  exact ⟨hconverges, by unfold followSets; omega⟩

/-- **Both loops end, within the bound.** From empty FIRST sets, and from FOLLOW sets that hold only
the end of the input for the start symbol, they end with the sets of the grammar and in no other
way. They take at most one pass more than there are pairs of a name and a terminal. -/
theorem firstFollow_converges (g : Grammar) :
    (∀ r n, Converges g.firstRound? (.none g.names) r n ↔
        r = g.firstFollow.first ∧ n = g.firstFollow.firstPasses) ∧
      (∀ r n, Converges (g.followRound? g.firstFollow.first)
          ((TerminalSets.none g.names).grow g.start (IdSet.insert ∅ endOfInput)) r n ↔
        r = g.firstFollow.follow ∧ n = g.firstFollow.followPasses) ∧
      g.firstFollow.firstPasses ≤ g.names.length * g.terminals.size + 1 ∧
      g.firstFollow.followPasses ≤ g.names.length * g.terminals.size + 1 := by
  obtain ⟨hfirst, hfirstPasses⟩ := g.firstSets_converges
  have hwithin := g.firstSets_closed.within
  obtain ⟨hfollow, hfollowPasses⟩ := followSets_converges hwithin
  have hfirstPairs := TerminalSets.card_pairs_le hwithin
  have hfollowPairs := TerminalSets.card_pairs_le (followSets_closed g.firstSets_closed).within
  refine ⟨fun r n => ⟨hfirst.unique, ?_⟩, fun r n => ⟨hfollow.unique, ?_⟩, ?_, ?_⟩
  · rintro ⟨rfl, rfl⟩
    exact hfirst
  · rintro ⟨rfl, rfl⟩
    exact hfollow
  · exact hfirstPasses.trans (Nat.succ_le_succ hfirstPairs)
  · exact hfollowPasses.trans (Nat.succ_le_succ hfollowPairs)

/-- Where a name may begin with itself, its FIRST set is found in the second pass, and that of a name
before it in the order of the productions in the third one. -/
example : ((build "S" [⟨"S", [.nonTerminal "A", .terminal (.literal .punctuation ";")]⟩,
      ⟨"A", [.nonTerminal "A", .terminal (.literal .identifier "a")]⟩, ⟨"A", []⟩]).toOption.map
        fun g => (g.firstFollow.firstPasses, g.firstFollow.followPasses)) = some (4, 2) := by
  decide +kernel

end Grammar

end Coscript
