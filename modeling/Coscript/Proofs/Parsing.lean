import Coscript.Proofs.Covering
import Coscript.Proofs.Soundness

/-!
# Runs along derivation trees

A table that covers its items runs along any derivation tree: it shifts the leaves and reduces the
inner nodes in the order in which they are completed, one move for each of them. So the run of a
sentence ends with a tree.

* `ParsingTable.Follows`: the derivation trees that a parser follows from a state; in a grammar that
  is not unmixed a token may stand for another terminal than the one that the parser looks it up by;
* `ParsingTable.Covers.moves_along`: the moves along a tree that is followed;
* `ParsingTable.Covers.moves_tree`: in an unmixed grammar all derivation trees are followed;
* `ParsingTable.Covers.accepts`: the run of a sentence ends with a tree, in as many steps as a
  derivation tree of the sentence is large;
* `ParsingTable.Covers.sound`: a tree at the end of a run is a derivation tree of the input, and as
  large as the run is long.
-/

namespace Coscript

namespace Tree

variable {g : Grammar}

lemma standFor_cons (t : Tree) (ts : List Tree) (x : Symbol) (xs : List Symbol) :
    standFor (t :: ts) (x :: xs) = (t.standsFor x && standFor ts xs) := rfl

lemma standsFor_of_derives {t : Tree} {x : Symbol} (h : g.Derives x t) : t.standsFor x = true := by
  cases h with
  | leaf h => exact h
  | node hp _ => exact decide_eq_true rfl

/-- The children of a derivation stand for the symbols of the body. -/
lemma standFor_of_derivesAll {ts : List Tree} {xs : List Symbol} (h : g.DerivesAll xs ts) :
    standFor ts xs = true := by
  induction ts generalizing xs with
  | nil => cases h; rfl
  | cons t ts ih =>
    cases h with
    | cons ht hs => rw [standFor_cons, standsFor_of_derives ht, ih hs, Bool.and_self]

end Tree

/-! ### Following a derivation -/

namespace ParsingTable

/-- A table leads from a state to another one over a symbol. -/
def Leads (t : ParsingTable) (state : Nat) : Symbol → Nat → Prop
  | .terminal y, n => t.action state y = .shift n
  | .nonTerminal a, n => t.goto? state a = some n

mutual

/-- Derivation trees of a symbol that a parser follows from a state, with the input that is left
behind them: looking up the tokens it finds the entries for the terminals of the tree, and for the
productions that the tree applies. -/
inductive Follows (t : ParsingTable) (g : Grammar) : Nat → Symbol → Tree → List Token → Prop
  | leaf {state : Nat} {y : Terminal} {z : Token} {rest : List Token}
    (h : y.accepts z.type z.text = true)
    (hs : ∀ n, t.action state y = .shift n → Configuration.lookup t state (some z) = .shift n) :
    Follows t g state (.terminal y) (.leaf z) rest
  | node {state i : Nat} {p : Production} {ts : List Tree} {rest : List Token}
    (hp : g.production? i = some p) (h : FollowsAll t g p state p.body ts rest) :
    Follows t g state (.nonTerminal p.name) (.node p.name ts) rest

/-- Derivation trees of what is left of a production's body, one for one, that a parser follows from
a state. -/
inductive FollowsAll (t : ParsingTable) (g : Grammar) :
    Production → Nat → List Symbol → List Tree → List Token → Prop
  | nil {p : Production} {state : Nat} {rest : List Token}
    (h : ∀ n y slot, g.IsColumn n rest.head? → g.terminal? n = some y →
      t.action state y = .reduce slot → t.rule? slot = some p →
      Configuration.lookup t state rest.head? = .reduce slot) :
    FollowsAll t g p state [] [] rest
  | cons {p : Production} {state : Nat} {x : Symbol} {xs : List Symbol} {T : Tree} {ts : List Tree}
    {rest : List Token} (h : Follows t g state x T (Tree.wordAll ts ++ rest))
    (hts : g.DerivesAll xs ts) (hs : ∀ n, t.Leads state x n → FollowsAll t g p n xs ts rest) :
    FollowsAll t g p state (x :: xs) (T :: ts) rest

end

variable {t : ParsingTable} {g : Grammar}

mutual

lemma Follows.derives : ∀ {T : Tree} {state : Nat} {x : Symbol} {rest : List Token},
    t.Follows g state x T rest → g.Derives x T
  | .leaf _, _, _, _, .leaf h _ => .leaf h
  | .node _ _, _, _, _, .node hp h => .node hp h.derivesAll

lemma FollowsAll.derivesAll : ∀ {ts : List Tree} {p : Production} {state : Nat} {xs : List Symbol}
    {rest : List Token}, t.FollowsAll g p state xs ts rest → g.DerivesAll xs ts
  | [], _, _, _, _, .nil _ => .nil
  | _ :: _, _, _, _, _, .cons h hts _ => .cons h.derives hts

end

lemma Follows.exists_node {T : Tree} {state : Nat} {a : String} {rest : List Token}
    (h : t.Follows g state (.nonTerminal a) T rest) :
    ∃ i p ts, g.production? i = some p ∧ p.name = a ∧ T = .node a ts ∧
      t.FollowsAll g p state p.body ts rest := by
  cases h with
  | node hp h => exact ⟨_, _, _, hp, rfl, rfl, h⟩

end ParsingTable

/-! ### Columns -/

namespace ParsingTable.Covers

variable {t : ParsingTable} {g : Grammar} {production : Nat} {I : Nat → Item Nat → Prop}

/-- In an unmixed grammar a parser finds an action in the column of the terminal that stands for
the head of the input. -/
theorem lookup_eq (h : t.Covers g production I) (hg : g.Unmixed) {n : Nat} {x : Option Token}
    {y : Terminal} (hn : g.IsColumn n x) (hy : g.terminal? n = some y) (state : Nat) :
    Configuration.lookup t state x = t.action state y := by
  cases x with
  | none =>
    cases hn
    cases g.terminal?_special.1.symm.trans hy
    rfl
  | some x =>
    obtain ⟨y', hy', hacc⟩ := hn
    cases hy.symm.trans hy'
    have hused := Grammar.mem_usedTerminals_of_accepts hy hacc
    -- An entry in a column makes the column's terminal a used one, or the end of the input.
    have hentry : ∀ z, z ≠ .endOfInput → z ≠ .epsilon → t.action state z ≠ .error →
        z ∈ g.usedTerminals := fun z h₁ h₂ hz => by
      rcases Grammar.exists_terminal?_iff.mp (h.columns hz) with rfl | rfl | hz
      · exact absurd rfl h₁
      · exact absurd rfl h₂
      · exact hz
    rw [Configuration.lookup_some]
    cases y with
    | any type =>
      have htype : x.type = type := of_decide_eq_true hacc |>.symm
      have herror : t.action state (.literal x.type x.text) = .error := by
        by_contra hne
        have := hentry _ (by simp) (by simp) hne
        rw [htype] at this
        exact hg _ _ hused this
      rw [if_pos herror, htype]
    | literal type text =>
      simp only [Terminal.accepts, Bool.and_eq_true, decide_eq_true_eq] at hacc
      obtain ⟨rfl, rfl⟩ := hacc
      have hany : t.action state (.any x.type) = .error := by
        by_contra hne
        exact hg _ _ (hentry _ (by simp) (by simp) hne) hused
      split
      · next herror => rw [hany, herror]
      · rfl
    | epsilon => cases hacc
    | endOfInput => cases hacc

/-! ### Moves along trees -/

/-- Behind a name after a dot comes what begins the rest of the input. -/
lemma exists_lookaheadBehind {i : Item Nat} {ts : List Tree} {rest : List Token}
    {p : Production} (hp : g.production? i.production = some p) {x : Symbol}
    (hx : i.next? g = some x) (hts : g.DerivesAll (i.rest g) ts)
    (hrest : g.IsColumn i.lookahead rest.head?) :
    ∃ l ∈ Discipline.lookaheadsBehind g g.firstFollow i,
      g.IsColumn l (Tree.wordAll ts ++ rest).head? := by
  have hbody := Item.body_eq_of_next? hp hx
  have hbegins := g.firstFollow_closed.1.begins_trees ts hts
    (fun u hu => Grammar.mem_usedTerminals_iff.mpr ⟨_, p, hp, by rw [hbody]; simp [hu]⟩)
    (show g.Begins g.firstFollow.first [] [] from rfl)
  rw [List.append_nil, List.append_nil] at hbegins
  unfold Discipline.lookaheadsBehind
  dsimp only
  cases hw : Tree.wordAll ts with
  | nil =>
    rw [hw] at hbegins
    have hend : (g.leading g.firstFollow.first (i.rest g)).ending = .vanishes := hbegins
    rw [if_pos hend]
    exact ⟨i.lookahead, IdSet.mem_insert.mpr (.inl rfl), hrest⟩
  | cons y w =>
    rw [hw] at hbegins
    obtain ⟨l, hl, hcol⟩ := hbegins
    refine ⟨l, ?_, hcol⟩
    split
    · exact IdSet.mem_insert.mpr (.inr hl)
    · exact hl

/-- Pushed trees, each with the state that it was pushed in; the first was pushed in a given
state. -/
structure Frames (state n : Nat) (ts : List Tree) (frames : List (Nat × Tree)) : Prop where
  trees : (frames.map (·.2)).reverse = ts
  state : ((frames.getLast?).map (·.1)).getD n = state

lemma Frames.length_eq {state n : Nat} {ts : List Tree} {frames : List (Nat × Tree)}
    (h : Frames state n ts frames) : frames.length = ts.length := by
  rw [← h.trees, List.length_reverse, List.length_map]

/-- One tree more is pushed first. -/
lemma Frames.cons {state m n : Nat} {T : Tree} {ts : List Tree} {frames : List (Nat × Tree)}
    (h : Frames m n ts frames) : Frames state n (T :: ts) (frames ++ [(state, T)]) where
  trees := by rw [List.map_append, List.reverse_append, h.trees]; rfl
  state := by rw [List.getLast?_concat]; rfl

/-- A complete item reduces the trees that were pushed for it. -/
lemma handle?_of_frames {c : Configuration} {p : Production} {state : Nat} {ts : List Tree}
    {frames below : List (Nat × Tree)} (hstack : c.stack = frames ++ below)
    (hf : Frames state c.state ts frames) (hts : g.DerivesAll p.body ts) :
    c.handle? p = some ⟨state, ts, below⟩ := by
  have hstand : Tree.standFor (frames.map (·.2)).reverse p.body = true := by
    rw [hf.trees]
    exact Tree.standFor_of_derivesAll hts
  rw [Configuration.handle?_of_append frames below hstack (hf.length_eq.trans hts.length_eq) hstand,
    hf.trees, hf.state]

open Configuration in
/-- A complete item for a name after a dot is reduced in one move. -/
lemma move?_reduce (h : t.Covers g production I) {c : Configuration}
    {i j : Item Nat} {p : Production} {state : Nat} {ts : List Tree}
    {frames below : List (Nat × Tree)} (hj : I c.state j) (hjp : g.production? j.production = some p)
    (hjnext : j.next? g = none)
    (hcol : g.IsColumn j.lookahead c.rest.head?) (hend : t.FollowsAll g p c.state [] [] c.rest)
    (hts : g.DerivesAll p.body ts)
    (hstack : c.stack = frames ++ below) (hf : Frames state c.state ts frames) (hi : I state i)
    (hx : i.next? g = some (.nonTerminal p.name)) :
    ∃ n, c.move? t = some ⟨n, (state, .node p.name ts) :: below, c.rest, c.last⟩ ∧
      t.goto? state p.name = some n ∧ I n i.advance := by
  obtain ⟨y, hy⟩ := Grammar.exists_terminal?_of_isColumn hcol
  obtain ⟨q, slot, hq, hrule, hact, -⟩ := h.reduce hj hjnext hy
  cases hjp.symm.trans hq
  obtain ⟨n, hn, hadv⟩ := h.goto hi hx
  have haction : c.action t = .reduce slot := by
    cases hend with
    | nil hend => exact hend _ y slot hcol hy hact hrule
  refine ⟨n, ?_, hn, hadv⟩
  unfold move?
  simp only [haction, hrule, handle?_of_frames hstack hf hts, hn, Option.map_some]

open Configuration in
mutual

/-- **A tree that is followed is pushed in as many moves as it is large.** -/
theorem moves_along (h : t.Covers g production I) :
    ∀ (T : Tree) {x : Symbol} {state : Nat} {i : Item Nat} {rest : List Token},
      t.Follows g state x T rest → I state i → i.next? g = some x →
      (∃ l ∈ Discipline.lookaheadsBehind g g.firstFollow i, g.IsColumn l rest.head?) →
      ∀ stack last, ∃ n last', t.Leads state x n ∧ I n i.advance ∧
        moves t T.size ⟨state, stack, T.word ++ rest, last⟩ =
          some ⟨n, (state, T) :: stack, rest, last'⟩
  | .leaf z, _, state, i, rest, .leaf _ hs, hi, hx, _, stack, last => by
    obtain ⟨n, hn, hadv⟩ := h.shift hi hx
    refine ⟨n, z.position, hn, hadv, ?_⟩
    have haction : Configuration.action t ⟨state, stack, z :: rest, last⟩ = .shift n := hs n hn
    simp only [Tree.size, Tree.word, List.cons_append, List.nil_append, moves, move?, haction,
      Option.bind_some]
  | .node _ ts, _, state, i, rest, .node (i := k) (p := p) hp hts, hi, hx, hl, stack, last => by
    obtain ⟨l, hl, hcol⟩ := hl
    have hj : I state ⟨k, 0, l⟩ := h.implied hi (Discipline.mem_implied_iff.mpr
      ⟨_, hx, Grammar.mem_productionsOf_iff.mpr ⟨p, hp, rfl⟩, rfl, hl⟩)
    obtain ⟨n, last', frames, hf, hn, hend, hmoves⟩ := moves_along_all h ts (i := ⟨k, 0, l⟩) hts hj
      hp rfl hcol stack last
    have hlength := hts.derivesAll.length_eq
    have hnext : Item.next? ⟨k, 0 + ts.length, l⟩ g = none := by
      rw [Item.next?, hp, Option.bind_some, Nat.zero_add, hlength]
      exact List.getElem?_length _
    obtain ⟨m, hm, hgoto, hadv⟩ := h.move?_reduce (c := ⟨n, frames ++ stack, rest, last'⟩) hn hp
      hnext hcol hend hts.derivesAll rfl hf hi hx
    refine ⟨m, last', hgoto, hadv, ?_⟩
    rw [Tree.size, moves_add, Tree.word, hmoves, Option.bind_some, moves, hm]
    rfl

/-- Trees for what is left of a body are pushed in as many moves as they are large. -/
theorem moves_along_all (h : t.Covers g production I) :
    ∀ (ts : List Tree) {p : Production} {xs : List Symbol} {i : Item Nat} {state : Nat}
      {rest : List Token}, t.FollowsAll g p state xs ts rest → I state i →
      g.production? i.production = some p → p.body.drop i.dot = xs →
      g.IsColumn i.lookahead rest.head? →
      ∀ stack last, ∃ n last' frames, Frames state n ts frames ∧
        I n ⟨i.production, i.dot + ts.length, i.lookahead⟩ ∧ t.FollowsAll g p n [] [] rest ∧
        moves t (Tree.sizeAll ts) ⟨state, stack, Tree.wordAll ts ++ rest, last⟩ =
          some ⟨n, frames ++ stack, rest, last'⟩
  | [], p, _, i, state, rest, .nil hend, hi, _, _, _, stack, last =>
    ⟨state, last, [], ⟨rfl, rfl⟩, hi, .nil hend, rfl⟩
  | T :: ts, p, _, i, state, rest, .cons hT hts hs, hi, hp, hdrop, hcol, stack, last => by
    obtain ⟨hx, hrest⟩ := Item.next?_of_drop hp hdrop
    obtain ⟨l, hl, hcol'⟩ := exists_lookaheadBehind hp hx (hrest ▸ hts) hcol
    obtain ⟨m, last', hleads, hm, hmoves⟩ := moves_along h T hT hi hx ⟨l, hl, hcol'⟩ stack last
    rw [Item.rest, hp, Option.map_some, Option.getD_some] at hrest
    obtain ⟨n, last'', frames, hf, hn, hend, hmoves'⟩ := moves_along_all h ts (i := i.advance)
      (hs m hleads) hm hp hrest hcol ((state, T) :: stack) last'
    refine ⟨n, last'', frames ++ [(state, T)], hf.cons, ?_, hend, ?_⟩
    · rw [List.length_cons, Nat.add_comm ts.length, ← Nat.add_assoc]
      exact hn
    · rw [Tree.sizeAll, moves_add, Tree.wordAll, List.append_assoc, hmoves, Option.bind_some,
        hmoves', List.append_assoc, List.singleton_append]

end

mutual

/-- In an unmixed grammar every derivation tree is followed. -/
theorem follows (h : t.Covers g production I) (hg : g.Unmixed) :
    ∀ {T : Tree} {x : Symbol}, g.Derives x T → ∀ (state : Nat) (rest : List Token),
      t.Follows g state x T rest
  | .leaf z, _, .leaf (t := y) hz, state, rest => by
    refine .leaf hz fun n hn => ?_
    obtain ⟨k, hk⟩ := h.columns (show t.action state y ≠ .error by simp [hn])
    exact (h.lookup_eq hg (show g.IsColumn k (some z) from ⟨y, hk, hz⟩) hk state).trans hn
  | .node _ _, _, .node hp hts, state, rest => .node hp (followsAll h hg hts state rest)

/-- In an unmixed grammar all derivation trees are followed. -/
theorem followsAll (h : t.Covers g production I) (hg : g.Unmixed) :
    ∀ {ts : List Tree} {p : Production} {xs : List Symbol}, g.DerivesAll xs ts →
      ∀ (state : Nat) (rest : List Token), t.FollowsAll g p state xs ts rest
  | [], _, _, .nil, state, _ =>
    .nil fun _ _ _ hcol hy hact _ => (h.lookup_eq hg hcol hy state).trans hact
  | _ :: _, _, _, .cons hT hts, state, rest =>
    .cons (follows h hg hT state _) hts fun n _ => followsAll h hg hts n rest

end

open Configuration in
/-- **A tree is pushed in as many moves as it is large.** -/
theorem moves_tree (h : t.Covers g production I) (hg : g.Unmixed) (T : Tree) {x : Symbol}
    (hT : g.Derives x T) {state : Nat} {i : Item Nat} {rest : List Token} (hi : I state i)
    (hx : i.next? g = some x)
    (hl : ∃ l ∈ Discipline.lookaheadsBehind g g.firstFollow i, g.IsColumn l rest.head?)
    (stack : List (Nat × Tree)) (last : Position) :
    ∃ n last', I n i.advance ∧ moves t T.size ⟨state, stack, T.word ++ rest, last⟩ =
      some ⟨n, (state, T) :: stack, rest, last'⟩ := by
  obtain ⟨n, last', -, hadv, hmoves⟩ :=
    h.moves_along T (h.follows hg hT state rest) hi hx hl stack last
  exact ⟨n, last', hadv, hmoves⟩

/-! ### Runs of sentences -/

open Configuration

/-- The trees of the start production that are followed are pushed in as many moves as they are
large. -/
lemma moves_start_along (h : t.Covers g production I) {p : Production}
    (hp : g.production? production = some p) {ts : List Tree}
    (hts : t.FollowsAll g p t.initial p.body ts []) :
    ∃ n last frames, Frames t.initial n ts frames ∧
      I n ⟨production, ts.length, Grammar.endOfInput⟩ ∧
      moves t (Tree.sizeAll ts) (.start t (Tree.wordAll ts)) = some ⟨n, frames, [], last⟩ := by
  have hcol : g.IsColumn Grammar.endOfInput ([] : List Token).head? := rfl
  obtain ⟨n, last, frames, hf, hn, -, hmoves⟩ :=
    moves_along_all h ts (i := ⟨production, 0, Grammar.endOfInput⟩) hts h.initial hp rfl hcol []
      .start
  rw [List.append_nil, List.append_nil] at hmoves
  rw [Nat.zero_add] at hn
  exact ⟨n, last, frames, hf, hn, hmoves⟩

/-- The trees of the start production are pushed in as many moves as they are large. -/
lemma moves_start (h : t.Covers g production I) (hg : g.Unmixed) {p : Production}
    (hp : g.production? production = some p) {ts : List Tree} (hts : g.DerivesAll p.body ts) :
    ∃ n last frames, Frames t.initial n ts frames ∧
      I n ⟨production, ts.length, Grammar.endOfInput⟩ ∧
      moves t (Tree.sizeAll ts) (.start t (Tree.wordAll ts)) = some ⟨n, frames, [], last⟩ :=
  h.moves_start_along hp (h.followsAll hg hts t.initial [])

/-- **The run along a tree of the start symbol ends with a tree**, in at most as many steps as the
tree is large, and with this tree if it takes all of them. -/
theorem accepts_along (h : t.Covers g production I) (hp : g.startProduction = .ok production)
    {T : Tree} (hT : t.Follows g t.initial (.nonTerminal g.start) T []) :
    ∃ k tree, EndsAfter t k (.start t T.word) (.ok tree) ∧ k + 1 ≤ T.size ∧
      (k + 1 = T.size → tree = T) := by
  obtain ⟨i, p, ts, hi, hname, rfl, hfollows⟩ := hT.exists_node
  obtain ⟨-, -, -, honly⟩ := Grammar.startProduction_spec hp
  obtain rfl := honly i p hi hname
  rw [Tree.word, Tree.size]
  have hts := hfollows.derivesAll
  obtain ⟨n, last, frames, hf, hn, hmoves⟩ := h.moves_start_along hi hfollows
  rcases run_of_moves _ hmoves with ⟨k, hk, tree, hend⟩ | ⟨hnone, hrun⟩
  · exact ⟨k, tree, hend, by omega, by omega⟩
  · have hnext : Item.next? ⟨i, ts.length, Grammar.endOfInput⟩ g = none := by
      rw [Item.next?, hi, Option.bind_some, hts.length_eq]
      exact List.getElem?_length _
    obtain ⟨q, slot, hq, hrule, hact, hslot⟩ := h.reduce hn hnext g.terminal?_special.1
    cases hi.symm.trans hq
    have haction : Configuration.action t ⟨n, frames, [], last⟩ = .reduce slot := hact
    have hhandle := handle?_of_frames (c := ⟨n, frames, [], last⟩)
      (List.append_nil frames).symm hf hts
    refine ⟨Tree.sizeAll ts, .node g.start ts, ⟨hnone, ?_⟩, le_rfl, fun _ => rfl⟩
    obtain rfl : slot = t.defaultRule := hslot.mpr rfl
    refine (hrun 1).trans ?_
    rw [run, step, haction]
    simp only [Configuration.reduce, hrule, hhandle, and_self, if_true, hname]

/-- **The run of a sentence ends with a tree**, in at most as many steps as a derivation tree of the
sentence is large, and with that tree if it takes all of them. -/
theorem accepts (h : t.Covers g production I) (hg : g.Unmixed)
    (hp : g.startProduction = .ok production) {T : Tree} (hT : g.Derives (.nonTerminal g.start) T) :
    ∃ k tree, EndsAfter t k (.start t T.word) (.ok tree) ∧ k + 1 ≤ T.size ∧
      (k + 1 = T.size → tree = T) :=
  h.accepts_along hp (h.follows hg hT t.initial [])

lemma derivesAll_of_standForAll {ts : List Tree} {xs : List Symbol} (h : Tree.StandForAll ts xs)
    (hts : ∀ T ∈ ts, ∀ x, T.standsFor x = true → g.Derives x T) : g.DerivesAll xs ts := by
  induction h with
  | nil => exact .nil
  | @cons T x ts xs hT _ ih =>
    exact .cons (hts T (by simp) x hT) (ih fun U hU => hts U (by simp [hU]))

/-- What a table makes is a derivation tree of what it stands for. -/
lemma derives_of_makes (h : t.Covers g production I) {T : Tree} (hT : t.Makes T) {x : Symbol}
    (hx : T.standsFor x = true) : g.Derives x T := by
  induction hT generalizing x with
  | leaf y =>
    cases x with
    | terminal u => exact .leaf hx
    | nonTerminal a => cases hx
  | @node slot p ts hrule hstand _ ih =>
    cases x with
    | terminal u => cases hx
    | nonTerminal a =>
      obtain rfl : p.name = a := of_decide_eq_true hx
      obtain ⟨i, hi, -⟩ := h.rules hrule
      exact .node hi (derivesAll_of_standForAll hstand ih)

/-- What has been pushed are derivation trees. -/
lemma derives_of_pushed (h : t.Covers g production I) {input : List Token} {n : Nat}
    {c : Configuration} (hc : t.Pushed input n c) :
    ∀ f ∈ c.stack, ∀ x, f.2.standsFor x = true → g.Derives x f.2 :=
  fun f hf _ hx => h.derives_of_makes (hc.made f hf) hx

/-- **A tree at the end of a run is a derivation tree of the input**, as large as the run is
long. -/
theorem sound (h : t.Covers g production I) (hp : g.startProduction = .ok production)
    {input : List Token} {tree : Tree} {k : Nat}
    (hend : EndsAfter t k (.start t input) (.ok tree)) :
    g.Derives (.nonTerminal g.start) tree ∧ tree.word = input ∧ tree.size = k + 1 := by
  obtain ⟨p, ts, hrule, rfl, -, hmade, hword, hsize⟩ := made_of_endsAfter hend
  obtain ⟨q, hq, hname, -⟩ := Grammar.startProduction_spec hp
  obtain ⟨i, hi, hdefault⟩ := h.rules hrule
  rw [hdefault.mp rfl] at hi
  cases hi.symm.trans hq
  exact ⟨h.derives_of_makes hmade (decide_eq_true hname), hword, hsize⟩

end ParsingTable.Covers

end Coscript
