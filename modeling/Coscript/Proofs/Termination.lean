import Mathlib.Data.Fintype.Pigeonhole
import Mathlib.Order.Interval.Finset.Nat
import Coscript.Proofs.Paths

/-!
# Every run ends

In a grammar without useless names a parser gives an answer to any input, however wrong. A run that
did not end would reduce for ever before some token, or at the end of the input. What it has pushed
by then can be completed to a sentence after any number of these reductions, in infinitely many
cases with a next token of one column. The run of one of these sentences makes the same reductions,
all of them, but it has to come to its end.

The completions that are empty need more: the sentence may have infinitely many derivation trees, of
which a parser that accepts sees the first one only. The run that does not end then reduces the
start production before a token, so that this token follows the start symbol in some sentence, and
this sentence has too many derivation trees for its own run.

* `Covers.lt_size_of_moves`: how long the run of a sentence can have something left;
* `Covers.bounded_of_follows`: the trees of a word before which something follows are bounded;
* `ParsingTable.exists_run_of_reduced`: every run ends.
-/

namespace Coscript

/-- A bounded sequence of numbers takes some value again and again. -/
lemma exists_frequent_value {f : Nat → Nat} {bound : Nat} (h : ∀ n, f n < bound) :
    ∃ a, ∀ m, ∃ n, m ≤ n ∧ f n = a := by
  obtain ⟨a, ha⟩ := Finite.exists_infinite_fiber fun n => (⟨f n, h n⟩ : Fin bound)
  refine ⟨a, fun m => ?_⟩
  obtain ⟨n, hn, hlt⟩ := (Set.infinite_coe_iff.mp ha).exists_gt m
  exact ⟨n, hlt.le, congrArg Fin.val hn⟩

namespace Configuration

variable {t : ParsingTable}

/-! ### Moves back and forth -/

/-- What is left of the input gets shorter from its left end. -/
lemma rest_suffix (n : Nat) {c c' : Configuration} (h : moves t n c = some c') :
    c'.rest <:+ c.rest := by
  induction n generalizing c with
  | zero =>
    cases h
    exact List.suffix_rfl
  | succ n ih =>
    obtain ⟨c₁, hmove, h⟩ := Option.bind_eq_some_iff.mp h
    refine (ih h).trans ?_
    rcases move?_cases hmove with ⟨next, x, rest, -, hrest, rfl⟩ | ⟨slot, p, hd, next, -, -, -, -, rfl⟩
    · rw [hrest]
      exact List.suffix_cons x rest
    · exact List.suffix_rfl

/-- What a longer run has passed through. -/
lemma exists_moves_le {m n : Nat} (hmn : m ≤ n) {c c' : Configuration}
    (h : moves t n c = some c') : ∃ d, moves t m c = some d ∧ moves t (n - m) d = some c' := by
  rw [← Nat.add_sub_cancel' hmn, moves_add] at h
  exact Option.bind_eq_some_iff.mp h

/-- The pushed trees before the last of them was pushed. -/
def unpush : List Tree → List Tree
  | [] => []
  | .leaf _ :: ts => ts
  | .node _ us :: ts => us.reverse ++ ts

lemma unpush_of_move? {c c' : Configuration} (h : c.move? t = some c') :
    unpush (c'.stack.map (·.2)) = c.stack.map (·.2) := by
  rcases move?_cases h with ⟨next, x, rest, -, -, rfl⟩ | ⟨slot, p, hd, next, -, -, hhandle, -, rfl⟩
  · rfl
  · obtain ⟨frames, hstack, -, hchildren, -, -⟩ := handle?_spec hhandle
    rw [List.map_cons, unpush, hchildren, List.reverse_reverse, hstack, List.map_append]

/-- **Pushed trees determine what was pushed before.** -/
lemma trees_of_moves (n : Nat) {c d c' d' : Configuration} (hc : moves t n c = some c')
    (hd : moves t n d = some d') (h : c'.stack.map (·.2) = d'.stack.map (·.2)) :
    c.stack.map (·.2) = d.stack.map (·.2) := by
  induction n generalizing c d with
  | zero =>
    cases hc
    cases hd
    exact h
  | succ n ih =>
    obtain ⟨c₁, hmove, hc⟩ := Option.bind_eq_some_iff.mp hc
    obtain ⟨d₁, hmove', hd⟩ := Option.bind_eq_some_iff.mp hd
    rw [← unpush_of_move? hmove, ← unpush_of_move? hmove', ih hc hd]

/-- A reduction is made before another token with the same action as well. -/
lemma move?_of_lookup_eq {state n : Nat} {stack stack' : List (Nat × Tree)}
    {rest rest' : List Token} {last last' last₂ : Position}
    (h : move? t ⟨state, stack, rest, last⟩ = some ⟨n, stack', rest, last'⟩)
    (heq : lookup t state rest'.head? = lookup t state rest.head?) :
    move? t ⟨state, stack, rest', last₂⟩ = some ⟨n, stack', rest', last₂⟩ := by
  rcases move?_cases h with
    ⟨next, x, rest₁, -, hrest, hc⟩ | ⟨slot, p, hd, next, ha, hrule, hhandle, hnext, hc⟩
  · cases hc
    exact absurd hrest (List.ne_cons_self)
  · cases hc
    have haction : action t ⟨state, stack, rest', last₂⟩ = .reduce slot := heq.trans ha
    have hhandle' : handle? ⟨state, stack, rest', last₂⟩ p = some hd := hhandle
    unfold move?
    simp only [haction, hrule, hhandle', hnext, Option.map_some]

end Configuration

namespace ParsingTable

open Configuration

variable {t : ParsingTable} {g : Grammar} {production : Nat}
variable {I : Nat → Item Nat → Prop} {J : Nat → Item Unit → Prop}

/-- Two runs with the same trees pushed have been in the same state with the same stack before. -/
lemma same_before {k n : Nat} (hkn : k ≤ n)
    {w w' : List Token} {c c' d d' : Configuration} (hc : moves t n (.start t w) = some c)
    (hc' : moves t n (.start t w') = some c') (htrees : c.stack.map (·.2) = c'.stack.map (·.2))
    (hd : moves t k (.start t w) = some d) (hd' : moves t k (.start t w') = some d') :
    d.state = d'.state ∧ d.stack = d'.stack := by
  obtain ⟨e, he, hec⟩ := exists_moves_le hkn hc
  obtain ⟨e', he', hec'⟩ := exists_moves_le hkn hc'
  cases hd.symm.trans he
  cases hd'.symm.trans he'
  exact (Path.moves k .nil hd).unique (Path.moves k .nil hd') (trees_of_moves _ hec hec' htrees)

/-- **The run of a sentence has something left for less moves than a derivation tree of the sentence
is large.** -/
theorem Covers.lt_size_of_moves (h : t.Covers g production I) (hg : g.Unmixed)
    (hp : g.startProduction = .ok production) {D : Tree} (hD : g.Derives (.nonTerminal g.start) D)
    {n : Nat} {c : Configuration} (hmoves : moves t n (.start t D.word) = some c)
    (hrest : c.rest ≠ []) : n < D.size := by
  by_contra hge
  obtain ⟨d, hd, hnil⟩ := h.moves_sentence hg hp hD
  obtain ⟨e, he, hec⟩ := exists_moves_le (show D.size - 1 ≤ n by omega) hmoves
  cases hd.symm.trans he
  have := rest_suffix _ hec
  rw [hnil, List.suffix_nil] at this
  exact hrest this

/-- **The derivation trees of a word of the start symbol are bounded** if some token follows the
start symbol. -/
theorem Covers.bounded_of_follows (h : t.Covers g production I) (hg : g.Unmixed)
    (hp : g.startProduction = .ok production) {n : Nat} (hf : g.Follows production g.start n)
    (w : List Token) :
    ∃ bound, ∀ D, g.Derives (.nonTerminal g.start) D → D.word = w → D.size < bound := by
  obtain ⟨ts, i, β, vs, x, v, hv, hnext, hvs, hword, -⟩ := hf
  obtain ⟨us₁, us₂, rfl, hus₁, hus₂⟩ := hvs.split
  obtain ⟨p, hprod, hname, -⟩ := Grammar.startProduction_spec hp
  rw [Tree.wordAll_append] at hword
  by_cases hsome : ∃ D, g.Derives (.nonTerminal g.start) D ∧ D.word = w
  · obtain ⟨D₀, hD₀, hw⟩ := hsome
    -- One of the trees gives a sentence, whose run passes through all the others.
    obtain ⟨E, hE, hEword, -⟩ := (hv.push hnext hD₀).derivation hprod hname hus₁ hus₂
    refine ⟨E.size, fun D hD hDword => ?_⟩
    obtain ⟨m, frames, last, l, hmoves, -⟩ := h.moves_viable hg (hv.push hnext hD) hus₁ hus₂
    have hsame : Tree.wordAll (ts ++ [D]) = Tree.wordAll (ts ++ [D₀]) := by
      simp [Tree.wordAll, hDword, hw]
    rw [hsame, ← hEword] at hmoves
    have hlt := h.lt_size_of_moves hg hp hE hmoves (by simp [hword])
    rw [Tree.sizeAll_append] at hlt
    simp only [Tree.sizeAll] at hlt
    omega
  · exact ⟨0, fun D hD hDword => absurd ⟨D, hD, hDword⟩ hsome⟩

/-! ### Runs that do not end -/

/-- The configurations of a run that does not end. From some step on it leaves what is left of the
input alone. -/
structure Endless (t : ParsingTable) (input rest : List Token) (settled : Nat)
    (c : Nat → Configuration) : Prop where
  moves : ∀ n, moves t n (.start t input) = some (c n)
  step : ∀ n, (c n).step t = .continues (c (n + 1))
  rest : ∀ n, settled ≤ n → (c n).rest = rest

/-- A run without an outcome for any fuel does not end. -/
lemma exists_endless (input : List Token) (h : ∀ fuel, run t fuel (.start t input) = none) :
    ∃ rest settled c, Endless t input rest settled c := by
  choose c hmoves hrun using fun n => exists_moves n (h n)
  have hstep : ∀ n, (c n).step t = .continues (c (n + 1)) := fun n => by
    have hlast := (hrun n 1).symm.trans (h (n + 1))
    rw [run] at hlast
    split at hlast
    · cases hlast
    · next d hd =>
      have hnext := hmoves (n + 1)
      rw [moves_add, hmoves n, Option.bind_some, Configuration.moves, move?_of_step hd] at hnext
      cases hnext
      exact hd
  -- The run settles where the least of the input is left.
  obtain ⟨settled, hleast⟩ : ∃ m, ∀ n, (c m).rest.length ≤ (c n).rest.length :=
    ⟨_, fun n => Function.argmin_le (fun n => (c n).rest.length) n⟩
  refine ⟨(c settled).rest, settled, c, hmoves, hstep, fun n hn => ?_⟩
  obtain ⟨d, hd, hdn⟩ := exists_moves_le hn (hmoves n)
  cases (hmoves settled).symm.trans hd
  exact (rest_suffix _ hdn).eq_of_length_le (hleast n)

/-- The run of a word comes through a configuration of an endless run, but for what is left of the
input. -/
def Passes (t : ParsingTable) (c : Nat → Configuration) (w y : List Token) (k : Nat) : Prop :=
  ∃ last, moves t k (.start t w) = some ⟨(c k).state, (c k).stack, y, last⟩

namespace Endless

variable {u rest : List Token} {settled : Nat} {c : Nat → Configuration}

lemma word (he : Endless t (u ++ rest) rest settled c) {n : Nat} (hn : settled ≤ n) :
    Tree.wordAll ((c n).stack.map (·.2)).reverse = u := by
  have := (pushed_of_moves (he.moves n)).word
  rw [he.rest n hn] at this
  exact List.append_cancel_right this

/-- A run that comes through a configuration has come through the earlier ones. -/
lemma passes_before (he : Endless t (u ++ rest) rest settled c)
    {y : List Token} {k n : Nat} (hk : settled ≤ k) (hkn : k ≤ n) (hpass : Passes t c (u ++ y) y n) :
    Passes t c (u ++ y) y k := by
  obtain ⟨last, hn⟩ := hpass
  obtain ⟨⟨state, stack, rest', last'⟩, hd, -⟩ := exists_moves_le hkn hn
  obtain ⟨hstate, hstack⟩ := same_before hkn (he.moves n) hn rfl (he.moves k) hd
  have hword := (pushed_of_moves hd).word
  dsimp only at hstate hstack hword
  rw [← hstack, he.word hk] at hword
  obtain rfl := List.append_cancel_left hword
  exact ⟨last', by rw [hd, hstate, hstack]⟩

/-- Runs with a next token of the same column make the same reductions. -/
lemma passes_succ (h : t.Covers g production I) (hg : g.Unmixed) {w w' y y' : List Token}
    {k column : Nat} (hk : Passes t c w y k) (hk' : Passes t c w y (k + 1))
    (hcol : g.IsColumn column y.head?) (hcol' : g.IsColumn column y'.head?)
    (hpass : Passes t c w' y' k) : Passes t c w' y' (k + 1) := by
  obtain ⟨last, hmoves⟩ := hk
  obtain ⟨last₁, hmoves₁⟩ := hk'
  obtain ⟨last', hmoves'⟩ := hpass
  obtain ⟨x, hx⟩ := Grammar.exists_terminal?_of_isColumn hcol
  rw [moves_add, hmoves, Option.bind_some, Configuration.moves, Option.bind_eq_some_iff] at hmoves₁
  obtain ⟨_, hmove, he⟩ := hmoves₁
  cases he
  refine ⟨last', ?_⟩
  rw [moves_add, hmoves', Option.bind_some, Configuration.moves, move?_of_lookup_eq hmove,
    Option.bind_some, Configuration.moves]
  rw [h.lookup_eq hg hcol hx, h.lookup_eq hg hcol' hx]

/-- What an endless run has pushed can be completed to a sentence. -/
lemma completion (hr : g.Reduced) (ho : g.Ordinary) (hg : g.Unmixed)
    (hp : g.startProduction = .ok production) (h : t.Covers g production I)
    (hground : t.Grounded g production J) (he : Endless t (u ++ rest) rest settled c) {n : Nat}
    (hn : settled ≤ n) :
    ∃ D y column, g.Derives (.nonTerminal g.start) D ∧ D.word = u ++ y ∧ n < D.size ∧
      Passes t c (u ++ y) y n ∧ column < g.terminals.size ∧ g.IsColumn column y.head? := by
  have hpushed := pushed_of_moves (he.moves n)
  obtain ⟨D, y, last, hD, hword, hsize, hmoves⟩ := exists_completion hr.productive ho hg hp h hground
    (Path.moves n .nil (he.moves n)) (h.derives_of_pushed hpushed)
  rw [he.word hn] at hword hmoves
  rw [hpushed.size] at hsize hmoves
  obtain ⟨column, hcol⟩ : ∃ column, g.IsColumn column y.head? := by
    cases y with
    | nil => exact ⟨_, rfl⟩
    | cons x y => exact hD.exists_column x (by simp [hword])
  obtain ⟨z, hz⟩ := Grammar.exists_terminal?_of_isColumn hcol
  exact ⟨D, y, column, hD, hword, hsize, ⟨last, hmoves⟩, Grammar.lt_size_of_terminal? hz, hcol⟩

/-- An endless run that passes through the run of a sentence reduces the start production before
some token. -/
lemma exists_follow (h : t.Covers g production I) (hg : g.Unmixed)
    (hp : g.startProduction = .ok production) (hground : t.Grounded g production J)
    (he : Endless t (u ++ rest) rest settled c) {D : Tree}
    (hD : g.Derives (.nonTerminal g.start) D) (hword : D.word = u ++ [])
    (hpass : ∀ k, Passes t c (u ++ []) [] (settled + k)) :
    ∃ n ∈ g.firstFollow.follow.of g.start, n ≠ Grammar.endOfInput := by
  obtain ⟨k, tree, hend, -, -⟩ := h.accepts hg hp hD
  obtain ⟨d, hd, hstep⟩ := hend.exists_moves
  obtain ⟨p, hd₀, ha, hrule, hhandle, hbelow, -, -⟩ := accepts_cases hstep
  obtain ⟨last, hlater⟩ := hpass (k + 1)
  rw [← hword] at hlater
  obtain ⟨d₁, hd₁, -⟩ := exists_moves_le (show k + 1 ≤ settled + (k + 1) by omega) hlater
  obtain ⟨-, hstack₁⟩ := same_before (show k + 1 ≤ settled + (k + 1) by omega) (he.moves _) hlater
    rfl (he.moves (k + 1)) hd₁
  obtain ⟨q, hq, hname, honly⟩ := Grammar.startProduction_spec hp
  -- The run of the sentence accepts in this step, so that it reduces the start production.
  have hmove : d.move? t = some d₁ := by
    rw [moves_add, hd, Option.bind_some, Configuration.moves, Option.bind_eq_some_iff] at hd₁
    obtain ⟨_, hmove, he⟩ := hd₁
    cases he
    exact hmove
  have htop : (c (k + 1)).stack = [(hd₀.state, .node g.start hd₀.children)] := by
    rcases move?_cases hmove with
      ⟨next, x, rest', ha', -⟩ | ⟨slot, p', hd', next, ha', hrule', hhandle', -, rfl⟩
    · cases ha.symm.trans ha'
    · cases ha.symm.trans ha'
      cases hrule.symm.trans hrule'
      cases hhandle.symm.trans hhandle'
      obtain ⟨i, hi, hdefault⟩ := h.rules hrule
      rw [hdefault.mp rfl] at hi
      cases hi.symm.trans hq
      rw [hstack₁, hbelow, hname]
  have hmove' := move?_of_step (he.step k)
  rcases move?_cases hmove' with
    ⟨next, x, rest', -, -, hc⟩ | ⟨slot, p', hd', next, ha', hrule', hhandle', -, hc⟩
  · rw [hc] at htop
    injection htop with hpair
    injection hpair with _ htree
    cases htree
  · rw [hc] at htop
    have hname' : p'.name = g.start := by
      injection htop with hpair _
      injection hpair with _ htree
      injection htree
    have hbelow' : hd'.below = [] := by
      injection htop
    obtain ⟨i, hi, hdefault⟩ := h.rules hrule'
    obtain rfl := hdefault.mpr (honly i p' hi hname')
    -- At the end of the input the endless run would accept, too.
    cases hrest : (c k).rest with
    | nil =>
      have hstep' := he.step k
      simp only [Configuration.step, ha', Configuration.reduce, hrule', hhandle', hbelow', hrest,
        and_self, if_true] at hstep'
      cases hstep'
    | cons x rest' =>
      rw [Configuration.action, hrest] at ha'
      obtain ⟨z, hz, hact⟩ := exists_column_of_lookup ha'
      obtain ⟨j, p'', -, -, -, hrule'', n, hn, hterm⟩ := hground.reduce _ _ _ hact
      cases hrule'.symm.trans hrule''
      refine ⟨n, hname' ▸ hn, fun heq => ?_⟩
      rw [heq, g.terminal?_special.1] at hterm
      cases hterm
      cases hz

end Endless

/-- **Every run ends** in a grammar without useless names. -/
theorem exists_run_of_reduced (hr : g.Reduced) (ho : g.Ordinary) (hg : g.Unmixed)
    (hp : g.startProduction = .ok production) (h : t.Covers g production I)
    (hground : t.Grounded g production J) (input : List Token) :
    ∃ fuel outcome, run t fuel (.start t input) = some outcome := by
  by_contra hnone
  obtain ⟨rest, settled, c, he⟩ := exists_endless (t := t) input fun fuel =>
    Option.eq_none_iff_forall_ne_some.mpr fun outcome heq => hnone ⟨fuel, outcome, heq⟩
  obtain ⟨u, rfl⟩ : ∃ u, input = u ++ rest := by
    have hword := (pushed_of_moves (he.moves settled)).word
    rw [he.rest settled le_rfl] at hword
    exact ⟨_, hword.symm⟩
  choose D y column hD hword hsize hpass hlt hcol using fun m =>
    he.completion hr ho hg hp h hground (Nat.le_add_right settled m)
  obtain ⟨a, ha⟩ := exists_frequent_value hlt
  -- The run of a completion with the frequent column never stops reducing.
  have hall : ∀ m, column m = a → ∀ k, Passes t c (u ++ y m) (y m) (settled + k) := fun m hm k => by
    induction k with
    | zero => exact he.passes_before le_rfl (Nat.le_add_right _ _) (hpass m)
    | succ k ih =>
      obtain ⟨n, hn, hna⟩ := ha (k + 1)
      have hpass₀ := he.passes_before (Nat.le_add_right settled k) (by omega) (hpass n)
      have hpass₁ := he.passes_before (Nat.le_add_right settled (k + 1)) (by omega) (hpass n)
      exact Endless.passes_succ h hg hpass₀ hpass₁ (hcol n)
        ((hm.trans hna.symm) ▸ hcol m) ih
  obtain ⟨m, -, hm⟩ := ha 0
  by_cases hy : y m = []
  · obtain rfl : a = Grammar.endOfInput := by
      have := hcol m
      rwa [hm, hy] at this
    have hempty : ∀ n, column n = Grammar.endOfInput → y n = [] := fun n hn => by
      have := hcol n
      rw [hn] at this
      cases hyn : y n with
      | nil => rfl
      | cons x rest' =>
        rw [hyn] at this
        obtain ⟨z, hz, hacc⟩ := this
        rw [g.terminal?_special.1] at hz
        cases hz
        cases hacc
    obtain ⟨n, hn, hne⟩ := he.exists_follow h hg hp hground (hD m) (hy ▸ hword m)
      (hy ▸ hall m hm)
    obtain ⟨bound, hbound⟩ := h.bounded_of_follows hg hp (hr.followSets_sound ho hp _ n hn hne)
      (u ++ [])
    obtain ⟨k, hk, hka⟩ := ha bound
    have := hbound (D k) (hD k) (hempty k hka ▸ hword k)
    have := hsize k
    omega
  · obtain ⟨last, hmoves⟩ := hall m hm (D m).size
    rw [← hword m] at hmoves
    have := h.lt_size_of_moves hg hp (hD m) hmoves hy
    omega

end ParsingTable

end Coscript
