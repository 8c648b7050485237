import Coscript.Proofs.LookaheadTermination

/-!
# The table without lookaheads gives an answer

A table without lookaheads reduces on every terminal of a FOLLOW set. Where every name is used by what
the start symbol derives, such a terminal is a lookahead of the production in some place, and where
something may stand behind every name, the items of a state are valid with some lookahead. So the
table tracks valid items as the tables with lookaheads do, and its runs end for the same reason.

With a name that is not used, or with one that nothing stands behind, a terminal of a FOLLOW set may
come after a name in no place at all, and reductions before it may go on for ever.

* `Grammar.Open.exists_valid`: items without lookaheads are valid with one;
* `Grammar.FollowValid`: FOLLOW sets that hold nothing but lookaheads;
* `Strategy.parse_terminates_simple`: parsing with the table without lookaheads ends;
* `Strategy.exists_endless_simple`: it need not with useless names.
-/

namespace Coscript

open Discipline

namespace Grammar

variable {g : Grammar} {production : Nat}

/-! ### Valid items -/

/-- **Items that are valid without lookaheads are valid with one.** -/
theorem Open.exists_valid (hopen : g.Open) (ho : g.Ordinary)
    (hp : g.startProduction = .ok production) {s : FirstFollow} {σ : List Symbol} {i : Item Unit}
    (h : plain.Valid g s production σ i) :
    ∃ l, g.Valid production σ ⟨i.production, i.dot, l⟩ := by
  induction h with
  | start => exact ⟨endOfInput, .start⟩
  | @implied σ i j _ hj ih =>
    obtain ⟨l, hi⟩ := ih
    obtain ⟨a, ha, hk, hdot, -⟩ := mem_implied_iff.mp hj
    obtain ⟨p, hprod, rfl⟩ := mem_productionsOf_iff.mp hk
    obtain ⟨z, hz⟩ := hopen.exists_lookahead hp hi ha
    rw [hdot]
    exact ⟨z, valid_begin ho hi ha hprod ((mem_lookaheadsBehind_iff ho).mp hz)⟩
  | advance _ hx ih =>
    obtain ⟨l, hi⟩ := ih
    exact ⟨l, hi.advance hx⟩

/-- A dot stands before a name in the body of a production that is begun. -/
lemma Valid.before {σ : List Symbol} {k l : Nat} {p : Production}
    (h : g.Valid production σ ⟨k, 0, l⟩) (hp : g.production? k = some p) {α β : List Symbol}
    {x : Symbol} (hbody : p.body = α ++ x :: β) :
    ∃ τ, g.Valid production τ ⟨k, α.length, l⟩ ∧
      Item.next? (⟨k, α.length, l⟩ : Item Nat) g = some x ∧
      Item.rest (⟨k, α.length, l⟩ : Item Nat) g = β := by
  refine ⟨_, Discipline.Valid.moved h hp (by simp [hbody]), ?_, ?_⟩
  · rw [Item.next?, hp, Option.bind_some, hbody]
    simp
  · rw [Item.rest, hp, Option.map_some, Option.getD_some, hbody]
    simp

/-- **Every production of a name that is used is begun in some place.** -/
theorem Reachable.exists_valid (hopen : g.Open) (ho : g.Ordinary)
    (hp : g.startProduction = .ok production) {a : String} (h : g.Reachable a) :
    ∀ k p, g.production? k = some p → p.name = a → ∃ τ l, g.Valid production τ ⟨k, 0, l⟩ := by
  induction h with
  | start =>
    intro k p hk hname
    obtain ⟨-, -, -, honly⟩ := startProduction_spec hp
    obtain rfl := honly k p hk hname
    exact ⟨[], _, .start⟩
  | @body a b i q _ hq hname hb ih =>
    rintro k p hk rfl
    obtain ⟨σ, l, hi⟩ := ih i q hq hname
    obtain ⟨α, β, hbody⟩ := List.append_of_mem hb
    obtain ⟨τ, hτ, hnext, -⟩ := hi.before hq hbody
    obtain ⟨z, hz⟩ := hopen.exists_lookahead hp hτ hnext
    exact ⟨τ, z, valid_begin ho hτ hnext hk ((mem_lookaheadsBehind_iff ho).mp hz)⟩

/-! ### FOLLOW sets -/

/-- What a FOLLOW set holds is a lookahead of each production of the name in some place. -/
def FollowValid (g : Grammar) (production : Nat) (follow : TerminalSets) : Prop :=
  ∀ a, ∀ n ∈ follow.of a, ∀ k p, g.production? k = some p → p.name = a →
    ∃ τ, g.Valid production τ ⟨k, 0, n⟩

/-- What a name takes into its FOLLOW set from a production is a lookahead of its productions. -/
lemma FollowValid.demand (hopen : g.Open) (ho : g.Ordinary) (hreach : ∀ a ∈ g.names, g.Reachable a)
    (hp : g.startProduction = .ok production) {follow : TerminalSets}
    (h : g.FollowValid production follow) {j : Nat} {q : Production}
    (hq : g.production? j = some q) {α β : List Symbol} {a : String}
    (hbody : q.body = α ++ .nonTerminal a :: β) {n : Nat}
    (hn : n ∈ g.followDemand g.firstFollow.first q.name β follow) :
    ∀ k p, g.production? k = some p → p.name = a → ∃ τ, g.Valid production τ ⟨k, 0, n⟩ := by
  rintro k p hk rfl
  -- It is expected behind the name, where the production is begun with a suitable lookahead.
  suffices hexpected : ∃ σ l, g.Valid production σ ⟨j, 0, l⟩ ∧ g.Expects n β l by
    obtain ⟨σ, l, hσ, hexp⟩ := hexpected
    obtain ⟨τ, hτ, hnext, hrest⟩ := hσ.before hq hbody
    exact ⟨τ, valid_begin ho hτ hnext hk (hrest ▸ hexp)⟩
  have hleading : n ∈ (g.leading g.firstFollow.first β).terminals →
      ∃ σ l, g.Valid production σ ⟨j, 0, l⟩ ∧ g.Expects n β l := by
    intro hmem
    have hname := hreach q.name (mem_names_iff.mpr ⟨j, q, hq, rfl⟩)
    obtain ⟨σ, l, hσ⟩ := hname.exists_valid hopen ho hp j q hq rfl
    exact ⟨σ, l, hσ, .inl ((mem_leading_iff ho).mp hmem)⟩
  unfold followDemand at hn
  dsimp only at hn
  split at hn
  · next hend =>
    rcases IdSet.mem_union.mp hn with hn | hn
    · exact hleading hn
    · obtain ⟨σ, hσ⟩ := h q.name n hn j q hq rfl
      exact ⟨σ, n, hσ, .inr ⟨(ending_leading_iff ho).mp hend, rfl⟩⟩
  · exact hleading hn

/-- **The FOLLOW sets hold nothing but lookaheads**, if every name is used and something may stand
behind it. -/
theorem followValid (hopen : g.Open) (ho : g.Ordinary) (hreach : ∀ a ∈ g.names, g.Reachable a)
    (hp : g.startProduction = .ok production) :
    g.FollowValid production g.firstFollow.follow := by
  have heq : g.firstFollow.follow = (g.followSets g.firstFollow.first).1 := rfl
  rw [heq]
  refine followSets_induction ?_ ?_
  · intro k p hk hname
    obtain ⟨-, -, -, honly⟩ := startProduction_spec hp
    obtain rfl := honly k p hk hname
    exact ⟨[], .start⟩
  · intro follow h j q hq α a β hbody n hn
    exact FollowValid.demand hopen ho hreach hp h hq hbody hn

end Grammar

/-! ### Runs -/

variable {g : Grammar} {production : Nat} {t : ParsingTable}

/-- **The table without lookaheads tracks valid items.** -/
theorem tracks_simple {c : Collection Unit} (hopen : g.Open) (ho : g.Ordinary)
    (hreach : ∀ a ∈ g.names, g.Reachable a) (hp : g.startProduction = .ok production)
    (h : c.Exact .plain g g.firstFollow production)
    (ht : c.Realizes .plain g g.firstFollow production t) :
    t.Tracks g production fun n σ => c.reach? σ = some n where
  initial := by
    rw [ht.initial]
    rfl
  shift hσ hn := Collection.reach?_cons hσ (ht.shifted _ _ _ hn)
  goto hσ hn := Collection.reach?_cons hσ (ht.gone _ _ _ hn)
  reduce := by
    intro state σ y slot hσ hact
    obtain ⟨q, hq, -⟩ := Grammar.startProduction_spec hp
    have hlt := (Array.getElem?_eq_some_iff.mp hq).1
    obtain ⟨i, hi, hcomplete, ⟨p, hprod, hrule⟩, hslot, n, hn, hterm⟩ := ht.reduced state y slot hact
    obtain ⟨l, hvalid⟩ := hopen.exists_valid ho hp ((h.mem_itemsOf_iff hσ).mp hi)
    obtain ⟨p', hprod', he⟩ := Grammar.Valid.of_complete hlt hvalid hcomplete
    cases hprod.symm.trans hprod'
    rw [he] at hvalid
    simp only [plain, hprod] at hn
    obtain ⟨τ, hτ⟩ := Grammar.followValid hopen ho hreach hp p.name n hn i.production p hprod rfl
    rw [ht.default]
    exact ⟨_, p, hprod, hrule, hslot, ⟨l, hvalid⟩, _, n, Discipline.Valid.moved hτ hprod le_rfl,
      hterm⟩

namespace Strategy

/-- The grammar of any table is deterministic. -/
lemma deterministic_of_build {strategy : Strategy} (ht : strategy.build g = .ok t) :
    ∃ production, g.startProduction = .ok production ∧ g.Deterministic production := by
  obtain ⟨t', ht'⟩ : ∃ t', canonical.build g = .ok t' := by
    cases strategy with
    | simple =>
      obtain ⟨t₁, ht₁⟩ := exists_table_of_simple ht
      exact exists_table_of_merged ht₁
    | canonical => exact ⟨t, ht⟩
    | merged => exact exists_table_of_merged ht
  obtain ⟨production, R, hp, hd, -⟩ := tracks (by simp) ht'
  exact ⟨production, hp, hd⟩

/-- **Parsing with the table without lookaheads ends**, whatever the input, if every name of the
grammar is used and something may stand behind it. -/
theorem parse_terminates_simple {text : String} (h : Document.parse text = .ok g) (hopen : g.Open)
    (hreach : ∀ a ∈ g.names, g.Reachable a) (ht : simple.build g = .ok t) (input : List Token) :
    ∃ fuel outcome, t.parse fuel input = some outcome := by
  have ho := Document.parse_ordinary h
  obtain ⟨production, hp, hd⟩ := deterministic_of_build ht
  obtain ⟨production', c, t₀, hp', hexact, -, hrealizes, he⟩ :=
    constructWith_eq_ok (.plain g g.firstFollow) ht
  cases hp.symm.trans hp'
  cases he
  exact (tracks_simple hopen ho hreach hp hexact hrealizes).exists_run ho hopen hp hd input

/-- A document with a recursive name, one that vanishes and one that derives nothing; identifiers are
asked for with any text and with a given text. -/
def usedDocument : String :=
  "%start Z\nZ -> S\nS -> S Identifier\n  | N\n  | `x` A\nA -> `a` A\nN -> ()\n"

/-- The table without lookaheads of the document gives an answer to the token `x`. -/
theorem parse_terminates_simple_used : ∃ g t, Document.parse usedDocument = .ok g ∧ g.Open ∧
    (∀ a ∈ g.names, g.Reachable a) ∧ simple.build g = .ok t ∧
    ∃ fuel outcome, t.parse fuel [plainToken .identifier "x"] = some outcome := by
  have hholds : Document.holdsOf simple usedDocument (fun g _ =>
      g.names.all (fun a => !(g.firstFollow.first.of a).toList.isEmpty) ∧
        g.start = "Z" ∧ g.names = ["Z", "S", "A", "N"] ∧
        g.production? 0 = some ⟨"Z", [.nonTerminal "S"]⟩ ∧
        g.production? 2 = some ⟨"S", [.nonTerminal "N"]⟩ ∧
        g.production? 3 = some ⟨"S", [.terminal (.literal .identifier "x"), .nonTerminal "A"]⟩) =
      true := by decide +kernel
  obtain ⟨g, t, hparse, hbuild, hfacts⟩ := Document.exists_of_holdsOf hholds
  obtain ⟨hfirst, hstart, hnames, h₀, h₂, h₃⟩ := of_decide_eq_true hfacts
  have hopen := Grammar.open_of_all_first hfirst
  have hreach : ∀ a ∈ g.names, g.Reachable a := by
    have hZ : g.Reachable "Z" := hstart ▸ .start
    have hS : g.Reachable "S" := hZ.body h₀ rfl (by simp)
    rw [hnames]
    simp only [List.forall_mem_cons, List.not_mem_nil, IsEmpty.forall_iff, implies_true, and_true]
    exact ⟨hZ, hS, hS.body h₃ rfl (by simp), hS.body h₂ rfl (by simp)⟩
  exact ⟨g, t, hparse, hopen, hreach, hbuild,
    parse_terminates_simple hparse hopen hreach hbuild [plainToken .identifier "x"]⟩

/-- **Names have to be used, and something has to stand behind them**: with a name that is not used,
or with one that derives nothing behind another one, parsing with the table without lookaheads may go
on for ever. -/
theorem exists_endless_simple :
    (∃ g t, Document.parse unreachableDocument = .ok g ∧ simple.build g = .ok t ∧
      ∀ fuel, t.parse fuel [plainToken .identifier "c", plainToken .identifier "f"] = none) ∧
    ∃ g t, Document.parse unproductiveDocument = .ok g ∧ simple.build g = .ok t ∧
      ∀ fuel, t.parse fuel [plainToken .identifier "x", plainToken .identifier "a"] = none := by
  obtain ⟨g₁, t₁, hparse₁, -, hbuild₁, hnone₁, -⟩ := exists_endless_of_unreachable
  obtain ⟨g₂, t₂, hparse₂, -, hbuild₂, hnone₂, -⟩ := exists_endless_of_unproductive
  exact ⟨⟨g₁, t₁ simple, hparse₁, hbuild₁ simple, hnone₁⟩,
    g₂, t₂ simple, hparse₂, hbuild₂ simple, hnone₂⟩

end Strategy

end Coscript
