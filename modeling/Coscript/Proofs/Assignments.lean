import Coscript.Proofs.Language
import Coscript.Proofs.Neighbours

/-!
# How assignments are read

Behind an operand the grammar of scripts asks for any operator, elsewhere for the operators `=`, `-`
and `!`; and a parser looks up the text of a token first. So it may not meet these texts where it
has entries for them and also for any operator. It meets one of them there: behind an identifier
that may begin an assignment, `=` is read as the sign of an assignment and never as a binary
operator. So a parser follows just those derivation trees in which nothing that reads as an
assignment is another expression.

* `Script.Assigning`: tokens that read as an assignment;
* `Tree.Preferred`: derivation trees that take them for one;
* `Script.follows`: every table of the language follows them.
-/

namespace Coscript

/-! ### Trees -/

/-- An identifier and the operator `=` in front of other tokens. -/
def Script.Assigning : List Token → Prop
  | x :: y :: _ => x.type = .identifier ∧ y.type = .operator ∧ y.text = "="
  | _ => False

mutual

/-- In a tree, with the input that is left behind it, no binary expression begins as an assignment
does. -/
def Tree.Preferred : Tree → List Token → Prop
  | .leaf _, _ => True
  | .node name ts, rest =>
    (name = "Expression" → ts.length = 1 → ¬ Script.Assigning (wordAll ts ++ rest)) ∧
      PreferredAll ts rest

/-- In trees, with the input that is left behind them, no binary expression begins as an assignment
does. -/
def Tree.PreferredAll : List Tree → List Token → Prop
  | [], _ => True
  | t :: ts, rest => t.Preferred (wordAll ts ++ rest) ∧ PreferredAll ts rest

end

namespace Script

/-! ### Places in the productions -/

/-- The symbols that end operands. -/
def operandEnds : List Symbol :=
  [any .identifier, mark ")", any .integer, any .float, any .string, part "Primary", part "Unary"]

/-- The symbols that operands are asked for by. -/
def operands : List Symbol := [part "Binary", part "Unary", part "Primary"]

/-- The symbols that stand before operands which are not the first ones of their expression. -/
def operandMarks : List Symbol := [operator "-", operator "!", any .operator]

/-- Whether a symbol is an operator with a given text. -/
def isGiven : Symbol → Bool
  | .terminal (.literal .operator _) => true
  | _ => false

/-- Whether a symbol is no name, or one of these names. -/
def isAmong (names : List String) : Symbol → Bool
  | .terminal _ => true
  | .nonTerminal a => a ∈ names

/-- Whether a symbol is no terminal, or one with a type that is asked for like this: with any text,
or with a given one. -/
def isTyped : Symbol → Bool
  | .terminal (.any type) => type ∈ [.identifier, .integer, .float, .string, .operator]
  | .terminal (.literal type _) => type ∈ [.keyword, .punctuation, .operator]
  | _ => true

/-- What holds of each place in the productions holds of one that is found. -/
lemma place {P : Production → Nat → Symbol → Prop}
    (h : ∀ p ∈ productions, ∀ k < p.body.length, ∀ x ∈ p.body[k]?, P p k x) {p : Production}
    (hp : p ∈ productions) {k : Nat} {x : Symbol} (hx : p.body[k]? = some x) : P p k x :=
  h p hp k (List.getElem?_eq_some_iff.mp hx).1 x hx

lemma any_operator_places : ∀ p ∈ productions, ∀ k < p.body.length, ∀ x ∈ p.body[k]?,
    x = any .operator → k = 0 ∧ p.name = "BinaryTail" := by decide

lemma given_places : ∀ p ∈ productions, ∀ k < p.body.length, ∀ x ∈ p.body[k]?, isGiven x = true →
    k = 0 ∧ p.name = "Unary" ∨
      k ≠ 0 ∧ x = operator "=" ∧ p.body[k - 1]? = some (any .identifier) := by decide

lemma assignment_places : ∀ p ∈ productions, ∀ k < p.body.length, ∀ x ∈ p.body[k]?,
    x = operator "=" →
      k = 1 ∧ p.name = "Expression" ∨ k = 2 ∧ p.body[0]? = some (keyword "var") := by
  decide

lemma tail_places : ∀ p ∈ productions, ∀ k < p.body.length, ∀ x ∈ p.body[k]?,
    x = part "BinaryTail" → k ≠ 0 ∧ p.body[k - 1]? = some (part "Unary") := by decide

lemma operand_places : ∀ p ∈ productions, ∀ k < p.body.length, ∀ x ∈ p.body[k]?, x ∈ operands →
    (k = 0 → part p.name ∈ operands ∨ p.name = "Expression" ∧ p.body.length = 1) ∧
      (k ≠ 0 → ∀ y ∈ p.body[k - 1]?, y ∈ operandMarks) := by decide

lemma operand_bodies : ∀ p ∈ productions, p.name ∈ ["Unary", "Primary"] →
    p.body ≠ [] ∧ ∀ x ∈ p.body.getLast?, x ∈ operandEnds := by decide

lemma identifier_bodies : ∀ p ∈ productions, p.name ∈ ["Unary", "Primary"] →
    p.body.getLast? = some (any .identifier) → p.body = [any .identifier] := by decide

lemma identifier_name : ∀ p ∈ productions, p.body = [any .identifier] → part p.name ∈ operands := by
  decide

lemma typed_bodies : ∀ p ∈ productions, ∀ x ∈ p.body, isTyped x = true := by decide

lemma ended_bodies : ∀ p ∈ productions, ∀ x ∈ p.body.getLast?, x ∈ operandEnds →
    p.name ∈ ["Unary", "Primary"] := by decide

lemma empty_bodies : ∀ p ∈ productions, p.body = [] →
    p.name ∈ ["BinaryTail", "ParameterTail", "Block"] →
      p.name ∈ ["BinaryTail", "ParameterTail"] := by decide

/-- Which operators may stand behind a name. -/
def followersApart (g : Grammar) : Bool :=
  productions.all fun p =>
    (g.firstFollow.follow.of p.name).toList.all fun n =>
      match g.terminal? n with
      | some (.any .operator) => p.name ∈ ["Unary", "Primary"]
      | some (.literal .operator _) =>
        p.name ∉ ["Unary", "Primary", "BinaryTail", "ParameterTail"]
      | _ => true

variable {g : Grammar}

lemma build_eq (hg : grammar = .ok g) : Grammar.build "Program" productions = .ok g :=
  grammar_eq_build.symm.trans hg

/-- What is evaluated for the productions holds of the grammar. -/
lemma of_build {P : Grammar → Bool} (hg : grammar = .ok g)
    (h : (match Grammar.build "Program" productions with
      | .ok g => P g
      | .error _ => false) = true) : P g = true := by
  rwa [build_eq hg] at h

lemma start_eq (hg : grammar = .ok g) : g.start = "Program" :=
  of_decide_eq_true (of_build (P := fun g => g.start = "Program") hg (by decide))

lemma exists_production (hg : grammar = .ok g) {p : Production} (hp : p ∈ productions) :
    ∃ i, g.production? i = some p := by
  obtain ⟨i, hi⟩ := List.mem_iff_getElem?.mp hp
  refine ⟨i, ?_⟩
  rw [Grammar.production?, Grammar.productions_of_build (build_eq hg), List.getElem?_toArray, hi]

lemma followersApart_grammar (hg : grammar = .ok g) : followersApart g = true :=
  of_build hg (by decide +kernel)

/-- Any operator may stand only behind operands. -/
lemma name_of_any_follows (hg : grammar = .ok g) {p : Production} (hp : p ∈ productions) {n : Nat}
    (hn : n ∈ g.firstFollow.follow.of p.name) (hx : g.terminal? n = some (.any .operator)) :
    p.name ∈ ["Unary", "Primary"] := by
  have := List.all_eq_true.mp (List.all_eq_true.mp (followersApart_grammar hg) p hp) n hn
  rw [hx] at this
  exact of_decide_eq_true this

/-- An operator with a given text does not stand behind operands. -/
lemma name_of_given_follows (hg : grammar = .ok g) {p : Production} (hp : p ∈ productions) {n : Nat}
    {text : String} (hn : n ∈ g.firstFollow.follow.of p.name)
    (hx : g.terminal? n = some (.literal .operator text)) :
    p.name ∉ ["Unary", "Primary", "BinaryTail", "ParameterTail"] := by
  have := List.all_eq_true.mp (List.all_eq_true.mp (followersApart_grammar hg) p hp) n hn
  rw [hx] at this
  exact of_decide_eq_true this

/-! ### What may be begun behind a symbol -/

variable {production : Nat}

/-- A set of names that is closed under the first names of bodies. -/
lemma mem_of_opens (hg : grammar = .ok g) {xs : List Symbol} {names : List String}
    (hbehind : ∀ p ∈ productions, ∀ k < p.body.length, ∀ x ∈ p.body[k]?, x ∈ xs →
      ∀ y ∈ p.body[k + 1]?, isAmong names y = true)
    (hwithin : ∀ p ∈ productions, p.name ∈ names → ∀ y ∈ p.body[0]?, isAmong names y = true)
    {x : Symbol} {a : String} (h : g.Opens production (some x) a) (hx : x ∈ xs) : a ∈ names := by
  generalize hbefore : some x = before at h
  induction h with
  | start _ => cases hbefore
  | behind hp hxk ha =>
    cases hbefore
    exact of_decide_eq_true (place hbehind (mem_productions hg hp) hxk hx _ ha)
  | within _ hp ha ih =>
    exact of_decide_eq_true (hwithin _ (mem_productions hg hp) (ih hbefore) _ ha)

lemma opens_operandEnd (hg : grammar = .ok g) {x : Symbol} {a : String}
    (h : g.Opens production (some x) a) (hx : x ∈ operandEnds) :
    a ∈ ["BinaryTail", "ParameterTail", "Block"] :=
  mem_of_opens hg (by decide) (by decide) h hx

lemma opens_operandMark (hg : grammar = .ok g) {x : Symbol} {a : String}
    (h : g.Opens production (some x) a) (hx : x ∈ operandMarks) : a ∈ ["Unary", "Primary"] :=
  mem_of_opens hg (by decide) (by decide) h hx

/-- The rest of a binary expression is begun behind an operand only. -/
lemma opens_tail (hg : grammar = .ok g) (hp : g.startProduction = .ok production)
    {before : Option Symbol} (h : g.Opens production before "BinaryTail") :
    before = some (part "Unary") := by
  generalize ha : "BinaryTail" = a at h
  cases h with
  | @start p hq =>
    obtain ⟨q, hq', hname, -⟩ := Grammar.startProduction_spec hp
    cases hq.symm.trans hq'
    rw [hname, start_eq hg] at ha
    exact absurd ha (by decide)
  | @behind i k p x _ hp hx hk =>
    subst ha
    have hmem := (place tail_places (mem_productions hg hp) hk rfl).2
    exact hx.symm.trans hmem
  | within _ hp hk =>
    subst ha
    exact absurd rfl (place tail_places (mem_productions hg hp) hk rfl).1

/-! ### What tables do with operators -/

variable {t : ParsingTable} {J : Nat → Item Unit → Prop}

/-- A table that shifts any operator does so behind an operand. -/
lemma before_of_shift (hg : grammar = .ok g) (hp : g.startProduction = .ok production)
    (h : t.Grounded g production J) {before : Option Symbol} {n m : Nat}
    (hn : t.Entered g J before n) (hact : t.action n (.any .operator) = .shift m) :
    before = some (part "Unary") := by
  obtain ⟨q, hq, -⟩ := Grammar.startProduction_spec hp
  obtain ⟨i, hi, hx, -⟩ := (h.shift n _ m hact).moved
  obtain ⟨p, hpi, hbody⟩ := Item.exists_production_of_next? hx
  obtain ⟨hzero, hname⟩ := place any_operator_places (mem_productions hg hpi) hbody rfl
  rcases hn.cases h hq hi with ⟨j, y, -, -, rfl⟩ | ⟨-, p', hpi', hopens⟩
  · exact absurd hzero (Nat.succ_ne_zero _)
  · cases hpi.symm.trans hpi'
    rw [hname] at hopens
    exact opens_tail hg hp hopens

/-- A table that reduces before any operator does so behind the end of an operand. -/
lemma before_of_reduce (hg : grammar = .ok g) (hp : g.startProduction = .ok production)
    (h : t.Grounded g production J) {before : Option Symbol} {n slot : Nat} {p : Production}
    (hn : t.Entered g J before n) (hact : t.action n (.any .operator) = .reduce slot)
    (hrule : t.rule? slot = some p) :
    p ∈ productions ∧ p.name ∈ ["Unary", "Primary"] ∧ p.body.getLast? = before := by
  obtain ⟨q, hq, -⟩ := Grammar.startProduction_spec hp
  obtain ⟨i, p', hi, hnext, hpi, hrule', l, hl, hterm⟩ := h.reduce n _ slot hact
  cases hrule.symm.trans hrule'
  have hmem := mem_productions hg hpi
  have hname := name_of_any_follows hg hmem hl hterm
  refine ⟨hmem, hname, ?_⟩
  rcases hn.cases h hq hi with ⟨j, x, rfl, hx, rfl⟩ | ⟨hzero, -⟩
  · exact Item.getLast?_of_advance (i := j) hpi hx hnext
  · exact absurd (Item.body_eq_nil hpi hzero hnext) (operand_bodies p hmem hname).1

/-- Behind the end of an operand a table has an entry for just one operator with a given text: for
`=` behind an identifier. -/
lemma given_of_operandEnd (hg : grammar = .ok g) (h : t.Grounded g production J) {x : Symbol}
    {m n : Nat} (hn : Targets g J m x n) (hx : x ∈ operandEnds) {text : String}
    (hact : t.action n (.literal .operator text) ≠ .error) :
    x = any .identifier ∧ text = "=" ∧
      ∃ i, J m i ∧ i.next? g = some x ∧ i.advance.next? g = some (operator "=") := by
  cases ha : t.action n (.literal .operator text) with
  | error => exact absurd ha hact
  | shift m' =>
    obtain ⟨i, hi, hnext, -⟩ := (h.shift n _ m' ha).moved
    obtain ⟨p, hpi, hbody⟩ := Item.exists_production_of_next? hnext
    have hplace := place given_places (mem_productions hg hpi) hbody rfl
    rcases hn.cases production hi with ⟨j, hj, hjx, rfl⟩ | ⟨hzero, p', hpi', hopens⟩
    · rcases hplace with ⟨hzero, -⟩ | ⟨-, htext, hidentifier⟩
      · exact absurd hzero (Nat.succ_ne_zero _)
      · obtain ⟨p', hpj, hbody'⟩ := Item.exists_production_of_next? hjx
        cases hpi.symm.trans hpj
        cases htext
        exact ⟨Option.some.inj (hbody'.symm.trans hidentifier), rfl, j, hj, hjx, hnext⟩
    · cases hpi.symm.trans hpi'
      rcases hplace with ⟨-, hname⟩ | ⟨hne, -⟩
      · have hmem := opens_operandEnd hg hopens hx
        rw [hname] at hmem
        exact absurd hmem (by decide)
      · exact absurd hzero hne
  | reduce slot =>
    obtain ⟨i, p, hi, hnext, hpi, -, l, hl, hterm⟩ := h.reduce n _ slot ha
    have hmem := mem_productions hg hpi
    refine absurd ?_ (name_of_given_follows hg hmem hl hterm)
    rcases hn.cases production hi with ⟨j, hj, hjx, rfl⟩ | ⟨hzero, p', hpi', hopens⟩
    · have hlast := Item.getLast?_of_advance (i := j) hpi hjx hnext
      exact List.mem_append_left _ (ended_bodies p hmem x hlast hx)
    · cases hpi.symm.trans hpi'
      exact List.mem_append_right ["Unary", "Primary"] (empty_bodies p hmem
        (Item.body_eq_nil hpi hzero hnext) (opens_operandEnd hg hopens hx))

/-- Whether a table shifts an identifier in a state and has an entry for `=` behind it. -/
def Assigns (t : ParsingTable) (n : Nat) : Prop :=
  ∃ m, t.action n (.any .identifier) = .shift m ∧ t.action m (.literal .operator "=") ≠ .error

/-- No assignment begins at an operand that is not the first of its expression. -/
lemma not_assigns (hg : grammar = .ok g) (hp : g.startProduction = .ok production)
    (h : t.Grounded g production J) {x : Symbol} {n : Nat} (hn : t.Entered g J (some x) n)
    (hx : x ∈ operandMarks) : ¬ Assigns t n := by
  rintro ⟨m, hm, hact⟩
  obtain ⟨q, hq, -⟩ := Grammar.startProduction_spec hp
  obtain ⟨-, -, i, hi, hidentifier, hnext⟩ :=
    given_of_operandEnd hg h (h.shift n _ m hm) (by decide) hact
  obtain ⟨p, hpi, hbody⟩ := Item.exists_production_of_next? hnext
  have hplace := place assignment_places (mem_productions hg hpi) hbody rfl
  rcases hn.cases h hq hi with ⟨j, y, hy, hjy, rfl⟩ | ⟨hzero, p', hpi', hopens⟩
  · obtain ⟨p', hpj, hjy⟩ := Item.exists_production_of_next? hjy
    cases hpi.symm.trans hpj
    cases hy
    rcases hplace with ⟨hone, -⟩ | ⟨htwo, hvar⟩
    · exact absurd hone (by simp [Item.advance])
    · have hzero : j.dot = 0 := by simpa [Item.advance] using htwo
      rw [hzero] at hjy
      cases hjy.symm.trans hvar
      exact absurd hx (by decide)
  · cases hpi.symm.trans hpi'
    rcases hplace with ⟨-, hname⟩ | ⟨htwo, -⟩
    · have hmem := opens_operandMark hg hopens hx
      rw [hname] at hmem
      exact absurd hmem (by decide)
    · exact absurd htwo (by simp [Item.advance, hzero])

/-! ### Following trees -/

variable {I : Nat → Item Nat → Prop}

/-- Only operators are asked for with any text and also with given texts. -/
lemma operator_of_both (hg : grammar = .ok g) (hc : t.Covers g production I) {n : Nat}
    {type : TokenType} {text : String} (hany : t.action n (.any type) ≠ .error)
    (hgiven : t.action n (.literal type text) ≠ .error) : type = .operator := by
  have htypes : ∀ y, t.action n y ≠ .error → y ≠ .endOfInput → y ≠ .epsilon →
      isTyped (.terminal y) = true := fun y hy h₁ h₂ => by
    rcases Grammar.exists_terminal?_iff.mp (hc.columns hy) with h | h | h
    · exact absurd h h₁
    · exact absurd h h₂
    · obtain ⟨i, p, hp, hbody⟩ := Grammar.mem_usedTerminals_iff.mp h
      exact typed_bodies p (mem_productions hg hp) _ hbody
  have h₁ := htypes _ hany (by simp) (by simp)
  have h₂ := htypes _ hgiven (by simp) (by simp)
  cases type <;> simp_all [isTyped]

/-- At the end of a production's body a parser reduces where the table does, but for `=` behind an
identifier. -/
lemma follows_nil (hg : grammar = .ok g) (hp : g.startProduction = .ok production)
    (hc : t.Covers g production I) (h : t.Grounded g production J) {before : Option Symbol} {n : Nat}
    (hn : t.Entered g J before n) {p : Production} {rest : List Token}
    (hassign : p.body = [any .identifier] → ∀ z ∈ rest.head?, z.type = .operator → z.text = "=" →
      t.action n (.literal .operator "=") = .error) : t.FollowsAll g p n [] [] rest := by
  refine .nil fun k y slot hcol hy hact hrule => ?_
  generalize hhead : rest.head? = head at hcol
  cases head with
  | none =>
    cases hcol
    cases g.terminal?_special.1.symm.trans hy
    exact hact
  | some z =>
    obtain ⟨y', hy', hacc⟩ := hcol
    cases hy.symm.trans hy'
    rw [Configuration.lookup_of_accepts hacc (by simp [hact]), hact]
    rintro rfl
    by_contra hgiven
    have htype := operator_of_both hg hc (by simp [hact]) hgiven
    rw [htype] at hact hgiven
    -- Only behind an operand are there entries for any operator, and only behind an identifier for
    -- one with a given text.
    obtain ⟨hmem, hname, hlast⟩ := before_of_reduce hg hp h hn hact hrule
    obtain ⟨hne, hends⟩ := operand_bodies p hmem hname
    rw [List.getLast?_eq_getLast_of_ne_nil hne] at hlast hends
    subst hlast
    obtain ⟨m, hm⟩ := hn
    obtain ⟨hx, htext, -⟩ := given_of_operandEnd hg h hm (hends _ rfl) hgiven
    rw [htext] at hgiven
    refine hgiven (hassign (identifier_bodies p hmem hname ?_) z hhead htype htext)
    rw [List.getLast?_eq_getLast_of_ne_nil hne, hx]

/-- A parser shifts a token where the table shifts a terminal that accepts it. -/
lemma follows_leaf (hg : grammar = .ok g) (hp : g.startProduction = .ok production)
    (hc : t.Covers g production I) (h : t.Grounded g production J) {before : Option Symbol} {n : Nat}
    (hn : t.Entered g J before n) {y : Terminal} {z : Token} {rest : List Token}
    (hz : y.accepts z.type z.text = true) : t.Follows g n (.terminal y) (.leaf z) rest := by
  refine .leaf hz fun m hm => ?_
  rw [Configuration.lookup_of_accepts hz (by simp [hm]), hm]
  rintro rfl
  by_contra hgiven
  have htype := operator_of_both hg hc (by simp [hm]) hgiven
  rw [htype] at hm hgiven
  obtain rfl := before_of_shift hg hp h hn hm
  obtain ⟨m', hm'⟩ := hn
  obtain ⟨hx, -⟩ := given_of_operandEnd hg h hm' (by decide) hgiven
  exact absurd hx (by decide)

mutual

/-- **The tables of the language follow every preferred derivation tree.** -/
theorem follows (hg : grammar = .ok g) (hp : g.startProduction = .ok production)
    (hc : t.Covers g production I) (h : t.Grounded g production J) :
    ∀ {T : Tree} {x : Symbol}, g.Derives x T → ∀ {before : Option Symbol} {n : Nat}
      {rest : List Token}, t.Entered g J before n → T.Preferred rest →
      (x ∈ operands → Assigns t n → ¬ Assigning (T.word ++ rest)) → t.Follows g n x T rest
  | .leaf _, _, .leaf hz, _, _, _, hn, _, _ => follows_leaf hg hp hc h hn hz
  | .node _ ts, _, .node (p := p) hi hts, before, n, rest, hn, hpreferred, hfirst => by
    have hmem := mem_productions hg hi
    refine .node hi ?_
    by_cases hbody : p.body = [any .identifier]
    · -- An identifier that may begin an assignment is followed where no assignment begins.
      rw [hbody] at hts ⊢
      obtain ⟨z, rfl, hz⟩ := Grammar.DerivesAll.exists_leaf hts
      refine .cons (follows_leaf hg hp hc h hn hz) .nil fun m hm => follows_nil hg hp hc h
        (show t.Entered g J (some (any .identifier)) m from ⟨n, h.targets hm⟩)
        fun _ z' hz' htype htext => ?_
      by_contra hact
      refine hfirst (identifier_name p hmem hbody) ⟨m, hm, hact⟩ ?_
      obtain ⟨rest, rfl⟩ := List.head?_eq_some_iff.mp hz'
      exact ⟨(of_decide_eq_true hz).symm, htype, htext⟩
    · refine followsAll hg hp hc h hts [] hmem (List.nil_append _).symm hbody hn (by simp) hpreferred.2
        fun _ x hx hoperand hassigns => ?_
      rw [List.head?_eq_getElem?] at hx
      rcases (place operand_places hmem hx hoperand).1 rfl with hname | ⟨hname, hlength⟩
      · exact hfirst hname hassigns
      · exact hpreferred.1 hname (hts.length_eq.trans hlength)

/-- The tables of the language follow preferred derivation trees of what is left of a body. -/
theorem followsAll (hg : grammar = .ok g) (hp : g.startProduction = .ok production)
    (hc : t.Covers g production I) (h : t.Grounded g production J) :
    ∀ {ts : List Tree} {xs : List Symbol}, g.DerivesAll xs ts → ∀ {p : Production}
      (begun : List Symbol) {before : Option Symbol} {n : Nat} {rest : List Token},
      p ∈ productions → p.body = begun ++ xs → p.body ≠ [any .identifier] →
      t.Entered g J before n → (∀ y, begun.getLast? = some y → before = some y) →
      Tree.PreferredAll ts rest →
      (begun = [] → ∀ x ∈ xs.head?, x ∈ operands → Assigns t n →
        ¬ Assigning (Tree.wordAll ts ++ rest)) → t.FollowsAll g p n xs ts rest
  | [], _, .nil, p, _, _, n, rest, _, _, hne, hn, _, _, _ =>
    follows_nil hg hp hc h hn fun hbody => absurd hbody hne
  | T :: ts, x :: xs, .cons hT hts, p, begun, before, n, rest, hmem, hbody, hne, hn,
      hbefore, hpreferred, hfirst => by
    refine .cons (follows hg hp hc h hT hn hpreferred.1 fun hoperand hassigns => ?_) hts
      fun m hm => followsAll hg hp hc h hts (begun ++ [x]) hmem (by simp [hbody]) hne
        (show t.Entered g J (some x) m from ⟨n, h.targets hm⟩) (by simp) hpreferred.2 (by simp)
    rcases List.eq_nil_or_concat begun with rfl | ⟨begun, y, rfl⟩
    · rw [← List.append_assoc]
      exact hfirst rfl x rfl hoperand hassigns
    · obtain rfl := hbefore y (by simp)
      have hx : p.body[begun.length + 1]? = some x := by simp [hbody]
      have hy : p.body[begun.length]? = some y := by simp [hbody]
      have hmark := (place operand_places hmem hx hoperand).2 (Nat.succ_ne_zero _) y hy
      exact absurd hassigns (not_assigns hg hp h hn hmark)

end

end Script
end Coscript
