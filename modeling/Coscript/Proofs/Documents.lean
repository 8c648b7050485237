import Coscript.Grammar.Document
import Coscript.Proofs.Grammar

/-!
# Grammars of documents

A rule body can name token types, quote tokens and name symbols, but it cannot name the end of the
input, and the empty element leaves no trace in a production. The grammars of documents are
ordinary.

* `Document.parse_ordinary`: the bodies of a document's productions have only terminals that stand
  for tokens.
-/

namespace Coscript

/-! ### Lines -/

namespace Line

lemma all_cons {c : Char} {l cs : List Char} {ls : List (List Char)} (hn : c ≠ '\n')
    (hr : c ≠ '\r') (h : all cs = l :: ls) : all (c :: cs) = (c :: l) :: ls := by
  rw [all.eq_3 _ _ (by rintro _ rfl; exact absurd rfl hr), if_neg hn, h]

lemma all_append {l : List Char} (cs : List Char) (hn : '\n' ∉ l) (hr : '\r' ∉ l) :
    all (l ++ '\n' :: cs) = l :: all cs := by
  induction l with
  | nil => simp [all]
  | cons c l ih =>
    rw [List.mem_cons, not_or] at hn hr
    exact all_cons (Ne.symm hn.1) (Ne.symm hr.1) (ih hn.2 hr.2)

/-- A text made of ended lines has these lines. -/
lemma all_flatMap {ls : List (List Char)} (h : ∀ l ∈ ls, '\n' ∉ l ∧ '\r' ∉ l) :
    all (ls.flatMap fun l => l ++ ['\n']) = ls := by
  induction ls with
  | nil => rfl
  | cons l ls ih =>
    obtain ⟨hn, hr⟩ := h l (by simp)
    rw [List.flatMap_cons, List.append_assoc, List.singleton_append, all_append _ hn hr,
      ih fun l' hl' => h l' (by simp [hl'])]

end Line

/-! ### Ordinary elements -/

/-- An element is not a terminal for the end of the input or the empty string. -/
def Element.Ordinary (e : Element) : Prop :=
  e ≠ .terminal .endOfInput ∧ e ≠ .terminal .epsilon

namespace RuleBody

variable {rule : String} {isSymbol : String → Bool}

lemma alternative_ordinary {name : String} {e : Element} (h : alternative name = .ok e) :
    e.Ordinary := by
  unfold alternative at h
  split at h
  · cases h
    simp [Element.Ordinary, Element.terminal]
  · cases h

lemma alternatives_ordinary {names : List String} {es : List Element}
    (h : names.mapM alternative = .ok es) : ∀ e ∈ es, e.Ordinary := by
  induction names generalizing es with
  | nil =>
    cases h
    simp
  | cons name names ih =>
    rw [List.mapM_cons] at h
    obtain ⟨e, he, h⟩ := bind_eq_ok_iff.mp h
    obtain ⟨es', hes, h⟩ := bind_eq_ok_iff.mp h
    cases h
    exact List.forall_mem_cons.mpr ⟨alternative_ordinary he, ih hes⟩

lemma literal_ordinary {text : String} {x : Terminal} (h : literal text = .ok x) :
    (Element.terminal x).Ordinary := by
  unfold literal at h
  split at h
  · cases h
  · cases h
    simp [Element.Ordinary, Element.terminal]
  · cases h

lemma single_ordinary {ts rest : List Token} {name : String} {es : List Element}
    (h : slot.single rule isSymbol ts name = .ok (es, rest)) : ∀ e ∈ es, e.Ordinary := by
  unfold slot.single at h
  split at h
  · cases h
    simp [Element.Ordinary, Element.terminal]
  · split at h
    · cases h
      simp [Element.Ordinary, Element.terminal, Element.nonTerminal]
    · cases h

lemma alternation_ordinary {first : String} {ts rest : List Token} {es : List Element}
    (h : (do
      let (names, rest) ← operands first ts
      let elements ← (first :: names).mapM alternative
      return (elements, rest) : Except GrammarError _) = .ok (es, rest)) : ∀ e ∈ es, e.Ordinary := by
  obtain ⟨⟨names, rest'⟩, -, h⟩ := bind_eq_ok_iff.mp h
  obtain ⟨es', hes, h⟩ := bind_eq_ok_iff.mp h
  cases h
  exact alternatives_ordinary hes

/-- Every element that a slot lists is ordinary. -/
lemma slot_ordinary {t : Token} {ts rest : List Token} {es : List Element}
    (h : slot rule isSymbol t ts = .ok (es, rest)) : ∀ e ∈ es, e.Ordinary := by
  unfold slot at h
  split at h
  · split at h
    · cases h
    · generalize hl : literal _ = l at h
      cases l with
      | error e => cases h
      | ok x =>
        cases h
        exact List.forall_mem_singleton.mpr (literal_ordinary hl)
  · split at h
    · split at h
      · split at h
        · cases h
          simp [Element.Ordinary, Element.terminal]
        · cases h
      · cases h
    · cases h
  · split at h
    · exact single_ordinary h
    · split at h
      · exact alternation_ordinary h
      · exact single_ordinary h
  · split at h
    · exact single_ordinary h
    · split at h
      · exact alternation_ordinary h
      · exact single_ordinary h
  · cases h

lemma slots_ordinary {ts : List Token} {ss : List (List Element)}
    (h : slots rule isSymbol ts = .ok ss) : ∀ es ∈ ss, ∀ e ∈ es, e.Ordinary := by
  fun_induction slots rule isSymbol ts generalizing ss with
  | case1 =>
    cases h
    simp
  | case2 => cases h
  | case3 t ts es rest hslot ih =>
    obtain ⟨more, hmore, h⟩ := bind_eq_ok_iff.mp h
    cases h
    exact List.forall_mem_cons.mpr ⟨slot_ordinary hslot, ih hmore⟩

/-- A choice takes its elements from the slots. -/
lemma exists_slot_of_mem_choices {ss : List (List Element)} {es : List Element}
    (h : es ∈ choices ss) : ∀ e ∈ es, ∃ slot ∈ ss, e ∈ slot := by
  induction ss generalizing es with
  | nil =>
    obtain rfl := List.mem_singleton.mp h
    simp
  | cons slot ss ih =>
    obtain ⟨e, he, h⟩ := List.mem_flatMap.mp h
    obtain ⟨es', hes, rfl⟩ := List.mem_map.mp h
    refine List.forall_mem_cons.mpr ⟨⟨slot, by simp, he⟩, fun e' he' => ?_⟩
    obtain ⟨slot', hslot, hmem⟩ := ih hes e' he'
    exact ⟨slot', List.mem_cons_of_mem _ hslot, hmem⟩

lemma parse_ordinary {text : String} {bodies : List (List Element)}
    (h : parse rule text isSymbol = .ok bodies) : ∀ es ∈ bodies, ∀ e ∈ es, e.Ordinary := by
  unfold parse at h
  split at h
  · cases h
  · next tokens _ =>
    cases hs : slots rule isSymbol tokens with
    | error e =>
      rw [hs] at h
      cases h
    | ok ss =>
      rw [hs] at h
      cases h
      intro es hes e he
      obtain ⟨slot, hslot, hmem⟩ := exists_slot_of_mem_choices hes e he
      exact slots_ordinary hs slot hslot e hmem

end RuleBody

/-- The symbols of a production are among the elements that it is written with. -/
lemma Production.symbol_mem_of_mem_body {name : String} {es : List Element} {s : Symbol}
    (h : s ∈ (ofElements name es).body) : .symbol s ∈ es := by
  obtain ⟨e, he, hsymbol⟩ := List.mem_filterMap.mp h
  cases e with
  | symbol s' =>
    cases hsymbol
    exact he
  | empty => cases hsymbol

/-- The body of a production of ordinary elements has only terminals that stand for tokens. -/
lemma Production.ofElements_ordinary {name : String} {es : List Element}
    (h : ∀ e ∈ es, e.Ordinary) :
    .terminal .endOfInput ∉ (ofElements name es).body ∧
      .terminal .epsilon ∉ (ofElements name es).body :=
  ⟨fun hx => (h _ (symbol_mem_of_mem_body hx)).1 rfl,
    fun hx => (h _ (symbol_mem_of_mem_body hx)).2 rfl⟩

/-- A built grammar has the productions it was built from. -/
lemma Grammar.productions_of_build {start : String} {ps : List Production} {g : Grammar}
    (h : build start ps = .ok g) : g.productions = ps.toArray := by
  unfold build at h
  dsimp only at h
  split at h
  · cases h
  · split at h
    · cases h
      rfl
    · cases h

namespace Document

/-- A production of rules is one of the bodies that its rule means. -/
lemma exists_rule_of_mem {isSymbol : String → Bool} {rules : List (String × List Char)}
    {ps : List Production} (h : productions isSymbol rules = .ok ps) {p : Production}
    (hp : p ∈ ps) : ∃ rule ∈ rules, ∃ bodies,
      RuleBody.parse rule.1 (String.ofList rule.2) isSymbol = .ok bodies ∧
        ∃ es ∈ bodies, p = .ofElements rule.1 es := by
  induction rules generalizing ps with
  | nil =>
    cases h
    cases hp
  | cons rule rules ih =>
    obtain ⟨bodies, hbodies, h⟩ := bind_eq_ok_iff.mp h
    obtain ⟨more, hmore, h⟩ := bind_eq_ok_iff.mp h
    cases h
    rcases List.mem_append.mp hp with hp | hp
    · obtain ⟨es, hes, rfl⟩ := List.mem_map.mp hp
      exact ⟨rule, List.mem_cons_self, bodies, hbodies, es, hes, rfl⟩
    · obtain ⟨rule', hrule, hbody⟩ := ih hmore hp
      exact ⟨rule', List.mem_cons_of_mem rule hrule, hbody⟩

lemma productions_ordinary {isSymbol : String → Bool} {rules : List (String × List Char)}
    {ps : List Production} (h : productions isSymbol rules = .ok ps) :
    ∀ p ∈ ps, .terminal .endOfInput ∉ p.body ∧ .terminal .epsilon ∉ p.body := by
  intro p hp
  obtain ⟨rule, -, bodies, hbodies, es, hes, rfl⟩ := exists_rule_of_mem h hp
  exact Production.ofElements_ordinary (RuleBody.parse_ordinary hbodies es hes)

/-- **The grammar of a document is ordinary.** -/
theorem parse_ordinary {text : String} {g : Grammar} (h : parse text = .ok g) : g.Ordinary := by
  obtain ⟨d, -, h⟩ := bind_eq_ok_iff.mp h
  split at h
  · cases h
  · obtain ⟨ps, hps, h⟩ := bind_eq_ok_iff.mp h
    have hbody : ∀ i p, g.production? i = some p → p ∈ ps := fun i p hp => by
      rw [Grammar.production?, Grammar.productions_of_build h, List.getElem?_toArray] at hp
      exact List.mem_of_getElem? hp
    constructor
    all_goals
      intro hused
      obtain ⟨i, p, hp, hmem⟩ := Grammar.mem_usedTerminals_iff.mp hused
      have := productions_ordinary hps p (hbody i p hp)
    · exact this.1 hmem
    · exact this.2 hmem

end Document

end Coscript
