import Coscript.Grammar.Basic
import Coscript.Proofs.Containers
import Mathlib.Tactic.Tauto

/-!
# Laws of grammars

The index of a grammar lists exactly the productions of each name, and its terminals are the two
that stand for no token and those in the bodies of the productions.

* `Grammar.mem_productionsOf_iff`: the productions of a name;
* `Grammar.exists_production_of_mem_body`: every name that is used has a production;
* `Grammar.exists_terminal?_iff`: the numbered terminals;
* `Grammar.IsColumn`: the numbers of the terminals that stand for the head of the input.

Two conditions on grammars are used throughout. A grammar is **ordinary** if its bodies have only
terminals that stand for tokens, and **unmixed** if no type of tokens is asked for with any text in
one place and with a given text in another.
-/

namespace Coscript

namespace Grammar

/-! ### Productions -/

lemma mem_indexOf_fold {ps : List (Production × Nat)} {m : OrderedMap String (List Nat)} {i : Nat}
    {a : String} :
    i ∈ ((ps.foldl (fun m (p, i) => m.insert p.name ((m.get? p.name).getD [] ++ [i])) m).get?
        a).getD [] ↔
      i ∈ (m.get? a).getD [] ∨ ∃ p, (p, i) ∈ ps ∧ p.name = a := by
  induction ps generalizing m with
  | nil => simp
  | cons e ps ih =>
    obtain ⟨q, j⟩ := e
    rw [List.foldl_cons, ih]
    simp only [OrderedMap.get?_insert, List.mem_cons, Prod.mk.injEq]
    by_cases ha : q.name = a
    · subst ha
      simp only [if_true, Option.getD_some, List.mem_append, List.mem_singleton]
      constructor
      · rintro ((h | rfl) | ⟨p, hp, hn⟩)
        · exact .inl h
        · exact .inr ⟨q, .inl ⟨rfl, rfl⟩, rfl⟩
        · exact .inr ⟨p, .inr hp, hn⟩
      · rintro (h | ⟨p, ⟨rfl, rfl⟩ | hp, hn⟩)
        · exact .inl (.inl h)
        · exact .inl (.inr rfl)
        · exact .inr ⟨p, hp, hn⟩
    · rw [if_neg ha]
      constructor
      · rintro (h | ⟨p, hp, hn⟩)
        · exact .inl h
        · exact .inr ⟨p, .inr hp, hn⟩
      · rintro (h | ⟨p, ⟨rfl, rfl⟩ | hp, hn⟩)
        · exact .inl h
        · exact absurd hn ha
        · exact .inr ⟨p, hp, hn⟩

/-- The places of a name's productions. -/
theorem mem_productionsOf_iff {g : Grammar} {i : Nat} {a : String} :
    i ∈ g.productionsOf a ↔ ∃ p, g.production? i = some p ∧ p.name = a := by
  rw [productionsOf, g.index_eq, indexOf, mem_indexOf_fold]
  simp [List.mem_zipIdx_iff_getElem?, production?, EmptyCollection.emptyCollection]

lemma contains_indexOf_fold {ps : List (Production × Nat)} {m : OrderedMap String (List Nat)}
    {a : String} :
    (ps.foldl (fun m (p, i) => m.insert p.name ((m.get? p.name).getD [] ++ [i])) m).contains a ↔
      m.contains a ∨ ∃ p i, (p, i) ∈ ps ∧ p.name = a := by
  induction ps generalizing m with
  | nil => simp
  | cons e ps ih =>
    obtain ⟨q, j⟩ := e
    rw [List.foldl_cons, ih]
    simp only [OrderedMap.contains, OrderedMap.get?_insert, List.mem_cons, Prod.mk.injEq]
    by_cases ha : q.name = a
    · simp only [ha, if_true, Option.isSome_some, true_or, true_iff]
      exact .inr ⟨q, j, .inl ⟨rfl, rfl⟩, ha⟩
    · rw [if_neg ha]
      constructor
      · rintro (h | ⟨p, i, hp, hn⟩)
        · exact .inl h
        · exact .inr ⟨p, i, .inr hp, hn⟩
      · rintro (h | ⟨p, i, ⟨rfl, rfl⟩ | hp, hn⟩)
        · exact .inl h
        · exact absurd hn ha
        · exact .inr ⟨p, i, hp, hn⟩

/-- The names of a grammar are those that have productions. -/
theorem mem_names_iff {g : Grammar} {a : String} :
    a ∈ g.names ↔ ∃ i p, g.production? i = some p ∧ p.name = a := by
  have hc : a ∈ g.names ↔ g.index.contains a = true := by
    rw [names, OrderedMap.mem_keys_iff, OrderedMap.contains, Option.isSome_iff_exists]
  rw [hc, g.index_eq, indexOf, contains_indexOf_fold]
  simp only [List.mem_zipIdx_iff_getElem?, production?, Array.getElem?_toList]
  constructor
  · rintro (h | ⟨p, i, hp, hn⟩)
    · cases h
    · exact ⟨i, p, hp, hn⟩
  · rintro ⟨i, p, hp, hn⟩
    exact .inr ⟨p, i, hp, hn⟩

lemma start_mem_names (g : Grammar) : g.start ∈ g.names := by
  rw [names, OrderedMap.mem_keys_iff, ← Option.isSome_iff_exists]
  exact g.start_defined

/-- Every name in the body of a production has productions. -/
theorem mem_names_of_mem_body {g : Grammar} {i : Nat} {p : Production} {a : String}
    (hp : g.production? i = some p) (ha : .nonTerminal a ∈ p.body) : a ∈ g.names := by
  have h := g.defined
  rw [undefined?, List.findSome?_eq_none_iff] at h
  have h := h p (Array.mem_toList_iff.mpr (Array.mem_of_getElem? hp))
  rw [List.findSome?_eq_none_iff] at h
  have h := h _ ha
  simp only [ite_eq_left_iff, Bool.not_eq_true, reduceCtorEq, imp_false, Bool.not_eq_false] at h
  rw [names, OrderedMap.mem_keys_iff, ← Option.isSome_iff_exists]
  exact h

/-! ### Terminals -/

/-- The terminals in the bodies of the productions. -/
def usedTerminals (g : Grammar) : List Terminal :=
  g.productions.toList.flatMap fun p =>
    p.body.filterMap fun
      | .terminal t => some t
      | .nonTerminal _ => none

lemma mem_usedTerminals_iff {g : Grammar} {t : Terminal} :
    t ∈ g.usedTerminals ↔ ∃ i p, g.production? i = some p ∧ .terminal t ∈ p.body := by
  simp only [usedTerminals, List.mem_flatMap, List.mem_filterMap, production?,
    Array.mem_toList_iff, Array.mem_iff_getElem?]
  constructor
  · rintro ⟨p, ⟨i, hp⟩, s, hs, ht⟩
    cases s with
    | terminal u =>
      cases ht
      exact ⟨i, p, hp, hs⟩
    | nonTerminal a => cases ht
  · rintro ⟨i, p, hp, ht⟩
    exact ⟨p, ⟨i, hp⟩, _, ht, rfl⟩

/-- The bodies have no terminal for the end of the input or the empty string. -/
def Ordinary (g : Grammar) : Prop := .endOfInput ∉ g.usedTerminals ∧ .epsilon ∉ g.usedTerminals

instance (g : Grammar) : Decidable g.Ordinary := inferInstanceAs (Decidable (_ ∧ _))

/-- No type of tokens is used with any text and also with a given text. -/
def Unmixed (g : Grammar) : Prop :=
  ∀ type text, .any type ∈ g.usedTerminals → .literal type text ∉ g.usedTerminals

lemma unmixed_iff {g : Grammar} : g.Unmixed ↔
    ∀ t ∈ g.usedTerminals, ∀ type ∈ (match t with | .literal type _ => some type | _ => none),
      .any type ∉ g.usedTerminals := by
  constructor
  · intro h t ht type htype hany
    cases t with
    | literal type' text =>
      cases htype
      exact h _ _ hany ht
    | _ => cases htype
  · intro h type text hany hlit
    exact h _ hlit type rfl hany

instance (g : Grammar) : Decidable g.Unmixed := decidable_of_iff' _ unmixed_iff

/-- The terminals with numbers. -/
theorem exists_terminal?_iff {g : Grammar} {t : Terminal} :
    (∃ n, g.terminal? n = some t) ↔ t = .endOfInput ∨ t = .epsilon ∨ t ∈ g.usedTerminals := by
  simp only [terminal?, g.terminals_eq, terminalsOf, Numbering.exists_get?_ofList, List.mem_append,
    List.mem_cons, List.not_mem_nil, or_false, or_assoc]
  rfl

lemma exists_terminalNumber? {g : Grammar} {t : Terminal} (h : t ∈ g.usedTerminals) :
    ∃ n, g.terminalNumber? t = some n := by
  obtain ⟨n, hn⟩ := exists_terminal?_iff.mpr (.inr (.inr h))
  exact ⟨n, Numbering.number?_eq_some_iff.mpr hn⟩

lemma terminalNumber?_eq_some_iff {g : Grammar} {t : Terminal} {n : Nat} :
    g.terminalNumber? t = some n ↔ g.terminal? n = some t :=
  Numbering.number?_eq_some_iff

lemma terminal?_inj {g : Grammar} {t : Terminal} {m n : Nat} (hm : g.terminal? m = some t)
    (hn : g.terminal? n = some t) : m = n :=
  Numbering.get?_inj hm hn

lemma lt_size_of_terminal? {g : Grammar} {t : Terminal} {n : Nat} (h : g.terminal? n = some t) :
    n < g.terminals.size :=
  Numbering.lt_size_of_get? h

lemma extends_fold (xs : List Terminal) (s : Numbering Terminal) :
    s.Extends (xs.foldl (fun s x => (s.insert x).1) s) := by
  refine foldl_invariant (P := s.Extends) (Numbering.Extends.refl s) fun t x _ h => ?_
  exact h.trans (Numbering.extends_insert t x)

/-- The end of the input has number `0` and the empty string number `1`. -/
theorem terminal?_special (g : Grammar) :
    g.terminal? endOfInput = some .endOfInput ∧ g.terminal? epsilon = some .epsilon := by
  have hfirst : (((.empty : Numbering Terminal).insert .endOfInput).1.insert .epsilon).1.get? 0 =
      some .endOfInput ∧
      (((.empty : Numbering Terminal).insert .endOfInput).1.insert .epsilon).1.get? 1 =
        some .epsilon := by
    decide +kernel
  simp only [terminal?, g.terminals_eq, terminalsOf, Numbering.ofList, List.foldl_append,
    List.foldl_cons, List.foldl_nil]
  exact ⟨extends_fold _ _ _ _ hfirst.1, extends_fold _ _ _ _ hfirst.2⟩

/-! ### Columns -/

/-- A terminal with this number stands for the head of the input; `none` is the end of it. -/
def IsColumn (g : Grammar) (n : Nat) : Option Token → Prop
  | none => n = endOfInput
  | some x => ∃ t, g.terminal? n = some t ∧ t.accepts x.type x.text = true

lemma exists_terminal?_of_isColumn {g : Grammar} {n : Nat} {x : Option Token}
    (h : g.IsColumn n x) : ∃ t, g.terminal? n = some t := by
  cases x with
  | none =>
    cases h
    exact ⟨_, g.terminal?_special.1⟩
  | some x =>
    obtain ⟨t, ht, -⟩ := h
    exact ⟨t, ht⟩

lemma mem_usedTerminals_of_accepts {g : Grammar} {n : Nat} {t : Terminal} {x : Token}
    (hn : g.terminal? n = some t) (h : t.accepts x.type x.text = true) : t ∈ g.usedTerminals := by
  rcases exists_terminal?_iff.mp ⟨n, hn⟩ with rfl | rfl | ht
  · cases h
  · cases h
  · exact ht

/-- In an unmixed grammar a token is in one column. -/
theorem Unmixed.accepts_unique {g : Grammar} (hg : g.Unmixed) {t u : Terminal} {x : Token}
    (ht : t ∈ g.usedTerminals) (hu : u ∈ g.usedTerminals) (hat : t.accepts x.type x.text = true)
    (hau : u.accepts x.type x.text = true) : t = u := by
  cases t with
  | any a =>
    cases u with
    | any b =>
      simp only [Terminal.accepts, decide_eq_true_eq] at hat hau
      rw [hat, hau]
    | literal b y =>
      simp only [Terminal.accepts, Bool.and_eq_true, decide_eq_true_eq] at hat hau
      rw [hat, ← hau.1] at ht
      exact absurd hu (hg _ _ ht)
    | epsilon => cases hau
    | endOfInput => cases hau
  | literal a y =>
    cases u with
    | any b =>
      simp only [Terminal.accepts, Bool.and_eq_true, decide_eq_true_eq] at hat hau
      rw [hau, ← hat.1] at hu
      exact absurd ht (hg _ _ hu)
    | literal b z =>
      simp only [Terminal.accepts, Bool.and_eq_true, decide_eq_true_eq] at hat hau
      rw [hat.1, hat.2, hau.1, hau.2]
    | epsilon => cases hau
    | endOfInput => cases hau
  | epsilon => cases hat
  | endOfInput => cases hat

end Grammar

end Coscript
