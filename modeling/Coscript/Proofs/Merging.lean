import Coscript.Proofs.Table

/-!
# Merged tables

A merged table has the entries of the canonical table, with each state replaced by its group, and
no others. Which states make up a group does not matter for this: the demands of all of them were
granted.

* `Merging.table_spec`: how a merged table is entered;
* `Merging.merges_of_table`: the entries of a merged table.
-/

namespace Coscript

namespace ParsingTable

/-- An action other than an error is an entry of its row. -/
lemma exists_row_of_action {t : ParsingTable} {state : Nat} {x : Terminal}
    (h : t.action state x ≠ .error) :
    ∃ row, t.rows[state]? = some row ∧ (x, t.action state x) ∈ row.actions.entries := by
  unfold action at h ⊢
  cases hr : t.rows[state]? with
  | none => simp [hr] at h
  | some row =>
    refine ⟨row, rfl, OrderedMap.mem_entries_iff.mpr ?_⟩
    simp only [hr, Option.bind_some] at h ⊢
    cases ha : row.actions.get? x with
    | none => simp [ha] at h
    | some a => rfl

lemma exists_row_of_goto? {t : ParsingTable} {state n : Nat} {a : String}
    (h : t.goto? state a = some n) :
    ∃ row, t.rows[state]? = some row ∧ (a, n) ∈ row.gotos.entries := by
  obtain ⟨row, hr, hn⟩ := Option.bind_eq_some_iff.mp h
  exact ⟨row, hr, OrderedMap.mem_entries_iff.mpr hn⟩

lemma action_of_mem_entries {t : ParsingTable} {state : Nat} {row : TableRow} {x : Terminal}
    {a : Action} (hr : t.rows[state]? = some row) (h : (x, a) ∈ row.actions.entries) :
    t.action state x = a := by
  rw [action, hr, Option.bind_some, OrderedMap.mem_entries_iff.mp h, Option.getD_some]

lemma goto?_of_mem_entries {t : ParsingTable} {state n : Nat} {row : TableRow} {a : String}
    (hr : t.rows[state]? = some row) (h : (a, n) ∈ row.gotos.entries) :
    t.goto? state a = some n := by
  rw [goto?, hr, Option.bind_some, OrderedMap.mem_entries_iff.mp h]

end ParsingTable

namespace Merging

/-- The entries of a table that is being merged stand for entries of the canonical table. -/
structure Justified (m : Merging) (canonical : ParsingTable) (b : TableBuilder) : Prop where
  rules : b.rules = canonical.rules
  action : ∀ group x, b.action group x ≠ .error → ∃ state, m.groupOf state = group ∧
    canonical.action state x ≠ .error ∧ b.action group x = m.action (canonical.action state x)
  goto : ∀ group a n, b.goto? group a = some n → ∃ state target, m.groupOf state = group ∧
    canonical.goto? state a = some target ∧ n = m.groupOf target

/-- A table with the entries that stand for those of a state of the canonical table. -/
structure Covers (m : Merging) (canonical : ParsingTable) (state : Nat) (b : TableBuilder) :
    Prop where
  action : ∀ x, canonical.action state x ≠ .error →
    b.action (m.groupOf state) x = m.action (canonical.action state x)
  goto : ∀ a n, canonical.goto? state a = some n →
    b.goto? (m.groupOf state) a = some (m.groupOf n)

lemma action_ne_error {m : Merging} {a : Action} : m.action a ≠ .error ↔ a ≠ .error := by
  cases a <;> simp [action]

lemma Covers.extend {m : Merging} {canonical : ParsingTable} {state : Nat} {b b' : TableBuilder}
    (h : m.Covers canonical state b) (hb : b.Extends b') : m.Covers canonical state b' where
  action x hx := by
    have he := h.action x hx
    rw [hb.actions _ _ (by rw [he]; exact action_ne_error.mpr hx), he]
  goto a n hn := hb.gotos _ _ _ (h.goto a n hn)

variable {m : Merging} {g : Grammar} {c : Collection Nat} {canonical : ParsingTable}

lemma justified_setAction {b b' : TableBuilder} {state : Nat} {row : TableRow} {x : Terminal}
    {a : Action} {items : Unit → List String} (hb : m.Justified canonical b)
    (hrow : canonical.rows[state]? = some row) (hx : (x, a) ∈ row.actions.entries)
    (h : b.setAction (m.groupOf state) x (m.action a) items = .ok b') :
    m.Justified canonical b' where
  rules := (TableBuilder.rules_setAction h).1.trans hb.rules
  action group y hy := by
    rw [TableBuilder.action_setAction h] at hy ⊢
    split at hy
    · next hgy =>
      obtain ⟨rfl, rfl⟩ := hgy
      have ha := ParsingTable.action_of_mem_entries hrow hx
      refine ⟨state, rfl, ?_, ?_⟩
      · rw [ha]
        exact action_ne_error.mp hy
      · rw [if_pos ⟨rfl, rfl⟩, ha]
    · next hgy =>
      rw [if_neg hgy]
      exact hb.action group y hy
  goto group a n hn := by
    rw [TableBuilder.goto?_setAction h] at hn
    exact hb.goto group a n hn

lemma justified_setGoto {b b' : TableBuilder} {state n : Nat} {row : TableRow} {a : String}
    (hb : m.Justified canonical b) (hrow : canonical.rows[state]? = some row)
    (hn : (a, n) ∈ row.gotos.entries)
    (h : b.setGoto (m.groupOf state) a (m.groupOf n) = .ok b') : m.Justified canonical b' := by
  obtain ⟨hrules, -, hact, -, hgoto⟩ := TableBuilder.setGoto_spec h
  refine ⟨hrules.trans hb.rules, ?_, fun group name k hk => ?_⟩
  · rw [hact]
    exact hb.action
  · rw [hgoto] at hk
    split at hk
    · next hga =>
      obtain ⟨rfl, rfl⟩ := hga
      cases hk
      exact ⟨state, n, rfl, ParsingTable.goto?_of_mem_entries hrow hn, rfl⟩
    · exact hb.goto group name k hk

/-- Entering a row of the canonical table gives its group all entries of the row. -/
lemma enterRow_spec {b b' : TableBuilder} {state : Nat} {row : TableRow}
    (hb : m.Justified canonical b) (hrow : canonical.rows[state]? = some row)
    (h : m.enterRow g c b (row, state) = .ok b') :
    m.Justified canonical b' ∧ b.Extends b' ∧ m.Covers canonical state b' := by
  unfold enterRow at h
  obtain ⟨b₁, hfold, h⟩ := bind_eq_ok_iff.mp h
  obtain ⟨⟨hj₁, hext₁⟩, hdemand₁, -⟩ := foldlM_demand
    (P := fun b' => m.Justified canonical b' ∧ b.Extends b')
    (Q := fun e b' => e.2 ≠ .error → b'.action (m.groupOf state) e.1 = m.action e.2)
    ⟨hb, .refl b⟩ (by
      intro b₂ b₃ e he h₁ hset
      have hstep := TableBuilder.extends_setAction hset
      refine ⟨⟨justified_setAction h₁.1 hrow he hset, h₁.2.trans hstep⟩, fun _ => ?_,
        fun y hy hne => ?_⟩
      · rw [TableBuilder.action_setAction hset, if_pos ⟨rfl, rfl⟩]
      · have hy := hy hne
        rw [hstep.actions _ _ (by rw [hy]; exact action_ne_error.mpr hne), hy]) hfold
  obtain ⟨⟨hj₂, hext₂⟩, hdemand₂, -⟩ := foldlM_demand
    (P := fun b' => m.Justified canonical b' ∧ b₁.Extends b')
    (Q := fun e b' => b'.goto? (m.groupOf state) e.1 = some (m.groupOf e.2)) ⟨hj₁, .refl b₁⟩ (by
      intro b₂ b₃ e he h₁ hset
      have hstep := TableBuilder.extends_setGoto hset
      refine ⟨⟨justified_setGoto h₁.1 hrow he hset, h₁.2.trans hstep⟩, ?_,
        fun y hy => hstep.gotos _ _ _ hy⟩
      obtain ⟨-, -, -, -, hgoto⟩ := TableBuilder.setGoto_spec hset
      rw [hgoto, if_pos ⟨rfl, rfl⟩]) h
  refine ⟨hj₂, hext₁.trans hext₂, ⟨fun x hx => ?_, fun a n hn => ?_⟩⟩
  · obtain ⟨row', hrow', he⟩ := ParsingTable.exists_row_of_action hx
    cases hrow.symm.trans hrow'
    have := hdemand₁ _ he hx
    rw [hext₂.actions _ _ (by rw [this]; exact action_ne_error.mpr hx), this]
  · obtain ⟨row', hrow', he⟩ := ParsingTable.exists_row_of_goto? hn
    cases hrow.symm.trans hrow'
    exact hdemand₂ _ he

/-- **A merged table has the entries of the canonical table, by groups, and no others.** -/
theorem table_spec {t : ParsingTable} (h : m.table g c canonical = .ok t) :
    ∃ b : TableBuilder, t = b.finish (m.groupOf canonical.initial) ∧ m.Justified canonical b ∧
      ∀ state, m.Covers canonical state b := by
  unfold table at h
  cases hfold : canonical.rows.toList.zipIdx.foldlM (m.enterRow g c)
      (.withRules m.size canonical.rules) with
  | error e =>
    rw [hfold] at h
    cases h
  | ok b =>
    rw [hfold] at h
    cases h
    obtain ⟨hact, hgoto⟩ := TableBuilder.withRules_entries m.size canonical.rules
    have hstart : m.Justified canonical (.withRules m.size canonical.rules) := by
      refine ⟨rfl, fun group x hx => ?_, fun group a n hn => ?_⟩
      · exact absurd (hact group x) hx
      · rw [hgoto] at hn
        cases hn
    obtain ⟨hb, hdemand, -⟩ := foldlM_demand (P := fun b' => m.Justified canonical b')
      (Q := fun e b' => m.Covers canonical e.2 b') hstart
      (fun b₁ b₂ e he h₁ hstep => by
        have hrow : canonical.rows[e.2]? = some e.1 := by
          rw [← Array.getElem?_toList]
          exact List.mem_zipIdx_iff_getElem?.mp he
        obtain ⟨hj, hext, hcov⟩ := enterRow_spec h₁ hrow hstep
        exact ⟨hj, hcov, fun f hf => hf.extend hext⟩) hfold
    have hmem : ∀ (state : Nat) (row : TableRow), canonical.rows[state]? = some row →
        (row, state) ∈ canonical.rows.toList.zipIdx := fun state row hrow => by
      rw [List.mem_zipIdx_iff_getElem?, Array.getElem?_toList]
      exact hrow
    refine ⟨b, rfl, hb, fun state => ⟨fun x hx => ?_, fun a n hn => ?_⟩⟩
    · obtain ⟨row, hrow, -⟩ := ParsingTable.exists_row_of_action hx
      exact (hdemand _ (hmem state row hrow)).action x hx
    · obtain ⟨row, hrow, -⟩ := ParsingTable.exists_row_of_goto? hn
      exact (hdemand _ (hmem state row hrow)).goto a n hn

/-- A table has the rules of the canonical one, and its entries by groups. -/
structure Merges (m : Merging) (canonical t : ParsingTable) : Prop where
  initial : t.initial = m.groupOf canonical.initial
  defaultRule : t.defaultRule = 0
  rule : ∀ slot, t.rule? slot = canonical.rule? slot
  shift : ∀ group x n, t.action group x = .shift n ↔ ∃ state k, m.groupOf state = group ∧
    canonical.action state x = .shift k ∧ m.groupOf k = n
  reduce : ∀ group x slot, t.action group x = .reduce slot ↔
    ∃ state, m.groupOf state = group ∧ canonical.action state x = .reduce slot
  goto : ∀ group a n, t.goto? group a = some n ↔ ∃ state k, m.groupOf state = group ∧
    canonical.goto? state a = some k ∧ m.groupOf k = n

/-- **The entries of a merged table** are those of the canonical table, by groups. -/
theorem merges_of_table {t : ParsingTable} (h : m.table g c canonical = .ok t) :
    m.Merges canonical t := by
  obtain ⟨b, rfl, hjust, hcov⟩ := table_spec h
  refine ⟨rfl, rfl, fun slot => ?_, fun group x n => ?_, fun group x slot => ?_,
    fun group a n => ?_⟩
  · rw [ParsingTable.rule?, TableBuilder.finish, hjust.rules]
    rfl
  · constructor
    · intro hx
      obtain ⟨state, hgroup, -, he⟩ := hjust.action group x (by
        rw [show b.action group x = .shift n from hx]
        simp)
      have hshift : m.action (canonical.action state x) = .shift n := he.symm.trans hx
      cases ha : canonical.action state x with
      | error | reduce => simp [ha, action] at hshift
      | shift k => exact ⟨state, k, hgroup, ha, by simpa [ha, action] using hshift⟩
    · rintro ⟨state, k, rfl, ha, rfl⟩
      refine ((hcov state).action x (by rw [ha]; simp)).trans ?_
      rw [ha]
      rfl
  · constructor
    · intro hx
      obtain ⟨state, hgroup, -, he⟩ := hjust.action group x (by
        rw [show b.action group x = .reduce slot from hx]
        simp)
      have hreduce : m.action (canonical.action state x) = .reduce slot := he.symm.trans hx
      cases ha : canonical.action state x with
      | error | shift => simp [ha, action] at hreduce
      | reduce slot' => exact ⟨state, hgroup, by rw [ha]; simpa [ha, action] using hreduce⟩
    · rintro ⟨state, rfl, ha⟩
      refine ((hcov state).action x (by rw [ha]; simp)).trans ?_
      rw [ha]
      rfl
  · constructor
    · intro hn
      obtain ⟨state, k, hgroup, hk, rfl⟩ := hjust.goto group a n hn
      exact ⟨state, k, hgroup, hk, rfl⟩
    · rintro ⟨state, k, rfl, hk, rfl⟩
      exact (hcov state).goto a k hk

/-- Where a merged table has an action, the canonical one has one. -/
lemma Merges.exists_action {t : ParsingTable} (h : m.Merges canonical t) {group : Nat}
    {x : Terminal} (hx : t.action group x ≠ .error) :
    ∃ state, canonical.action state x ≠ .error := by
  cases ha : t.action group x with
  | error => exact absurd ha hx
  | shift n =>
    obtain ⟨state, k, -, hk, -⟩ := (h.shift group x n).mp ha
    exact ⟨state, by simp [hk]⟩
  | reduce slot =>
    obtain ⟨state, -, hslot⟩ := (h.reduce group x slot).mp ha
    exact ⟨state, by simp [hslot]⟩

end Merging

end Coscript
