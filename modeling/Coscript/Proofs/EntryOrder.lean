import Coscript.Proofs.Conflicts

/-!
# The order of entries

A table is built by demands for entries, each of them for one cell. A demand is granted if its cell
is empty or holds the demanded entry already, and refused otherwise. So a cell that is filled keeps
its entry, which is the one that the first demand for the cell asked for. Therefore demands are all
granted in every order or in none, the former just if no two of them differ about a cell; and then
the cells hold what is demanded, whatever the order was. This is why tables do not depend on the
order in which states, items and lookaheads are taken.

* `TableBuilder.meet`, `TableBuilder.meet_cases`: a demand is granted or refused;
* `TableBuilder.Demand.put`, `TableBuilder.put_eq`: demands in place, and what a refused one leaves;
* `TableBuilder.content?_putAll`: a cell holds what the first demand for it asked for;
* `TableBuilder.putAll_any_order`: the order of demands makes no difference.
-/

namespace Coscript

/-- The errors of two demands that differ about a cell. -/
def TableError.IsConflict : TableError → Prop
  | .shiftReduceConflict _ _ _ _ => True
  | .reduceReduceConflict _ _ _ _ _ => True
  | .shiftShiftConflict _ _ => True
  | .gotoConflict _ _ => True
  | _ => False

/-! ### Cells -/

/-- A place in a table: that of a terminal or that of a name in the row of a state. -/
inductive Cell
  | action (state : Nat) (x : Terminal)
  | goto (state : Nat) (name : String)
  deriving Repr, DecidableEq

/-- The state in whose row a cell is. -/
def Cell.state : Cell → Nat
  | action state _ => state
  | goto state _ => state

/-- What a cell holds: an action, or the state that follows a reduction. -/
inductive Content
  | action (a : Action)
  | goto (target : Nat)
  deriving Repr, DecidableEq

/-- Contents that are no error and refer to one of a number of rules. -/
def Content.Proper (rules : Nat) : Content → Prop
  | action .error => False
  | action (.shift _) => True
  | action (.reduce slot) => slot < rules
  | goto _ => True

instance (rules : Nat) : (v : Content) → Decidable (v.Proper rules)
  | .action .error => .isFalse id
  | .action (.shift _) => .isTrue trivial
  | .action (.reduce slot) => inferInstanceAs (Decidable (slot < rules))
  | .goto _ => .isTrue trivial

/-- What a row holds in a cell of its state. -/
def TableRow.content? (r : TableRow) : Cell → Option Content
  | .action _ x => (r.actions.get? x).map .action
  | .goto _ name => (r.gotos.get? name).map .goto

namespace TableBuilder

/-- What a cell of a table holds. -/
def content? (b : TableBuilder) (c : Cell) : Option Content :=
  (b.rows[c.state]?).bind fun r => r.content? c

/-- A table in which every cell is empty. -/
def Blank (b : TableBuilder) : Prop := ∀ c, b.content? c = none

lemma blank_withRules (states : Nat) (rules : Array Production) :
    (withRules states rules).Blank := by
  intro c
  rw [content?, withRules, Array.getElem?_replicate]
  split
  · cases c <;> rfl
  · rfl

/-- Taking slots for rules enters nothing. -/
lemma Blank.slot? {g : Grammar} {b b' : TableBuilder} {production slot : Nat} (h : b.Blank)
    (hslot : b.slot? g production = some (b', slot)) : b'.Blank := by
  intro c
  rw [content?, rows_of_slot? hslot]
  exact h c

lemma blank_start? {g : Grammar} {b : TableBuilder} {states production : Nat}
    (h : start? g states production = some b) : b.Blank := by
  obtain ⟨⟨b', slot⟩, hslot, rfl⟩ := Option.map_eq_some_iff.mp h
  exact (blank_withRules states #[]).slot? hslot

/-! ### Demands -/

/-- A demand for an entry of a table. -/
inductive Demand
  | action (state : Nat) (x : Terminal) (a : Action) (items : Unit → List String)
  | goto (state : Nat) (name : String) (target : Nat)

namespace Demand

/-- The cell that a demand is about. -/
def cell : Demand → Cell
  | action state x _ _ => .action state x
  | goto state name _ => .goto state name

/-- What is demanded for the cell. -/
def content : Demand → Content
  | action _ _ a _ => .action a
  | goto _ _ target => .goto target

/-- A demand in a state and by a rule that a table has, and not for an error. -/
structure Fits (b : TableBuilder) (d : Demand) : Prop where
  state : d.cell.state < b.rows.size
  content : d.content.Proper b.rules.size

instance (b : TableBuilder) (d : Demand) : Decidable (d.Fits b) :=
  decidable_of_iff (d.cell.state < b.rows.size ∧ d.content.Proper b.rules.size)
    ⟨fun h => ⟨h.1, h.2⟩, fun h => ⟨h.1, h.2⟩⟩

end Demand

/-- Grants or refuses a demand. -/
def meet (b : TableBuilder) : Demand → Except TableError TableBuilder
  | .action state x a items => b.setAction state x a items
  | .goto state name target => b.setGoto state name target

/-- Grants demands one after another, if none of them is refused. -/
def meetAll (b : TableBuilder) (ds : List Demand) : Except TableError TableBuilder :=
  ds.foldlM meet b

/-- No two demands differ about a cell. -/
def Agreeing (ds : List Demand) : Prop :=
  ∀ d ∈ ds, ∀ d' ∈ ds, d.cell = d'.cell → d.content = d'.content

instance (ds : List Demand) : Decidable (Agreeing ds) :=
  inferInstanceAs (Decidable (∀ d ∈ ds, ∀ d' ∈ ds, d.cell = d'.cell → d.content = d'.content))

/-! ### Demands in place -/

/-- A demand as a change of a table in place, which is left behind also if the demand is refused. -/
def Demand.put : Demand → EStateM TableError TableBuilder Unit
  | .action state x a items => do
    let b ← get
    match b.rows[state]? with
    | none => throw (.undefinedState state)
    | some row =>
      match row.actions.get? x with
      | none | some .error => set (b.setRow state ⟨row.actions.insert x a, row.gotos⟩)
      | some old => if old = a then return () else throw (b.conflict state x old a (items ()))
  | .goto state name target => do
    let b ← get
    match b.rows[state]? with
    | none => throw (.undefinedState state)
    | some row =>
      match row.gotos.get? name with
      | none => set (b.setRow state ⟨row.actions, row.gotos.insert name target⟩)
      | some old => if old = target then return () else throw (.gotoConflict state name)

/-- Puts demands to a table one after another, also behind refused ones. Gives the errors of those
that are refused, and the table that is left. -/
def putAll : List Demand → TableBuilder → List TableError × TableBuilder
  | [], b => ([], b)
  | d :: ds, b =>
    match d.put b with
    | .ok _ b' => putAll ds b'
    | .error e b' => (e :: (putAll ds b').1, (putAll ds b').2)

lemma get_bind (f : TableBuilder → EStateM TableError TableBuilder Unit) (b : TableBuilder) :
    (get >>= f) b = f b b := rfl

/-- **A refused demand leaves the table as it was**, and a granted one leaves what it gives. -/
theorem put_eq (d : Demand) (b : TableBuilder) :
    d.put b = match b.meet d with
      | .ok b' => .ok () b'
      | .error e => .error e b := by
  cases d with
  | action state x a items =>
    rw [Demand.put, get_bind, meet, setAction]
    cases b.rows[state]? with
    | none => rfl
    | some row =>
      dsimp only
      cases row.actions.get? x with
      | none => rfl
      | some old =>
        cases old with
        | error => rfl
        | shift n =>
          simp only [Option.getD_some, reduceCtorEq, if_false]
          split <;> rfl
        | reduce slot =>
          simp only [Option.getD_some, reduceCtorEq, if_false]
          split <;> rfl
  | goto state name target =>
    rw [Demand.put, get_bind, meet, setGoto]
    cases b.rows[state]? with
    | none => rfl
    | some row =>
      dsimp only
      cases row.gotos.get? name with
      | none => rfl
      | some old =>
        dsimp only
        split <;> rfl

variable {b b' : TableBuilder} {d : Demand} {ds : List Demand} {e : TableError}

lemma putAll_of_granted (h : b.meet d = .ok b') : putAll (d :: ds) b = putAll ds b' := by
  rw [putAll, put_eq, h]

lemma putAll_of_refused (h : b.meet d = .error e) :
    putAll (d :: ds) b = (e :: (putAll ds b).1, (putAll ds b).2) := by
  rw [putAll, put_eq, h]

/-- Demands are granted in a row just if none of them is refused in place. -/
lemma meetAll_eq_ok_iff :
    b.meetAll ds = .ok b' ↔ (putAll ds b).1 = [] ∧ b' = (putAll ds b).2 := by
  induction ds generalizing b with
  | nil =>
    rw [meetAll, List.foldlM_nil, putAll]
    constructor
    · rintro ⟨⟩
      exact ⟨rfl, rfl⟩
    · rintro ⟨-, rfl⟩
      rfl
  | cons d ds ih =>
    have hcons : b.meetAll (d :: ds) = b.meet d >>= fun b' => b'.meetAll ds := rfl
    rw [hcons, bind_eq_ok_iff]
    cases hmeet : b.meet d with
    | error e =>
      rw [putAll_of_refused hmeet]
      simp
    | ok b₁ =>
      rw [putAll_of_granted hmeet, ← ih]
      simp

/-! ### Single demands -/

/-- A table in which a demand has been granted: what else it holds is as before. -/
structure Grants (b : TableBuilder) (d : Demand) (b' : TableBuilder) : Prop where
  states : b'.rows.size = b.rows.size
  rules : b'.rules = b.rules
  free : ∀ v, b.content? d.cell = some v → v = d.content
  content : ∀ c, b'.content? c = if c = d.cell then some d.content else b.content? c

lemma content?_of_row {row : TableRow} {c : Cell} (h : b.rows[c.state]? = some row) :
    b.content? c = row.content? c := by
  rw [content?, h, Option.bind_some]

/-- Nothing changes where the demanded entry is there. -/
lemma grants_self (h : b.content? d.cell = some d.content) : b.Grants d b where
  states := rfl
  rules := rfl
  free v hv := Option.some.inj (hv.symm.trans h)
  content c := by
    split
    · next hc => rw [hc, h]
    · rfl

/-- The demand for an empty cell is granted by a row with the entry. -/
lemma grants_setRow {row row' : TableRow} (hrow : b.rows[d.cell.state]? = some row)
    (hempty : row.content? d.cell = none)
    (hentry : ∀ c, c.state = d.cell.state →
      row'.content? c = if c = d.cell then some d.content else row.content? c) :
    b.Grants d (b.setRow d.cell.state row') where
  states := by simp [setRow]
  rules := rfl
  free v hv := by
    rw [content?_of_row hrow, hempty] at hv
    cases hv
  content c := by
    obtain ⟨hlt, -⟩ := Array.getElem?_eq_some_iff.mp hrow
    by_cases hc : c.state = d.cell.state
    · have hrow' : (b.setRow d.cell.state row').rows[c.state]? = some row' := by
        simp [setRow, hc, hlt]
      rw [content?_of_row hrow', hentry c hc, content?_of_row (hc ▸ hrow)]
    · have hne : c ≠ d.cell := fun h => hc (congrArg Cell.state h)
      rw [if_neg hne, content?, content?, setRow, Array.getElem?_setIfInBounds_ne (Ne.symm hc)]

/-- Different actions are in conflict, if the rules that they refer to are there. -/
lemma isConflict_conflict {state : Nat} {x : Terminal} {old new : Action} {items : List String}
    (hold : (Content.action old).Proper b.rules.size)
    (hnew : (Content.action new).Proper b.rules.size) :
    (b.conflict state x old new items).IsConflict := by
  have hrule : ∀ slot, slot < b.rules.size → ∃ p, b.rules[slot]? = some p := fun slot hslot =>
    ⟨_, Array.getElem?_eq_getElem hslot⟩
  cases old with
  | error => exact hold.elim
  | shift n =>
    cases new with
    | error => exact hnew.elim
    | shift m => exact trivial
    | reduce slot =>
      obtain ⟨p, hp⟩ := hrule slot hnew
      simp only [conflict, hp]
      exact trivial
  | reduce slot =>
    obtain ⟨p, hp⟩ := hrule slot hold
    cases new with
    | error => exact hnew.elim
    | shift m =>
      simp only [conflict, hp]
      exact trivial
    | reduce slot' =>
      obtain ⟨q, hq⟩ := hrule slot' hnew
      simp only [conflict, hp, hq]
      exact trivial

/-- **What a demand can do.** It is granted, or its cell holds something else and it is refused for a
conflict. -/
theorem meet_cases (hd : d.Fits b)
    (hproper : ∀ v, b.content? d.cell = some v → v.Proper b.rules.size) :
    (∃ b', b.meet d = .ok b' ∧ b.Grants d b') ∨
      ∃ v e, b.content? d.cell = some v ∧ v ≠ d.content ∧ b.meet d = .error e ∧ e.IsConflict := by
  obtain ⟨row, hrow⟩ : ∃ row, b.rows[d.cell.state]? = some row :=
    ⟨_, Array.getElem?_eq_getElem hd.state⟩
  have hcontent := content?_of_row hrow
  cases d with
  | action state x a items =>
    simp only [Demand.cell, Cell.state] at hrow
    simp only [meet, setAction, hrow]
    cases hold : row.actions.get? x with
    | none =>
      refine .inl ⟨_, if_pos rfl, grants_setRow hrow ?_ fun c hc => ?_⟩
      · simp [TableRow.content?, Demand.cell, hold]
      · cases c with
        | action s y =>
          obtain rfl : s = state := hc
          by_cases hy : x = y
          · simp [TableRow.content?, Demand.cell, Demand.content, OrderedMap.get?_insert, hy]
          · simp [TableRow.content?, Demand.cell, OrderedMap.get?_insert, hy, Ne.symm hy]
        | goto s name => simp [TableRow.content?, Demand.cell]
    | some old =>
      have hheld : b.content? (Demand.action state x a items).cell = some (.action old) := by
        rw [hcontent]
        simp [TableRow.content?, Demand.cell, hold]
      have hprop := hproper _ hheld
      have hne : old ≠ .error := by
        rintro rfl
        exact hprop
      simp only [Option.getD_some, if_neg hne]
      by_cases heq : old = a
      · rw [if_pos heq]
        exact .inl ⟨b, rfl, grants_self (by rw [hheld, heq]; rfl)⟩
      · rw [if_neg heq]
        refine .inr ⟨_, _, hheld, ?_, rfl, isConflict_conflict hprop hd.content⟩
        simpa [Demand.content] using heq
  | goto state name target =>
    simp only [Demand.cell, Cell.state] at hrow
    simp only [meet, setGoto, hrow]
    cases hold : row.gotos.get? name with
    | none =>
      refine .inl ⟨_, rfl, grants_setRow hrow ?_ fun c hc => ?_⟩
      · simp [TableRow.content?, Demand.cell, hold]
      · cases c with
        | action s y => simp [TableRow.content?, Demand.cell]
        | goto s name' =>
          obtain rfl : s = state := hc
          by_cases hname : name = name'
          · simp [TableRow.content?, Demand.cell, Demand.content, OrderedMap.get?_insert, hname]
          · simp [TableRow.content?, Demand.cell, OrderedMap.get?_insert, hname, Ne.symm hname]
    | some old =>
      have hheld : b.content? (Demand.goto state name target).cell = some (.goto old) := by
        rw [hcontent]
        simp [TableRow.content?, Demand.cell, hold]
      dsimp only
      by_cases heq : old = target
      · rw [if_pos heq]
        exact .inl ⟨b, rfl, grants_self (by rw [hheld, heq]; rfl)⟩
      · rw [if_neg heq]
        refine .inr ⟨_, _, hheld, ?_, rfl, trivial⟩
        simpa [Demand.content] using heq

/-! ### Demands in a row -/

/-- What the first of some demands for a cell asks for. -/
def first? (ds : List Demand) (c : Cell) : Option Content :=
  (ds.find? fun d => d.cell = c).map Demand.content

lemma first?_append (ds ds' : List Demand) (c : Cell) :
    first? (ds ++ ds') c = (first? ds c).or (first? ds' c) := by
  rw [first?, List.find?_append, Option.map_or]
  rfl

lemma first?_singleton (d : Demand) (c : Cell) :
    first? [d] c = if c = d.cell then some d.content else none := by
  by_cases hc : d.cell = c
  · simp [first?, hc]
  · simp [first?, hc, Ne.symm hc]

/-- What is asked for first is asked for. -/
lemma exists_of_first? {ds : List Demand} {c : Cell} {v : Content} (h : first? ds c = some v) :
    ∃ d ∈ ds, d.cell = c ∧ d.content = v := by
  obtain ⟨d, hd, hv⟩ := Option.map_eq_some_iff.mp h
  exact ⟨d, List.mem_of_find?_eq_some hd, by simpa using List.find?_some hd, hv⟩

/-- Demands agree just if each of them asks for what the first one for its cell does. -/
lemma agreeing_iff {ds : List Demand} :
    Agreeing ds ↔ ∀ d ∈ ds, first? ds d.cell = some d.content := by
  constructor
  · intro h d hd
    obtain ⟨d', hd'⟩ : ∃ d', ds.find? (fun d' => d'.cell = d.cell) = some d' :=
      Option.isSome_iff_exists.mp (List.find?_isSome.mpr ⟨d, hd, by simp⟩)
    have hcell : d'.cell = d.cell := by simpa using List.find?_some hd'
    rw [first?, hd', Option.map_some, h d' (List.mem_of_find?_eq_some hd') d hd hcell]
  · intro h d hd d' hd' hcell
    have hfirst := h d hd
    rw [hcell, h d' hd'] at hfirst
    exact (Option.some.inj hfirst).symm

/-- What demands in a row have made of a table: each cell holds what the first demand for it asked
for. -/
structure After (b₀ : TableBuilder) (done : List Demand) (b : TableBuilder) : Prop where
  states : b.rows.size = b₀.rows.size
  rules : b.rules = b₀.rules
  content : ∀ c, b.content? c = first? done c

variable {b₀ : TableBuilder} {done : List Demand}

lemma after_nil (hb : b.Blank) : After b [] b := ⟨rfl, rfl, hb⟩

/-- What is in a cell refers to rules that are there. -/
lemma After.proper (h : After b₀ done b) (hdone : ∀ d ∈ done, d.Fits b₀) {c : Cell} {v : Content}
    (hv : b.content? c = some v) : v.Proper b.rules.size := by
  rw [h.content] at hv
  obtain ⟨d, hd, -, rfl⟩ := exists_of_first? hv
  rw [h.rules]
  exact (hdone d hd).content

/-- One more demand is granted if it asks for what the first one for its cell does, and refused
otherwise. -/
lemma After.meet_cases (h : After b₀ done b) (hdone : ∀ d ∈ done, d.Fits b₀) (hd : d.Fits b₀) :
    (∃ b', b.meet d = .ok b' ∧ After b₀ (done ++ [d]) b' ∧
        first? (done ++ [d]) d.cell = some d.content) ∨
      ∃ v e, b.meet d = .error e ∧ e.IsConflict ∧ After b₀ (done ++ [d]) b ∧
        first? (done ++ [d]) d.cell = some v ∧ v ≠ d.content := by
  have hfits : d.Fits b := ⟨by rw [h.states]; exact hd.state, by rw [h.rules]; exact hd.content⟩
  have hfirst : ∀ c, first? (done ++ [d]) c =
      (b.content? c).or (if c = d.cell then some d.content else none) := fun c => by
    rw [first?_append, first?_singleton, h.content]
  rcases TableBuilder.meet_cases hfits fun v hv => h.proper hdone hv with
    ⟨b', hmeet, hgrants⟩ | ⟨v, e, hheld, hne, hmeet, he⟩
  · -- Where the cell was filled already, it was with the demanded entry.
    have hcontent : ∀ c, b'.content? c = first? (done ++ [d]) c := fun c => by
      rw [hgrants.content, hfirst]
      split
      · next hc =>
        subst hc
        cases hheld : b.content? d.cell with
        | none => rfl
        | some v => rw [hgrants.free v hheld, Option.some_or]
      · rw [Option.or_none]
    refine .inl ⟨b', hmeet, ⟨hgrants.states.trans h.states, hgrants.rules.trans h.rules, hcontent⟩,
      ?_⟩
    rw [← hcontent, hgrants.content, if_pos rfl]
  · have hcontent : ∀ c, b.content? c = first? (done ++ [d]) c := fun c => by
      rw [hfirst]
      split
      · next hc => rw [hc, hheld, Option.some_or]
      · rw [Option.or_none]
    exact .inr ⟨v, e, hmeet, he, ⟨h.states, h.rules, hcontent⟩, (hcontent _).symm.trans hheld, hne⟩

/-- Behind demands in a row each cell holds what the first demand for it asked for. None of them is
refused just if each asks for that, and those that are refused are so for a conflict. -/
lemma After.putAll (h : After b₀ done b) (hdone : ∀ d ∈ done, d.Fits b₀)
    (hds : ∀ d ∈ ds, d.Fits b₀) :
    After b₀ (done ++ ds) (putAll ds b).2 ∧
      ((putAll ds b).1 = [] ↔ ∀ d ∈ ds, first? (done ++ ds) d.cell = some d.content) ∧
      ∀ e ∈ (putAll ds b).1, e.IsConflict := by
  induction ds generalizing b done with
  | nil =>
    rw [List.append_nil]
    exact ⟨h, ⟨fun _ => nofun, fun _ => rfl⟩, nofun⟩
  | cons d ds ih =>
    have hds' : ∀ d' ∈ ds, d'.Fits b₀ := fun d' hd' => hds d' (List.mem_cons_of_mem d hd')
    have hdone' : ∀ d' ∈ done ++ [d], d'.Fits b₀ := by
      intro d' hd'
      rcases List.mem_append.mp hd' with hd' | hd'
      · exact hdone d' hd'
      · rw [List.mem_singleton.mp hd']
        exact hds d List.mem_cons_self
    have hsplit : done ++ d :: ds = done ++ [d] ++ ds := by simp
    -- What the first demand for a cell asked for stays the same when more demands follow.
    have hlater : ∀ v, first? (done ++ [d]) d.cell = some v →
        first? (done ++ [d] ++ ds) d.cell = some v := fun v hv => by
      rw [first?_append, hv, Option.some_or]
    rw [hsplit]
    rcases h.meet_cases hdone (hds d List.mem_cons_self) with
      ⟨b', hmeet, hafter, hfirst⟩ | ⟨v, e, hmeet, he, hafter, hfirst, hne⟩
    · obtain ⟨hafter', hnone, hconflict⟩ := ih hafter hdone' hds'
      rw [putAll_of_granted hmeet]
      refine ⟨hafter', ?_, hconflict⟩
      rw [hnone, List.forall_mem_cons, iff_and_self]
      exact fun _ => hlater _ hfirst
    · obtain ⟨hafter', -, hconflict⟩ := ih hafter hdone' hds'
      rw [putAll_of_refused hmeet]
      refine ⟨hafter', ⟨nofun, fun hall => ?_⟩, List.forall_mem_cons.mpr ⟨he, hconflict⟩⟩
      have hheld := hall d List.mem_cons_self
      rw [hlater v hfirst] at hheld
      exact absurd (Option.some.inj hheld) hne

/-- **A cell that is filled keeps its entry.** Behind demands for a blank table, whether they are
granted or not, a cell holds what the first demand for it asked for. -/
theorem content?_putAll (hb : b.Blank) (hds : ∀ d ∈ ds, d.Fits b) (c : Cell) :
    (putAll ds b).2.content? c = first? ds c :=
  ((after_nil hb).putAll nofun hds).1.content c

/-! ### Orders -/

/-- Whether demands agree does not depend on their order. -/
lemma agreeing_perm {ds' : List Demand} (hperm : ds'.Perm ds) : Agreeing ds' ↔ Agreeing ds := by
  simp only [Agreeing, hperm.mem_iff]

/-- **The order of demands makes no difference.** Demands for a blank table are all granted, in
whatever order, just if no two of them differ about a cell. Then every order leaves the same cells,
each with what is demanded for it. Refusals are for conflicts only, and a refused demand leaves every
cell as it was. -/
theorem putAll_any_order (hb : b.Blank) (hds : ∀ d ∈ ds, d.Fits b) :
    (∀ ds' : List Demand, ds'.Perm ds →
      ((putAll ds' b).1 = [] ↔ Agreeing ds) ∧
        (∀ b', b.meetAll ds' = .ok b' ↔ Agreeing ds ∧ b' = (putAll ds' b).2) ∧
        (Agreeing ds → ∀ c v,
          (putAll ds' b).2.content? c = some v ↔ ∃ d ∈ ds, d.cell = c ∧ d.content = v) ∧
        ∀ e ∈ (putAll ds' b).1, e.IsConflict) ∧
      ∀ (b₁ : TableBuilder) (d : Demand) (e : TableError), b₁.meet d = .error e →
        ∃ b₂, d.put b₁ = .error e b₂ ∧ ∀ c, b₂.content? c = b₁.content? c := by
  refine ⟨fun ds' hperm => ?_, fun b₁ d e he => ⟨b₁, ?_, fun _ => rfl⟩⟩
  · have hds' : ∀ d ∈ ds', d.Fits b := fun d hd => hds d (hperm.mem_iff.mp hd)
    obtain ⟨-, hnone, hconflict⟩ := (after_nil hb).putAll nofun hds'
    have hgranted : (putAll ds' b).1 = [] ↔ Agreeing ds := by
      rw [hnone, ← agreeing_perm hperm, agreeing_iff]
      rfl
    refine ⟨hgranted, fun b' => ?_, fun hagree c v => ?_, hconflict⟩
    · rw [meetAll_eq_ok_iff, hgranted]
    · rw [content?_putAll hb hds']
      have hfirst := agreeing_iff.mp ((agreeing_perm hperm).mpr hagree)
      constructor
      · intro hv
        obtain ⟨d, hd, hcell, hcontent⟩ := exists_of_first? hv
        exact ⟨d, hperm.mem_iff.mp hd, hcell, hcontent⟩
      · rintro ⟨d, hd, rfl, rfl⟩
        exact hfirst d (hperm.mem_iff.mpr hd)
  · rw [put_eq, he]

/-- Two empty rows and two rules. -/
def twoRows : TableBuilder :=
  withRules 2 #[⟨"S", [.nonTerminal "A"]⟩, ⟨"A", [.terminal (.literal .identifier "a")]⟩]

/-- A shift that is asked for twice, a reduction, and a state after it. -/
def fourDemands : List Demand :=
  [.action 0 (.literal .identifier "a") (.shift 1) fun _ => [],
    .action 1 .endOfInput (.reduce 1) fun _ => [],
    .action 0 (.literal .identifier "a") (.shift 1) fun _ => [],
    .goto 0 "A" 1]

/-- The four demands are granted in every order, and the cell of the shift holds the shift. With one
more for a reduction in its place there is a refusal in every order. -/
theorem putAll_any_order_fourDemands :
    (twoRows.Blank ∧ (∀ d ∈ fourDemands, d.Fits twoRows) ∧ Agreeing fourDemands) ∧
      (∀ ds : List Demand, ds.Perm fourDemands → (putAll ds twoRows).1 = [] ∧
        (putAll ds twoRows).2.content? (.action 0 (.literal .identifier "a")) =
          some (.action (.shift 1))) ∧
      ∀ ds : List Demand,
        ds.Perm (.action 0 (.literal .identifier "a") (.reduce 0) (fun _ => []) :: fourDemands) →
          (putAll ds twoRows).1 ≠ [] := by
  have hblank : twoRows.Blank := blank_withRules _ _
  have hfits : ∀ d ∈ fourDemands, d.Fits twoRows := by decide
  have hfits' : ∀ d ∈ .action 0 (.literal .identifier "a") (.reduce 0) (fun _ => []) :: fourDemands,
      d.Fits twoRows := by decide
  have hagree : Agreeing fourDemands := by decide
  obtain ⟨hgranted, -⟩ := putAll_any_order hblank hfits
  obtain ⟨hmore, -⟩ := putAll_any_order hblank hfits'
  refine ⟨⟨hblank, hfits, hagree⟩, fun ds hperm => ?_, fun ds hperm hnone => ?_⟩
  · obtain ⟨hnone, -, hcells, -⟩ := hgranted ds hperm
    exact ⟨hnone.mpr hagree, (hcells hagree _ _).mpr ⟨_, List.mem_cons_self, rfl, rfl⟩⟩
  · exact absurd ((hmore ds hperm).1.mp hnone) (by decide)

end TableBuilder

end Coscript
