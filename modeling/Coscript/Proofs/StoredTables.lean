import Coscript.Proofs.Reading
import Coscript.Parse.Configuration
import Coscript.Table.Encoding

/-!
# Stored tables are read back

A table that is stored and read back is the same table without its error actions, which are not
stored: rules, rows and entries keep their order. Its bytes say where it ends. If the last ones are
cut off, wherever this is, the reader comes to the end of the data; if there are more of them, it
tells so.

* `ParsingTable.InRange`: every state and slot that a table refers to exists;
* `ParsingTable.Storable`: counts fit into 31 bits and texts do not hold the character zero;
* `ParsingTable.decode_stored`: a table is read back, and no other length of its bytes is read.
-/

namespace Coscript

/-! ### Tables that refer to what exists -/

/-- An action refers to one of a number of states or rules. -/
def Action.InRange (states rules : Nat) : Action → Prop
  | error => True
  | shift target => target < states
  | reduce slot => slot < rules

instance (states rules : Nat) : (a : Action) → Decidable (a.InRange states rules)
  | .error => inferInstanceAs (Decidable True)
  | .shift target => inferInstanceAs (Decidable (target < states))
  | .reduce slot => inferInstanceAs (Decidable (slot < rules))

/-- The entries of a row refer to some of a number of states and rules. -/
structure TableRow.InRange (states rules : Nat) (r : TableRow) : Prop where
  actions : ∀ e ∈ r.actions.entries, e.2.InRange states rules
  gotos : ∀ e ∈ r.gotos.entries, e.2 < states

instance (states rules : Nat) (r : TableRow) : Decidable (r.InRange states rules) :=
  decidable_of_iff ((∀ e ∈ r.actions.entries, e.2.InRange states rules) ∧
    ∀ e ∈ r.gotos.entries, e.2 < states) ⟨fun h => ⟨h.1, h.2⟩, fun h => ⟨h.1, h.2⟩⟩

/-- A table refers to its own states and rules only. -/
structure ParsingTable.InRange (t : ParsingTable) : Prop where
  initial : t.initial < t.size
  defaultRule : t.defaultRule < t.rules.size
  rows : ∀ r ∈ t.rows, r.InRange t.size t.rules.size

instance (t : ParsingTable) : Decidable t.InRange :=
  decidable_of_iff (t.initial < t.size ∧ t.defaultRule < t.rules.size ∧
    ∀ r ∈ t.rows, r.InRange t.size t.rules.size)
    ⟨fun h => ⟨h.1, h.2.1, h.2.2⟩, fun h => ⟨h.initial, h.defaultRule, h.rows⟩⟩

/-! ### Tables without error actions -/

/-- A row without its error actions. -/
def TableRow.withoutErrors (r : TableRow) : TableRow :=
  ⟨⟨r.actions.entries.filter fun e => e.2 ≠ .error,
    r.actions.nodup.sublist (List.filter_sublist.map _)⟩, r.gotos⟩

/-- A table without its error actions. -/
def ParsingTable.withoutErrors (t : ParsingTable) : ParsingTable :=
  { t with rows := t.rows.map TableRow.withoutErrors }

/-! ### Entries -/

/-- What is stored of a row. -/
inductive Entry
  | shift (x : Terminal) (target : Nat)
  | reduce (x : Terminal) (slot : Nat)
  | goto (name : String) (target : Nat)
  deriving Repr, DecidableEq

namespace Entry

/-- The element that an entry is stored by. -/
def element : Entry → Element
  | shift x _ => .terminal x
  | reduce x _ => .terminal x
  | goto name _ => .nonTerminal name

/-- The type of an entry. -/
def type : Entry → UInt8
  | shift _ _ => 1
  | reduce _ _ => 2
  | goto _ _ => ParsingTable.gotoType

/-- The state or slot that an entry refers to. -/
def value : Entry → Nat
  | shift _ target => target
  | reduce _ slot => slot
  | goto _ target => target

/-- How many there are of what an entry refers to. -/
def bound (states rules : Nat) : Entry → Nat
  | shift _ _ => states
  | reduce _ _ => rules
  | goto _ _ => states

/-- The bytes of an entry. -/
def encode (e : Entry) : List UInt8 := ParsingTable.encodeEntry e.element e.type e.value

/-- The entries that are stored by an element and with a type. -/
def ofType? (e : Element) (type : UInt8) : Option (Nat → Entry) :=
  match e, type with
  | .symbol (.terminal x), 1 => some (shift x)
  | .symbol (.terminal x), 2 => some (reduce x)
  | .symbol (.nonTerminal name), 3 => some (goto name)
  | _, _ => none

lemma ofType?_shift (x : Terminal) : ofType? (.symbol (.terminal x)) 1 = some (shift x) := rfl

lemma ofType?_reduce (x : Terminal) : ofType? (.symbol (.terminal x)) 2 = some (reduce x) := rfl

lemma ofType?_goto (name : String) : ofType? (.symbol (.nonTerminal name)) 3 = some (goto name) :=
  rfl

lemma ofType?_eq_none {e : Element} {type : UInt8}
    (hshift : ∀ x, e = .symbol (.terminal x) → type = 1 → False)
    (hreduce : ∀ x, e = .symbol (.terminal x) → type = 2 → False)
    (hgoto : ∀ name, e = .symbol (.nonTerminal name) → type = 3 → False) : ofType? e type = none := by
  unfold ofType?
  split
  · next x => exact (hshift x rfl rfl).elim
  · next x => exact (hreduce x rfl rfl).elim
  · next name => exact (hgoto name rfl rfl).elim
  · rfl

/-- Adds an entry to a row. -/
def enter (r : TableRow) : Entry → TableRow
  | shift x target => ⟨r.actions.insert x (.shift target), r.gotos⟩
  | reduce x slot => ⟨r.actions.insert x (.reduce slot), r.gotos⟩
  | goto name target => ⟨r.actions, r.gotos.insert name target⟩

/-- What is stored of an action. -/
def ofAction? (e : Terminal × Action) : Option Entry :=
  match e.2 with
  | .error => none
  | .shift target => some (shift e.1 target)
  | .reduce slot => some (reduce e.1 slot)

/-- What is stored of a state after a reduction. -/
def ofGoto (e : String × Nat) : Entry := goto e.1 e.2

end Entry

namespace TableRow

/-- The entries that are stored of a row. -/
def stored (r : TableRow) : List Entry :=
  r.actions.entries.filterMap Entry.ofAction? ++ r.gotos.entries.map Entry.ofGoto

lemma entries_eq (r : TableRow) : ParsingTable.entries r = r.stored.map Entry.encode := by
  unfold ParsingTable.entries stored
  rw [List.map_append, List.map_filterMap, List.map_map]
  congr 1
  refine List.filterMap_congr fun e _ => ?_
  obtain ⟨x, a⟩ := e
  cases a <;> rfl

/-- What holds of the stored form of each entry holds of all that is stored of a row. -/
lemma forall_mem_stored {r : TableRow} {P : Entry → Prop}
    (hshift : ∀ x target, (x, .shift target) ∈ r.actions.entries → P (.shift x target))
    (hreduce : ∀ x slot, (x, .reduce slot) ∈ r.actions.entries → P (.reduce x slot))
    (hgoto : ∀ name target, (name, target) ∈ r.gotos.entries → P (.goto name target)) :
    ∀ e ∈ r.stored, P e := by
  intro e he
  rcases List.mem_append.mp he with he | he
  · obtain ⟨⟨x, a⟩, ha, he⟩ := List.mem_filterMap.mp he
    cases a with
    | error => cases he
    | shift target =>
      cases he
      exact hshift x target ha
    | reduce slot =>
      cases he
      exact hreduce x slot ha
  · obtain ⟨⟨name, target⟩, ha, rfl⟩ := List.mem_map.mp he
    exact hgoto name target ha

/-- Entries of a row refer to what the row refers to. -/
lemma InRange.stored {states rules : Nat} {r : TableRow} (h : r.InRange states rules) :
    ∀ e ∈ r.stored, e.value < e.bound states rules :=
  forall_mem_stored (fun _ _ he => h.actions _ he) (fun _ _ he => h.actions _ he)
    fun _ _ he => h.gotos _ he

end TableRow

namespace OrderedMap

variable {κ ν : Type} [DecidableEq κ]

/-- New keys that are inserted come last, in their order. -/
lemma entries_foldl_insert (es : List (κ × ν)) (m : OrderedMap κ ν)
    (hnodup : ((m.entries ++ es).map Prod.fst).Nodup) :
    (es.foldl (fun m e => m.insert e.1 e.2) m).entries = m.entries ++ es := by
  induction es generalizing m with
  | nil => rw [List.foldl_nil, List.append_nil]
  | cons e es ih =>
    have hnew : e.1 ∉ m.entries.map Prod.fst := by
      rw [List.map_append, List.nodup_append] at hnodup
      exact fun hmem => hnodup.2.2 _ hmem e.1 (by simp) rfl
    have hinsert : (m.insert e.1 e.2).entries = m.entries ++ [e] := map_fst_put_of_not_mem hnew
    rw [List.foldl_cons, ih, hinsert, List.append_assoc, List.singleton_append]
    rwa [hinsert, List.append_assoc, List.singleton_append]

end OrderedMap

namespace TableRow

lemma foldl_enter_actions (es : List (Terminal × Action)) (r : TableRow) :
    (es.filterMap Entry.ofAction?).foldl Entry.enter r =
      ⟨(es.filter fun e => e.2 ≠ .error).foldl (fun m e => m.insert e.1 e.2) r.actions, r.gotos⟩ := by
  induction es generalizing r with
  | nil => rfl
  | cons e es ih =>
    obtain ⟨x, a⟩ := e
    cases a with
    | error => exact ih r
    | shift target => exact ih ⟨r.actions.insert x (.shift target), r.gotos⟩
    | reduce slot => exact ih ⟨r.actions.insert x (.reduce slot), r.gotos⟩

lemma foldl_enter_gotos (es : List (String × Nat)) (r : TableRow) :
    (es.map Entry.ofGoto).foldl Entry.enter r =
      ⟨r.actions, es.foldl (fun m e => m.insert e.1 e.2) r.gotos⟩ := by
  induction es generalizing r with
  | nil => rfl
  | cons e es ih => exact ih ⟨r.actions, r.gotos.insert e.1 e.2⟩

/-- **The stored entries of a row make up the row without its error actions.** -/
theorem foldl_enter_stored (r : TableRow) : r.stored.foldl Entry.enter .empty = r.withoutErrors := by
  have hactions : (r.actions.entries.filter fun e => e.2 ≠ .error).foldl
      (fun m e => m.insert e.1 e.2) ∅ = r.withoutErrors.actions :=
    OrderedMap.ext (OrderedMap.entries_foldl_insert _ ∅ r.withoutErrors.actions.nodup)
  have hgotos : r.gotos.entries.foldl (fun m e => m.insert e.1 e.2) ∅ = r.gotos :=
    OrderedMap.ext (OrderedMap.entries_foldl_insert _ ∅ r.gotos.nodup)
  rw [stored, List.foldl_append, foldl_enter_actions, foldl_enter_gotos]
  dsimp only [empty]
  rw [hactions, hgotos]
  rfl

end TableRow

/-! ### The reader of a table, step by step -/

namespace Reader

lemma indexBelow_eq (bound : Nat) : indexBelow bound = andThen index fun r n =>
    if n < bound then done n else fail (.outOfRange n r.offset) := by
  funext r
  unfold indexBelow within andThen
  cases index r with
  | error e r' => rfl
  | ok n r' =>
    dsimp only
    by_cases h : n < bound
    · rw [if_pos h, if_pos h]
      rfl
    · rw [if_neg h, if_neg h]
      rfl

lemma takes_within {value bound : Nat} (h : value < bound) (offset : Nat) :
    Takes (within value bound offset) [] () where
  reads rest n := by
    unfold within
    rw [if_pos h]
    rfl
  misses := misses_nil _

/-- A number below a bound is read back. -/
lemma takes_indexBelow {n bound : Nat} (h : n < bound) (hbound : bound ≤ 0x80000000) :
    Takes (indexBelow bound) (Bytes.ofWord n) n := by
  rw [indexBelow_eq]
  refine (takes_index (by omega)).finish fun r => ?_
  rw [if_pos h]

/-- Takes a rule of a table. -/
def ruleOfTable : Reading Production :=
  andThen text fun _ name => andThen elements fun _ es => done (.ofElements name es)

lemma rulesOfTable_eq (fuel : Nat) : rulesOfTable fuel = listUpTo ruleOfTable fuel := by
  induction fuel with
  | zero => rfl
  | succ fuel ih =>
    funext r
    unfold rulesOfTable listUpTo
    rw [ih]
    generalize listUpTo ruleOfTable fuel = rest
    unfold ruleOfTable andThen
    cases text r with
    | error e r' => rfl
    | ok name r' =>
      dsimp only
      cases elements r' with
      | error e r'' => rfl
      | ok es r'' =>
        dsimp only [done]
        cases rest r'' <;> rfl

/-- **A rule of a table is read back.** -/
theorem takes_ruleOfTable {p : Production} (h : p.Storable) :
    Takes ruleOfTable (ParsingTable.encodeRule p) p := by
  obtain ⟨es, hes, hp⟩ := takes_encodeBody h
  refine (takes_text h.name).andThen fun _ => ?_
  have hrule := hes.map (Production.ofElements p.name)
  rwa [hp] at hrule

/-- Takes an entry. -/
def entry (states rules : Nat) : Reading Entry :=
  andThen element fun _ e => andThen byte fun r type =>
    (Entry.ofType? e type).elim (fail (.invalidTag "action type" type r.offset)) fun make =>
      andThen (indexBelow ((make 0).bound states rules)) fun _ n => done (make n)

lemma tableEntry_eq (states rules : Nat) (row : TableRow) :
    tableEntry states rules row = andThen (entry states rules) fun _ e => done (e.enter row) := by
  funext r
  cases he : element r with
  | error err r' =>
    rw [andThen_error (by rw [entry, andThen_error he])]
    simp only [tableEntry, he]
  | ok e r' =>
    cases ht : byte r' with
    | error err r'' =>
      rw [andThen_error (by rw [entry, andThen_ok he, andThen_error ht])]
      simp only [tableEntry, he, ht]
    | ok type r'' =>
      have hentry : ∀ make, Entry.ofType? e type = some make → entry states rules r =
          andThen (indexBelow ((make 0).bound states rules)) (fun _ n => done (make n)) r'' := by
        intro make hmake
        rw [entry, andThen_ok he, andThen_ok ht, hmake]
        rfl
      simp only [tableEntry, he, ht]
      split
      · rw [andThen, hentry _ (Entry.ofType?_shift _)]
        cases hn : indexBelow states r'' <;> simp [andThen, hn, Entry.bound, done, Entry.enter]
      · rw [andThen, hentry _ (Entry.ofType?_reduce _)]
        cases hn : indexBelow rules r'' <;> simp [andThen, hn, Entry.bound, done, Entry.enter]
      · rw [andThen, hentry _ (Entry.ofType?_goto _)]
        cases hn : indexBelow states r'' <;> simp [andThen, hn, Entry.bound, done, Entry.enter]
      · next hshift hreduce hgoto =>
        rw [andThen_error]
        rw [entry, andThen_ok he, andThen_ok ht, Entry.ofType?_eq_none hshift hreduce hgoto]
        rfl

/-- **An entry is read back.** -/
theorem takes_entry {states rules : Nat} (hstates : states ≤ 0x80000000)
    (hrules : rules ≤ 0x80000000) {e : Entry} (hrange : e.value < e.bound states rules)
    (htext : e.element.Storable) : Takes (entry states rules) e.encode e := by
  change Takes (entry states rules) (e.element.encode ++ ([e.type] ++ Bytes.ofWord e.value)) e
  refine (takes_element htext).andThen fun _ => (takes_byte e.type).andThen fun r => ?_
  cases e with
  | shift x target =>
    rw [Entry.element, Entry.type, Element.terminal, Entry.ofType?_shift]
    exact (takes_indexBelow hrange hstates).map (Entry.shift x)
  | reduce x slot =>
    rw [Entry.element, Entry.type, Element.terminal, Entry.ofType?_reduce]
    exact (takes_indexBelow hrange hrules).map (Entry.reduce x)
  | goto name target =>
    rw [Entry.element, Entry.type, ParsingTable.gotoType, Element.nonTerminal, Entry.ofType?_goto]
    exact (takes_indexBelow hrange hstates).map (Entry.goto name)

lemma tableEntries_eq (states rules : Nat) :
    tableEntries states rules = repeatedly (tableEntry states rules) := by
  funext n
  induction n with
  | zero => rfl
  | succ n ih =>
    funext row r
    unfold tableEntries repeatedly andThen
    rw [ih]
    cases tableEntry states rules row r <;> rfl

/-- Takes a row. -/
def row (states rules : Nat) : Reading TableRow :=
  andThen index fun _ count => tableEntries states rules count .empty

/-- **A row is read back without its error actions.** -/
theorem takes_row {states rules : Nat} (hstates : states ≤ 0x80000000)
    (hrules : rules ≤ 0x80000000) {r : TableRow} (hrange : r.InRange states rules)
    (hcount : (ParsingTable.entries r).length < 0x80000000)
    (htext : ∀ e ∈ r.stored, e.element.Storable) :
    Takes (row states rules) (ParsingTable.encodeRow r) r.withoutErrors := by
  have hentries : Takes (repeatedly (tableEntry states rules) r.stored.length TableRow.empty)
      (r.stored.flatMap Entry.encode) (r.stored.foldl Entry.enter TableRow.empty) := by
    refine takes_repeatedly (fun e he s => ?_) TableRow.empty
    rw [tableEntry_eq]
    exact (takes_entry hstates hrules (hrange.stored e he) (htext e he)).map (·.enter s)
  rw [TableRow.foldl_enter_stored, ← tableEntries_eq] at hentries
  refine (takes_index hcount).andThen fun _ => ?_
  rwa [TableRow.entries_eq, List.length_map, ← List.flatMap_def]

lemma tableRows_eq (states rules : Nat) : tableRows states rules =
    repeatedly fun rows => andThen (row states rules) fun _ r => done (rows.push r) := by
  funext n
  induction n with
  | zero => rfl
  | succ n ih =>
    funext rows r
    unfold tableRows repeatedly row andThen
    rw [ih]
    cases index r with
    | error e r' => rfl
    | ok count r' =>
      dsimp only
      cases tableEntries states rules count .empty r' <;> rfl

/-- Takes a table, whatever is behind it. -/
def tableBody : Reading ParsingTable :=
  andThen index fun _ initial => andThen index fun _ states => andThen index fun _ defaultRule =>
    andThen (upToMark ruleOfTable) fun _ rules =>
      andThen (within initial states 0) fun _ _ =>
        andThen (within defaultRule rules.length 8) fun _ _ =>
          andThen (tableRows states rules.length states #[]) fun _ rows =>
            done ⟨initial, rows, rules.toArray, defaultRule⟩

/-- Nothing may be left behind a table. -/
def endOfTable (t : ParsingTable) : Reading ParsingTable := fun r =>
  match r.peek? with
  | some tag => .error (.invalidTag "trailing data" tag r.offset) r
  | none => .ok t r

lemma table_eq : table = andThen tableBody fun _ => endOfTable := by
  have hrules : (fun r : Reader => rulesOfTable (r.rest.length + 1) r) = upToMark ruleOfTable := by
    funext r
    rw [rulesOfTable_eq]
    rfl
  have htable : table = (index >>= fun initial => index >>= fun states => index >>= fun defaultRule =>
      (fun r : Reader => rulesOfTable (r.rest.length + 1) r) >>= fun rules =>
      within initial states 0 >>= fun _ => within defaultRule rules.length 8 >>= fun _ =>
      tableRows states rules.length states #[] >>= fun rows =>
      endOfTable ⟨initial, rows, rules.toArray, defaultRule⟩) := rfl
  rw [htable, hrules]
  unfold tableBody
  simp only [bind_eq_andThen, andThen_assoc]
  rfl

end Reader

/-! ### Stored tables -/

namespace ParsingTable

open Reader

/-- A table that can be stored: its counts fit into 31 bits, and its texts do not hold the character
zero. -/
structure Storable (t : ParsingTable) : Prop where
  states : t.size < 0x80000000
  ruleCount : t.rules.size < 0x80000000
  entries : ∀ r ∈ t.rows, (entries r).length < 0x80000000
  rules : ∀ p ∈ t.rules, p.Storable
  actions : ∀ r ∈ t.rows, ∀ e ∈ r.actions.entries, (Element.terminal e.1).Storable
  gotos : ∀ r ∈ t.rows, ∀ e ∈ r.gotos.entries, ZeroFree e.1

instance (t : ParsingTable) : Decidable t.Storable :=
  decidable_of_iff (t.size < 0x80000000 ∧ t.rules.size < 0x80000000 ∧
    (∀ r ∈ t.rows, (ParsingTable.entries r).length < 0x80000000) ∧ (∀ p ∈ t.rules, p.Storable) ∧
    (∀ r ∈ t.rows, ∀ e ∈ r.actions.entries, (Element.terminal e.1).Storable) ∧
    ∀ r ∈ t.rows, ∀ e ∈ r.gotos.entries, ZeroFree e.1)
    ⟨fun h => ⟨h.1, h.2.1, h.2.2.1, h.2.2.2.1, h.2.2.2.2.1, h.2.2.2.2.2⟩,
      fun h => ⟨h.states, h.ruleCount, h.entries, h.rules, h.actions, h.gotos⟩⟩

variable {t : ParsingTable}

lemma Storable.element (h : t.Storable) {r : TableRow} (hr : r ∈ t.rows) :
    ∀ e ∈ r.stored, e.element.Storable :=
  TableRow.forall_mem_stored (fun _ _ he => h.actions r hr _ he)
    (fun _ _ he => h.actions r hr _ he) fun _ _ he => h.gotos r hr _ he

/-- **A table is read back without its error actions**, whatever is behind it, and all of its bytes
are needed. -/
theorem takes_tableBody (hr : t.InRange) (hs : t.Storable) :
    Takes tableBody t.encode t.withoutErrors := by
  have hstates := hs.states
  have hcount := hs.ruleCount
  have hinitial := hr.initial
  have hdefault := hr.defaultRule
  have hrules : Takes (upToMark ruleOfTable) (t.rules.toList.flatMap encodeRule ++ [endMark])
      t.rules.toList :=
    takes_upToMark (fun p hp => takes_ruleOfTable (hs.rules p (Array.mem_toList_iff.mp hp)))
      fun p _ => (unmarked_ofTerminated p.name).append _
  have hrows : Takes (repeatedly (fun rows => andThen (Reader.row t.size t.rules.size) fun _ r =>
      done (rows.push r)) t.rows.toList.length #[]) (t.rows.toList.flatMap encodeRow)
      (t.rows.toList.foldl (fun rows r => rows.push r.withoutErrors) #[]) := by
    refine takes_repeatedly (fun r hmem rows => ?_) #[]
    have hmem := Array.mem_toList_iff.mp hmem
    exact (takes_row hstates.le hcount.le (hr.rows r hmem) (hs.entries r hmem)
      (hs.element hmem)).map rows.push
  rw [← tableRows_eq] at hrows
  have hpush : t.rows.toList.foldl (fun (rows : Array TableRow) r => rows.push r.withoutErrors) #[] =
      t.withoutErrors.rows := by
    rw [Array.foldl_toList, ← Array.map_eq_foldl]
    rfl
  rw [hpush] at hrows
  have hlast := hrows.map fun rows => (⟨t.initial, rows, t.rules, t.defaultRule⟩ : ParsingTable)
  have hencode : t.encode = Bytes.ofWord t.initial ++ (Bytes.ofWord t.size ++
      (Bytes.ofWord t.defaultRule ++ ((t.rules.toList.flatMap encodeRule ++ [endMark]) ++
        ([] ++ ([] ++ t.rows.toList.flatMap encodeRow))))) := by
    simp [encode]
  rw [hencode]
  exact (takes_index (by omega)).andThen fun _ => (takes_index hstates).andThen fun _ =>
    (takes_index (by omega)).andThen fun _ => hrules.andThen fun _ =>
    (takes_within hinitial 0).andThen fun _ => (takes_within hdefault 8).andThen fun _ => hlast

/-- **A stored table is read back without its error actions.** If bytes at its end are cut off, the
reader comes to the end of the data; if there are more bytes, the first of them is reported. -/
theorem decode_stored (hr : t.InRange) (hs : t.Storable) :
    decode t.encode = .ok t.withoutErrors ∧
      (∀ cut, cut <+: t.encode → cut ≠ t.encode →
        ∃ offset, decode cut = .error (.unexpectedEnd offset)) ∧
      ∀ b more, decode (t.encode ++ b :: more) =
        .error (.invalidTag "trailing data" b t.encode.length) := by
  have hbody := takes_tableBody hr hs
  have hrun : ∀ bytes, decode bytes = run (andThen tableBody fun _ => endOfTable) bytes := by
    intro bytes
    rw [decode, table_eq]
  refine ⟨?_, fun cut hcut hne => ?_, fun b more => ?_⟩
  · have hread := hbody.reads [] 0
    rw [List.append_nil] at hread
    rw [hrun, run, ofBytes, andThen_ok hread]
    rfl
  · obtain ⟨n, r, hr⟩ := hbody.misses cut hcut hne 0
    rw [hrun, run, ofBytes, andThen_error hr]
    exact ⟨n, rfl⟩
  · rw [hrun, run, ofBytes, andThen_ok (hbody.reads (b :: more) 0), Nat.zero_add]
    rfl

/-- A table for one word, with an error action before it. -/
def oneWord : ParsingTable where
  initial := 0
  rows :=
    #[⟨.ofList [(.endOfInput, .error), (.literal .identifier "x", .shift 1)], .ofList [("S", 0)]⟩,
      ⟨.ofList [(.endOfInput, .reduce 0)], ∅⟩]
  rules := #[⟨"S", [.terminal (.literal .identifier "x")]⟩]
  defaultRule := 0

/-- The table for one word is read back, with any number of its bytes missing, and with more. -/
theorem decode_stored_oneWord : oneWord.InRange ∧ oneWord.Storable ∧
    decode oneWord.encode = .ok oneWord.withoutErrors ∧ oneWord.withoutErrors ≠ oneWord ∧
    (∃ offset, decode (oneWord.encode.take 20) = .error (.unexpectedEnd offset)) ∧
    decode (oneWord.encode ++ [7]) =
      .error (.invalidTag "trailing data" 7 oneWord.encode.length) := by
  have hr : oneWord.InRange := by decide +kernel
  have hs : oneWord.Storable := by decide +kernel
  obtain ⟨hok, hcut, hmore⟩ := decode_stored hr hs
  exact ⟨hr, hs, hok, by decide +kernel, hcut _ (List.take_prefix _ _) (by decide +kernel),
    hmore 7 []⟩

/-! ### Parsing with a table that was read back -/

lemma get?_withoutErrors (r : TableRow) (x : Terminal) :
    (r.withoutErrors.actions.get? x).getD .error = (r.actions.get? x).getD .error := by
  have hmem : ∀ a, r.withoutErrors.actions.get? x = some a ↔
      r.actions.get? x = some a ∧ a ≠ .error := by
    intro a
    rw [← OrderedMap.mem_entries_iff, ← OrderedMap.mem_entries_iff]
    simp [TableRow.withoutErrors]
  cases hx : r.withoutErrors.actions.get? x with
  | some a => rw [((hmem a).mp hx).1]
  | none =>
    cases ha : r.actions.get? x with
    | none => rfl
    | some a =>
      by_contra hne
      have := (hmem a).mpr ⟨ha, fun he => hne (by rw [he]; rfl)⟩
      rw [hx] at this
      cases this

lemma action_withoutErrors (t : ParsingTable) : t.withoutErrors.action = t.action := by
  funext state x
  unfold action withoutErrors
  rw [Array.getElem?_map]
  cases t.rows[state]? with
  | none => rfl
  | some r => exact get?_withoutErrors r x

lemma goto?_withoutErrors (t : ParsingTable) : t.withoutErrors.goto? = t.goto? := by
  funext state name
  unfold goto? withoutErrors
  rw [Array.getElem?_map]
  cases t.rows[state]? <;> rfl

lemma expected_withoutErrors (t : ParsingTable) : t.withoutErrors.expected = t.expected := by
  funext state
  unfold expected withoutErrors
  rw [Array.getElem?_map]
  cases t.rows[state]? with
  | none => rfl
  | some r => simp [TableRow.withoutErrors]

/-- **A parser does the same with a table and with the one that is read back**, whatever the input:
it gives the same tree or the same error after the same number of steps. -/
theorem parse_withoutErrors (t : ParsingTable) (fuel : Nat) (tokens : List Token) :
    t.withoutErrors.parse fuel tokens = t.parse fuel tokens := by
  have hstep : ∀ c : Configuration, c.step t.withoutErrors = c.step t := by
    intro c
    simp only [Configuration.step, Configuration.action, Configuration.lookup,
      Configuration.reduce, Configuration.unexpected, action_withoutErrors, goto?_withoutErrors,
      expected_withoutErrors]
    rfl
  have hrun : ∀ c : Configuration, c.run t.withoutErrors fuel = c.run t fuel := by
    induction fuel with
    | zero => exact fun _ => rfl
    | succ fuel ih =>
      intro c
      simp only [Configuration.run, hstep, ih]
  exact hrun _

end ParsingTable

end Coscript
