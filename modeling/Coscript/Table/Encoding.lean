import Coscript.Grammar.Encoding
import Coscript.Table.Basic

/-!
# Tables as bytes

The stored form of parsing tables:

    table := initial:4 state-count:4 default-rule:4 (name 00 element+ FF)* FF state*
    state := entry-count:4 (element action-type:1 value:4)*

Actions are stored by their terminal, states after reductions by their name. Error actions are not
stored. What is read is checked: every state and slot that an entry refers to exists.
-/

namespace Coscript

namespace Action

/-- The type and value that an action is stored as; an error action is not stored. -/
def parts? : Action → Option (UInt8 × Nat)
  | error => none
  | shift target => some (1, target)
  | reduce slot => some (2, slot)

end Action

namespace ParsingTable

/-- The type of an entry for a name. -/
def gotoType : UInt8 := 3

/-- The bytes of an entry. -/
def encodeEntry (e : Element) (type : UInt8) (value : Nat) : List UInt8 :=
  e.encode ++ type :: Bytes.ofWord value

/-- The bytes of the entries of a row, one list for each. -/
def entries (r : TableRow) : List (List UInt8) :=
  (r.actions.entries.filterMap fun (x, a) =>
    a.parts?.map fun (type, value) => encodeEntry (.terminal x) type value) ++
  r.gotos.entries.map fun (name, target) => encodeEntry (.nonTerminal name) gotoType target

/-- The bytes of a row. -/
def encodeRow (r : TableRow) : List UInt8 :=
  Bytes.ofWord (entries r).length ++ (entries r).flatten

/-- The bytes of a rule. -/
def encodeRule (p : Production) : List UInt8 := Bytes.ofTerminated p.name ++ p.encodeBody

/-- The bytes of a table. -/
def encode (t : ParsingTable) : List UInt8 :=
  Bytes.ofWord t.initial ++ Bytes.ofWord t.size ++ Bytes.ofWord t.defaultRule ++
    t.rules.toList.flatMap encodeRule ++ [endMark] ++ t.rows.toList.flatMap encodeRow

end ParsingTable

namespace Reader

/-- Whether a value that stands at an offset is below a bound. -/
def within (value bound offset : Nat) : Reading Unit := fun r =>
  if value < bound then .ok () r else .error (.outOfRange value offset) r

/-- Takes an index below a bound. -/
def indexBelow (bound : Nat) : Reading Nat := fun r =>
  match index r with
  | .error e r' => .error e r'
  | .ok n r' =>
    match within n bound r.offset r' with
    | .error e r'' => .error e r''
    | .ok () r'' => .ok n r''

/-- Takes the rules of a table up to and with an end mark, at most `fuel` of them. -/
def rulesOfTable : Nat → Reading (List Production)
  | 0 => fun r => .error (.unexpectedEnd r.offset) r
  | fuel + 1 => fun r =>
    match r.peek? with
    | none => .error (.unexpectedEnd r.offset) r
    | some b =>
      if b = endMark then .ok [] (r.advance 1)
      else
        match text r with
        | .error e r' => .error e r'
        | .ok name r' =>
          match elements r' with
          | .error e r'' => .error e r''
          | .ok es r'' =>
            match rulesOfTable fuel r'' with
            | .error e r''' => .error e r'''
            | .ok ps r''' => .ok (.ofElements name es :: ps) r'''

/-- Takes an entry of a table with some numbers of states and rules, and adds it to a row. -/
def tableEntry (states rules : Nat) (row : TableRow) : Reading TableRow := fun r =>
  match element r with
  | .error e r' => .error e r'
  | .ok e r' =>
    match byte r' with
    | .error e r'' => .error e r''
    | .ok type r'' =>
      match e, type with
      | .symbol (.terminal x), 1 =>
        match indexBelow states r'' with
        | .error e r''' => .error e r'''
        | .ok n r''' => .ok ⟨row.actions.insert x (.shift n), row.gotos⟩ r'''
      | .symbol (.terminal x), 2 =>
        match indexBelow rules r'' with
        | .error e r''' => .error e r'''
        | .ok n r''' => .ok ⟨row.actions.insert x (.reduce n), row.gotos⟩ r'''
      | .symbol (.nonTerminal name), 3 =>
        match indexBelow states r'' with
        | .error e r''' => .error e r'''
        | .ok n r''' => .ok ⟨row.actions, row.gotos.insert name n⟩ r'''
      | _, _ => .error (.invalidTag "action type" type r'.offset) r''

/-- Takes a number of entries and adds them to a row. -/
def tableEntries (states rules : Nat) : Nat → TableRow → Reading TableRow
  | 0, row => fun r => .ok row r
  | n + 1, row => fun r =>
    match tableEntry states rules row r with
    | .error e r' => .error e r'
    | .ok row r' => tableEntries states rules n row r'

/-- Takes a number of rows, which come after those in `rows`. -/
def tableRows (states rules : Nat) : Nat → Array TableRow → Reading (Array TableRow)
  | 0, rows => fun r => .ok rows r
  | n + 1, rows => fun r =>
    match index r with
    | .error e r' => .error e r'
    | .ok count r' =>
      match tableEntries states rules count .empty r' with
      | .error e r'' => .error e r''
      | .ok row r'' => tableRows states rules n (rows.push row) r''

/-- Takes a table, behind which nothing may be left. -/
def table : Reading ParsingTable := do
  let initial ← index
  let states ← index
  let defaultRule ← index
  let rules ← fun r => rulesOfTable (r.rest.length + 1) r
  within initial states 0
  within defaultRule rules.length 8
  let rows ← tableRows states rules.length states #[]
  fun r =>
    match r.peek? with
    | some tag => .error (.invalidTag "trailing data" tag r.offset) r
    | none => .ok ⟨initial, rows, rules.toArray, defaultRule⟩ r

end Reader

namespace ParsingTable

/-- The table that some bytes are. -/
def decode (bytes : List UInt8) : Except DecodeError ParsingTable := Reader.run Reader.table bytes

end ParsingTable

end Coscript
