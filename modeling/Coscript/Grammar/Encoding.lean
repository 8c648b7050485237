import Coscript.Bytes.Reader

/-!
# Grammars as bytes

The stored form of elements, rules and grammars:

    grammar := start 00 (name 00 rule* FF)* 00 00
    rule    := element+ FF
    element := token-type:1 form:1 text 00

A rule without elements is written with one empty element.
-/

namespace Coscript

/-- The byte that ends a rule and the rules of a name. -/
def endMark : UInt8 := 0xff

namespace Element

/-- The token type, form and text that an element is stored as. -/
def parts : Element → TokenType × UInt8 × String
  | symbol (.terminal .endOfInput) => (.special, 4, "")
  | symbol (.terminal .epsilon) => (.special, 5, "")
  | symbol (.terminal (.literal type text)) => (type, 1, text)
  | symbol (.terminal (.any type)) => (type, 0, "")
  | symbol (.nonTerminal name) => (.special, 2, name)
  | empty => (.special, 3, "")

/-- The element that is stored with a token type, form and text. -/
def ofParts? (type : TokenType) (form : UInt8) (text : String) : Option Element :=
  if form = 0 then some (terminal (.any type))
  else if form = 1 then some (terminal (.literal type text))
  else if form = 2 then some (nonTerminal text)
  else if form = 3 then some empty
  else if form = 4 then some (terminal .endOfInput)
  else if form = 5 then some (terminal .epsilon)
  else none

/-- The bytes of an element. -/
def encode (e : Element) : List UInt8 :=
  let (type, form, text) := e.parts
  UInt8.ofNat type.toNat :: form :: Bytes.ofTerminated text

/-- An element is the one with its parts. -/
theorem ofParts?_parts (e : Element) : ofParts? e.parts.1 e.parts.2.1 e.parts.2.2 = some e := by
  rcases e with ((_ | ⟨_, _⟩ | _ | _) | _) | _ <;> rfl

end Element

namespace Production

/-- The bytes of a sequence of elements and its end mark. -/
def encodeElements (es : List Element) : List UInt8 :=
  (if es.isEmpty then [Element.empty] else es).flatMap Element.encode ++ [endMark]

/-- The bytes of a production's body. -/
def encodeBody (p : Production) : List UInt8 := encodeElements p.elements

end Production

namespace Grammar

/-- The bytes of a grammar. -/
def encode (g : Grammar) : List UInt8 :=
  Bytes.ofTerminated g.start ++
    (g.index.entries.flatMap fun (name, places) =>
      Bytes.ofTerminated name ++
        (places.flatMap fun i => ((g.production? i).map Production.encodeBody).getD []) ++
        [endMark]) ++
    [0, 0]

end Grammar

namespace Reader

/-- Takes an element. -/
def element : Reading Element := fun r =>
  match byte r with
  | .error e r' => .error e r'
  | .ok type r' =>
    match TokenType.ofNat? type.toNat with
    | none => .error (.invalidTag "token type" type r.offset) r'
    | some tokenType =>
      match byte r' with
      | .error e r'' => .error e r''
      | .ok form r'' =>
        match text r'' with
        | .error e r''' => .error e r'''
        | .ok s r''' =>
          match Element.ofParts? tokenType form s with
          | some e => .ok e r'''
          | none => .error (.invalidTag "element type" form r'.offset) r'''

/-- Takes elements up to and with an end mark, at most `fuel` of them. -/
def elementsUpTo : Nat → Reading (List Element)
  | 0 => fun r => .error (.unexpectedEnd r.offset) r
  | fuel + 1 => fun r =>
    match r.peek? with
    | none => .error (.unexpectedEnd r.offset) r
    | some b =>
      if b = endMark then .ok [] (r.advance 1)
      else
        match element r with
        | .error e r' => .error e r'
        | .ok e r' =>
          match elementsUpTo fuel r' with
          | .error e' r'' => .error e' r''
          | .ok es r'' => .ok (e :: es) r''

/-- Takes elements up to and with an end mark. An element takes more than one byte, so there are no
more of them than bytes. -/
def elements : Reading (List Element) := fun r => elementsUpTo (r.rest.length + 1) r

/-- Takes the rules of a name up to and with an end mark, at most `fuel` of them. -/
def rulesUpTo (name : String) : Nat → Reading (List Production)
  | 0 => fun r => .error (.unexpectedEnd r.offset) r
  | fuel + 1 => fun r =>
    match r.peek? with
    | none => .error (.unexpectedEnd r.offset) r
    | some b =>
      if b = endMark then .ok [] (r.advance 1)
      else
        match elements r with
        | .error e r' => .error e r'
        | .ok es r' =>
          match rulesUpTo name fuel r' with
          | .error e r'' => .error e r''
          | .ok ps r'' => .ok (.ofElements name es :: ps) r''

/-- Takes the rules of all names, at most `fuel` names. -/
def productionsUpTo : Nat → Reading (List Production)
  | 0 => fun r => .error (.unexpectedEnd r.offset) r
  | fuel + 1 => fun r =>
    match text r with
    | .error e r' => .error e r'
    | .ok name r' =>
      if name = "" then
        match expect 0 "grammar terminator" r' with
        | .error e r'' => .error e r''
        | .ok () r'' => .ok [] r''
      else
        match rulesUpTo name (r'.rest.length + 1) r' with
        | .error e r'' => .error e r''
        | .ok ps r'' =>
          match productionsUpTo fuel r'' with
          | .error e r''' => .error e r'''
          | .ok qs r''' => .ok (ps ++ qs) r'''

/-- Takes a grammar. -/
def grammar : Reading Grammar := fun r =>
  match text r with
  | .error e r' => .error e r'
  | .ok start r' =>
    match productionsUpTo (r'.rest.length + 1) r' with
    | .error e r'' => .error e r''
    | .ok ps r'' =>
      match Grammar.build start ps with
      | .error e => .error (.grammar e) r''
      | .ok g => .ok g r''

end Reader

namespace Grammar

/-- The grammar that some bytes begin with. -/
def decode (bytes : List UInt8) : Except DecodeError Grammar := Reader.run Reader.grammar bytes

end Grammar

end Coscript
