import Coscript.Bytes.Word
import Coscript.Grammar.Basic

/-!
# Reading bytes

A reader is what is left of some bytes, with the offset of the next one. Each step takes a piece
from the front or fails with the offset at which it went wrong. A failed step may already have
moved the reader: it then stands behind the pieces that were still good.
-/

namespace Coscript

/-- Why stored data could not be read. -/
inductive DecodeError
  | unexpectedEnd (offset : Nat)
  | invalidText (offset : Nat)
  /-- A byte that should tell what follows, but does not. -/
  | invalidTag (what : String) (tag : UInt8) (offset : Nat)
  | outOfRange (value : Int) (offset : Nat)
  | grammar (e : GrammarError)
  deriving Repr, DecidableEq

namespace DecodeError

/-- A byte as two hexadecimal digits. -/
def hexByte (b : UInt8) : String :=
  let digits := Quoted.hex b.toNat
  String.ofList (List.replicate (2 - digits.length) '0' ++ digits)

/-- The text of an error. -/
def message : DecodeError → String
  | unexpectedEnd offset => s!"unexpected end of data at offset {offset}"
  | invalidText offset => s!"invalid UTF-8 string at offset {offset}"
  | invalidTag what tag offset => s!"invalid {what} tag 0x{hexByte tag} at offset {offset}"
  | outOfRange value offset => s!"value {value} out of range at offset {offset}"
  | grammar e => e.message

end DecodeError

/-- The bytes that are left, and the offset of the first of them. -/
structure Reader where
  rest : List UInt8
  offset : Nat
  deriving Repr, DecidableEq

/-- A step of a reader. -/
abbrev Reading (α : Type) := EStateM DecodeError Reader α

namespace Reader

/-- A reader of whole data. -/
def ofBytes (bytes : List UInt8) : Reader := ⟨bytes, 0⟩

/-- Whether nothing is left. -/
def isAtEnd (r : Reader) : Bool := r.rest.isEmpty

/-- The next byte. -/
def peek? (r : Reader) : Option UInt8 := r.rest.head?

/-- The reader behind the next `n` bytes. -/
def advance (r : Reader) (n : Nat) : Reader := ⟨r.rest.drop n, r.offset + n⟩

/-- The offset behind the last byte. -/
def endOffset (r : Reader) : Nat := r.offset + r.rest.length

/-- Takes one byte. -/
def byte : Reading UInt8 := fun r =>
  match r.rest with
  | [] => .error (.unexpectedEnd r.offset) r
  | b :: _ => .ok b (r.advance 1)

/-- Takes four bytes as a number of 32 bits. -/
def word : Reading Nat := fun r =>
  match r.rest with
  | a :: b :: c :: d :: _ => .ok (Bytes.toWord a b c d) (r.advance 4)
  | _ => .error (.unexpectedEnd r.endOffset) r

/-- Takes four bytes as a signed number. -/
def int : Reading Int := Bytes.signed <$> word

/-- Takes four bytes as an index or count, which is not negative. -/
def index : Reading Nat := fun r =>
  match int r with
  | .error e r' => .error e r'
  | .ok n r' => if n < 0 then .error (.outOfRange n r.offset) r' else .ok n.toNat r'

/-- Takes a text and the zero byte that ends it. -/
def text : Reading String := fun r =>
  if 0 ∈ r.rest then
    let bytes := r.rest.takeWhile (· ≠ 0)
    match Bytes.toText? bytes with
    | some s => .ok s (r.advance (bytes.length + 1))
    | none => .error (.invalidText r.offset) r
  else .error (.unexpectedEnd r.endOffset) r

/-- Takes a given byte; `what` says what it stands for. -/
def expect (b : UInt8) (what : String) : Reading Unit := fun r =>
  match byte r with
  | .error e r' => .error e r'
  | .ok tag r' => if tag = b then .ok () r' else .error (.invalidTag what tag r.offset) r'

/-- Runs a step from the beginning of some bytes. -/
def run {α : Type} (step : Reading α) (bytes : List UInt8) : Except DecodeError α :=
  match step (ofBytes bytes) with
  | .ok a _ => .ok a
  | .error e _ => .error e

end Reader

end Coscript
