import Coscript.Decimal.Shortest

/-!
# Decimal texts of binary numbers

Two ways of writing a 32-bit binary number. Both use its shortest decimal.

* `Layout.plain` writes every digit out and never writes a fraction of a whole number: `1`, `0.1`,
  `-0`, `100000000000000000000`;
* `Layout.marked` shows that the number is a fraction, `1.0`, and uses an exponent from `10 ^ 16` up
  and below `10 ^ -4`: `1e16`, `1.5e-7`.
-/

namespace Coscript.Decimal

/-- The choices that the two ways of writing differ in. -/
structure Layout where
  /-- Whether whole numbers end in `.0`. -/
  marksWhole : Bool
  /-- The least and greatest number of places before the point without an exponent; a number
  below one has as many places fewer than one as there are zeros after its point. -/
  places? : Option (Int × Int)

/-- Every digit is written out. -/
def Layout.plain : Layout := ⟨false, none⟩

/-- Whole numbers are marked, and large and small numbers have an exponent. -/
def Layout.marked : Layout := ⟨true, some (-3, 16)⟩

/-- Digits with a point in their place and with zeros where none are given. -/
def positional (l : Layout) (digits : List Char) (exponent : Int) : List Char :=
  let point := (digits.length : Int) + exponent
  if 0 ≤ exponent then
    digits ++ List.replicate exponent.toNat '0' ++ (if l.marksWhole then ['.', '0'] else [])
  else if 0 < point then
    digits.take point.toNat ++ '.' :: digits.drop point.toNat
  else
    '0' :: '.' :: List.replicate (-point).toNat '0' ++ digits

/-- One digit before the point, the others after it, and an exponent. -/
def scientific (digits : List Char) (exponent : Int) : List Char :=
  let point := (digits.length : Int) + exponent
  let mantissa := match digits with
    | d :: e :: es => d :: '.' :: e :: es
    | ds => ds
  mantissa ++ 'e' :: (toString (point - 1)).toList

/-- The text of a finite number without its sign. -/
def Layout.magnitude (l : Layout) (m : Nat) (q : Int) : List Char :=
  let d := shortest m q
  let digits := Nat.toDigits 10 d.digits
  let point := (digits.length : Int) + d.exponent
  match l.places? with
  | some (least, greatest) =>
    if m ≠ 0 ∧ (point < least ∨ greatest < point) then scientific digits d.exponent
    else positional l digits d.exponent
  | none => positional l digits d.exponent

/-- The text of a number given by its bits. -/
def Layout.text (l : Layout) (bits : UInt32) : String :=
  match Binary32.decode bits with
  | .notANumber => "NaN"
  | .infinite negative => if negative then "-inf" else "inf"
  | .finite negative m q =>
    String.ofList (if negative then '-' :: l.magnitude m q else l.magnitude m q)

end Coscript.Decimal
