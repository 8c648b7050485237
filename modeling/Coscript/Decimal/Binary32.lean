/-!
# Binary numbers of 32 bits

Finite numbers of the 32-bit binary format are `m · 2 ^ q` with a sign. The significand `m` has at
most 24 bits and `q` is at least `-149`. A pattern has, from the highest bit down, one bit for the
sign, eight for the exponent and 23 for the fraction, so that `0x80000000` is the weight of the sign
and `0x800000` that of the lowest bit of the exponent.

This module takes patterns of bits apart, rounds exact fractions to the nearest pattern, and
computes with patterns.
-/

namespace Coscript.Binary32

/-- What a pattern of bits stands for. -/
inductive Number
  | notANumber
  | infinite (negative : Bool)
  /-- `m · 2 ^ q`, negated if `negative`. -/
  | finite (negative : Bool) (m : Nat) (q : Int)
  deriving Repr, DecidableEq

/-- Whether the sign bit is set. -/
def isNegative (bits : UInt32) : Bool := bits.toNat ≥ 0x80000000

/-- The number that a pattern of bits stands for. -/
def decode (bits : UInt32) : Number :=
  let negative := isNegative bits
  let exponent : Nat := bits.toNat / 0x800000 % 0x100
  let fraction : Nat := bits.toNat % 0x800000
  if exponent = 255 then if fraction = 0 then .infinite negative else .notANumber
  else if exponent = 0 then .finite negative fraction (-149)
  else .finite negative (0x800000 + fraction) ((exponent : Int) - 150)

/-- The pattern of positive infinity. -/
def infinity : Nat := 255 * 0x800000

/-- The quotient of two numbers, rounded to the nearest whole number; a half goes to the even
neighbour. -/
def roundDiv (num den : Nat) : Nat :=
  let d := num / den
  let r := num % den
  if 2 * r < den then d
  else if den < 2 * r then d + 1
  else if d % 2 = 0 then d else d + 1

/-- A power of two as a fraction. -/
def powerOfTwo (q : Int) : Nat × Nat :=
  if 0 ≤ q then (Nat.pow 2 q.toNat, 1) else (1, Nat.pow 2 (-q).toNat)

/-- The exponent `q` for which `num / den` has a significand of 24 bits, or the least exponent if
the number is too small for that. -/
def exponentOf (num den : Nat) : Int :=
  let e : Int := (num.log2 : Int) - (den.log2 : Int)
  let (up, down) := powerOfTwo e
  let q := if den * up ≤ num * down then e - 23 else e - 24
  max q (-149)

/-- The pattern nearest to the fraction `num / den`, for `den ≠ 0`; a half goes to the even
pattern, and what is too large becomes infinity. -/
def round (num den : Nat) : Nat :=
  if num = 0 then 0
  else
    let q := exponentOf num den
    let (up, down) := powerOfTwo q
    let m := roundDiv (num * down) (den * up)
    let bits := if m < 0x800000 then m else (q + 150).toNat * 0x800000 + (m - 0x800000)
    min bits infinity

/-- A pattern with the sign bit set as asked. -/
def withSign (negative : Bool) (bits : Nat) : UInt32 :=
  UInt32.ofNat (if negative then 0x80000000 + bits else bits)

/-- The decimal fraction with the digits `digits` before and after the point, `places` of them
after it, rounded to the nearest pattern. -/
def ofDecimal (digits places : Nat) : UInt32 :=
  UInt32.ofNat (round digits (Nat.pow 10 places))

/-- A quiet pattern that stands for no number. -/
def notANumber : UInt32 := 0x7fc00000

/-- The remainder of a division toward zero. It has the sign of the dividend and is exact. -/
def remainder (a b : UInt32) : UInt32 :=
  match decode a, decode b with
  | .finite negative m q, .finite _ m' q' =>
    if m' = 0 then notANumber
    else
      let low := min q q'
      let r := (m * Nat.pow 2 (q - low).toNat) % (m' * Nat.pow 2 (q' - low).toNat)
      let (up, down) := powerOfTwo low
      withSign negative (round (r * up) down)
  | .finite .., .infinite _ => a
  | _, _ => notANumber

/-- The pattern nearest to a whole number. -/
def ofInt (n : Int) : UInt32 := withSign (n < 0) (round n.natAbs 1)

/-- The pattern with the other sign. -/
def negate (a : UInt32) : UInt32 := a ^^^ 0x80000000

/-- Whether a pattern stands for zero, of either sign. -/
def isZero (a : UInt32) : Bool := a.toNat % 0x80000000 = 0

/-- Computes with the numbers of two patterns and rounds the result. -/
def lift (f : Float32 → Float32 → Float32) (a b : UInt32) : UInt32 :=
  (f (.ofBits a) (.ofBits b)).toBits

/-- The sum. -/
def add : UInt32 → UInt32 → UInt32 := lift (· + ·)

/-- The difference. -/
def subtract : UInt32 → UInt32 → UInt32 := lift (· - ·)

/-- The product. -/
def multiply : UInt32 → UInt32 → UInt32 := lift (· * ·)

/-- The quotient. -/
def divide : UInt32 → UInt32 → UInt32 := lift (· / ·)

/-- How two numbers compare; what is no number compares with nothing. -/
def order? (a b : UInt32) : Option Ordering :=
  let x := Float32.ofBits a
  let y := Float32.ofBits b
  if x < y then some .lt
  else if y < x then some .gt
  else if x == y then some .eq
  else none

/-- Whether two patterns stand for the same number. -/
def equals (a b : UInt32) : Bool := order? a b == some .eq

end Coscript.Binary32
