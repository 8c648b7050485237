import Coscript.Decimal.Binary32

/-!
# Shortest decimals

The decimal with the fewest digits that reads back as a given binary number, and among those the
nearest to it. The numbers that read back as `m · 2 ^ q` form an interval around it, which holds
its ends exactly if `m` is even. On the decimal grid with a given number of digits only the two
neighbours of the number have to be tried: the first grid with a neighbour in the interval wins.
-/

namespace Coscript.Decimal

/-- The decimal number `digits · 10 ^ exponent`. -/
structure Shortest where
  digits : Nat
  exponent : Int
  deriving Repr, DecidableEq

/-- An interval of fractions over one denominator. -/
structure Interval where
  low : Nat
  value : Nat
  high : Nat
  den : Nat
  closed : Bool

/-- The decimal point is moved this many places, so that every grid of use has whole steps. -/
def shift : Nat := 60

/-- The numbers that read back as `m · 2 ^ q`, moved by `shift` places. The gap below a power of
two is half as wide as the gap above it. -/
def Interval.ofNumber (m : Nat) (q : Int) : Interval :=
  let (up, down) := Binary32.powerOfTwo (q - 2)
  let below := if m = 0x800000 ∧ -149 < q then 1 else 2
  let scale := up * Nat.pow 10 shift
  { low := (4 * m - below) * scale
    value := 4 * m * scale
    high := (4 * m + 2) * scale
    den := down
    closed := m % 2 = 0 }

/-- Whether a whole number of moved steps lies in the interval. -/
def Interval.holds (i : Interval) (n : Nat) : Bool :=
  let x := n * i.den
  if i.closed then i.low ≤ x && x ≤ i.high else i.low < x && x < i.high

/-- Drops the zeros at the end of a number into its exponent. -/
def Shortest.normalize (fuel : Nat) (d : Shortest) : Shortest :=
  match fuel with
  | 0 => d
  | fuel + 1 =>
    if d.digits ≠ 0 ∧ d.digits % 10 = 0 then
      Shortest.normalize fuel ⟨d.digits / 10, d.exponent + 1⟩
    else d

/-- The neighbour of the interval's value on the grid of steps of `10 ^ place` that lies in the
interval; the nearer one of two, and the upper one if both are as near. -/
def Interval.onGrid? (i : Interval) (place : Nat) : Option Nat :=
  let step := Nat.pow 10 place
  let down := i.value / (i.den * step)
  let rest := i.value % (i.den * step)
  let lower := i.holds (down * step)
  let upper := i.holds ((down + 1) * step)
  if lower && upper then
    if 2 * rest < i.den * step then some down else some (down + 1)
  else if lower then some down
  else if upper then some (down + 1)
  else none

/-- Tries the grids with ever finer steps, from `place` down. -/
def Interval.search (i : Interval) : Nat → Shortest
  | 0 => ⟨i.value / i.den, -(shift : Int)⟩
  | place + 1 =>
    match i.onGrid? place with
    | some n => Shortest.normalize n.log2 ⟨n, (place : Int) - shift⟩
    | none => i.search place

/-- The shortest decimal for `m · 2 ^ q`. -/
def shortest (m : Nat) (q : Int) : Shortest :=
  if m = 0 then ⟨0, 0⟩
  else
    let i := Interval.ofNumber m q
    i.search ((Nat.toDigits 10 (i.value / i.den)).length)

end Coscript.Decimal
