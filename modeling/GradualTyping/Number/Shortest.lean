/-
# The shortest decimal that reads back

A finite number `m · 2^q` is the nearest number to every real in an interval:
half the gap to its lower neighbour below, half the gap to its upper neighbour
above, the ends included when `m` is even.  Among the decimals `d · 10^k` in
that interval, `Double.shortest` gives one with the fewest digits and, of those,
the one nearest to the value; a tie goes up.
-/

import GradualTyping.Number.Double

namespace GradualTyping
namespace Double

/-- A decimal `digits · 10^power`. -/
structure Decimal where
  digits : Nat
  power : Int
deriving DecidableEq, Repr, Inhabited

/-- The value and the two ends of its rounding interval over one denominator. -/
structure Interval where
  low : Nat
  value : Nat
  high : Nat
  den : Nat
  closed : Bool

/-- The rounding interval of the magnitude of a finite nonzero number.  The gap
below a power of two is half the gap above it. -/
def interval (x : Double) : Interval :=
  let m := x.mantissa
  let q := x.exponent
  let narrow := x.fraction = 0 ∧ 1 < x.exponentField
  let low := if narrow then 4 * m - 1 else 4 * m - 2
  let scale := if 0 ≤ q then Nat.pow 2 q.toNat else 1
  let den := if 0 ≤ q then 4 else 4 * Nat.pow 2 (-q).toNat
  { low := low * scale, value := 4 * m * scale, high := (4 * m + 2) * scale
    den := den, closed := m % 2 == 0 }

/-- Whether `d · 10^k` lies in the interval. -/
def Interval.contains (i : Interval) (d : Nat) (k : Int) : Bool :=
  let up := if 0 ≤ k then Nat.pow 10 k.toNat else 1
  let down := if 0 ≤ k then 1 else Nat.pow 10 (-k).toNat
  let point := d * up * i.den
  if i.closed then decide (i.low * down ≤ point ∧ point ≤ i.high * down)
  else decide (i.low * down < point ∧ point < i.high * down)

/-- The multiples of `10^k` next to the value: the one below or at it, and
whether the one above is at least as near. -/
def Interval.floor (i : Interval) (k : Int) : Nat × Bool :=
  let up := if 0 ≤ k then Nat.pow 10 k.toNat else 1
  let down := if 0 ≤ k then 1 else Nat.pow 10 (-k).toNat
  let num := i.value * down
  let den := i.den * up
  (num / den, decide (den ≤ 2 * (num % den)))

/-- The nearer of the value's two neighbours on the grid `10^k` that lies in the
interval, if one does. -/
def Interval.onGrid? (i : Interval) (k : Int) : Option Nat :=
  let (d, above) := i.floor k
  let first := if above then d + 1 else d
  let second := if above then d else d + 1
  if i.contains first k then some first
  else if i.contains second k then some second
  else none

/-- The first grid with a decimal in the interval, from `10^k` down. -/
def Interval.search (i : Interval) : Nat → Int → Decimal
  | 0, k => ⟨(i.floor k).1, k⟩
  | n + 1, k =>
    match i.onGrid? k with
    | some d => ⟨d, k⟩
    | none => i.search n (k - 1)

/-- Drop the zeros at the end of the digits. -/
def Decimal.strip : Nat → Decimal → Decimal
  | 0, d => d
  | n + 1, d => if d.digits ≠ 0 ∧ d.digits % 10 = 0 then strip n ⟨d.digits / 10, d.power + 1⟩ else d

/-- The shortest decimal of the magnitude of a finite number.  The first grid
tried is the power of ten next above the value. -/
def shortest (x : Double) : Decimal :=
  if x.isZero then ⟨0, 0⟩
  else
    let i := x.interval
    let whole := i.value / i.den
    let start : Int :=
      if 0 < whole then digitCount whole
      else 1 - (digitCount (i.den / i.value) : Int) + 1
    (i.search 20 start).strip 20

end Double
end GradualTyping
