/-
# Binary64 numbers as bit patterns

A number is its 64 bits: a sign, an exponent field `e < 2048` and a fraction
`f < 2^52`.  A finite number has magnitude `m · 2^q` with

| field | `m` | `q` |
| --- | --- | --- |
| `e = 0` | `f` | `-1074` |
| `0 < e < 2047` | `2^52 + f` | `e - 1075` |

and `e = 2047` is an infinity (`f = 0`) or a NaN.  Everything is computed in
exact integer arithmetic: `ofRatio` rounds a quotient of natural numbers to the
nearest number, a tie to the even fraction.
-/

namespace GradualTyping

/-- A binary64 number, by its bits. -/
structure Double where
  bits : UInt64
deriving DecidableEq, Hashable, Repr, Inhabited

namespace Double

/-- `2^52`, the bit that a normal number has above its fraction. -/
def leadingBit : Nat := 0x10000000000000

/-- The exponent field, below `2048`. -/
def exponentField (x : Double) : Nat := (x.bits >>> 52).toNat % 2048

/-- The fraction field, below `2^52`. -/
def fraction (x : Double) : Nat := x.bits.toNat % leadingBit

/-- The sign bit is set. -/
def isNegative (x : Double) : Bool := decide (UInt64.size / 2 ≤ x.bits.toNat)

def isFinite (x : Double) : Bool := x.exponentField != 2047

def isNaN (x : Double) : Bool := x.exponentField == 2047 && x.fraction != 0

/-- Both zeros. -/
def isZero (x : Double) : Bool := x.exponentField == 0 && x.fraction == 0

/-- The integer `m` of a finite magnitude `m · 2^q`. -/
def mantissa (x : Double) : Nat :=
  if x.exponentField = 0 then x.fraction else leadingBit + x.fraction

/-- The exponent `q` of a finite magnitude `m · 2^q`. -/
def exponent (x : Double) : Int :=
  if x.exponentField = 0 then -1074 else (x.exponentField : Int) - 1075

def zero : Double := ⟨0⟩

/-- The NaN that stands for every NaN. -/
def quietNaN : Double := ⟨0x7FF8000000000000⟩

def infinity : Double := ⟨0x7FF0000000000000⟩

def negate (x : Double) : Double := ⟨x.bits ^^^ 0x8000000000000000⟩

/-- Both zeros become `0`, every NaN becomes `quietNaN`, so that equal values
have equal bits. -/
def canonical (x : Double) : Double :=
  if x.isZero then zero else if x.isNaN then quietNaN else x

/-- The magnitude of a finite number without its fractional part. -/
def truncate (x : Double) : Nat :=
  if 0 ≤ x.exponent then x.mantissa * Nat.pow 2 x.exponent.toNat
  else x.mantissa / Nat.pow 2 (-x.exponent).toNat

/-- Whether a finite number is an integer. -/
def isIntegral (x : Double) : Bool :=
  x.isFinite && (decide (0 ≤ x.exponent) || x.mantissa % Nat.pow 2 (-x.exponent).toNat == 0)

/-- At least zero: no NaN, and no negative number but `-0`. -/
def isNonnegative (x : Double) : Bool := !x.isNaN && (x.isZero || !x.isNegative)

/-- The position a number selects in a sequence: its integer part, where an
infinity lies past every end. -/
def position? (x : Double) : Option Nat := if x.isFinite then some x.truncate else none

/-- A mantissa `r ≤ 2^53` with exponent `k ≥ -1074` as a number, infinite when
it does not fit. -/
def ofMantissa (r : Nat) (k : Int) : Double :=
  if r < leadingBit then ⟨r.toUInt64⟩
  else
    let (r, k) := if r = 2 * leadingBit then (leadingBit, k + 1) else (r, k)
    let field := (k + 1075).toNat
    if field ≥ 2047 then infinity else ⟨(field * leadingBit + (r - leadingBit)).toUInt64⟩

/-- The quotient rounded to the nearest natural number, a tie to the even one. -/
def roundDiv (num den : Nat) : Nat :=
  let q := num / den
  let twice := 2 * (num % den)
  if twice < den then q else if den < twice then q + 1 else q + q % 2

/-- The number nearest to `num / den`, for `den ≠ 0`. -/
def ofRatio (num den : Nat) : Double :=
  if num = 0 then zero
  else
    let scaled (k : Int) : Nat × Nat :=
      if 0 ≤ k then (num, den * Nat.pow 2 k.toNat) else (num * Nat.pow 2 (-k).toNat, den)
    let k := (Nat.log2 num : Int) - (Nat.log2 den : Int) - 52
    let k := if (scaled k).1 / (scaled k).2 < leadingBit then k - 1 else k
    let k := max k (-1074)
    ofMantissa (roundDiv (scaled k).1 (scaled k).2) k

/-- The number nearest to an integer. -/
def ofInt (n : Int) : Double :=
  if n < 0 then negate (ofRatio n.natAbs 1) else ofRatio n.natAbs 1

def ofNat (n : Nat) : Double := ofInt n

/-- The number of decimal digits of `n`, one for zero. -/
def digitCount (n : Nat) : Nat := (Nat.toDigits 10 n).length

/-- The number nearest to `m · 10^e`.  Beyond `10^400` either way the result is
known without the power. -/
def ofDecimal (m : Nat) (e : Int) : Double :=
  if m = 0 then zero
  else if 400 < (digitCount m : Int) + e then infinity
  else if (digitCount m : Int) + e < -400 then zero
  else if 0 ≤ e then ofRatio (m * Nat.pow 10 e.toNat) 1
  else ofRatio m (Nat.pow 10 (-e).toNat)

end Double

end GradualTyping
