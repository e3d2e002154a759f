/-
# Numbers as text

Two formats are written from the shortest decimal `digits · 10^power`:

* `positional`: never an exponent, and no point in an integer
  (`1000000000000000000000`, `0.1`, `inf`, `-inf`, `NaN`);
* `scientific`: always a point or an exponent, an exponent below `10^-5` and
  from `10^16` on (`1.5`, `3.0`, `1e16`, `1e-7`).
-/

import GradualTyping.Number.Shortest

namespace GradualTyping
namespace Double

/-- `n` zeros. -/
def zeros (n : Nat) : String := String.ofList (List.replicate n '0')

/-- The digits of a decimal with the point in its place; `tail` ends an
integer. -/
def Decimal.positional (d : Decimal) (tail : String) : String :=
  let digits := Nat.toDigits 10 d.digits
  let point := (digits.length : Int) + d.power
  if 0 ≤ d.power then String.ofList digits ++ zeros d.power.toNat ++ tail
  else if 0 < point then
    String.ofList (digits.take point.toNat) ++ "." ++ String.ofList (digits.drop point.toNat)
  else "0." ++ zeros (-point).toNat ++ String.ofList digits

/-- The text of a decimal with one digit before the point and an exponent. -/
def Decimal.exponential (d : Decimal) : String :=
  let digits := Nat.toDigits 10 d.digits
  let exponent := (digits.length : Int) + d.power - 1
  let rest := digits.drop 1
  String.ofList (digits.take 1) ++ (if rest.isEmpty then "" else "." ++ String.ofList rest)
    ++ "e" ++ (if exponent < 0 then "-" else "") ++ Nat.repr exponent.natAbs

private def signed (x : Double) (magnitude : String) : String :=
  if x.isNegative then "-" ++ magnitude else magnitude

/-- The shortest text without an exponent. -/
def positional (x : Double) : String :=
  if x.isNaN then "NaN"
  else if x.isFinite then signed x (x.shortest.positional "")
  else signed x "inf"

/-- The shortest text that shows a fraction or an exponent; only finite numbers
have one. -/
def scientific? (x : Double) : Option String :=
  if x.isFinite then
    let d := x.shortest
    let point := (digitCount d.digits : Int) + d.power
    some (signed x
      (if x.isZero then "0.0"
      else if -5 < point ∧ point ≤ 16 then d.positional ".0" else d.exponential))
  else none

end Double
end GradualTyping
