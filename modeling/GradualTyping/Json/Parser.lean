/-
# Reading JSON

`Json.parse?` reads one value and nothing after it but blanks.  A number
without fraction and exponent that fits 64 bits (signed or unsigned) is an
integer, and `-0` is not; a number beyond the range of binary64 is refused.  At
most 127 arrays and objects may be nested.
-/

import GradualTyping.Json.Basic

namespace GradualTyping
namespace Json

def isBlank (c : Char) : Bool := c == ' ' || c == '\n' || c == '\t' || c == '\r'

def skipBlanks (cs : List Char) : List Char := cs.dropWhile isBlank

/-- Read the exact characters of `word`. -/
def word? : List Char → List Char → Option (List Char)
  | [], cs => some cs
  | w :: ws, c :: cs => if w == c then word? ws cs else none
  | _ :: _, [] => none

def hexDigit? (c : Char) : Option Nat :=
  if '0' ≤ c ∧ c ≤ '9' then some (c.toNat - '0'.toNat)
  else if 'a' ≤ c ∧ c ≤ 'f' then some (c.toNat - 'a'.toNat + 10)
  else if 'A' ≤ c ∧ c ≤ 'F' then some (c.toNat - 'A'.toNat + 10)
  else none

def hex4? (a b c d : Char) : Option Nat := do
  return ((← hexDigit? a) * 16 + (← hexDigit? b)) * 256 + (← hexDigit? c) * 16 + (← hexDigit? d)

/-- The character of a one-letter escape. -/
def escaped? : Char → Option Char
  | '"' => some '"'
  | '\\' => some '\\'
  | '/' => some '/'
  | 'b' => some '\x08'
  | 'f' => some '\x0c'
  | 'n' => some '\n'
  | 'r' => some '\r'
  | 't' => some '\t'
  | _ => none

/-- The rest of a string after its opening quote; `acc` holds the characters
read, last first.  A high surrogate must be followed by a low one. -/
def stringTail? (acc : List Char) : List Char → Option (String × List Char)
  | '"' :: cs => some (String.ofList acc.reverse, cs)
  | '\\' :: 'u' :: a :: b :: c :: d :: cs =>
    match hex4? a b c d with
    | none => none
    | some n =>
      if 0xDC00 ≤ n ∧ n < 0xE000 then none
      else if 0xD800 ≤ n ∧ n < 0xDC00 then
        match cs with
        | '\\' :: 'u' :: a' :: b' :: c' :: d' :: rest =>
          match hex4? a' b' c' d' with
          | none => none
          | some m =>
            if 0xDC00 ≤ m ∧ m < 0xE000 then
              stringTail? (Char.ofNat (0x10000 + (n - 0xD800) * 0x400 + (m - 0xDC00)) :: acc) rest
            else none
        | _ => none
      else stringTail? (Char.ofNat n :: acc) cs
  | '\\' :: e :: cs =>
    match escaped? e with
    | some c => stringTail? (c :: acc) cs
    | none => none
  | c :: cs => if c.toNat < 0x20 || c == '\\' then none else stringTail? (c :: acc) cs
  | [] => none

def isDigit (c : Char) : Bool := decide ('0' ≤ c ∧ c ≤ '9')

def natOfDigits (ds : List Char) : Nat :=
  ds.foldl (fun n c => n * 10 + (c.toNat - '0'.toNat)) 0

/-- Digits of an integer part: a leading zero stands alone. -/
def integerDigits? (cs : List Char) : Option (List Char × List Char) :=
  match cs.takeWhile isDigit, cs.dropWhile isDigit with
  | [], _ => none
  | '0' :: _ :: _, _ => none
  | ds, rest => some (ds, rest)

/-- The fraction digits after a point, if there is one. -/
def fractionDigits? : List Char → Option (List Char × List Char)
  | '.' :: cs =>
    match cs.takeWhile isDigit with
    | [] => none
    | ds => some (ds, cs.dropWhile isDigit)
  | cs => some ([], cs)

/-- The exponent, if there is one. -/
def exponent? : List Char → Option (Option Int × List Char)
  | c :: cs =>
    if c == 'e' || c == 'E' then
      let (negative, cs) :=
        match cs with
        | '+' :: cs => (false, cs)
        | '-' :: cs => (true, cs)
        | cs => (false, cs)
      match cs.takeWhile isDigit with
      | [] => none
      | ds =>
        let n : Int := natOfDigits ds
        some (some (if negative then -n else n), cs.dropWhile isDigit)
    else some (none, c :: cs)
  | [] => some (none, [])

/-- The value of a number from its parts. -/
def number? (negative : Bool) (whole fraction : List Char) (exponent : Option Int) : Option Json :=
  let n := natOfDigits whole
  let float (x : Double) : Option Json :=
    if x.isFinite then some (.float (if negative then x.negate else x)) else none
  if fraction.isEmpty && exponent.isNone then
    if negative then
      if n = 0 ∨ UInt64.size / 2 < n then float (Double.ofNat n) else some (.int (-(n : Int)))
    else if n < UInt64.size then some (.int n)
    else float (Double.ofNat n)
  else
    float (Double.ofDecimal (natOfDigits (whole ++ fraction))
      (exponent.getD 0 - (fraction.length : Int)))

def numberText? (cs : List Char) : Option (Json × List Char) := do
  let (negative, cs) :=
    match cs with
    | '-' :: cs => (true, cs)
    | cs => (false, cs)
  let (whole, cs) ← integerDigits? cs
  let (fraction, cs) ← fractionDigits? cs
  let (exponent, cs) ← exponent? cs
  return (← number? negative whole fraction exponent, cs)

mutual
/-- A value, with at most `depth` more arrays and objects around what it holds.
`fuel` bounds the number of nested calls. -/
def value? : (fuel depth : Nat) → List Char → Option (Json × List Char)
  | 0, _, _ => none
  | fuel + 1, depth, cs =>
    match skipBlanks cs with
    | 'n' :: cs => (word? ['u', 'l', 'l'] cs).map ((.null, ·))
    | 't' :: cs => (word? ['r', 'u', 'e'] cs).map ((.bool true, ·))
    | 'f' :: cs => (word? ['a', 'l', 's', 'e'] cs).map ((.bool false, ·))
    | '"' :: cs => (stringTail? [] cs).map fun (s, rest) => (.string s, rest)
    | '[' :: cs =>
      match depth with
      | 0 => none
      | depth + 1 =>
        match skipBlanks cs with
        | ']' :: rest => some (.array [], rest)
        | cs => (items? fuel depth cs).map fun (js, rest) => (.array js, rest)
    | '\x7b' :: cs =>
      match depth with
      | 0 => none
      | depth + 1 =>
        match skipBlanks cs with
        | '\x7d' :: rest => some (.object [], rest)
        | cs => (fields? fuel depth [] cs).map fun (fs, rest) => (.object fs, rest)
    | cs => numberText? cs

/-- The items of an array up to its closing bracket. -/
def items? : (fuel depth : Nat) → List Char → Option (List Json × List Char)
  | 0, _, _ => none
  | fuel + 1, depth, cs =>
    match value? fuel depth cs with
    | none => none
    | some (j, cs) =>
      match skipBlanks cs with
      | ',' :: cs => (items? fuel depth cs).map fun (js, rest) => (j :: js, rest)
      | ']' :: cs => some ([j], cs)
      | _ => none

/-- The fields of an object up to its closing brace, after those in `acc`. -/
def fields? : (fuel depth : Nat) → List (String × Json) → List Char →
    Option (List (String × Json) × List Char)
  | 0, _, _, _ => none
  | fuel + 1, depth, acc, cs =>
    match skipBlanks cs with
    | '"' :: cs =>
      match stringTail? [] cs with
      | none => none
      | some (name, cs) =>
        match skipBlanks cs with
        | ':' :: cs =>
          match value? fuel depth cs with
          | none => none
          | some (j, cs) =>
            match skipBlanks cs with
            | ',' :: cs => fields? fuel depth (setField name j acc) cs
            | '\x7d' :: cs => some (setField name j acc, cs)
            | _ => none
        | _ => none
    | _ => none
end

/-- The value written in a text, if the text is one JSON value. -/
def parse? (text : String) : Option Json :=
  let cs := text.toList
  match value? (2 * cs.length + 2) 127 cs with
  | some (j, rest) => if (skipBlanks rest).isEmpty then some j else none
  | none => none

end Json
end GradualTyping
