/-
# Keys, strings, numbers and dates of TOML

Each reader takes a list of characters and gives what it has read with the
characters behind it.
-/

import GradualTyping.Json.Parser
import GradualTyping.Toml.Basic

namespace GradualTyping
namespace Toml

/-- A reader of the start of a text. -/
abbrev Reader (α : Type) := List Char → Option (α × List Char)

def isBlank (c : Char) : Bool := c == ' ' || c == '\t'

def skipBlanks (cs : List Char) : List Char := cs.dropWhile isBlank

/-- The rest behind a line end, if one stands there. -/
def newline? : List Char → Option (List Char)
  | '\n' :: cs => some cs
  | '\r' :: '\n' :: cs => some cs
  | _ => none

/-- The characters of comments: all but controls, with the tab. -/
def isPlain (c : Char) : Bool := c == '\t' || (0x20 ≤ c.toNat && c.toNat != 0x7F)

/-- What stands behind a comment, if one stands there. -/
def skipComment : List Char → List Char
  | '#' :: cs => cs.dropWhile isPlain
  | cs => cs

/-- The end of a line, with blanks and a comment before it. -/
def lineEnd? (cs : List Char) : Option (List Char) :=
  match skipComment (skipBlanks cs) with
  | [] => some []
  | cs => newline? cs

/-- Skip blanks, comments and line ends.  A comment has to end its line. -/
def skipLines : (fuel : Nat) → List Char → List Char
  | 0, cs => cs
  | fuel + 1, cs =>
    let cs := skipBlanks cs
    match cs with
    | '#' :: _ =>
      match newline? (skipComment cs) with
      | some rest => skipLines fuel rest
      | none => cs
    | _ =>
      match newline? cs with
      | some rest => skipLines fuel rest
      | none => cs

/-! ### Strings -/

/-- The character of a code point, which must be no surrogate. -/
def scalar? (n : Nat) : Option Char := if n.isValidChar then some (Char.ofNat n) else none

/-- A number of hexadecimal digits. -/
def hexNumber? : (count : Nat) → Nat → Reader Nat
  | 0, n, cs => some (n, cs)
  | _ + 1, _, [] => none
  | count + 1, n, c :: cs => do hexNumber? count (16 * n + (← Json.hexDigit? c)) cs

/-- What an escape stands for, behind its backslash. -/
def escape? : Reader Char
  | 'b' :: cs => some ('\x08', cs)
  | 't' :: cs => some ('\t', cs)
  | 'n' :: cs => some ('\n', cs)
  | 'f' :: cs => some ('\x0c', cs)
  | 'r' :: cs => some ('\r', cs)
  | '"' :: cs => some ('"', cs)
  | '\\' :: cs => some ('\\', cs)
  | 'u' :: cs => do
    let (n, cs) ← hexNumber? 4 0 cs
    return (← scalar? n, cs)
  | 'U' :: cs => do
    let (n, cs) ← hexNumber? 8 0 cs
    return (← scalar? n, cs)
  | _ => none

/-- A basic string behind its opening quote. -/
def basicString? : (fuel : Nat) → (read : List Char) → Reader String
  | 0, _, _ => none
  | _ + 1, _, [] => none
  | fuel + 1, read, c :: cs =>
    if c = '"' then some (String.ofList read.reverse, cs)
    else if c = '\\' then do
      let (c, cs) ← escape? cs
      basicString? fuel (c :: read) cs
    else if isPlain c then basicString? fuel (c :: read) cs
    else none

/-- A literal string behind its opening quote. -/
def literalString? : (read : List Char) → Reader String
  | _, [] => none
  | read, c :: cs =>
    if c = '\'' then some (String.ofList read.reverse, cs)
    else if isPlain c then literalString? (c :: read) cs
    else none

/-- Skip blanks and line ends. -/
def skipSpace : (fuel : Nat) → List Char → List Char
  | 0, cs => cs
  | fuel + 1, cs =>
    match newline? (skipBlanks cs) with
    | some rest => skipSpace fuel rest
    | none => skipBlanks cs

/-- A backslash at the end of a line, which joins it to the next text. -/
def lineJoin? (fuel : Nat) (cs : List Char) : Option (List Char) :=
  (newline? (skipBlanks cs)).map (skipSpace fuel)

/-- A string of several lines behind its opening quotes.  Up to two quotes may
stand before the closing three. -/
def multilineString? (quote : Char) (escapes : Bool) :
    (fuel : Nat) → (read : List Char) → Reader String
  | 0, _, _ => none
  | fuel + 1, read, cs =>
    match cs with
    | [] => none
    | c :: rest =>
      if c = quote then
        let quotes := (cs.takeWhile (· == quote)).length
        if quotes < 3 then multilineString? quote escapes fuel (c :: read) rest
        else
          let kept := min (quotes - 3) 2
          some (String.ofList (List.replicate kept quote ++ read).reverse, cs.drop (kept + 3))
      else if escapes && c = '\\' then
        match lineJoin? fuel rest with
        | some rest => multilineString? quote escapes fuel read rest
        | none => do
          let (c, rest) ← escape? rest
          multilineString? quote escapes fuel (c :: read) rest
      else
        match newline? cs with
        | some rest => multilineString? quote escapes fuel ('\n' :: read) rest
        | none => if isPlain c then multilineString? quote escapes fuel (c :: read) rest else none

/-- A line end right behind the opening quotes is dropped. -/
def dropNewline (cs : List Char) : List Char := (newline? cs).getD cs

/-- A string in any quotes. -/
def string? (cs : List Char) : Option (String × List Char) :=
  let fuel := cs.length + 1
  match cs with
  | '"' :: '"' :: '"' :: cs => multilineString? '"' true fuel [] (dropNewline cs)
  | '\'' :: '\'' :: '\'' :: cs => multilineString? '\'' false fuel [] (dropNewline cs)
  | '"' :: cs => basicString? fuel [] cs
  | '\'' :: cs => literalString? [] cs
  | _ => none

/-! ### Keys -/

def isKeyChar (c : Char) : Bool :=
  ('a' ≤ c && c ≤ 'z') || ('A' ≤ c && c ≤ 'Z') || Json.isDigit c || c == '_' || c == '-'

/-- One part of a key. -/
def simpleKey? (cs : List Char) : Option (String × List Char) :=
  match cs with
  | '"' :: cs => basicString? (cs.length + 1) [] cs
  | '\'' :: cs => literalString? [] cs
  | cs =>
    match cs.takeWhile isKeyChar with
    | [] => none
    | ks => some (String.ofList ks, cs.dropWhile isKeyChar)

/-- The deepest nesting of values and the length of keys are below this. -/
def depthLimit : Nat := 80

/-- A key with its parts, and the blanks around them. -/
def keyParts? : (fuel : Nat) → Reader (List String)
  | 0, _ => none
  | fuel + 1, cs => do
    let (part, cs) ← simpleKey? (skipBlanks cs)
    match skipBlanks cs with
    | '.' :: cs =>
      let (parts, cs) ← keyParts? fuel cs
      return (part :: parts, cs)
    | cs => return ([part], cs)

/-- A key: the parts before the last and the last. -/
def key? (cs : List Char) : Option ((List String × String) × List Char) := do
  let (parts, cs) ← keyParts? (depthLimit - 1) cs
  return ((parts.dropLast, ← parts.getLast?), cs)

/-! ### Numbers -/

/-- Digits with single underscores between them. -/
def digits? (isDigit : Char → Bool) : Reader (List Char)
  | [] => none
  | c :: '_' :: cs =>
    if isDigit c then (digits? isDigit cs).map fun (ds, rest) => (c :: ds, rest) else none
  | c :: cs =>
    if isDigit c then
      match digits? isDigit cs with
      | some (ds, rest) => some (c :: ds, rest)
      | none => if cs.head?.any isDigit then none else some ([c], cs)
    else none

/-- A sign: whether it is a minus. -/
def sign : List Char → Bool × List Char
  | '-' :: cs => (true, cs)
  | '+' :: cs => (false, cs)
  | cs => (false, cs)

/-- Decimal digits where a leading zero stands alone. -/
def wholeDigits? : Reader (List Char)
  | '0' :: cs => some (['0'], cs)
  | cs => digits? Json.isDigit cs

/-- An integer of 64 bits with a sign. -/
def checkRange (n : Int) : Option Toml :=
  if Int64.minValue.toInt ≤ n ∧ n ≤ Int64.maxValue.toInt then some (.integer n) else none

/-- Digits in a base behind their mark. -/
def based? (base : Nat) (cs : List Char) : Option (Toml × List Char) := do
  let isDigit (c : Char) : Bool := (Json.hexDigit? c).any (· < base)
  let (ds, cs) ← digits? isDigit cs
  let n := ds.foldl (fun n c => base * n + (Json.hexDigit? c).getD 0) 0
  return (← checkRange n, cs)

def integer? : Reader Toml
  | '0' :: 'x' :: cs => based? 16 cs
  | '0' :: 'o' :: cs => based? 8 cs
  | '0' :: 'b' :: cs => based? 2 cs
  | cs => do
    let (negative, cs) := sign cs
    let (ds, cs) ← wholeDigits? cs
    let n : Int := Json.natOfDigits ds
    return (← checkRange (if negative then -n else n), cs)

/-- An exponent, if one stands there. -/
def exponent? : Reader (Option Int)
  | c :: cs =>
    if c = 'e' || c = 'E' then do
      let (negative, cs) := sign cs
      let (ds, cs) ← digits? Json.isDigit cs
      let n : Int := Json.natOfDigits ds
      return (some (if negative then -n else n), cs)
    else some (none, c :: cs)
  | [] => some (none, [])

/-- The digits behind a point, if one stands there. -/
def fraction? : Reader (List Char)
  | '.' :: cs => digits? Json.isDigit cs
  | cs => some ([], cs)

/-- A number with a fraction or an exponent; one that is too large is refused. -/
def decimal? (cs : List Char) : Option (Toml × List Char) := do
  let (negative, cs) := sign cs
  let (whole, cs) ← wholeDigits? cs
  let (fraction, cs) ← fraction? cs
  let (exponent, cs) ← exponent? cs
  if fraction.isEmpty && exponent.isNone then none
  let x := Double.ofDecimal (Json.natOfDigits (whole ++ fraction))
    (exponent.getD 0 - (fraction.length : Int))
  if negative then return (.float x.negate, cs)
  else if x.isFinite then return (.float x, cs)
  else none

/-- An infinity or a value that is no number. -/
def special? (cs : List Char) : Option (Toml × List Char) :=
  let (negative, cs) := sign cs
  match cs with
  | 'i' :: 'n' :: 'f' :: cs =>
    some (.float (if negative then Double.infinity.negate else .infinity), cs)
  | 'n' :: 'a' :: 'n' :: cs => some (.float .quietNaN, cs)
  | _ => none

/-! ### Dates and times -/

/-- A number with exactly the given count of digits, between two bounds. -/
def fixed? (count low high : Nat) (cs : List Char) : Option (Nat × List Char) :=
  let ds := cs.take count
  let n := Json.natOfDigits ds
  if ds.length = count ∧ ds.all Json.isDigit ∧ low ≤ n ∧ n ≤ high then some (n, cs.drop count)
  else none

/-- The rest behind a character. -/
def char? (c : Char) : List Char → Option (List Char)
  | d :: cs => if d = c then some cs else none
  | [] => none

def isLeapYear (y : Nat) : Bool := y % 4 == 0 && (y % 100 != 0 || y % 400 == 0)

def daysInMonth (year month : Nat) : Nat :=
  if month = 2 then if isLeapYear year then 29 else 28
  else if month = 4 ∨ month = 6 ∨ month = 9 ∨ month = 11 then 30
  else 31

/-- The rest behind a date. -/
def date? (cs : List Char) : Option (List Char) := do
  let (year, cs) ← fixed? 4 0 9999 cs
  let cs ← char? '-' cs
  let (month, cs) ← fixed? 2 1 12 cs
  let cs ← char? '-' cs
  let (_, cs) ← fixed? 2 1 (daysInMonth year month) cs
  return cs

/-- The rest behind a fraction of a second, if one stands there. -/
def skipSecondFraction : List Char → List Char
  | '.' :: c :: cs => if Json.isDigit c then cs.dropWhile Json.isDigit else '.' :: c :: cs
  | cs => cs

/-- The rest behind a time of day. -/
def time? (cs : List Char) : Option (List Char) := do
  let (_, cs) ← fixed? 2 0 23 cs
  let cs ← char? ':' cs
  let (_, cs) ← fixed? 2 0 59 cs
  let cs ← char? ':' cs
  let (_, cs) ← fixed? 2 0 60 cs
  return skipSecondFraction cs

/-- The rest behind the offset of a time zone, if one stands there. -/
def skipOffset (cs : List Char) : List Char :=
  let numeric (cs : List Char) : Option (List Char) := do
    let (_, cs) ← fixed? 2 0 23 cs
    let cs ← char? ':' cs
    let (_, cs) ← fixed? 2 0 59 cs
    return cs
  match cs with
  | 'Z' :: cs => cs
  | 'z' :: cs => cs
  | '+' :: rest => (numeric rest).getD cs
  | '-' :: rest => (numeric rest).getD cs
  | _ => cs

/-- A time behind a date, if one stands there. -/
def skipTime (cs : List Char) : List Char :=
  match cs with
  | c :: rest =>
    if c = 'T' || c = 't' || c = ' ' then ((time? rest).map skipOffset).getD cs else cs
  | [] => []

/-- A date with or without time, or a time. -/
def datetime? (cs : List Char) : Option (Toml × List Char) := do
  let rest ← ((date? cs).map skipTime).or (time? cs)
  return (.datetime (String.ofList (cs.take (cs.length - rest.length))), rest)

end Toml
end GradualTyping
