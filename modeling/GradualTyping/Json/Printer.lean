/-
# Writing JSON

`Json.compress` writes a value without blanks, `Json.pretty` with one item on a
line, indented by two.  Quotes, backslashes and control characters are escaped
and nothing else is.
-/

import GradualTyping.Json.Basic
import GradualTyping.Number.Text

namespace GradualTyping
namespace Json

def hexChar (n : Nat) : Char := Nat.digitChar n

/-- One character inside a quoted string. -/
def escape (c : Char) : List Char :=
  match c with
  | '"' => ['\\', '"']
  | '\\' => ['\\', '\\']
  | '\x08' => ['\\', 'b']
  | '\x0c' => ['\\', 'f']
  | '\n' => ['\\', 'n']
  | '\r' => ['\\', 'r']
  | '\t' => ['\\', 't']
  | c =>
    if c.toNat < 0x20 then
      ['\\', 'u', '0', '0', hexChar (c.toNat / 16), hexChar (c.toNat % 16)]
    else [c]

def quote (s : String) : String := "\"" ++ String.ofList (s.toList.flatMap escape) ++ "\""

/-- The text of a value that holds no other. -/
def atom : Json → String
  | .bool true => "true"
  | .bool false => "false"
  | .int n => if n < 0 then "-" ++ Nat.repr n.natAbs else Nat.repr n.natAbs
  | .float x => x.scientific?.getD "null"
  | .string s => quote s
  | _ => "null"

mutual
/-- The text of a value without blanks. -/
def compress : Json → String
  | .array items => "[" ++ compressItems items ++ "]"
  | .object fields => "\x7b" ++ compressFields fields ++ "\x7d"
  | j => j.atom

def compressItems : List Json → String
  | [] => ""
  | [j] => j.compress
  | j :: js => j.compress ++ "," ++ compressItems js

def compressFields : List (String × Json) → String
  | [] => ""
  | [(n, j)] => quote n ++ ":" ++ j.compress
  | (n, j) :: fs => quote n ++ ":" ++ j.compress ++ "," ++ compressFields fs
end

/-- A new line at a level of nesting. -/
def newline (level : Nat) : String := "\n" ++ String.ofList (List.replicate (2 * level) ' ')

mutual
/-- The text of a value on several lines, nested `level` deep. -/
def prettyAt (level : Nat) : Json → String
  | .array [] => "[]"
  | .array items => "[" ++ prettyItems (level + 1) items ++ newline level ++ "]"
  | .object [] => "\x7b\x7d"
  | .object fields => "\x7b" ++ prettyFields (level + 1) fields ++ newline level ++ "\x7d"
  | j => j.atom

def prettyItems (level : Nat) : List Json → String
  | [] => ""
  | [j] => newline level ++ j.prettyAt level
  | j :: js => newline level ++ j.prettyAt level ++ "," ++ prettyItems level js

def prettyFields (level : Nat) : List (String × Json) → String
  | [] => ""
  | [(n, j)] => newline level ++ quote n ++ ": " ++ j.prettyAt level
  | (n, j) :: fs =>
    newline level ++ quote n ++ ": " ++ j.prettyAt level ++ "," ++ prettyFields level fs
end

/-- The text of a value on several lines. -/
def pretty (j : Json) : String := j.prettyAt 0

end Json
end GradualTyping
