/-
# Reading TOML

A document is read line by line: a comment, a header or a key with its value.
-/

import GradualTyping.Toml.Lexical

namespace GradualTyping
namespace Toml

/-- The first reader that succeeds. -/
def firstOf {α : Type} (readers : List (Reader α)) (cs : List Char) : Option (α × List Char) :=
  readers.findSome? (· cs)

/-- A value that holds no other values. -/
def scalarValue? (cs : List Char) : Option (Toml × List Char) :=
  match cs with
  | 't' :: 'r' :: 'u' :: 'e' :: cs => some (.boolean true, cs)
  | 'f' :: 'a' :: 'l' :: 's' :: 'e' :: cs => some (.boolean false, cs)
  | _ =>
    match string? cs with
    | some (s, cs) => some (.string s, cs)
    | none => firstOf [datetime?, decimal?, special?, integer?] cs

mutual
/-- A value with at most `depth` more arrays and inline tables around what it
holds.  `fuel` bounds the number of nested calls. -/
def value? : (fuel depth : Nat) → Reader Toml
  | 0, _, _ => none
  | fuel + 1, depth, cs =>
    match cs, depth with
    | '[' :: cs, depth + 1 => do
      let (items, cs) ← items? fuel depth (skipLines (cs.length + 1) cs)
      return (.array items, cs)
    | '\x7b' :: cs, depth + 1 =>
      match skipBlanks cs with
      | '\x7d' :: cs => some (.inline [], cs)
      | cs => do
        let (t, cs) ← fields? fuel depth ⟨.header, []⟩ cs
        return (.inline t.fields, cs)
    | cs, _ => scalarValue? cs

/-- The items of an array up to its closing bracket; a comma may follow the last. -/
def items? : (fuel depth : Nat) → Reader (List Toml)
  | 0, _, _ => none
  | fuel + 1, depth, cs =>
    match cs with
    | ']' :: cs => some ([], cs)
    | cs => do
      let (item, cs) ← value? fuel depth cs
      match skipLines (cs.length + 1) cs with
      | ',' :: cs =>
        let (items, cs) ← items? fuel depth (skipLines (cs.length + 1) cs)
        return (item :: items, cs)
      | ']' :: cs => return ([item], cs)
      | _ => none

/-- The fields of an inline table up to its closing brace, added to a table. -/
def fields? : (fuel depth : Nat) → Table → Reader Table
  | 0, _, _, _ => none
  | fuel + 1, depth, t, cs => do
    let ((path, key), cs) ← key? cs
    let cs ← char? '=' cs
    let (value, cs) ← value? fuel depth (skipBlanks cs)
    let t ← addKeyValue path key value t
    match skipBlanks cs with
    | ',' :: cs => fields? fuel depth t cs
    | '\x7d' :: cs => return (t, cs)
    | _ => none
end

/-- A header without its brackets, of the given number of brackets. -/
def header? (brackets : Nat) (cs : List Char) : Option ((List String × String) × List Char) := do
  let (key, cs) ← key? cs
  if cs.take brackets = List.replicate brackets ']' then
    return (key, ← lineEnd? (cs.drop brackets))
  else none

/-- A key with its value on a line of its own. -/
def keyValue? (cs : List Char) : Option ((List String × String) × Toml × List Char) := do
  let (key, cs) ← key? cs
  let cs ← char? '=' cs
  let (value, cs) ← value? (2 * cs.length + 2) (depthLimit - 1) (skipBlanks cs)
  return (key, value, ← lineEnd? cs)

/-- The lines of a document, added to a table.  Keys go to the table of the last
header, whose path is `header`. -/
def lines? : (fuel : Nat) → (header : List String) → Table → List Char → Option Table
  | 0, _, _, _ => none
  | fuel + 1, header, t, cs =>
    match skipBlanks cs with
    | [] => some t
    | '#' :: cs => do lines? fuel header t (← lineEnd? ('#' :: cs))
    | '[' :: '[' :: cs => do
      let ((path, key), cs) ← header? 2 cs
      lines? fuel (path ++ [key]) (← addRepeatedHeader path key t) cs
    | '[' :: cs => do
      let ((path, key), cs) ← header? 1 cs
      lines? fuel (path ++ [key]) (← addHeader path key t) cs
    | cs =>
      match newline? cs with
      | some cs => lines? fuel header t cs
      | none => do
        let ((path, key), value, cs) ← keyValue? cs
        let t ← update false header (addKeyValue path key value) t
        lines? fuel header t cs

/-- A byte order mark at the start of a text is skipped. -/
def skipMark : List Char → List Char
  | '\uFEFF' :: cs => cs
  | cs => cs

/-- The fields of the document that a text is. -/
def parse? (text : String) : Option (List (String × Toml)) :=
  let cs := skipMark text.toList
  (lines? (cs.length + 1) [] ⟨.header, []⟩ cs).map (·.fields)

end Toml
end GradualTyping
