/-
# Diagnostics with their source

A diagnostic is shown with the line it points at, a row of carets under its span
and its notes:

    error[E2001]: Type '42' is not assignable to type 'string'
      ┌─ main.gd:1:17
      │
    1 │ let x: string = 42;
      │                 ^^ expected 'string', found '42'

Spans are counted in bytes, lines and columns from one.  The carets stand under
the characters of the span as they are shown: a tab reaches up to the next tab
stop and other characters take the columns of `Text.charWidth`.
-/

import GradualTyping.Diagnostic.Basic
import GradualTyping.Text.Width

namespace GradualTyping

/-- A place in a source with its line. -/
structure SourcePlace where
  line : Nat
  column : Nat
  /-- The number of bytes of the line before the place. -/
  offset : Nat
  /-- The text of the line without its end. -/
  text : List Char
deriving DecidableEq, Repr, Inhabited

namespace SourcePlace

/-- The lines of a text, each with its end, which is a line feed. -/
def splitLines : List Char → List (List Char)
  | [] => [[]]
  | c :: cs =>
    if c = '\n' then ['\n'] :: splitLines cs
    else
      match splitLines cs with
      | [] => [[c]]
      | line :: lines => (c :: line) :: lines

/-- The number of bytes of a text. -/
def byteLength (cs : List Char) : Nat := cs.foldl (fun n c => n + c.utf8Size) 0

/-- The number of characters that end by a byte offset. -/
def charsBefore : List Char → Nat → Nat
  | [], _ => 0
  | c :: cs, offset =>
    if offset < c.utf8Size then 0 else charsBefore cs (offset - c.utf8Size) + 1

/-- A line without the characters that end it. -/
def trimEnd (line : List Char) : List Char :=
  (line.reverse.dropWhile fun c => c = '\n' || c = '\r' || c = '\x00').reverse

/-- The place of a byte offset in lines that start with number `line`.  The last
line takes every offset. -/
def inLines (line : Nat) : List (List Char) → Nat → SourcePlace
  | [], offset => ⟨line, 1, offset, []⟩
  | [text], offset => ⟨line, charsBefore text offset + 1, offset, trimEnd text⟩
  | text :: rest, offset =>
    if offset < byteLength text then ⟨line, charsBefore text offset + 1, offset, trimEnd text⟩
    else inLines (line + 1) rest (offset - byteLength text)

/-- The place of a byte offset. -/
def ofOffset (source : String) (offset : Nat) : SourcePlace :=
  inLines 1 (splitLines source.toList) offset

end SourcePlace

namespace Diagnostic

def spaces (n : Nat) : String := String.ofList (List.replicate n ' ')

/-- The columns of a character that starts at a column, counted from zero.  A tab
reaches up to the next multiple of four. -/
def columnsAt (column : Nat) (c : Char) : Nat :=
  if c = '\t' then 4 - column % 4 else Text.charWidth c

/-- A character of a line as it is shown. -/
structure Cell where
  char : Char
  /-- The number of bytes of the line before the character. -/
  offset : Nat
  /-- The number of columns that the character takes. -/
  width : Nat
deriving DecidableEq, Repr, Inhabited

/-- The characters of a line from a byte offset and a column on. -/
def cellsFrom (offset column : Nat) : List Char → List Cell
  | [] => []
  | c :: cs =>
    let width := columnsAt column c
    ⟨c, offset, width⟩ :: cellsFrom (offset + c.utf8Size) (column + width) cs

def cells (line : List Char) : List Cell := cellsFrom 0 0 line

/-- The place after the last character of a line, which a caret can mark too. -/
def lineEnd (line : List Char) : Cell := ⟨'\x00', SourcePlace.byteLength line, 1⟩

namespace Cell

/-- A character of the line; a tab is written as blanks. -/
def shown (c : Cell) : List Char := if c.char = '\t' then List.replicate c.width ' ' else [c.char]

/-- What stands under a character: carets if it has a byte from `start` up to
`stop`, blanks before that and nothing after. -/
def mark (start stop : Nat) (c : Cell) : List Char :=
  if c.offset < stop then
    List.replicate c.width (if start < c.offset + c.char.utf8Size then '^' else ' ')
  else []

end Cell

/-- The row of carets under a line for the bytes from `start` up to `stop`, and
at least one caret. -/
def carets (line : List Char) (start stop : Nat) : List Char :=
  (cells line ++ [lineEnd line]).flatMap (Cell.mark start (max stop (start + 1)))

/-- A line of a note without the line feed that ends it, or the carriage return
before that. -/
def noteLine (line : List Char) : List Char :=
  match line.reverse with
  | '\n' :: '\r' :: cs => cs.reverse
  | '\n' :: cs => cs.reverse
  | _ => line

/-- A note line by line, the first after an equals sign. -/
def noteLines (margin note : String) : List String :=
  let lines := (SourcePlace.splitLines note.toList).filter (!·.isEmpty)
  match lines.map (String.ofList ∘ noteLine) with
  | [] => []
  | first :: others => (margin ++ " = " ++ first) :: others.map (margin ++ "   " ++ ·)

/-- A diagnostic with the line of its source. -/
def render (path source : String) (d : Diagnostic) : String :=
  let place := SourcePlace.ofOffset source d.span.start
  let number := Nat.repr place.line
  let margin := spaces number.length
  let marks := carets place.text place.offset (place.offset + (d.span.stop - d.span.start))
  let label := if d.label = "" then "" else " " ++ d.label
  let lines :=
    ["error[" ++ d.code ++ "]: " ++ d.message,
      margin ++ " ┌─ " ++ path ++ ":" ++ number ++ ":" ++ Nat.repr place.column,
      margin ++ " │",
      number ++ " │ " ++ String.ofList ((cells place.text).flatMap Cell.shown),
      margin ++ " │ " ++ String.ofList marks ++ label]
    ++ (if d.notes.isEmpty then [] else [margin ++ " │"])
    ++ d.notes.flatMap (noteLines margin)
    ++ [""]
  String.join (lines.map (· ++ "\n"))

/-- The diagnostics of a unit with the lines of its source. -/
def renderAll (path source : String) (ds : List Diagnostic) : String :=
  String.join (ds.map (render path source))

/-- A marked range of bytes in a numbered file. -/
structure Label where
  file : Nat
  start : Nat
  stop : Nat
  message : String
deriving DecidableEq, Repr, Inhabited

/-- The label of a diagnostic in a numbered file. -/
def labelIn (d : Diagnostic) (file : Nat) : Label := ⟨file, d.span.start, d.span.stop, d.label⟩

end Diagnostic

end GradualTyping
