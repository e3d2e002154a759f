/-
# Upper and lower case

Full case mapping, independent of any language: a character may become several
(`ß` gives `SS`), and a capital sigma at the end of a word becomes `ς`.  The end
of a word is decided by two properties of the neighbours: going outwards over
ignorable characters, there is a cased one before the sigma and none after it.
-/

import GradualTyping.Text.CaseTable
import GradualTyping.Text.Ranges

namespace GradualTyping
namespace Text

/-- The run that changes the character `c`. -/
def Run.covers (r : Run) (c : Nat) : Bool :=
  decide (r.first ≤ c ∧ c ≤ r.last) && (c - r.first) % r.stride == 0

/-- The run that undoes the changes of `r`. -/
def Run.inverse (r : Run) : Run where
  first := ((r.first : Int) + r.delta).toNat
  last := ((r.last : Int) + r.delta).toNat
  stride := r.stride
  delta := -r.delta

/-- The image of a character under a table of runs and expansions. -/
def mapChar (runs : Array Run) (expansions : Array (Nat × List Nat)) (c : Char) : List Char :=
  match expansions.find? (·.1 == c.toNat) with
  | some (_, image) => image.map Char.ofNat
  | none =>
    match runs.find? (·.covers c.toNat) with
    | some r => [Char.ofNat ((c.toNat : Int) + r.delta).toNat]
    | none => [c]

/-- The upper case of one character. -/
def upperChar (c : Char) : List Char := mapChar upperRuns upperExpansions c

/-- The lower case of one character, out of context: most runs are those of upper case, taken
backwards. -/
def lowerChar (c : Char) : List Char :=
  mapChar (lowerRuns ++ upperRuns.map Run.inverse) lowerExpansions c

def isCased (c : Char) : Bool := inStretches casedStretches c.toNat

def isIgnorable (c : Char) : Bool := inStretches ignorableStretches c.toNat

/-- The first character that is not ignorable exists and is cased. -/
def meetsCased (cs : List Char) : Bool :=
  match cs.dropWhile isIgnorable with
  | c :: _ => isCased c
  | [] => false

/-- Lower case of the characters after those in `before` (nearest first). -/
def lowerList (before : List Char) : List Char → List Char
  | [] => []
  | c :: cs =>
    let image :=
      if c = 'Σ' then
        if meetsCased before && !meetsCased cs then ['ς'] else ['σ']
      else lowerChar c
    image ++ lowerList (c :: before) cs

def upper (s : String) : String := String.ofList (s.toList.flatMap upperChar)

def lower (s : String) : String := String.ofList (lowerList [] s.toList)

/-- Change the first character only. -/
def mapFirst (f : Char → List Char) (s : String) : String :=
  match s.toList with
  | c :: cs => String.ofList (f c ++ cs)
  | [] => ""

end Text
end GradualTyping
