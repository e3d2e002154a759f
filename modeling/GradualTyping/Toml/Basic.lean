/-
# TOML documents

A document is a table of named values.  Tables come into being in different ways,
which limit what may be added to them later: a header defines its table, and the
tables on the way to it only implicitly, so that a later header may still define
those; a dotted key makes tables that only dotted keys may extend.  An inline
table is complete as it is written.
-/

import GradualTyping.Number.Double

namespace GradualTyping

/-- How a table has come into being. -/
inductive TableOrigin where
  /-- A header names the table. -/
  | header
  /-- The table stands on the way to one that a header names. -/
  | implicit
  /-- A dotted key goes through the table. -/
  | dotted
deriving DecidableEq, Repr, Inhabited

inductive Toml where
  | string (value : String)
  | integer (value : Int)
  | float (value : Double)
  | boolean (value : Bool)
  /-- A date, a time or both, as it is written. -/
  | datetime (text : String)
  | array (items : List Toml)
  | inline (fields : List (String × Toml))
  | table (origin : TableOrigin) (fields : List (String × Toml))
  /-- The tables of repeated headers, in order. -/
  | tables (items : List (List (String × Toml)))
deriving Inhabited

namespace Toml

/-- A table under construction. -/
structure Table where
  origin : TableOrigin
  fields : List (String × Toml)
deriving Inhabited

namespace Table

def get? (t : Table) (key : String) : Option Toml := t.fields.lookup key

/-- Give a key a value in place of the one it has. -/
def setField (key : String) (value : Toml) : List (String × Toml) → List (String × Toml)
  | [] => [(key, value)]
  | f :: fs => if f.1 = key then (key, value) :: fs else f :: setField key value fs

def set (t : Table) (key : String) (value : Toml) : Table :=
  { t with fields := setField key value t.fields }

/-- The value that a table stands for. -/
def toToml (t : Table) : Toml := .table t.origin t.fields

end Table

/-- Change the table that a path leads to.  Tables that are missing are made;
through a repeated header the path goes into its last table.  A path of keys
that are dotted must not enter a table that a header names. -/
def update (dotted : Bool) : List String → (Table → Option Table) → Table → Option Table
  | [], change, t => change t
  | key :: path, change, t =>
    match t.get? key with
    | none => do
      let child ← update dotted path change ⟨if dotted then .dotted else .implicit, []⟩
      return t.set key child.toToml
    | some (.table origin fields) => do
      if dotted && origin == .header then none
      let child ← update dotted path change ⟨origin, fields⟩
      return t.set key child.toToml
    | some (.tables items) => do
      let last ← items.getLast?
      let child ← update dotted path change ⟨.header, last⟩
      return t.set key (.tables (items.dropLast ++ [child.fields]))
    | some _ => none

/-- Add a field that the table does not have. -/
def addField (key : String) (value : Toml) (t : Table) : Option Table :=
  match t.get? key with
  | some _ => none
  | none => some (t.set key value)

/-- Add a field under a key with dots: `path` is what stands before the last dot.
Only a table made by dotted keys may be extended by one. -/
def addKeyValue (path : List String) (key : String) (value : Toml) (t : Table) : Option Table :=
  update true path
    (fun t => if (t.origin == .dotted) == path.isEmpty then none else addField key value t) t

/-- Define the table of a header. -/
def addHeader (path : List String) (key : String) (t : Table) : Option Table :=
  update false path
    (fun t =>
      match t.get? key with
      | none => some (t.set key (.table .header []))
      | some (.table .implicit fields) => some (t.set key (.table .header fields))
      | some _ => none)
    t

/-- Add a table to those of a repeated header. -/
def addRepeatedHeader (path : List String) (key : String) (t : Table) : Option Table :=
  update false path
    (fun t =>
      match t.get? key with
      | none => some (t.set key (.tables [[]]))
      | some (.tables items) => some (t.set key (.tables (items ++ [[]])))
      | some _ => none)
    t

end Toml

end GradualTyping
