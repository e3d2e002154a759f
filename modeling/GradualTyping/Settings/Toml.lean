/-
# Settings as TOML

Every setting may be missing and other keys are ignored.  A limit of zero is
refused where nothing could be done under it.
-/

import GradualTyping.Settings.Json
import GradualTyping.Toml.Parser

namespace GradualTyping

/-- Why a text gives no settings. -/
inductive SettingsError where
  /-- The text is no TOML, or a value does not fit its setting. -/
  | malformed
  /-- The setting has to be at least one. -/
  | tooSmall (key : String)
deriving DecidableEq, Repr, Inhabited

def SettingsError.message : SettingsError → String
  | malformed => "Failed to parse options"
  | tooSmall key => "Invalid option: " ++ key ++ " must be at least 1"

namespace Toml

def toBool? : Toml → Option Bool
  | .boolean b => some b
  | _ => none

/-- A natural number below a bound. -/
def toNatBelow? (bound : Nat) : Toml → Option Nat
  | .integer n => if 0 ≤ n ∧ n < bound then some n.toNat else none
  | _ => none

def isEmpty : Toml → Bool
  | .array [] => true
  | .inline [] => true
  | .table _ [] => true
  | _ => false

/-- A value that is named by a string, or by the only key of a table, which holds
nothing. -/
def nameOf? {α : Type} (names : List (String × α)) : Toml → Option α
  | .string s => names.lookup s
  | .inline [(key, value)] => if value.isEmpty then names.lookup key else none
  | .table _ [(key, value)] => if value.isEmpty then names.lookup key else none
  | _ => none

/-- The field of a document; a missing one has its standard value. -/
def field? {α : Type} (fields : List (String × Toml)) (name : String) (standard : α)
    (read : Toml → Option α) : Option α :=
  match fields.lookup name with
  | none => some standard
  | some value => read value

end Toml

namespace Settings

/-- The settings in a document. -/
def ofFields? (fields : List (String × Toml)) : Option Settings := do
  let standard : Settings := {}
  let maxDepth ← Toml.field? fields "max_depth" standard.maxDepth (Toml.toNatBelow? UInt32.size)
  let fieldVariance ← Toml.field? fields "field_variance" standard.fieldVariance
    (Toml.nameOf? FieldVariance.names)
  let requireExhaustiveSwitch ← Toml.field? fields "require_exhaustive_switch"
    standard.requireExhaustiveSwitch Toml.toBool?
  let jobs ← Toml.field? fields "jobs" standard.jobs (Toml.toNatBelow? UInt64.size)
  let templateLimit ← Toml.field? fields "template_literal_limit" standard.templateLimit
    (Toml.toNatBelow? UInt64.size)
  return { maxDepth, fieldVariance, requireExhaustiveSwitch, jobs, templateLimit }

/-- The settings in a text, if they make sense. -/
def ofToml (text : String) : Except SettingsError Settings :=
  match (Toml.parse? text).bind ofFields? with
  | none => .error .malformed
  | some s =>
    if s.maxDepth = 0 then .error (.tooSmall "max_depth")
    else if s.jobs = 0 then .error (.tooSmall "jobs")
    else .ok s

end Settings

end GradualTyping
