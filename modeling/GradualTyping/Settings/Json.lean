/-
# Settings as JSON
-/

import GradualTyping.Json.Decode
import GradualTyping.Settings

namespace GradualTyping

def FieldVariance.names : List (String × FieldVariance) :=
  [("invariant", .invariant), ("covariant", .covariant)]

namespace Settings

/-- The names of the fields, in the order of their values in an array. -/
def fieldNames : List String :=
  ["max_depth", "field_variance", "require_exhaustive_switch", "jobs", "template_literal_limit"]

/-- The named fields of an object, or of an array of at most as many values. -/
def named? : Json → Option Json
  | .object fields => some (.object fields)
  | .array items =>
    if items.length ≤ fieldNames.length then some (.object (fieldNames.zip items)) else none
  | _ => none

/-- The settings in an object or an array; every field may be missing. -/
def ofJson? (j : Json) : Option Settings := do
  let j ← named? j
  let standard : Settings := {}
  let maxDepth ← j.defaulted? "max_depth" standard.maxDepth Json.toUInt32?
  let fieldVariance ← j.defaulted? "field_variance" standard.fieldVariance
    (Json.nameOf? FieldVariance.names)
  let requireExhaustiveSwitch ←
    j.defaulted? "require_exhaustive_switch" standard.requireExhaustiveSwitch Json.toBool?
  let jobs ← j.defaulted? "jobs" standard.jobs Json.toUInt64?
  let templateLimit ← j.defaulted? "template_literal_limit" standard.templateLimit Json.toUInt64?
  return { maxDepth, fieldVariance, requireExhaustiveSwitch, jobs, templateLimit }

end Settings

end GradualTyping
