/-
# Diagnostics as JSON

Notes are left out when there are none.
-/

import GradualTyping.Diagnostic.Basic
import GradualTyping.Json.Printer
import GradualTyping.Program.Decode

namespace GradualTyping

namespace Diagnostic

def toJson (d : Diagnostic) : Json :=
  .object <|
    [("kind", .string (nameIn DiagnosticKind.names d.kind)), ("code", .string d.code),
      ("message", .string d.message), ("span", d.span.toJson), ("label", .string d.label)]
    ++ if d.notes.isEmpty then [] else [("notes", .array (d.notes.map .string))]

def ofJson? (j : Json) : Option Diagnostic := do
  let kind ← j.required? "kind" (Json.nameOf? DiagnosticKind.names)
  let code ← j.required? "code" Json.toString?
  let message ← j.required? "message" Json.toString?
  let span ← j.required? "span" Span.ofJson?
  let label ← j.required? "label" Json.toString?
  let notes ← listField? j "notes" Json.toString?
  return { kind, code, message, span, label, notes }

/-- The text of a list of diagnostics for other tools. -/
def listText (ds : List Diagnostic) : String := (Json.array (ds.map toJson)).pretty

end Diagnostic

end GradualTyping
