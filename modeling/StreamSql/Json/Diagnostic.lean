import StreamSql.Diagnostic
import StreamSql.Json

/-!
# JSON forms of diagnostics

A diagnostic holds its cause as a diagnostic inside it, and so on along the chain.
-/

namespace StreamSql

namespace Report

/-- The members that every failure of a chain has. -/
def members (r : Report) : List (String × Json) :=
  [("code", toJson r.code), ("statement", toJson r.statement), ("message", toJson r.message),
    ("label", toJson r.label), ("help", toJson r.help), ("notes", toJson r.notes)]

def ofMembers (j : Json) : Except DecodeError Report := return {
  code := ← j.fieldAt 0 "code"
  statement := ← j.fieldAt 1 "statement"
  message := ← j.fieldAt 2 "message"
  label := ← j.fieldAt 3 "label"
  help := ← j.fieldAt 4 "help"
  notes := ← j.fieldAt 5 "notes" }

/-- A failure with the chain of failures behind it. -/
def chainToJson (r : Report) : List Report → Json
  | [] => .object (r.members ++ [("cause", .null)])
  | cause :: causes => .object (r.members ++ [("cause", cause.chainToJson causes)])

/-- Reads a failure and the chain behind it. -/
def chainOfJson (j : Json) : Except DecodeError (Report × List Report) := do
  let report ← ofMembers j
  let causes ← j.fieldAtWith 6 "cause" (some []) none fun m _ =>
    match m with
    | .null => return []
    | m => do
      let (cause, causes) ← chainOfJson m
      return cause :: causes
  return (report, causes)
termination_by sizeOf j

end Report

instance : JsonForm Diagnostic where
  toJson d := d.toReport.chainToJson d.causes
  ofJson j := do
    let (report, causes) ← Report.chainOfJson j
    return { toReport := report, causes }

end StreamSql
