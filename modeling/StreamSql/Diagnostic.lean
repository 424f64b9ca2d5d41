import StreamSql.Text

/-!
# Diagnostics

What a user is told about a failure: a code, a message, and optionally the statement at fault, a
label, a help text, notes, and the chain of failures that led to it. Each area of the library has
its own type of errors, and `Reportable` gives an error its diagnostic.
-/

namespace StreamSql

/-- One failure of a chain. -/
structure Report where
  code : String
  message : String
  statement : Option String := none
  label : Option String := none
  help : Option String := none
  notes : List String := []
  deriving DecidableEq

/-- A failure and the failures behind it, the nearest cause first. -/
structure Diagnostic extends Report where
  causes : List Report := []
  deriving DecidableEq

/-- Errors that a diagnostic describes. -/
class Reportable (ε : Type) where
  diagnostic : ε → Diagnostic

export Reportable (diagnostic)

/-- Replaces an error by its diagnostic. -/
def reported {ε α : Type} [Reportable ε] : Except ε α → Except Diagnostic α
  | .ok a => .ok a
  | .error e => .error (diagnostic e)

namespace Diagnostic

instance : Inhabited Diagnostic := ⟨{ code := "", message := "" }⟩

/-- `cause` and its own chain become the chain behind `d`. -/
def withCause (d cause : Diagnostic) : Diagnostic :=
  { d with causes := cause.toReport :: cause.causes }

/-- Whether the failure has been annotated with its statement. -/
def isStatementError (d : Diagnostic) : Bool := d.statement.isSome

/-- The message of a failure that reaches its statement without one. -/
def serverError : String := "Server Error"

/--
Annotates the failure with its statement, once: a failure that carries a statement keeps it. A
blank message is replaced on the way. -/
def withStatement (d : Diagnostic) (statement : String) : Diagnostic :=
  if d.isStatementError then d
  else
    { d with
      statement := some statement
      message := if Text.isBlankText d.message then serverError else d.message }

/-! ## Internal failures -/

/-- A place in the program's text. -/
structure Location where
  file : String := "unknown"
  line : Nat := 0
  column : Nat := 0
  function : String := "unknown"
  module : String := "unknown"

/-- A broken invariant, noticed at `location`. -/
def internalAt (reason : String) (location : Location) : Diagnostic where
  code := "INTERNAL_ERROR"
  message := reason
  label := some
    s!"Internal invariant violated at {location.file}:{location.line}:{location.column}"
  help := some "This is an internal error that should never occur in normal operation."
  notes := [s!"Function: {location.function}", s!"Module: {location.module}"]

def internal (reason : String) : Diagnostic := internalAt reason {}

end Diagnostic

/-! ## Rendering -/

/-- The lines on one failure, indented by `depth` double blanks. -/
def Report.lines (depth : Nat) (r : Report) : List String :=
  let line (text : String) := Text.times depth "  " ++ text
  [line s!"Error {r.code}: {r.message}"] ++
    (r.statement.map fun s => line s!"  statement: {Text.trim s}").toList ++
    (r.label.map fun s => line s!"  label: {s}").toList ++
    (r.help.map fun s => line s!"  help: {s}").toList ++
    r.notes.map fun s => line s!"  note: {s}"

/-- The lines on a failure and the chain behind it, each cause two steps further in. -/
def Report.chainLines (depth : Nat) (r : Report) : List Report → List String
  | [] => r.lines depth
  | cause :: causes =>
    r.lines depth ++ (Text.times depth "  " ++ "  caused by:") ::
      cause.chainLines (depth + 2) causes

def Diagnostic.text (d : Diagnostic) : String :=
  String.join ((d.toReport.chainLines 0 d.causes).map (· ++ "\n"))

end StreamSql
