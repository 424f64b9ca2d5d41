import StreamSql.Engine.Execution
import StreamSql.Routing.Router

/-!
# Samples to run

Plain statements without properties, and with them a table of users with a materialized view on it.

A transport to nodes that answer by a fixed script, with a log of the requests made to them and a
clock that stands still between requests. Every request takes some time, however little.
-/

namespace StreamSql

/-! ## Statements -/

/-- `CREATE STREAM|TABLE name (...)`. -/
def Statement.createSource (name : String) (kind : SourceKind) (elements : List ColumnDeclaration) :
    Statement :=
  .define (.create { name := ⟨name⟩, kind, elements })

/-- `CREATE STREAM|TABLE name AS query`. -/
def CreateAsSelect.plain (name : String) (kind : SourceKind) (query : Query) : CreateAsSelect :=
  { name := ⟨name⟩, kind, query }

/-- `CREATE STREAM|TABLE name AS SELECT * FROM source`. -/
def Statement.selectAllInto (name : String) (kind : SourceKind) (source : String) : Statement :=
  .write (.createAsSelect (.plain name kind (.selectAll (.source ⟨source⟩ none))))

/-- `INSERT INTO target query`. -/
def Statement.insertInto (target : String) (query : Query) : Statement :=
  .write (.insertInto { target := ⟨target⟩, query })

namespace Sample

/-- The columns of the table of users. -/
def userElements : List ColumnDeclaration :=
  [⟨"ID", .int8, true⟩, ⟨"NAME", .utf8, false⟩, ⟨"REGION", .utf8, false⟩]

def createUsers : Statement := .createSource "USERS" .table userElements

def createView : Statement := .selectAllInto "USERS_VIEW" .table "USERS"

/-- The name of the view. -/
def view : SourceName := ⟨"USERS_VIEW"⟩

/-- Creates the table of users and the view. -/
def seed (engine : Engine) : Engine :=
  let (_, engine) := engine.run engine.config createUsers "CREATE TABLE USERS ...;"
  let (_, engine) := engine.run engine.config createView "CREATE TABLE USERS_VIEW AS ...;"
  engine

end Sample

/-! ## Scripted nodes -/

/-- How a node answers every request. -/
inductive NodeScript where
  | answer (rows : List Row)
  /-- Answers after a while, if the request waits that long. -/
  | delayed (rows : List Row) (delay : Duration)
  /-- Answers only when the request has waited in vain, by so much. -/
  | late (rows : List Row) (excess : Duration)
  | fail (reason : String)
  | timeout
  | error (diagnostic : Diagnostic)

/-- The requests made so far, the last one first, and the time that they took. -/
structure ScriptLog where
  requests : List (Endpoint × NodeRequest) := []
  elapsed : Duration := ⟨0⟩

namespace NodeScript

/-- What a node answers, and how long the request takes beyond the least time. -/
def run (script : Option NodeScript) (endpoint : Endpoint) (request : NodeRequest) :
    Except Diagnostic (List Row) × Duration :=
  let failed (e : RouteError) : Except Diagnostic (List Row) := .error (diagnostic e)
  match script with
  | none => (failed (.connection endpoint "connection refused"), ⟨0⟩)
  | some (answer rows) => (.ok rows, ⟨0⟩)
  | some (delayed rows delay) =>
    if request.timeout.nanoseconds < delay.nanoseconds then
      (failed (.timeout endpoint request.timeout), request.timeout)
    else (.ok rows, delay)
  | some (late rows excess) => (.ok rows, ⟨request.timeout.nanoseconds + excess.nanoseconds⟩)
  | some (fail reason) => (failed (.rejected endpoint reason), ⟨0⟩)
  | some timeout => (failed (.timeout endpoint request.timeout), ⟨0⟩)
  | some (error d) => (.error d, ⟨0⟩)

end NodeScript

/-- The last script of an endpoint counts; a node without one refuses the connection. -/
def Transport.scripted (scripts : List (Endpoint × NodeScript)) : Transport ScriptLog where
  forward endpoint request := fun log =>
    let (result, wait) := NodeScript.run (scripts.reverse.lookup endpoint) endpoint request
    (result, ⟨(endpoint, request) :: log.requests,
      ⟨log.elapsed.nanoseconds + wait.nanoseconds + 1⟩⟩)
  now log := log.elapsed

/-- A node without a way to others: no request arrives. -/
def Transport.none : Transport ScriptLog where
  forward endpoint _ := fun log =>
    (.error (diagnostic (RouteError.connection endpoint "no transport configured")),
      { log with elapsed := ⟨log.elapsed.nanoseconds + 1⟩ })
  now log := log.elapsed

end StreamSql
