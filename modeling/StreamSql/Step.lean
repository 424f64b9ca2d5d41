import StreamSql.Plan.Logical

/-!
# Execution steps

The plan of one running query: a tree of steps, each with an id and the schema of the rows that it
emits. Lowering makes them from a logical plan: one for every node of it, and one more for the sink
if there is one.
-/

namespace StreamSql

structure StepHeading where
  /-- The id of the step within its query. -/
  id : String
  schema : Schema
  deriving DecidableEq

inductive Step where
  | source (heading : StepHeading) (kind : SourceKind) (source : SourceName)
      (aliasName topic : String) (keyFormat valueFormat : Format)
  | filter (heading : StepHeading) (input : Step) (predicate : Expression)
  | select (heading : StepHeading) (input : Step) (expressions : List Projection)
  | aggregate (heading : StepHeading) (input : Step) (groupBy : List ColumnReference)
      (aggregates : List AggregateCall)
  | join (heading : StepHeading) (kind : JoinKind) (output : SourceKind) (left right : Step)
      (leftKey rightKey : ColumnReference)
  | sink (heading : StepHeading) (input : Step) (kind : SourceKind) (sink : SourceName)
      (topic : String) (keyFormat valueFormat : Format)

namespace Step

def heading : Step → StepHeading
  | source h .. | filter h .. | select h .. | aggregate h .. | join h .. | sink h .. => h

def schema (step : Step) : Schema := step.heading.schema

/-- What the step is called in a summary. -/
def label : Step → String
  | source .. => "SOURCE"
  | filter .. => "FILTER"
  | select .. => "PROJECT"
  | aggregate .. => "AGGREGATE"
  | join .. => "JOIN"
  | sink .. => "SINK"

/-- The steps whose rows the step takes in. -/
def inputs : Step → List Step
  | source .. => []
  | filter _ input _ | select _ input _ | aggregate _ input _ _ | sink _ input .. => [input]
  | join _ _ _ left right _ _ => [left, right]

/-- A function of each step and its depth, over all steps from the root down and left to right. -/
def traverse {α : Type} (visit : Nat → Step → α) (depth : Nat) : Step → List α
  | source heading kind name aliasName topic keyFormat valueFormat =>
    [visit depth (.source heading kind name aliasName topic keyFormat valueFormat)]
  | filter heading input predicate =>
    visit depth (.filter heading input predicate) :: input.traverse visit (depth + 1)
  | select heading input expressions =>
    visit depth (.select heading input expressions) :: input.traverse visit (depth + 1)
  | aggregate heading input groupBy aggregates =>
    visit depth (.aggregate heading input groupBy aggregates) :: input.traverse visit (depth + 1)
  | join heading kind output left right leftKey rightKey =>
    visit depth (.join heading kind output left right leftKey rightKey) ::
      (left.traverse visit (depth + 1) ++ right.traverse visit (depth + 1))
  | sink heading input kind name topic keyFormat valueFormat =>
    visit depth (.sink heading input kind name topic keyFormat valueFormat) ::
      input.traverse visit (depth + 1)

/-- All steps, each ahead of its inputs. -/
def steps (step : Step) : List Step := step.traverse (fun _ s => s) 0

/-! ## Summaries -/

/-- The line of a summary on one step. -/
def summaryLine (query : QueryId) (depth : Nat) (step : Step) : String :=
  Text.times depth "\t\t" ++ s!" > [ {step.label} ] | Schema: {step.schema.text} | " ++
    s!"Logger: {query.text}.{step.heading.id}\n"

/-- The plan of a query as an indented tree, one line a step. -/
def summary (query : QueryId) (step : Step) : String :=
  String.join (step.traverse (summaryLine query) 0)

end Step

/-! ## Lowering -/

/-- The steps of a node, with the number of joins made before it and after it. -/
def PlanNode.lower (joins : Nat) : PlanNode → Step × Nat
  | .source s aliasName =>
    (.source ⟨s!"Source/{aliasName}", s.schema⟩ s.kind s.name aliasName s.topic s.keyFormat
      s.valueFormat, joins)
  | .filter input predicate =>
    let (step, joins) := input.lower joins
    (.filter ⟨"WhereFilter", input.schema⟩ step predicate, joins)
  | .project input projections schema =>
    let (step, joins) := input.lower joins
    (.select ⟨"Project", schema⟩ step projections, joins)
  | .aggregate input groupBy calls schema =>
    let (step, joins) := input.lower joins
    (.aggregate ⟨"Aggregate", schema⟩ step groupBy calls, joins)
  | .join kind left right leftKey rightKey schema output =>
    let (leftStep, joins) := left.lower joins
    let (rightStep, joins) := right.lower joins
    (.join ⟨s!"Join/{joins}", schema⟩ kind output leftStep rightStep leftKey rightKey, joins + 1)

/-- The steps of a plan. -/
def LogicalPlan.lower (plan : LogicalPlan) : Step :=
  let (root, _) := plan.root.lower 0
  match plan.output with
  | .returned _ => root
  | .stored d =>
    .sink ⟨d.into.text, plan.schema⟩ root plan.kind d.into d.topic d.keyFormat d.valueFormat

end StreamSql
