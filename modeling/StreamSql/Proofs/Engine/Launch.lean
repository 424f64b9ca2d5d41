import StreamSql.Sample
import StreamSql.Proofs.Engine.Run

/-!
# Failed launches

A plan with a query is refused by the checks of the catalog or by an interceptor, its query cannot
be started, or its id is taken: in each case the engine is what it was. The plan may be older than
the engine it is executed on.
-/

namespace StreamSql.Engine

/-- **Failed launches are atomic.** If the execution of a plan with a query ends in an error, then
the entries and links of the catalog, the registered queries and all else in the engine are what
they were, whatever has happened since the plan was made. -/
theorem failed_launch_restores (config : Settings) (home : Endpoint) (placement : Option Placement)
    (earlier later : List Event) {planning executing : Settings} {statement : Statement}
    {text : String} {plan : Plan} {d : Diagnostic}
    (hplan : (((Engine.new config home placement).after earlier).plan planning statement text).1 =
      .ok plan)
    (hquery : plan.query.isSome = true)
    (herror : (((Engine.new config home placement).after (earlier ++ later)).execute
      executing plan).1 = .error d) :
    (((Engine.new config home placement).after (earlier ++ later)).execute executing plan).2 =
      (Engine.new config home placement).after (earlier ++ later) := by
  refine execute_error (pruned_after config home placement _) (fun command hcommand => ?_) herror
  obtain ⟨c, rfl⟩ := creates_of_plan hplan hquery command hcommand
  exact Catalog.not_removesStranded_create c

/-- The backend fails when the view is to be launched. -/
theorem failed_view_restores :
    let config : Settings := {}
    let home : Endpoint := ⟨"localhost", 8088⟩
    let earlier : List Event := [.execute config (.ofCommand "CREATE TABLE USERS ...;" (.create {
      name := ⟨"USERS"⟩
      kind := .table
      schema := (Schema.empty.add "ID" .int8 true).add "NAME" .utf8 false
      keyFormat := .kafka
      valueFormat := .json
      topic := "users"
      orReplace := false
      ifNotExists := false
      isQuerySink := false }))]
    let later : List Event := [.setBackend .failing]
    ∃ plan d,
      (((Engine.new config home none).after earlier).plan config Sample.createView
          "CREATE TABLE USERS_VIEW AS ...;").1 = .ok plan ∧
        plan.query.isSome = true ∧
        (((Engine.new config home none).after (earlier ++ later)).execute config plan).1 =
          .error d ∧
        (((Engine.new config home none).after (earlier ++ later)).execute config plan).2 =
          (Engine.new config home none).after (earlier ++ later) := by
  intro config home earlier later
  have hplan : (((Engine.new config home none).after earlier).plan config Sample.createView
      "CREATE TABLE USERS_VIEW AS ...;").1 = .ok _ := rfl
  refine ⟨_, _, hplan, rfl, rfl, ?_⟩
  exact failed_launch_restores config home none earlier later hplan rfl rfl

end StreamSql.Engine
