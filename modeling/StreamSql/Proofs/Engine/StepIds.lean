import StreamSql.Engine.Push
import StreamSql.Proofs.Engine.CreateAsSelect
import StreamSql.Proofs.Step.Ids

/-!
# Names of steps within a query

The summary of a query names its steps by their ids. The ids below the sink are all different, so
the steps of a push query are told apart. The sink goes by the name that the statement gives it, and
is told apart from the others exactly if this is none of the ids below it
(`Engine.step_ids_distinct_iff`).
-/

namespace StreamSql

namespace Engine

variable {engine : Engine} {config : Settings} {text token : String} {query : QueryPlan}

theorem planned_step {write : WriteStatement} {plan : Plan}
    (h : (engine.plan config (.write write) text).1 = .ok plan) (hquery : plan.query = some query) :
    ∃ logical, write.query.plan (some write.sink) engine.catalog config = .ok logical ∧
      query.step = logical.lower := by
  simp only [Engine.plan] at h
  obtain ⟨logical, id, hdraft, -, h⟩ := planWrite_completes (annotated_eq_ok_iff.1 h) hquery
  obtain ⟨_, _, -, -, -, rfl⟩ := complete_eq h
  cases hquery
  exact ⟨logical, (draft_ok hdraft).1, rfl⟩

theorem planPush_step {select : Query} {limit : Option Nat}
    (h : engine.planPush config select token = .ok (query, limit)) :
    ∃ logical, select.plan none engine.catalog config = .ok logical ∧
      query.step = logical.lower := by
  rw [planPush] at h
  obtain ⟨-, h⟩ := guarded_eq_ok_iff.1 h
  obtain ⟨logical, hlogical, h⟩ := bind_eq_ok_iff.1 h
  split at h
  · cases h
  · cases h
    exact ⟨logical, reported_eq_ok_iff.1 hlogical, rfl⟩

/--
**Only a sink may be named like another step.** The steps of a planned query are those of its
clauses, joins and sources, all with different ids, and the sink, whose id is its name. So the ids,
and the loggers of the summary with them, are distinct exactly if the name of the sink is none of
the other ids. Those of a push query are always distinct. A summary has one line for each step,
which ends in the logger of the step. -/
theorem step_ids_distinct_iff (engine : Engine) (config : Settings) :
    (∀ write text plan query, (engine.plan config (.write write) text).1 = .ok plan →
      plan.query = some query →
      query.step.ids.Perm (write.sink.name.text :: write.query.stepIds) ∧
      (query.step.ids.Nodup ↔ write.sink.name.text ∉ write.query.stepIds) ∧
      ((query.step.loggers query.id).Nodup ↔ write.sink.name.text ∉ write.query.stepIds)) ∧
    (∀ select token query limit, engine.planPush config select token = .ok (query, limit) →
      query.step.ids.Perm select.stepIds ∧ query.step.ids.Nodup ∧
      (query.step.loggers query.id).Nodup) ∧
    ∀ (id : QueryId) (step : Step), ∃ lines, step.summary id = String.join lines ∧
      List.Forall₂ (fun line logger => ∃ front, line = front ++ s!"Logger: {logger}\n") lines
        (step.loggers id) := by
  refine ⟨fun write text plan query hplan hquery => ?_, fun select token query limit h => ?_,
    Step.summary_lines⟩
  · obtain ⟨logical, hlogical, hstep⟩ := planned_step hplan hquery
    have hids : query.step.ids.Perm (write.sink.name.text :: write.query.stepIds) :=
      hstep ▸ Query.lower_ids hlogical
    have hiff : query.step.ids.Nodup ↔ write.sink.name.text ∉ write.query.stepIds := by
      rw [hids.nodup_iff, List.nodup_cons]
      exact and_iff_left (Query.nodup_stepIds hlogical)
    exact ⟨hids, hiff, (Step.nodup_loggers_iff _ _).trans hiff⟩
  · obtain ⟨logical, hlogical, hstep⟩ := planPush_step h
    have hids : query.step.ids.Perm select.stepIds := hstep ▸ Query.lower_ids hlogical
    have hnodup : query.step.ids.Nodup := hids.nodup_iff.2 (Query.nodup_stepIds hlogical)
    exact ⟨hids, hnodup, (Step.nodup_loggers_iff _ _).2 hnodup⟩

end Engine

namespace Sample

/-- `SELECT U.REGION, COUNT(*) FROM USERS AS U JOIN USERS AS V ON U.ID = V.ID WHERE U.NAME = 'alice'
GROUP BY U.REGION`. -/
def namesakes : Query where
  select := [.expression (.column ⟨some "U", "REGION"⟩) none,
    .expression (.aggregateRows .count) (some "TOTAL")]
  relation := twiceUsers
  filter := some (.equal (.column ⟨some "U", "NAME"⟩) (.literal (.utf8 "alice")))
  groupBy := [.column ⟨some "U", "REGION"⟩]
  limit := none
  isPull := false

end Sample

namespace Engine

/-- A query with all forms of steps, put into a table and pushed. -/
theorem namesakes_step_ids :
    ∃ plan query pushed limit,
      (Sample.populated.plan {} (.write (.createAsSelect (.plain "TOTALS" .table Sample.namesakes)))
        "CREATE TABLE TOTALS AS ...;").1 = .ok plan ∧ plan.query = some query ∧
      query.step.ids.Nodup ∧
      Sample.populated.planPush {} Sample.namesakes "1" = .ok (pushed, limit) ∧
      (pushed.step.loggers pushed.id).Nodup ∧
      pushed.step.ids =
        ["Project", "Aggregate", "WhereFilter", "Join/0", "Source/U", "Source/V"] := by
  obtain ⟨hstored, hpushed, -⟩ := step_ids_distinct_iff Sample.populated {}
  obtain ⟨-, hiff, -⟩ := hstored (.createAsSelect (.plain "TOTALS" .table Sample.namesakes))
    "CREATE TABLE TOTALS AS ...;" _ _ rfl rfl
  obtain ⟨-, -, hloggers⟩ := hpushed Sample.namesakes "1" _ _ rfl
  exact ⟨_, _, _, _, rfl, rfl, hiff.2 (by decide), rfl, hloggers, rfl⟩

/-- A table with the name `Project` has its sink and its projection go by one id. -/
theorem project_sink_repeats :
    ∃ plan query,
      (Sample.populated.plan {} (.selectAllInto "Project" .table "USERS")
        "CREATE TABLE `Project` AS ...;").1 = .ok plan ∧ plan.query = some query ∧
      query.step.ids = ["Project", "Project", "Source/USERS"] ∧
      ¬(query.step.loggers query.id).Nodup := by
  refine ⟨_, _, rfl, rfl, rfl, ?_⟩
  rw [Step.nodup_loggers_iff]
  exact fun h => (List.nodup_cons.1 h).1 List.mem_cons_self

end Engine

end StreamSql
