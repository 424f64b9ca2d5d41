import StreamSql.Engine.Pull
import StreamSql.Proofs.Routing.Dispatches

/-!
# What pull queries are counted as

A pull query counts as one error if it fails, be it on the way to a plan or in the routing, and has
a latency recorded if it succeeds; the requests counted are the calls that it has made
(`calls_accounted_for`).
-/

namespace StreamSql.Engine

open Router (logged)

variable {σ : Type}

/-- Answers a pull query as `Engine.pull` does, but for the way its bound plan is answered. -/
def pullThrough (engine : Engine) (config : Settings) (query : Query) (text token : String)
    (answer : PullPlan → List PartitionLocation →
      StateM (RoutingState σ) (Except RouteError RoutedRows)) :
    StateM (RoutingState σ) (Except Diagnostic PullResult) := fun s =>
  match engine.planPull config query token with
  | .error d => (.error (d.withStatement text), { s with counters := s.counters.countError })
  | .ok (plan, locations) =>
    match answer plan locations s with
    | (.ok routed, s) => (.ok ⟨plan.id, plan.schema, routed.rows, routed.decision⟩, s)
    | (.error e, s) =>
      (.error ((diagnostic e).withStatement text), { s with counters := s.counters.countError })

theorem pull_eq_pullThrough (engine : Engine) (config : Settings) (query : Query)
    (text token : String) (filters : List ReplicaFilter) (options : RoutingOptions)
    (transport : Transport σ) :
    engine.pull config query text token filters options transport =
      engine.pullThrough config query text token fun plan locations =>
        (engine.router plan text filters options transport).pull locations :=
  rfl

/-- The routing of a bound pull query whose partitions are answered on this node in a way of their
own: rows may be written while the query is answered. -/
def routerBy (engine : Engine) (execute : PullPlan → PartitionId →
      StateM σ (Except Diagnostic (List Row)))
    (text : String) (filters : List ReplicaFilter) (options : RoutingOptions)
    (transport : Transport σ) (plan : PullPlan) : Router σ :=
  { engine.router plan text filters options transport with execute := execute plan }

theorem pullThrough_accounted (engine : Engine) (config : Settings) (query : Query)
    (text token : String)
    {answer : PullPlan → List PartitionLocation →
      StateM (RoutingState σ) (Except RouteError RoutedRows)}
    {watched : PullPlan → List PartitionLocation →
      StateM (RoutingState (σ × List Dispatch)) (Except RouteError RoutedRows)}
    {s : RoutingState σ}
    (h : ∀ plan locations, ∃ calls, watched plan locations (logged s []) =
        ((answer plan locations s).1, logged (answer plan locations s).2 calls) ∧
      Accounted 0 RoutedRows.decision s.counters calls (answer plan locations s).1
        (answer plan locations s).2.counters) :
    let pulled := engine.pullThrough config query text token answer s
    ∃ calls, engine.pullThrough config query text token watched (logged s []) =
        (pulled.1, logged pulled.2 calls) ∧
      Accounted 1 PullResult.decision s.counters calls pulled.1 pulled.2.counters := by
  unfold pullThrough
  cases hplan : engine.planPull config query token with
  | error d =>
    -- no call is made for a query without a plan
    exact ⟨[], rfl, (s.counters.raised_countAll []).countError, nofun, nofun⟩
  | ok planned =>
    obtain ⟨plan, locations⟩ := planned
    obtain ⟨calls, hwatched, haccounted⟩ := h plan locations
    refine ⟨calls, ?_⟩
    simp only [hwatched]
    rcases hanswer : answer plan locations s with ⟨e | routed, s'⟩
    · rw [hanswer] at haccounted
      exact ⟨rfl, haccounted.raised.countError, nofun, nofun⟩
    · rw [hanswer] at haccounted
      refine ⟨rfl, haccounted.raised, ?_, ?_⟩
      · rintro _ ⟨⟩
        exact haccounted.home_attempts routed rfl
      · rintro _ ⟨⟩
        exact haccounted.node_attempts routed rfl

/-- **The counters account for every pull query.** Watched or not, a query goes the same way. The
errors grow by one if it fails and the latencies by one if it succeeds, the local requests grow by
the calls to this node and the remote requests by the calls to others, all of them as words of 64
bits; and if it succeeds, these calls are the attempts in the decision. It is so for `Engine.pull`,
and also where the partitions are answered on this node in any other way and routed in any turns. -/
theorem calls_accounted_for (engine : Engine) (config : Settings) (query : Query)
    (text token : String) (filters : List ReplicaFilter) (options : RoutingOptions)
    (transport : Transport σ) (s : RoutingState σ) :
    (let pulled := engine.pull config query text token filters options transport s
      ∃ calls,
        engine.pullThrough config query text token
            (fun plan locations =>
              (engine.router plan text filters options transport).watched.pull locations)
            (logged s []) = (pulled.1, logged pulled.2 calls) ∧
          Accounted 1 PullResult.decision s.counters calls pulled.1 pulled.2.counters) ∧
      ∀ execute schedule,
        let router := engine.routerBy execute text filters options transport
        let pulled := engine.pullThrough config query text token
          (fun plan locations => (router plan).pullSideBySide schedule locations) s
        ∃ calls,
          engine.pullThrough config query text token
              (fun plan locations => (router plan).watched.pullSideBySide schedule locations)
              (logged s []) = (pulled.1, logged pulled.2 calls) ∧
            Accounted 1 PullResult.decision s.counters calls pulled.1 pulled.2.counters := by
  constructor
  · rw [pull_eq_pullThrough]
    exact engine.pullThrough_accounted config query text token fun plan locations =>
      (engine.router plan text filters options transport).pull_accounted locations s
  · intro execute schedule router
    exact engine.pullThrough_accounted config query text token fun plan locations =>
      (router plan).pullSideBySide_accounted schedule locations s

end StreamSql.Engine
