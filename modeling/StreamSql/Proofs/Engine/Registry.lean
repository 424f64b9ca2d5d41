import StreamSql.Engine.Registry
import StreamSql.Proofs.Sorted

/-!
# What a registration does

A query that is registered takes the place of the one with its id, if there is one and the plan may
replace it, and leaves all others alone (`register_ok`).
-/

namespace StreamSql.Registry

variable {r next : Registry} {plan : QueryPlan} {statement : String}
  {materialization : Option Materialization} {query : RunningQuery}

theorem mem_queries_iff : query ∈ r.queries ↔ ∃ id, r.get? id = some query := by
  simp only [queries, SortedMap.values, List.mem_map, Prod.exists, exists_eq_right,
    SortedMap.mem_entries_iff]
  rfl

theorem mem_writers_iff {sink : SourceName} :
    query ∈ r.writers sink ↔ (∃ id, r.get? id = some query) ∧ query.sink = some sink := by
  rw [writers, List.mem_filter, mem_queries_iff, beq_iff_eq]

/-- How a registration has changed the registry. -/
structure Registered (r : Registry) (plan : QueryPlan) (query : RunningQuery) (next : Registry) :
    Prop where
  plan_eq : query.plan = plan
  launch_eq : query.launch = r.launches
  launches : next.launches = r.launches + 1
  get? : ∀ id, next.get? id = if id = plan.id then some query else r.get? id
  /-- Who is replaced is put among those that have left. -/
  retired : next.retired = ((r.get? plan.id).map (·.terminate)).toList ++ r.retired
  replaces : (r.get? plan.id).isSome = true → plan.orReplace = true

theorem get?_retire (r : Registry) (id other : QueryId) :
    (r.retire id).get? other = if other = id then none else r.get? other := by
  unfold retire
  split
  next old hold => exact SortedMap.lookup_erase _ _ _
  next hnone =>
    split
    next heq => rw [heq, hnone]
    next => rfl

theorem retired_retire (r : Registry) (id : QueryId) :
    (r.retire id).retired = ((r.get? id).map (·.terminate)).toList ++ r.retired := by
  unfold retire
  split
  next old hold => rw [hold]; rfl
  next hnone => rw [hnone]; rfl

theorem register_ok (h : r.register plan statement materialization = .ok (query, next)) :
    Registered r plan query next := by
  unfold register at h
  split at h
  · cases h
  next hfree =>
    cases h
    refine ⟨rfl, rfl, rfl, fun id => ?_, r.retired_retire plan.id, fun hsome => ?_⟩
    · refine (SortedMap.lookup_insert _ _ _ _).trans ?_
      split
      · rfl
      next hne => exact (r.get?_retire plan.id id).trans (if_neg hne)
    · change ¬((r.get? plan.id).isSome && !plan.orReplace) = true at hfree
      simpa [hsome] using hfree

theorem register_query (h : r.register plan statement materialization = .ok (query, next)) :
    query = ⟨r.launches, plan, statement, .running, materialization⟩ := by
  unfold register at h
  split at h <;> cases h
  rfl

end StreamSql.Registry
