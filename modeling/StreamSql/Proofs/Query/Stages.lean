import StreamSql.Plan.OfAnalysis
import StreamSql.Proofs.Results

/-!
# The stages of planning

A query is analysed and then planned in stages: its sources are joined, and the rows filtered,
aggregated, projected and written. The plan of a query is made exactly if all stages and the checks
of pull queries succeed (`Analysis.plan_eq_ok_iff`).
-/

namespace StreamSql.Analysis

variable {a : Analysis} {catalog : Catalog} {config : Settings} {query : Query} {into : Option Sink}
  {logical : LogicalPlan}

theorem ofQuery_ok (h : Analysis.ofQuery catalog query into = .ok a) :
    ∃ clause, FromClause.addRelation catalog {} query.relation = .ok clause ∧ a = {
      clause with
      select := query.select
      filter := query.filter
      groupBy := query.groupBy
      limit := query.limit
      isPull := query.isPull
      into } := by
  obtain ⟨clause, hclause, h⟩ := bind_eq_ok_iff.1 h
  obtain ⟨_, -, h⟩ := bind_eq_ok_iff.1 h
  obtain ⟨_, -, h⟩ := bind_eq_ok_iff.1 h
  obtain ⟨_, -, h⟩ := bind_eq_ok_iff.1 h
  exact ⟨clause, hclause, (Except.ok.inj h).symm⟩

theorem ofQuery_select (h : Analysis.ofQuery catalog query into = .ok a) :
    a.select = query.select := by
  obtain ⟨clause, -, rfl⟩ := ofQuery_ok h
  rfl

theorem ofQuery_filter (h : Analysis.ofQuery catalog query into = .ok a) :
    a.filter = query.filter := by
  obtain ⟨clause, -, rfl⟩ := ofQuery_ok h
  rfl

theorem ofQuery_groupBy (h : Analysis.ofQuery catalog query into = .ok a) :
    a.groupBy = query.groupBy := by
  obtain ⟨clause, -, rfl⟩ := ofQuery_ok h
  rfl

theorem ofQuery_isPull (h : Analysis.ofQuery catalog query into = .ok a) :
    a.isPull = query.isPull := by
  obtain ⟨clause, -, rfl⟩ := ofQuery_ok h
  rfl

theorem ofQuery_into (h : Analysis.ofQuery catalog query into = .ok a) : a.into = into := by
  obtain ⟨clause, -, rfl⟩ := ofQuery_ok h
  rfl

/-- The stages of planning, and the plan that comes of them. -/
inductive Staged (a : Analysis) (catalog : Catalog) (config : Settings) : LogicalPlan → Prop
  | mk {first : QuerySource} {rest : List QuerySource} {joined filtered aggregated : ScopedPlan}
      {select : List SelectItem} {projected : ScopedPlan} {output : Output}
      (hpull : a.isPull = true → a.checkPull = .ok ())
      (hsources : a.sources = first :: rest)
      (hjoined : (ScopedPlan.ofSource first).joinAll a.sources a.joins = .ok joined)
      (hfiltered : addFilter joined a.filter = .ok filtered)
      (haggregated : a.addAggregation filtered = .ok (aggregated, select))
      (hprojected : aggregated.project select = .ok projected)
      (houtput : a.output first.source aggregated projected catalog config = .ok output)
      (hlookup : a.isPull = true → a.checkPullLookup first.source config = .ok ()) :
      Staged a catalog config
        ⟨projected.node, projected.scope.schema, projected.node.outputKind, output⟩

theorem plan_eq_ok_iff : a.plan catalog config = .ok logical ↔ a.Staged catalog config logical := by
  constructor
  · intro h
    unfold Analysis.plan at h
    obtain ⟨hpull, h⟩ := checked_eq_ok_iff.1 h
    split at h
    · cases h
    next first rest hsources =>
      obtain ⟨joined, hjoined, h⟩ := bind_eq_ok_iff.1 h
      obtain ⟨filtered, hfiltered, h⟩ := bind_eq_ok_iff.1 h
      obtain ⟨⟨aggregated, select⟩, haggregated, h⟩ := bind_eq_ok_iff.1 h
      obtain ⟨projected, hprojected, h⟩ := bind_eq_ok_iff.1 h
      obtain ⟨output, houtput, h⟩ := bind_eq_ok_iff.1 h
      obtain ⟨hlookup, h⟩ := checked_eq_ok_iff.1 h
      cases h
      exact .mk hpull hsources hjoined hfiltered haggregated hprojected houtput hlookup
  · rintro ⟨hpull, hsources, hjoined, hfiltered, haggregated, hprojected, houtput, hlookup⟩
    unfold Analysis.plan
    refine checked_eq_ok_iff.2 ⟨hpull, ?_⟩
    rw [hsources] at hjoined ⊢
    refine bind_eq_ok_iff.2 ⟨_, hjoined, bind_eq_ok_iff.2 ⟨_, hfiltered, ?_⟩⟩
    refine bind_eq_ok_iff.2 ⟨_, haggregated, bind_eq_ok_iff.2 ⟨_, hprojected, ?_⟩⟩
    exact bind_eq_ok_iff.2 ⟨_, houtput, checked_eq_ok_iff.2 ⟨hlookup, rfl⟩⟩

end StreamSql.Analysis
