import StreamSql.Proofs.Engine.PointLookup
import StreamSql.Proofs.Engine.PullRows
import StreamSql.Proofs.Query.PullPlans

/-!
# Evaluating pull queries

What the planner accepts is to be evaluated without errors. A pull query that is planned on an entry
and bound to rows of the schema of that entry reads only columns that are there, and looks only keys
up that can be encoded (`Query.Accepted.grounded`). The planner refuses aggregate calls in the
selection but not in the filter: a partition fails to be answered exactly if the filter comes to an
aggregate call on one of its rows (`Query.Accepted.partition_answered_iff`), as it does in
`Engine.aggregate_in_filter`.
-/

namespace StreamSql

namespace PullPlan

variable {plan : PullPlan} {row : Row} {partition : PartitionId}

/-- All that the plan reads is in the stored rows, and its lookup is that of its filter. -/
structure Grounded (plan : PullPlan) : Prop where
  predicate : ∀ f ∈ plan.predicate, f.ReadsFrom plan.materialization.schema
  projections : ∀ p ∈ plan.projections,
    p.expression.ReadsFrom plan.materialization.schema ∧ p.expression.isAggregate = false
  lookup : KeyLookup.ofFilter plan.predicate plan.materialization.schema = .ok plan.lookup

/-- The evaluation of the filter on the row comes to no aggregate call. -/
def AvoidsAggregates (plan : PullPlan) (row : Row) : Prop :=
  ∀ f ∈ plan.predicate, ∀ function,
    f.evaluate plan.materialization.schema row ≠ .error (.aggregate function)

theorem Grounded.exists_candidates (h : plan.Grounded) (partition : PartitionId) :
    ∃ found, plan.candidates partition = .ok found := by
  cases hlookup : plan.lookup with
  | scan =>
    rw [candidates, hlookup]
    exact ⟨_, rfl⟩
  | keys keys =>
    have htyped := KeyLookup.typed_of_ofFilter (h.lookup.trans (congrArg _ hlookup))
    exact ⟨_, candidates_keys hlookup (fun values hvalues =>
      Materialization.encode_of_type (htyped values hvalues)) partition⟩

theorem Grounded.exists_project (h : plan.Grounded) (row : Row) :
    ∃ selected, plan.project row = .ok selected := by
  have hvalue : ∀ p ∈ plan.projections,
      ∃ v, p.expression.evaluate plan.materialization.schema row = .ok v := by
    intro p hp
    obtain ⟨hreads, hplain⟩ := h.projections p hp
    obtain hvalue | ⟨hcall, -⟩ := Expression.evaluate_or_aggregate hreads row
    · exact hvalue
    · cases hplain.symm.trans hcall
  unfold project
  split
  · exact ⟨row, rfl⟩
  · obtain ⟨values, hvalues⟩ := exists_mapM_eq_ok_iff.2 hvalue
    exact ⟨⟨values⟩, bind_eq_ok_iff.2 ⟨values, hvalues, rfl⟩⟩

theorem Grounded.exists_admits_iff (h : plan.Grounded) :
    (∃ admitted, plan.admits row = .ok admitted) ↔ plan.AvoidsAggregates row := by
  unfold admits AvoidsAggregates
  cases hfilter : plan.predicate with
  | none => exact iff_of_true ⟨true, rfl⟩ nofun
  | some f =>
    have hreads := h.predicate f hfilter
    simp only [Option.mem_some_iff, forall_eq']
    obtain ⟨v, hv⟩ | ⟨-, function, hcall⟩ := Expression.evaluate_or_aggregate hreads row
    · rw [Expression.passes, hv]
      exact iff_of_true ⟨_, rfl⟩ nofun
    · rw [Expression.passes, hcall]
      exact iff_of_false nofun fun havoids => havoids function.name rfl

theorem Grounded.exists_answerRow_iff (h : plan.Grounded) :
    (∃ answer, plan.answerRow row = .ok answer) ↔ plan.AvoidsAggregates row := by
  rw [← h.exists_admits_iff]
  constructor
  · rintro ⟨answer, hanswer⟩
    obtain ⟨admitted, hadmits, -⟩ := bind_eq_ok_iff.1 hanswer
    exact ⟨admitted, hadmits⟩
  · rintro ⟨admitted, hadmits⟩
    cases admitted with
    | false => exact ⟨none, bind_eq_ok_iff.2 ⟨false, hadmits, rfl⟩⟩
    | true =>
      obtain ⟨selected, hselected⟩ := h.exists_project row
      exact ⟨some selected, bind_eq_ok_iff.2 ⟨true, hadmits,
        bind_eq_ok_iff.2 ⟨selected, hselected, rfl⟩⟩⟩

theorem Grounded.executes_iff (h : plan.Grounded) {found : List Row}
    (hfound : plan.candidates partition = .ok found) :
    (∃ rows, plan.execute partition = .ok rows) ↔ ∀ row ∈ found, plan.AvoidsAggregates row := by
  simp only [execute_eq_ok_iff, hfound, ← h.exists_answerRow_iff]
  constructor
  · rintro ⟨_, _, hsame, hanswers, -⟩
    obtain rfl := Except.ok.inj hsame
    exact hanswers
  · exact fun hanswers => ⟨_, found, rfl, hanswers, rfl⟩

theorem Grounded.avoidsAggregates (h : plan.Grounded)
    (hfilter : ∀ f ∈ plan.predicate, f.isAggregate = false) (row : Row) :
    plan.AvoidsAggregates row := by
  intro f hf function hcall
  obtain ⟨v, hv⟩ | ⟨haggregate, -⟩ := Expression.evaluate_or_aggregate (h.predicate f hf) row
  · cases hv.symm.trans hcall
  · cases (hfilter f hf).symm.trans haggregate

end PullPlan

/-! ### What is planned and bound -/

theorem Projection.Plain.readsFrom {qualifier : Option String} {schema : Schema} {p : Projection}
    (h : p.Plain (Scope.ofSchema qualifier schema)) : p.expression.ReadsFrom schema := by
  intro reference hmem
  obtain ⟨c, hc, hname⟩ := h.reads reference hmem
  obtain ⟨column, hcolumn, rfl⟩ := List.mem_map.1 hc
  exact Schema.exists_position_iff.2 ⟨column, hcolumn, hname⟩

namespace Query

variable {query : Query} {catalog : Catalog} {config : Settings} {logical : LogicalPlan}
  {source : Source} {registry : Registry} {id : QueryId} {plan : PullPlan}

/-- The pull query is accepted by the analysis and by the planner, with its qualifiers or without
them. -/
def Accepted (query : Query) (catalog : Catalog) (config : Settings) (logical : LogicalPlan) :
    Prop :=
  query.isPull = true ∧ ∃ a, Analysis.ofQuery catalog query none = .ok a ∧
    (a.plan catalog config = .ok logical ∨ a.unqualified.plan catalog config = .ok logical)

theorem Accepted.pullsFrom (h : query.Accepted catalog config logical)
    (hsource : catalog.get? query.relation.first = some source) :
    ∃ (a : Analysis) (only : QuerySource), a.PullsFrom config only logical ∧
      only.source = source ∧
      (a.filter = query.filter ∨ a.filter = query.filter.map (·.unqualified)) := by
  obtain ⟨hpull, a, ha, hplan⟩ := h
  have hfilter : a.filter = query.filter := Analysis.ofQuery_filter ha
  rcases hplan with hplan | hplan
  · obtain ⟨only, hpulls, heq⟩ := Analysis.ofQuery_pulls ha hpull hsource hplan rfl rfl
    exact ⟨a, only, hpulls, heq, .inl hfilter⟩
  · obtain ⟨only, hpulls, heq⟩ := Analysis.ofQuery_pulls ha hpull hsource hplan rfl rfl
    exact ⟨a.unqualified, only, hpulls, heq, .inr (hfilter ▸ rfl)⟩

theorem Accepted.grounded (h : query.Accepted catalog config logical)
    (hsource : catalog.get? query.relation.first = some source)
    (hbind : PullPlan.bind logical registry id = .ok plan)
    (hschema : plan.materialization.schema = source.schema) : plan.Grounded := by
  obtain ⟨a, only, hpulls, rfl, -⟩ := h.pullsFrom hsource
  obtain ⟨-, hprojections, hpredicate, hlookup⟩ := PullPlan.bind_ok hbind
  refine ⟨fun f hf => ?_, fun p hp => ?_, hlookup⟩
  · rw [hpredicate, hpulls.predicate] at hf
    obtain ⟨t, ht⟩ := hpulls.typed f hf
    rw [hschema]
    exact Expression.readsFrom_of_typeOf ht
  · rw [hprojections] at hp
    rw [hschema]
    exact ⟨(hpulls.selection p hp).readsFrom, (hpulls.selection p hp).noAggregate⟩

theorem Accepted.isAggregate_predicate (h : query.Accepted catalog config logical)
    (hsource : catalog.get? query.relation.first = some source)
    (hbind : PullPlan.bind logical registry id = .ok plan)
    (hfilter : ∀ f ∈ query.filter, f.isAggregate = false) :
    ∀ f ∈ plan.predicate, f.isAggregate = false := by
  obtain ⟨a, only, hpulls, -, hsame⟩ := h.pullsFrom hsource
  obtain ⟨-, -, hpredicate, -⟩ := PullPlan.bind_ok hbind
  intro f hf
  rw [hpredicate, hpulls.predicate] at hf
  rcases hsame with hsame | hsame
  · exact hfilter f (hsame ▸ hf)
  · obtain ⟨g, hg, rfl⟩ := Option.map_eq_some_iff.1 (hsame ▸ hf)
    exact g.isAggregate_unqualified.trans (hfilter g hg)

/-- **When an accepted pull query is evaluated.** Bound to rows of the schema of its entry, whatever
these are, it finds the rows of every partition, and the partition is answered exactly if the filter
comes to no aggregate call on one of them. Without aggregate calls in the filter every partition is
answered. -/
theorem Accepted.partition_answered_iff (h : query.Accepted catalog config logical)
    (hsource : catalog.get? query.relation.first = some source)
    (hbind : PullPlan.bind logical registry id = .ok plan)
    (hschema : plan.materialization.schema = source.schema) (partition : PartitionId) :
    (∃ found, plan.candidates partition = .ok found ∧
      ((∃ rows, plan.execute partition = .ok rows) ↔ ∀ row ∈ found, plan.AvoidsAggregates row)) ∧
    ((∀ f ∈ query.filter, f.isAggregate = false) → ∃ rows, plan.execute partition = .ok rows) := by
  have hgrounded : plan.Grounded := h.grounded hsource hbind hschema
  obtain ⟨found, hfound⟩ := hgrounded.exists_candidates partition
  refine ⟨⟨found, hfound, hgrounded.executes_iff hfound⟩, fun hfilter => ?_⟩
  have hplain := h.isAggregate_predicate hsource hbind hfilter
  exact (hgrounded.executes_iff hfound).2 fun row _ => hgrounded.avoidsAggregates hplain row

end Query

/-! ### The view of users -/

namespace Sample

/-- `SELECT NAME FROM USERS_VIEW WHERE filter`, as a pull query. -/
def pullNames (filter : Expression) : Query := .pullWhere "NAME" view filter

/-- `ID = 1`. -/
def firstUser : Expression := .equal (.named "ID") (.literal (.int8 1))

/-- `ID = 1 AND COUNT(*) = 1`. -/
def onlyUser : Expression := .and firstUser (.equal (.aggregateRows .count) (.literal (.int8 1)))

end Sample

namespace Engine

open Sample

/-- The query for the name of the first user is evaluated, in whatever partition. -/
theorem first_user_executes :
    ∃ logical plan source, (pullNames firstUser).Accepted engineWithUser.catalog {} logical ∧
      engineWithUser.catalog.get? view = some source ∧
      PullPlan.bind logical engineWithUser.registry (.ofPull "1") = .ok plan ∧
      plan.materialization.schema = source.schema ∧
      ∀ partition, ∃ rows, plan.execute partition = .ok rows := by
  obtain ⟨logical, plan, source, haccepted, hsource, hbind, hschema⟩ :
      ∃ logical plan source, (pullNames firstUser).Accepted engineWithUser.catalog {} logical ∧
        engineWithUser.catalog.get? (pullNames firstUser).relation.first = some source ∧
        PullPlan.bind logical engineWithUser.registry (.ofPull "1") = .ok plan ∧
        plan.materialization.schema = source.schema :=
    ⟨_, _, _, ⟨rfl, _, rfl, .inr rfl⟩, rfl, rfl, rfl⟩
  refine ⟨logical, plan, source, haccepted, hsource, hbind, hschema, fun partition => ?_⟩
  refine (haccepted.partition_answered_iff hsource hbind hschema partition).2 fun f hf => ?_
  obtain rfl := Option.mem_some_iff.1 hf
  rfl

/-- A query with an aggregate call in its filter is accepted all the same, and fails on the row of
the user. -/
theorem aggregate_in_filter :
    ∃ logical plan source, (pullNames onlyUser).Accepted engineWithUser.catalog {} logical ∧
      engineWithUser.catalog.get? view = some source ∧
      PullPlan.bind logical engineWithUser.registry (.ofPull "1") = .ok plan ∧
      plan.materialization.schema = source.schema ∧
      plan.execute ⟨0⟩ = .error (diagnostic (EvaluationError.aggregate "COUNT")) := by
  refine ⟨_, _, _, ⟨rfl, _, rfl, .inr rfl⟩, rfl, rfl, rfl, ?_⟩
  decide +kernel

end Engine

end StreamSql
