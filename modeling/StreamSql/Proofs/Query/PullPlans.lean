import StreamSql.Engine.Pull
import StreamSql.Proofs.Query.LookupDrift
import StreamSql.Proofs.Query.Projection
import StreamSql.Proofs.Query.Sources

/-!
# Plans of pull queries

A pull query that is planned reads one entry, and its filter is one for which the planner finds a
lookup there, over columns that the entry has once each (`Analysis.plan_pull`). All such filters
that ask for columns by literals can be planned (`Analysis.plan_pullWhere`).
-/

namespace StreamSql

/-! ### Terms with types -/

namespace Scope

variable {scope : Scope} {qualifier : Option String} {schema : Schema} {e term : Expression}
  {type : DataType}

theorem typeOf_conjunct (h : scope.typeOf e = .ok type) (hterm : term ∈ e.conjuncts) :
    ∃ type, scope.typeOf term = .ok type := by
  fun_induction Expression.conjuncts e generalizing type with
  | case1 left right ihl ihr =>
    rw [typeOf] at h
    obtain ⟨⟨t, hleft⟩, ⟨u, hright⟩, -⟩ := typeOf_operands h
    rcases List.mem_append.1 hterm with hterm | hterm
    · exact ihl hleft hterm
    · exact ihr hright hterm
  | case2 e => exact List.mem_singleton.1 hterm ▸ ⟨type, h⟩

theorem exists_column_of_bound {name : String} {literals : List Value}
    (h : KeyLookup.boundValues? name term = some literals) :
    ∃ reference ∈ term.columns, reference.name = name := by
  unfold KeyLookup.boundValues? at h
  split at h
  next reference _ =>
    exact ⟨reference, List.mem_cons_self, (Option.ite_none_right_eq_some.1 h).1⟩
  next _ reference =>
    exact ⟨reference, List.mem_cons_self, (Option.ite_none_right_eq_some.1 h).1⟩
  next reference list =>
    exact ⟨reference, List.mem_cons_self, (Option.ite_none_right_eq_some.1 h).1⟩
  next => cases h

theorem sole_of_bound {name : String}
    (h : (ofSchema qualifier schema).typeOf e = .ok type)
    (hbound : KeyLookup.Bound e.conjuncts name) : schema.Sole name := by
  obtain ⟨literals, hliterals⟩ := Option.isSome_iff_exists.1 hbound
  obtain ⟨term, hterm, hbinds⟩ := List.exists_of_findSome?_eq_some hliterals
  obtain ⟨t, ht⟩ := typeOf_conjunct h hterm
  obtain ⟨reference, hmem, rfl⟩ := exists_column_of_bound hbinds
  obtain ⟨c, hc⟩ := resolve_of_typeOf ht reference hmem
  exact sole_of_resolve hc

end Scope

/-! ### What is planned -/

namespace Analysis

variable {a : Analysis} {catalog : Catalog} {config : Settings} {logical : LogicalPlan}

theorem checkPull_ok (h : a.checkPull = .ok ()) :
    a.joins = [] ∧ a.groupBy = [] ∧ a.hasAggregates = false := by
  unfold checkPull at h
  obtain ⟨hjoin, h⟩ := guarded_eq_ok_iff.1 h
  obtain ⟨hgroup, -⟩ := guarded_eq_ok_iff.1 h
  obtain ⟨hgroup, haggregates⟩ := Bool.or_eq_false_iff.1 hgroup
  simp only [isJoin, Bool.not_eq_false', List.isEmpty_iff] at hjoin hgroup
  exact ⟨hjoin, hgroup, haggregates⟩

theorem addAggregation_eq {input : ScopedPlan} (hgroup : a.groupBy = [])
    (haggregates : a.hasAggregates = false) : a.addAggregation input = .ok (input, a.select) := by
  simp [addAggregation, hgroup, haggregates]

theorem addFilter_ok {input filtered : ScopedPlan} {filter : Option Expression}
    (h : addFilter input filter = .ok filtered) :
    (∀ f ∈ filter, ∃ t, input.scope.typeOf f = .ok t) ∧
      filtered.node.predicate? = filter.or input.node.predicate? ∧
      filtered.scope = input.scope := by
  cases filter with
  | none =>
    cases h
    exact ⟨nofun, rfl, rfl⟩
  | some f =>
    obtain ⟨⟨⟩, hf, h⟩ := bind_eq_ok_iff.1 h
    cases h
    exact ⟨fun _ hmem => Option.mem_some_iff.1 hmem ▸ discard_eq_ok_iff.1 hf, rfl, rfl⟩

theorem checkPullLookup_ok {source : Source} (h : a.checkPullLookup source config = .ok ()) :
    KeyLookup.Serves source.schema config.pullTableScanEnabled a.filter := by
  obtain ⟨lookup, hlookup, h⟩ := bind_eq_ok_iff.1 h
  refine ⟨lookup, hlookup, fun hscan => ?_⟩
  by_contra hdisabled
  rw [hscan, (Bool.not_eq_true _).mp hdisabled] at h
  cases h

theorem isAggregate_of_hasAggregates (h : a.hasAggregates = false) {e : Expression}
    {aliasName : Option String} (hitem : .expression e aliasName ∈ a.select) :
    e.isAggregate = false := by
  simpa using List.any_eq_false.1 h _ hitem

/-- What the planner knows of a pull query on an entry: its filter has a type in the scope of the
entry and there is a lookup for it, and its selection is from that scope. -/
structure PullsFrom (a : Analysis) (config : Settings) (only : QuerySource)
    (logical : LogicalPlan) : Prop where
  sources : a.sources = [only]
  leaves : logical.root.sources = [ScopedPlan.leaf only]
  predicate : logical.root.predicate? = a.filter
  typed : ∀ f ∈ a.filter, ∃ t, (ScopedPlan.ofSource only).scope.typeOf f = .ok t
  lookup : KeyLookup.Planned only.source.schema config.pullTableScanEnabled a.filter
  selection : ∀ p ∈ logical.root.projections, p.Plain (ScopedPlan.ofSource only).scope

/-- **A pull query that is planned** reads one entry, and the planner has found a lookup for its
filter. -/
theorem plan_pull (h : a.plan catalog config = .ok logical) (hpull : a.isPull = true)
    (hjoins : a.JoinsInTurn) : ∃ only, a.PullsFrom config only logical := by
  have hsources := plan_sources h hjoins
  obtain @⟨first, rest, joined, filtered, aggregated, select, projected, output, hallowed, hfirst,
    hjoined, hfiltered, haggregated, hprojected, -, hlookup⟩ := plan_eq_ok_iff.1 h
  obtain ⟨hnone, hgroup, haggregates⟩ := checkPull_ok (hallowed hpull)
  -- Without joins there is only the first source.
  obtain rfl : rest = [] := by
    have hlength := congrArg List.length hjoins
    rw [hnone, hfirst] at hlength
    exact List.eq_nil_of_length_eq_zero (by simpa using hlength.symm)
  rw [hnone] at hjoined
  obtain rfl := Except.ok.inj hjoined
  rw [addAggregation_eq hgroup haggregates] at haggregated
  obtain ⟨rfl, rfl⟩ := Prod.mk.inj (Except.ok.inj haggregated)
  obtain ⟨list, hlist, hprojected⟩ := bind_eq_ok_iff.1 hprojected
  cases hprojected
  obtain ⟨htyped, hpredicate, hscope⟩ := addFilter_ok hfiltered
  exact ⟨first, {
    sources := hfirst
    leaves := by rw [hsources, hfirst]; rfl
    predicate := hpredicate.trans Option.or_none
    typed := htyped
    lookup := by
      refine ⟨fun f hf name hbound => ?_, checkPullLookup_ok (hlookup hpull)⟩
      obtain ⟨t, ht⟩ := htyped f hf
      exact Scope.sole_of_bound ht hbound
    selection := hscope ▸ ProjectionList.plain_of_select
      (fun _ _ hitem => isAggregate_of_hasAggregates haggregates hitem) hlist }⟩

theorem ofQuery_pulls {query : Query} {b : Analysis} {source : Source}
    (ha : Analysis.ofQuery catalog query none = .ok a) (hpull : query.isPull = true)
    (hsource : catalog.get? query.relation.first = some source)
    (hplan : b.plan catalog config = .ok logical)
    (hclause : b.toFromClause = a.toFromClause) (hasked : b.isPull = a.isPull) :
    ∃ only, b.PullsFrom config only logical ∧ only.source = source := by
  have hkept := ofQuery_isPull ha
  have hjoins : b.JoinsInTurn := by
    rw [JoinsInTurn, hclause]
    exact (ofQuery_reads ha).2
  obtain ⟨only, hpulls⟩ := plan_pull hplan ((hasked.trans hkept).trans hpull) hjoins
  have honly : a.sources = [only] := hclause ▸ hpulls.sources
  exact ⟨only, hpulls, Option.some.inj ((first_reads ha honly).symm.trans hsource)⟩

end Analysis

/-! ### Queries that can be planned -/

/-- `SELECT column FROM name WHERE filter`, as a pull query. -/
def Query.pullWhere (column : String) (name : SourceName) (filter : Expression) : Query where
  select := [.expression (.named column) none]
  relation := .source name none
  filter := some filter
  groupBy := []
  limit := none
  isPull := true

section Asking

open KeyLookup (asking)

variable {catalog : Catalog} {config : Settings} {name : SourceName} {source : Source}
  {literal : String → Value} {first : String} {others : List String}

theorem unqualified_asking (literal : String → Value) (first : String) (others : List String) :
    (asking literal first others).unqualified = asking literal first others :=
  List.foldlRecOn (motive := fun e : Expression => e.unqualified = e) others _ rfl fun _ he _ _ =>
    congrArg (Expression.and · _) he

theorem columns_asking {P : ColumnReference → Prop} (h : ∀ n ∈ first :: others, P ⟨none, n⟩) :
    ∀ reference ∈ (asking literal first others).columns, P reference := by
  have hequal : ∀ n ∈ first :: others, ∀ reference ∈
      (Expression.equal (.named n) (.literal (literal n))).columns, P reference := by
    intro n hn reference hmem
    obtain rfl := List.mem_singleton.1 hmem
    exact h n hn
  refine List.foldlRecOn (motive := fun e : Expression => ∀ reference ∈ e.columns, P reference)
    others _ (hequal first List.mem_cons_self) fun e he n hn reference hmem => ?_
  rcases List.mem_append.1 hmem with hmem | hmem
  · exact he reference hmem
  · exact hequal n (List.mem_cons_of_mem _ hn) reference hmem

theorem typeOf_asking {scope : Scope}
    (h : ∀ n ∈ first :: others, ∃ c, scope.resolve ⟨none, n⟩ = .ok c) :
    ∃ t, scope.typeOf (asking literal first others) = .ok t := by
  have hequal : ∀ n ∈ first :: others,
      ∃ t, scope.typeOf (.equal (.named n) (.literal (literal n))) = .ok t := by
    intro n hn
    obtain ⟨c, hc⟩ := h n hn
    refine ⟨.boolean, ?_⟩
    simp only [Expression.equal, Expression.named, Scope.typeOf, hc]
    rfl
  refine List.foldlRecOn (motive := fun e : Expression => ∃ t, scope.typeOf e = .ok t) others _
    (hequal first List.mem_cons_self) fun e he n hn => ?_
  obtain ⟨t, he⟩ := he
  obtain ⟨u, hn⟩ := hequal n (List.mem_cons_of_mem _ hn)
  refine ⟨.boolean, ?_⟩
  rw [Scope.typeOf, he, hn]
  rfl

/-- The clause of a single source. -/
def FromClause.single (name : SourceName) (source : Source) : FromClause :=
  { sources := [⟨name.text, source⟩] }

theorem FromClause.resolve_single {n : String} (h : source.schema.Sole n) :
    ∃ c, (single name source).resolve ⟨none, n⟩ = .ok c := by
  obtain ⟨c, hc⟩ := h.exists_find?
  refine ⟨⟨⟨name.text, source⟩, c⟩, ?_⟩
  simp [resolve, single, columnIn, hc]

theorem FromClause.checkColumns_single {e : Expression}
    (h : ∀ reference ∈ e.columns,
      reference.qualifier = none ∧ source.schema.Sole reference.name) :
    (single name source).checkColumns e = .ok () := by
  refine forM_eq_ok_iff.2 fun reference hmem => ?_
  obtain ⟨qualifier, n⟩ := reference
  obtain ⟨rfl, hsole⟩ := h _ hmem
  exact discard_eq_ok_iff.2 (resolve_single hsole)

/-- The analysis of `SELECT column FROM name WHERE filter` where the name stands for the source. -/
def Analysis.pullWhere (column : String) (name : SourceName) (source : Source)
    (filter : Expression) : Analysis where
  toFromClause := .single name source
  select := [.expression (.named column) none]
  filter := some filter
  groupBy := []
  limit := none
  isPull := true
  into := none

theorem Analysis.ofQuery_pullWhere {column : String} {filter : Expression}
    (hsource : catalog.get? name = some source) (hcolumn : source.schema.Sole column)
    (hfilter : ∀ reference ∈ filter.columns,
      reference.qualifier = none ∧ source.schema.Sole reference.name) :
    Analysis.ofQuery catalog (.pullWhere column name filter) none =
      .ok (.pullWhere column name source filter) := by
  refine bind_eq_ok_iff.2 ⟨FromClause.single name source, ?_, ?_⟩
  · simp [Query.pullWhere, FromClause.addRelation, FromClause.addSource, hsource,
      FromClause.single]
  · refine bind_eq_ok_iff.2 ⟨(), forM_eq_ok_iff.2 fun item hitem => ?_, ?_⟩
    · obtain rfl := List.mem_singleton.1 hitem
      refine FromClause.checkColumns_single fun reference hmem => ?_
      obtain rfl := List.mem_singleton.1 hmem
      exact ⟨rfl, hcolumn⟩
    · refine bind_eq_ok_iff.2 ⟨(), forM_eq_ok_iff.2 fun e he => ?_, rfl⟩
      obtain rfl := List.mem_singleton.1 he
      exact FromClause.checkColumns_single hfilter

theorem Analysis.addFilter_eq {input : ScopedPlan} {filter : Expression} {t : DataType}
    (h : input.scope.typeOf filter = .ok t) :
    Analysis.addFilter input (some filter) = .ok ⟨.filter input.node filter, input.scope⟩ := by
  simp only [Analysis.addFilter, discard_eq_ok_iff.2 ⟨t, h⟩]
  rfl

theorem ScopedPlan.exists_project {input : ScopedPlan} {reference : ColumnReference}
    {c : VisibleColumn} (h : input.scope.resolve reference = .ok c) :
    ∃ projected, input.project [.expression (.column reference) none] = .ok projected := by
  have htype : input.scope.typeOf (.column reference) = .ok c.type := by
    rw [Scope.typeOf, h]
    rfl
  obtain ⟨list, hlist⟩ : ∃ list,
      ProjectionList.pushItem input.scope {} (.expression (.column reference) none) = .ok list := by
    simp only [ProjectionList.pushItem, htype, h, bind, Except.bind]
    exact ⟨_, rfl⟩
  exact ⟨⟨.project input.node list.projections (Scope.schema ⟨list.columns⟩), ⟨list.columns⟩⟩,
    bind_eq_ok_iff.2 ⟨list, bind_eq_ok_iff.2 ⟨list, hlist, rfl⟩, rfl⟩⟩

theorem Analysis.checkPullLookup_of_serves {a : Analysis}
    (h : KeyLookup.Serves source.schema config.pullTableScanEnabled a.filter) :
    a.checkPullLookup source config = .ok () := by
  obtain ⟨lookup, hlookup, hscan⟩ := h
  refine bind_eq_ok_iff.2 ⟨lookup, hlookup, if_neg fun hrefused => ?_⟩
  obtain ⟨hscans, hdisabled⟩ := Bool.and_eq_true_iff.1 hrefused
  rw [hscan hscans] at hdisabled
  cases hdisabled

theorem Analysis.plan_pullWhere {column : String} {filter : Expression}
    (hcolumn : source.schema.Sole column)
    (hfilter : ∃ t, (Scope.ofSchema (some name.text) source.schema).typeOf filter = .ok t)
    (hserves : KeyLookup.Serves source.schema config.pullTableScanEnabled (some filter)) :
    ∃ logical, (Analysis.pullWhere column name source filter).plan catalog config =
      .ok logical := by
  obtain ⟨t, ht⟩ := hfilter
  obtain ⟨c, hc⟩ :
      ∃ c, (Scope.ofSchema (some name.text) source.schema).resolve ⟨none, column⟩ = .ok c :=
    Scope.resolve_of_sole hcolumn
  let filtered : ScopedPlan := ⟨.filter (.source source name.text) filter,
    .ofSchema (some name.text) source.schema⟩
  obtain ⟨projected, hprojected⟩ : ∃ projected,
      filtered.project [.expression (.named column) none] = .ok projected :=
    ScopedPlan.exists_project hc
  exact ⟨_, plan_eq_ok_iff.2 (.mk (fun _ => rfl) rfl rfl (addFilter_eq ht)
    (addAggregation_eq rfl rfl) hprojected rfl fun _ => checkPullLookup_of_serves hserves)⟩

end Asking

end StreamSql
