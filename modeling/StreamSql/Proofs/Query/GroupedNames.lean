import StreamSql.Proofs.Query.AggregateCalls

/-!
# Names in grouped queries

The selection of a grouped query is rewritten to read the grouping columns and the computed
aggregates. A reference that the query itself has denotes the grouping column that it denotes in the
joined rows, unless it is spelled as the name of a computed aggregate: then it denotes that
(`Query.grouped_names`).
-/

namespace StreamSql

/-! ### Joined columns -/

namespace Scope

variable {joined : Scope} {f : FromClause} {key reference : ColumnReference} {c d : VisibleColumn}
  {found : FoundColumn}

theorem Shows.qualifier_eq (h : joined.Shows f.sources) (hdistinct : f.Distinct)
    (hfound : f.resolve reference = .ok found) (hd : d ∈ joined.columns)
    (hdenoted : d.isDenotedBy reference = true) :
    d.qualifier = some found.source.aliasName := by
  have hlabel : d.label ∈ f.sources.flatMap (·.labels) := h.mem_iff.1 (List.mem_map_of_mem hd)
  obtain ⟨source, hsource, hlabel⟩ := List.mem_flatMap.1 hlabel
  obtain ⟨-, -, hothers⟩ := FromClause.resolve_ok hdistinct hfound
  have hsame : source = found.source := by
    by_contra hne
    exact List.filter_eq_nil_iff.1 (hothers source hsource hne) _ hlabel hdenoted
  obtain ⟨column, -, heq⟩ := List.mem_map.1 hlabel
  exact hsame ▸ (congrArg ColumnLabel.qualifier heq).symm

theorem Shows.resolve_of_isDenotedBy (h : joined.Shows f.sources) (hdistinct : f.Distinct)
    (hfound : f.resolve reference = .ok found) (hkey : joined.resolve key = .ok c)
    (hdenoted : c.isDenotedBy reference = true) : joined.resolve reference = .ok c := by
  have honly := resolve_eq_ok_iff.1 hkey
  obtain ⟨hc, hckey⟩ := List.mem_filter.1 (honly ▸ List.mem_singleton_self c)
  have hname : c.name = reference.name := beq_iff_eq.1 (Bool.and_eq_true_iff.1 hdenoted).1
  have hqualifier := h.qualifier_eq hdistinct hfound hc hdenoted
  rw [resolve_eq_ok_iff]
  calc joined.columns.filter (·.isDenotedBy reference)
      = (joined.columns.filter (·.isDenotedBy key)).filter (·.isDenotedBy reference) := by
        rw [List.filter_filter]
        refine List.filter_congr fun d hd => (Bool.and_eq_left_iff_imp.2 fun hdref => ?_).symm
        -- It has the name and the source of the grouping column.
        have hdname : d.name = c.name :=
          (beq_iff_eq.1 (Bool.and_eq_true_iff.1 hdref).1).trans hname.symm
        have hdqualifier : d.qualifier = c.qualifier :=
          (h.qualifier_eq hdistinct hfound hd hdref).trans hqualifier.symm
        rw [VisibleColumn.isDenotedBy, hdname, hdqualifier]
        exact hckey
    _ = [c] := by rw [honly]; exact List.filter_cons_of_pos hdenoted

end Scope

/-! ### Projections -/

namespace ProjectionList

variable {list next : ProjectionList} {scope : Scope}

theorem projections_of_push {name : String} {e : Expression} {type : DataType} {isKey : Bool}
    (h : list.push name e type isKey = .ok next) :
    next.projections = list.projections ++ [⟨name, e⟩] := by
  unfold push at h
  split at h
  · cases h
  · cases h
    rfl

theorem projections_of_pushItem {e : Expression} {aliasName : Option String}
    (h : list.pushItem scope (.expression e aliasName) = .ok next) :
    ∃ name, next.projections = list.projections ++ [⟨name, e⟩] := by
  obtain ⟨type, -, h⟩ := bind_eq_ok_iff.1 h
  split at h
  · obtain ⟨c, -, h⟩ := bind_eq_ok_iff.1 h
    exact ⟨_, projections_of_push h⟩
  · have hprojections := projections_of_push h
    exact ⟨_, hprojections⟩

end ProjectionList

/-- The projection computes the selected expression, with its calls replaced. -/
def Projection.Computes (calls : List AggregateCall) (item : SelectItem) (p : Projection) : Prop :=
  ∃ e aliasName, item = .expression e aliasName ∧ Expression.Replaces calls e p.expression

theorem ProjectionList.computes_of_select {calls : List AggregateCall} {scope : Scope}
    {items rests : List SelectItem} {list next : ProjectionList}
    (hitems : List.Forall₂ (Aggregation.ReplacesItem calls) items rests)
    (h : rests.foldlM (ProjectionList.pushItem scope) list = .ok next) :
    ∃ made, next.projections = list.projections ++ made ∧
      List.Forall₂ (Projection.Computes calls) items made := by
  induction hitems generalizing list with
  | nil =>
    cases h
    exact ⟨[], (List.append_nil _).symm, .nil⟩
  | cons hitem _ ih =>
    rw [List.foldlM_cons] at h
    obtain ⟨mid, hmid, h⟩ := bind_eq_ok_iff.1 h
    obtain ⟨made, hnext, hmade⟩ := ih h
    obtain ⟨aliasName, hreplaces⟩ := hitem
    obtain ⟨name, hpushed⟩ := projections_of_pushItem hmid
    refine ⟨⟨name, _⟩ :: made, ?_, .cons ⟨_, aliasName, rfl, hreplaces⟩ hmade⟩
    rw [hnext, hpushed, List.append_assoc]
    rfl

/-! ### Grouped columns -/

namespace Aggregation

variable {scope : Scope} {grouping : List VisibleColumn} {a : Aggregation} {call : AggregateCall}
  {reference : ColumnReference} {c : VisibleColumn}

theorem Sound.resolve_call (h : a.Sound scope grouping) (hcall : call ∈ a.calls)
    (hc : (Scope.mk a.columns).resolve call.reference = .ok c) :
    ∃ type, scope.typeOf call.expression = .ok type ∧ c = .named call.name type false := by
  obtain ⟨computed, hcolumns, hcomputed⟩ := h.columns
  obtain ⟨d, hd, type, htype, rfl⟩ := exists_of_mem_left hcomputed hcall
  have hmem : .named call.name type false ∈ (Scope.mk a.columns).columns :=
    hcolumns ▸ List.mem_append_right _ hd
  have hdenoted : (VisibleColumn.named call.name type false).isDenotedBy call.reference := by
    simp [VisibleColumn.isDenotedBy, VisibleColumn.named, AggregateCall.reference]
  exact ⟨type, htype, (Scope.eq_of_resolve hc hmem hdenoted).symm⟩

theorem Sound.mem_or_exists_call (h : a.Sound scope grouping)
    (hc : (Scope.mk a.columns).resolve reference = .ok c) :
    c ∈ grouping ∨ ∃ call ∈ a.calls, reference = call.reference := by
  obtain ⟨computed, hcolumns, hcomputed⟩ := h.columns
  have honly := Scope.resolve_eq_ok_iff.1 hc
  obtain ⟨hmem, hdenoted⟩ := List.mem_filter.1 (honly ▸ List.mem_singleton_self c)
  rw [show (Scope.mk a.columns).columns = grouping ++ computed from hcolumns] at hmem
  refine (List.mem_append.1 hmem).imp_right fun hnew => ?_
  obtain ⟨call, hcall, type, -, rfl⟩ := exists_of_mem_right hcomputed hnew
  refine ⟨call, hcall, ?_⟩
  rw [VisibleColumn.isDenotedBy, Bool.and_eq_true, beq_iff_eq] at hdenoted
  obtain ⟨hname, hqualifier⟩ := hdenoted
  obtain ⟨qualifier, name⟩ := reference
  -- A computed column is of no source, so no reference with a qualifier denotes it.
  cases qualifier with
  | none => exact congrArg (ColumnReference.mk none) hname.symm
  | some qualifier => simp [VisibleColumn.named] at hqualifier

theorem exists_of_mem_grouping {groupBy : List Expression}
    {columns : List (ColumnReference × VisibleColumn)}
    (h : groupBy.mapM (groupingColumn scope) = .ok columns) (hc : c ∈ columns.map (·.2)) :
    ∃ key d, .column key ∈ groupBy ∧ scope.resolve key = .ok d ∧
      c = { d with output := d.name, isKey := true } := by
  obtain ⟨column, hcolumn, rfl⟩ := List.mem_map.1 hc
  obtain ⟨e, he, hgrouping⟩ := exists_of_mem_mapM h hcolumn
  cases e with
  | column key =>
    obtain ⟨d, hd, heq⟩ := bind_eq_ok_iff.1 hgrouping
    cases heq
    exact ⟨key, d, he, hd, rfl⟩
  | _ => cases hgrouping

end Aggregation

theorem ScopedPlan.aggregate_records {input next : ScopedPlan} {groupBy : List Expression}
    {select rests : List SelectItem} (h : input.aggregate groupBy select = .ok (next, rests)) :
    ∃ (grouping : List (ColumnReference × VisibleColumn)) (found : Aggregation),
      groupBy.mapM (Aggregation.groupingColumn input.scope) = .ok grouping ∧
      next.node = .aggregate input.node (grouping.map (·.1)) found.calls next.scope.schema ∧
      next.scope = ⟨found.columns⟩ ∧
      found.Sound input.scope (grouping.map (·.2)) ∧
      List.Forall₂ (Aggregation.ReplacesItem found.calls) select rests ∧
      (∀ call ∈ found.calls, call.reference ∈ rests.flatMap (·.columns)) ∧
      ∀ reference ∈ rests.flatMap (·.columns), ∃ c, next.scope.resolve reference = .ok c := by
  obtain ⟨grouping, hgrouping, h⟩ := bind_eq_ok_iff.1 h
  obtain ⟨⟨items, found⟩, hitems, h⟩ := bind_eq_ok_iff.1 h
  obtain ⟨⟨⟩, hchecked, h⟩ := bind_eq_ok_iff.1 h
  cases h
  obtain ⟨hadds, hreplaces⟩ := Aggregation.extractItems_replaces (grouping.map (·.2)) hitems
  have hstart : Aggregation.Sound input.scope (grouping.map (·.2))
      { columns := grouping.map (·.2) } := ⟨rfl, [], (List.append_nil _).symm, .nil⟩
  refine ⟨grouping, found, hgrouping, rfl, rfl, hadds.sound hstart,
    hreplaces _ (List.Subset.refl _), fun call hcall => ?_, fun reference hmem => ?_⟩
  · exact (hadds.referenced call hcall).resolve_left List.not_mem_nil
  · obtain ⟨item, hitem, hreference⟩ := List.mem_flatMap.1 hmem
    have hcheck := forM_eq_ok_iff.1 hchecked item hitem
    cases item with
    | star qualifier => cases hreference
    | expression e aliasName =>
      have hreferenceCheck := forM_eq_ok_iff.1 hcheck reference hreference
      unfold Aggregation.checkReference at hreferenceCheck
      split at hreferenceCheck
      next c hc => exact ⟨c, hc⟩
      next => cases hreferenceCheck

/-! ### The plan of a grouped query -/

/-- The column references in the selection outside aggregate calls. -/
def SelectItem.plainColumns : SelectItem → List ColumnReference
  | .star _ => []
  | .expression e _ => e.plainColumns

namespace Query

/-- The reference denotes a grouping column of the query among the grouped columns, and the same
column among the joined ones. -/
def DenotesGrouping (query : Query) (joined grouped : Scope) (reference : ColumnReference) : Prop :=
  ∃ key c, .column key ∈ query.groupBy ∧ joined.resolve key = .ok c ∧
    joined.resolve reference = .ok c ∧
    grouped.resolve reference = .ok { c with output := c.name, isKey := true }

/-- What the plan of a grouped query is made of: recorded calls with names of their own, each with a
column that is computed for it from the joined rows, and projections onto the selected expressions
with their calls replaced. A reference outside the calls denotes the grouping column that it denoted
before, but for one that is spelled as the reference to a recorded call. -/
structure GroupedBy (query : Query) (joined grouped : Scope) (calls : List AggregateCall)
    (projections : List Projection) : Prop where
  names : calls.map (·.name) = (List.range calls.length).map fun i => s!"AGG_{i}"
  distinct : (calls.map (·.name)).Nodup
  computes : List.Forall₂ (Projection.Computes calls) query.select projections
  noAggregate : ∀ p ∈ projections, p.expression.isAggregate = false
  computed : ∀ call ∈ calls, ∃ type, joined.typeOf call.expression = .ok type ∧
    grouped.resolve call.reference = .ok (.named call.name type false)
  kept_iff : ∀ reference ∈ query.select.flatMap (·.plainColumns),
    query.DenotesGrouping joined grouped reference ↔ ∀ call ∈ calls, reference ≠ call.reference

theorem mem_columns_of_plainColumns {items rests : List SelectItem} {calls : List AggregateCall}
    {reference : ColumnReference}
    (h : List.Forall₂ (Aggregation.ReplacesItem calls) items rests)
    (hmem : reference ∈ items.flatMap (·.plainColumns)) :
    reference ∈ items.flatMap (·.columns) ∧ reference ∈ rests.flatMap (·.columns) := by
  obtain ⟨item, hitem, hreference⟩ := List.mem_flatMap.1 hmem
  obtain ⟨rest, hrest, hreplaces⟩ := exists_of_mem_left h hitem
  obtain ⟨aliasName, hreplaces⟩ := hreplaces
  exact ⟨List.mem_flatMap.2 ⟨_, hitem, Expression.plainColumns_subset_columns _ hreference⟩,
    List.mem_flatMap.2 ⟨_, hrest, hreplaces.plainColumns_subset hreference⟩⟩

/-- A reference that is found by the analysis and resolved among the grouped columns denotes a
grouping column exactly if it is not the reference to a recorded call. -/
theorem denotesGrouping_iff {query : Query} {joined : Scope} {f : FromClause}
    {grouping : List (ColumnReference × VisibleColumn)} {recorded : Aggregation}
    {reference : ColumnReference} {found : FoundColumn} {c : VisibleColumn}
    (hshows : joined.Shows f.sources) (hdistinct : f.Distinct)
    (hgrouping : query.groupBy.mapM (Aggregation.groupingColumn joined) = .ok grouping)
    (hrecorded : recorded.Sound joined (grouping.map (·.2)))
    (hfound : f.resolve reference = .ok found)
    (hc : (Scope.mk recorded.columns).resolve reference = .ok c) :
    query.DenotesGrouping joined ⟨recorded.columns⟩ reference ↔
      ∀ call ∈ recorded.calls, reference ≠ call.reference := by
  constructor
  · rintro ⟨key, d, -, -, -, hd⟩ call hcall rfl
    obtain ⟨type, -, heq⟩ := hrecorded.resolve_call hcall hd
    exact Bool.false_ne_true (congrArg VisibleColumn.isKey heq).symm
  · intro hother
    rcases hrecorded.mem_or_exists_call hc with hgroup | ⟨call, hcall, heq⟩
    · obtain ⟨key, d, hkey, hd, rfl⟩ := Aggregation.exists_of_mem_grouping hgrouping hgroup
      have honly := Scope.resolve_eq_ok_iff.1 hc
      obtain ⟨-, hdenoted⟩ := List.mem_filter.1 (honly ▸ List.mem_singleton_self _)
      exact ⟨key, d, hkey, hd, hshows.resolve_of_isDenotedBy hdistinct hfound hd hdenoted, hc⟩
    · exact absurd heq (hother call hcall)

end Query

theorem Analysis.plan_grouped {a : Analysis} {catalog : Catalog} {config : Settings}
    {logical : LogicalPlan} (h : a.plan catalog config = .ok logical) (hgroupBy : a.groupBy ≠ []) :
    ∃ (joined filtered aggregated : ScopedPlan) (select : List SelectItem)
      (list : ProjectionList) (schema : Schema), a.joined = .ok joined ∧
      filtered.scope = joined.scope ∧
      filtered.aggregate a.groupBy a.select = .ok (aggregated, select) ∧
      select.foldlM (ProjectionList.pushItem aggregated.scope) {} = .ok list ∧
      logical.root = .project aggregated.node list.projections schema := by
  obtain @⟨first, rest, joined, filtered, aggregated, select, projected, output, -, hsources,
    hjoined, hfiltered, haggregated, hprojected, -, -⟩ := plan_eq_ok_iff.1 h
  obtain ⟨list, hlist, hprojected⟩ := bind_eq_ok_iff.1 hprojected
  cases hprojected
  have hgrouped : (!a.groupBy.isEmpty) = true := by simpa using hgroupBy
  rw [addAggregation, if_pos hgrouped] at haggregated
  refine ⟨joined, filtered, aggregated, select, list, _, ?_, ScopedPlan.addFilter_scope hfiltered,
    haggregated, hlist, rfl⟩
  unfold Analysis.joined
  rw [hsources] at hjoined ⊢
  exact hjoined

/-- **Names in grouped queries.** The plan of a grouped query computes its aggregate calls under
names of their own, and projects what it selects with the calls replaced. What is captured are the
references outside the calls that are spelled as one of these names, and nothing else. -/
theorem Query.grouped_names {query : Query} {into : Option Sink} {catalog : Catalog}
    {config : Settings} {logical : LogicalPlan} (h : query.plan into catalog config = .ok logical)
    (hgroupBy : query.groupBy ≠ []) :
    ∃ a joined node keys grouped calls projections schema,
      Analysis.ofQuery catalog query into = .ok a ∧ a.joined = .ok joined ∧
      logical.root = .project (.aggregate node keys calls grouped.schema) projections schema ∧
      query.GroupedBy joined.scope grouped calls projections := by
  obtain ⟨a, ha, hplan⟩ := bind_eq_ok_iff.1 h
  have hselect := Analysis.ofQuery_select ha
  have hkeys := Analysis.ofQuery_groupBy ha
  obtain ⟨joined, filtered, aggregated, select, list, schema, hjoined, hscope, haggregate, hlist,
    hroot⟩ := Analysis.plan_grouped hplan (hkeys ▸ hgroupBy)
  rw [hselect, hkeys] at haggregate
  obtain ⟨grouping, recorded, hgrouping, hnode, hcolumns, hrecorded, hreplaces, hreferenced,
    hresolves⟩ := ScopedPlan.aggregate_records haggregate
  rw [hscope] at hgrouping hrecorded
  rw [hcolumns] at hnode hresolves
  obtain ⟨made, hmade, hcomputes⟩ := ProjectionList.computes_of_select hreplaces hlist
  obtain rfl : list.projections = made := hmade
  have hshows := Analysis.joined_shows (Analysis.ofQuery_reads ha).2 hjoined
  refine ⟨a, joined, filtered.node, grouping.map (·.1), ⟨recorded.columns⟩, recorded.calls,
    list.projections, schema, ha, hjoined, hnode ▸ hroot, hrecorded.names, hrecorded.distinct,
    hcomputes, fun p hp => ?_, fun call hcall => ?_, fun reference hmem => ?_⟩
  · obtain ⟨item, -, e, aliasName, -, hexpression⟩ := exists_of_mem_right hcomputes hp
    exact hexpression.isAggregate_eq_false
  · obtain ⟨c, hc⟩ := hresolves _ (hreferenced call hcall)
    obtain ⟨type, htype, rfl⟩ := hrecorded.resolve_call hcall hc
    exact ⟨type, htype, hc⟩
  · obtain ⟨hcolumn, hleft⟩ := mem_columns_of_plainColumns hreplaces hmem
    obtain ⟨c, hc⟩ := hresolves reference hleft
    obtain ⟨found, hfound⟩ := (Analysis.ofQuery_found ha).1 reference
      (List.mem_append_left _ (List.mem_append_left _ hcolumn))
    exact denotesGrouping_iff hshows (Analysis.ofQuery_sound ha).distinct hgrouping hrecorded hfound
      hc

namespace Sample

/-- A table of events with a text that is named as an aggregate would be. -/
def eventsCatalog : Catalog :=
  ⟨.ofList [(⟨"EVENTS"⟩, {
    name := ⟨"EVENTS"⟩
    kind := .table
    schema := (Schema.empty.addKey "ID" .int8).addValue "AGG_0" .utf8
    keyFormat := .kafka
    valueFormat := .json
    topic := "EVENTS"
    statement := "CREATE TABLE EVENTS ...;"
    isQuerySink := false })], .empty⟩

/-- `SELECT column, COUNT(*) AS CNT FROM EVENTS GROUP BY ID`. -/
def countEvents (column : String) : Query :=
  { Query.selectAll (.source ⟨"EVENTS"⟩ none) with
    select := [.expression (.named column) none, .expression (.aggregateRows .count) (some "CNT")]
    groupBy := [.named "ID"] }

end Sample

/-- The key of the events, with their number. -/
theorem Query.counted_by_key :
    let query := Sample.countEvents "ID"
    query.groupBy ≠ [] ∧ ∃ logical a joined grouped,
      query.plan none Sample.eventsCatalog {} = .ok logical ∧
      Analysis.ofQuery Sample.eventsCatalog query none = .ok a ∧ a.joined = .ok joined ∧
      query.DenotesGrouping joined.scope grouped ⟨none, "ID"⟩ := by
  intro query
  have hgroupBy : query.groupBy ≠ [] := List.cons_ne_nil _ _
  obtain ⟨logical, h⟩ : ∃ logical, query.plan none Sample.eventsCatalog {} = .ok logical := ⟨_, rfl⟩
  obtain ⟨a, joined, node, keys, grouped, calls, projections, schema, ha, hjoined, -, hnames⟩ :=
    Query.grouped_names h hgroupBy
  refine ⟨hgroupBy, logical, a, joined, grouped, h, ha, hjoined, ?_⟩
  refine (hnames.kept_iff _ List.mem_cons_self).2 fun call hcall heq => ?_
  have hname : call.name ∈ calls.map (·.name) := List.mem_map_of_mem hcall
  rw [hnames.names, List.mem_map] at hname
  obtain ⟨i, -, hi⟩ := hname
  have hID : "ID" = s!"AGG_{i}" := (congrArg ColumnReference.name heq).trans hi.symm
  have hchars := congrArg String.toList hID
  simp [toString] at hchars

/-- A selected column that is spelled as the count is the count: the text is lost. -/
theorem Query.count_captures_column :
    let query := Sample.countEvents "AGG_0"
    ∃ (logical : LogicalPlan) (a : Analysis) (joined : ScopedPlan) (node : PlanNode)
      (grouped : Scope) (schema : Schema) (text : VisibleColumn),
      query.plan none Sample.eventsCatalog {} = .ok logical ∧
      Analysis.ofQuery Sample.eventsCatalog query none = .ok a ∧ a.joined = .ok joined ∧
      logical.root = .project
        (.aggregate node [⟨none, "ID"⟩] [⟨"AGG_0", .count, none⟩] grouped.schema)
        [⟨"AGG_0", .named "AGG_0"⟩, ⟨"CNT", .named "AGG_0"⟩] schema ∧
      joined.scope.resolve ⟨none, "AGG_0"⟩ = .ok text ∧ text.type = .utf8 ∧
      grouped.resolve ⟨none, "AGG_0"⟩ = .ok (.named "AGG_0" .int8 false) := by
  intro query
  let grouped : Scope :=
    ⟨[⟨some "EVENTS", "ID", "ID", .int8, true⟩, .named "AGG_0" .int8 false]⟩
  exact ⟨_, _, _, _, grouped, _, _, rfl, rfl, rfl, rfl, rfl, rfl, rfl⟩

end StreamSql
