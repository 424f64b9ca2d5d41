import StreamSql.Proofs.Query.Projection
import StreamSql.Proofs.Query.Sources

/-!
# What a selection reads

A selection reads the joined rows, filtered and aggregated (`Analysis.selected`). In joined rows the
columns are told apart by the references to them, so what a star stands for can be referred to
(`Scope.resolve_of_isSelectedBy`). Grouping keys the rows by the grouping columns and replaces the
aggregate calls of the selection, which repeats the same of the key before and after
(`Analysis.selected_keys`, `Analysis.selected_ok`).
-/

namespace StreamSql

namespace Scope

/-- The key columns. -/
def keys (scope : Scope) : List VisibleColumn := scope.columns.filter (·.isKey)

/-- The column that an expression repeats, if it is a reference that is resolved. -/
def repeated? (scope : Scope) : Expression → Option VisibleColumn
  | .column reference => (scope.resolve reference).toOption
  | _ => none

theorem repeated?_eq_some_iff {scope : Scope} {e : Expression} {c : VisibleColumn} :
    scope.repeated? e = some c ↔
      ∃ reference, e = .column reference ∧ scope.resolve reference = .ok c := by
  cases e with
  | column reference =>
    cases hresolve : scope.resolve reference <;> simp [repeated?, Except.toOption, hresolve]
  | _ => simp [repeated?]

end Scope

/-- The columns in scope that a selected item repeats. -/
def SelectItem.repeated (scope : Scope) : SelectItem → List VisibleColumn
  | .star qualifier => scope.columns.filter (ProjectionList.isSelectedBy qualifier)
  | .expression e _ => (scope.repeated? e).toList

theorem SelectItem.repeated_subset (item : SelectItem) (scope : Scope) :
    item.repeated scope ⊆ scope.columns := by
  intro c hc
  cases item with
  | star qualifier => exact (List.mem_filter.1 hc).1
  | expression e aliasName =>
    obtain ⟨reference, -, hresolve⟩ := Scope.repeated?_eq_some_iff.1 (Option.mem_toList.1 hc)
    exact (Scope.mem_of_resolve hresolve).1

namespace Analysis

/-- The rows of the `FROM` clause. -/
def joined (a : Analysis) : Except QueryError ScopedPlan :=
  match a.sources with
  | [] => .error (.sourceNotFound ⟨""⟩)
  | first :: _ => (ScopedPlan.ofSource first).joinAll a.sources a.joins

/-- The rows that the selection reads, and what is left of the selection. -/
def selected (a : Analysis) : Except QueryError (ScopedPlan × List SelectItem) := do
  let joined ← a.joined
  let filtered ← addFilter joined a.filter
  a.addAggregation filtered

end Analysis

/-! ### References tell columns apart -/

namespace Scope

variable {scope : Scope} {c d : VisibleColumn}

/-- Every column is of a source, and its name in the schema can be told from the reference to it. -/
def NamedBy (scope : Scope) (name : ColumnReference → String) : Prop :=
  ∀ c ∈ scope.columns, c.qualifier.isSome = true ∧ c.output = name c.reference

theorem namedBy_ofSchema (aliasName : String) (schema : Schema) :
    (ofSchema (some aliasName) schema).NamedBy (·.name) := by
  intro c hc
  obtain ⟨column, -, rfl⟩ := List.mem_map.1 hc
  exact ⟨rfl, rfl⟩

/-- The name that a column gets in the rows of a join. -/
def joinedName (reference : ColumnReference) : String :=
  match reference.qualifier with
  | some qualifier => s!"{qualifier}_{reference.name}"
  | none => reference.name

theorem NamedBy.joined {left right : Scope} {name other : ColumnReference → String}
    (hleft : left.NamedBy name) (hright : right.NamedBy other) (hc : c ∈ left.columns) :
    (ScopedPlan.joinedScope left right c).NamedBy joinedName := by
  have hjoined : ∀ d isKey, d.qualifier.isSome = true →
      (ScopedPlan.joinedColumn isKey d).qualifier.isSome = true ∧
        (ScopedPlan.joinedColumn isKey d).output =
          joinedName (ScopedPlan.joinedColumn isKey d).reference :=
    fun d isKey hd => ⟨hd, rfl⟩
  intro d hd
  rcases List.mem_append.1 hd with hd | hd
  · rcases List.mem_cons.1 hd with rfl | hd
    · exact hjoined c true (hleft c hc).1
    · obtain ⟨d, hmem, rfl⟩ := List.mem_map.1 hd
      exact hjoined d false (hleft d (List.mem_filter.1 hmem).1).1
  · obtain ⟨d, hmem, rfl⟩ := List.mem_map.1 hd
    exact hjoined d false (hright d hmem).1

theorem isDenotedBy_reference_iff (hc : c.qualifier.isSome = true) :
    d.isDenotedBy c.reference = true ↔ d.reference = c.reference := by
  rw [VisibleColumn.isDenotedBy, VisibleColumn.reference, VisibleColumn.reference,
    ← Option.not_isSome, hc, ColumnReference.mk.injEq, and_comm]
  simp

theorem resolve_of_isSelectedBy {name : ColumnReference → String} (h : scope.NamedBy name)
    {qualifier : Option String} {selected : List VisibleColumn}
    (hselected : scope.columns.filter (ProjectionList.isSelectedBy qualifier) = selected)
    (hdistinct : (selected.map (·.output)).Nodup) (hc : c ∈ selected) :
    scope.resolve c.reference = .ok c := by
  have hmem : ∀ d ∈ selected, d ∈ scope.columns := fun d hd =>
    (List.mem_filter.1 (hselected ▸ hd)).1
  have hqualified := (h c (hmem c hc)).1
  -- Whatever goes by the same reference is of the same source, so the star stands for it too.
  have hfilter : scope.columns.filter (·.isDenotedBy c.reference) =
      selected.filter (·.isDenotedBy c.reference) := by
    rw [← hselected, List.filter_filter]
    refine List.filter_congr fun d _ => (Bool.and_eq_left_iff_imp.2 fun hdenoted => ?_).symm
    have hsame := congrArg (·.qualifier) ((isDenotedBy_reference_iff hqualified).1 hdenoted)
    have hstar := (List.mem_filter.1 (hselected ▸ hc)).2
    rw [ProjectionList.isSelectedBy] at hstar ⊢
    exact (show d.qualifier = c.qualifier from hsame) ▸ hstar
  have hsame : ∀ d ∈ selected.filter (·.isDenotedBy c.reference), d = c := by
    intro d hd
    obtain ⟨hd, hdenoted⟩ := List.mem_filter.1 hd
    refine List.inj_on_of_nodup_map hdistinct hd hc ?_
    rw [(h d (hmem d hd)).2, (h c (hmem c hc)).2, (isDenotedBy_reference_iff hqualified).1 hdenoted]
  have honly : selected.filter (·.isDenotedBy c.reference) = [c] := by
    by_contra hne
    rcases ((hdistinct.of_map.filter _).ne_singleton_iff c).1 hne with hnone | ⟨d, hd, hne⟩
    · exact List.filter_eq_nil_iff.1 hnone c hc ((isDenotedBy_reference_iff hqualified).2 rfl)
    · exact hne (hsame d hd)
  rw [resolve_eq_ok_iff, hfilter, honly]

end Scope

namespace ScopedPlan

variable {left next : ScopedPlan}

theorem join_named {info : JoinClause} {added : QuerySource}
    (hleft : ∃ name, left.scope.NamedBy name) (h : left.join info added = .ok next) :
    next.scope.NamedBy Scope.joinedName := by
  obtain ⟨_, key, _, hkey, -, rfl⟩ := join_ok h
  obtain ⟨name, hname⟩ := hleft
  exact hname.joined (Scope.namedBy_ofSchema _ _) (Scope.mem_of_resolve hkey).1

theorem joinAll_named {sources : List QuerySource} {joins : List JoinClause}
    (hleft : ∃ name, left.scope.NamedBy name) (h : left.joinAll sources joins = .ok next) :
    ∃ name, next.scope.NamedBy name := by
  induction joins generalizing left with
  | nil => exact Except.ok.inj h ▸ hleft
  | cons info rest ih =>
    obtain ⟨added, joined, -, hjoined, h⟩ := joinAll_cons_ok h
    exact ih ⟨_, join_named hleft hjoined⟩ h

end ScopedPlan

/-! ### What grouping leaves to select -/

namespace Aggregation

variable {scope grouped : Scope} {a mid next : Aggregation} {e rest : Expression}

/-- The aggregation `next` has further calls, each with a column of its name. -/
structure Extends (a next : Aggregation) : Prop where
  calls : a.calls ⊆ next.calls
  columns : ∃ computed, next.columns = a.columns ++ computed ∧ (∀ c ∈ computed, c.isKey = false) ∧
    ∀ call ∈ next.calls, call ∈ a.calls ∨ ∃ type, .named call.name type false ∈ computed

theorem Extends.refl (a : Aggregation) : a.Extends a :=
  ⟨List.Subset.refl _, [], (List.append_nil _).symm, nofun, fun _ => .inl⟩

theorem Extends.trans (h : a.Extends mid) (h' : mid.Extends next) : a.Extends next := by
  obtain ⟨first, hfirst, hvalues, hcalls⟩ := h.columns
  obtain ⟨second, hsecond, hvalues', hcalls'⟩ := h'.columns
  refine ⟨List.Subset.trans h.calls h'.calls, first ++ second, ?_, ?_, fun call hcall => ?_⟩
  · rw [hsecond, hfirst, List.append_assoc]
  · exact List.forall_mem_append.2 ⟨hvalues, hvalues'⟩
  · rcases hcalls' call hcall with hmid | ⟨type, htype⟩
    · exact (hcalls call hmid).imp_right fun ⟨type, htype⟩ =>
        ⟨type, List.mem_append_left _ htype⟩
    · exact .inr ⟨type, List.mem_append_right _ htype⟩

theorem addCall_extends (a : Aggregation) (function : AggregateFunction)
    (argument : Option Expression) (type : DataType) :
    a.Extends (a.addCall function argument type).2 ∧
      ∃ call ∈ (a.addCall function argument type).2.calls,
        call.name = (a.addCall function argument type).1 := by
  unfold addCall
  split
  next call hcall => exact ⟨.refl a, call, List.mem_of_find?_eq_some hcall, rfl⟩
  next =>
    refine ⟨⟨List.subset_append_left _ _, _, rfl, ?_, fun call hcall => ?_⟩, _,
      List.mem_append_right _ (List.mem_singleton_self _), rfl⟩
    · exact List.forall_mem_singleton.2 rfl
    · refine (List.mem_append.1 hcall).imp_right fun hnew => ⟨type, ?_⟩
      obtain rfl := List.mem_singleton.1 hnew
      exact List.mem_singleton_self _

theorem extends_of_operands {left right : Expression}
    {make : Expression → Expression → Expression}
    (h : (do
      let (left, a) ← extract scope a left
      let (right, a) ← extract scope a right
      return (make left right, a)) = .ok (rest, next))
    (hleft : ∀ {a next : Aggregation} {rest : Expression},
      extract scope a left = .ok (rest, next) → a.Extends next)
    (hright : ∀ {a next : Aggregation} {rest : Expression},
      extract scope a right = .ok (rest, next) → a.Extends next) :
    a.Extends next := by
  obtain ⟨⟨_, _⟩, hfirst, h⟩ := bind_eq_ok_iff.1 h
  obtain ⟨⟨_, _⟩, hsecond, h⟩ := bind_eq_ok_iff.1 h
  cases h
  exact (hleft hfirst).trans (hright hsecond)

theorem extractList_extends {list rests : List Expression}
    (hlist : ∀ member ∈ list, ∀ {a next : Aggregation} {rest : Expression},
      extract scope a member = .ok (rest, next) → a.Extends next)
    (h : extractList scope a list = .ok (rests, next)) : a.Extends next := by
  induction list generalizing a rests with
  | nil =>
    cases h
    exact .refl _
  | cons member list ih =>
    rw [extractList] at h
    obtain ⟨⟨_, _⟩, hmember, h⟩ := bind_eq_ok_iff.1 h
    obtain ⟨⟨_, _⟩, hrest, h⟩ := bind_eq_ok_iff.1 h
    cases h
    obtain ⟨hhead, hlist⟩ := List.forall_mem_cons.1 hlist
    exact (hhead hmember).trans (ih hlist hrest)

theorem extract_extends (h : extract scope a e = .ok (rest, next)) : a.Extends next := by
  induction e generalizing a rest next with
  | column reference =>
    rw [extract] at h
    cases h
    exact .refl a
  | literal value =>
    rw [extract] at h
    cases h
    exact .refl a
  | comparison operator left right ihl ihr =>
    rw [extract] at h
    exact extends_of_operands h ihl ihr
  | and left right ihl ihr =>
    rw [extract] at h
    exact extends_of_operands h ihl ihr
  | or left right ihl ihr =>
    rw [extract] at h
    exact extends_of_operands h ihl ihr
  | not operand ih =>
    rw [extract] at h
    obtain ⟨⟨_, _⟩, hoperand, h⟩ := bind_eq_ok_iff.1 h
    cases h
    exact ih hoperand
  | inList operand list ih ihs =>
    rw [extract] at h
    obtain ⟨⟨_, _⟩, hoperand, h⟩ := bind_eq_ok_iff.1 h
    obtain ⟨⟨_, _⟩, hlist, h⟩ := bind_eq_ok_iff.1 h
    cases h
    exact (ih hoperand).trans (extractList_extends ihs hlist)
  | aggregate function argument ih =>
    rw [extract] at h
    obtain ⟨type, -, h⟩ := bind_eq_ok_iff.1 h
    cases h
    exact (addCall_extends a function (some argument) type).1
  | aggregateRows function =>
    rw [extract] at h
    obtain ⟨type, -, h⟩ := bind_eq_ok_iff.1 h
    cases h
    exact (addCall_extends a function none type).1

/-- Every call has a column of its name in scope, which is no key. -/
def ComputedIn (a : Aggregation) (grouped : Scope) : Prop :=
  ∀ call ∈ a.calls, ∃ type, .named call.name type false ∈ grouped.columns

theorem repeated_call {call : AggregateCall} {aliasName : Option String}
    (hcomputed : a.ComputedIn grouped) (hcall : call ∈ a.calls) :
    ((SelectItem.expression (.named call.name) aliasName).repeated grouped).filter (·.isKey) =
      [] := by
  obtain ⟨type, htype⟩ := hcomputed call hcall
  refine List.filter_eq_nil_iff.2 fun c hc => ?_
  obtain ⟨_, heq, hresolve⟩ := Scope.repeated?_eq_some_iff.1 (Option.mem_toList.1 hc)
  cases heq
  have hdenoted : (VisibleColumn.named call.name type false).isDenotedBy ⟨none, call.name⟩ := by
    simp [VisibleColumn.isDenotedBy, VisibleColumn.named]
  obtain rfl := Scope.eq_of_resolve hresolve htype hdenoted
  exact Bool.false_ne_true

theorem repeated_extract {aliasName : Option String} (h : extract scope a e = .ok (rest, next))
    (hcomputed : next.ComputedIn grouped) :
    ((SelectItem.expression rest aliasName).repeated grouped).filter (·.isKey) =
      ((SelectItem.expression e aliasName).repeated grouped).filter (·.isKey) := by
  cases e with
  | column reference =>
    rw [extract] at h
    cases h
    rfl
  | literal value =>
    rw [extract] at h
    cases h
    rfl
  | aggregate function argument =>
    rw [extract] at h
    obtain ⟨type, -, h⟩ := bind_eq_ok_iff.1 h
    cases h
    obtain ⟨-, call, hcall, hname⟩ := addCall_extends a function (some argument) type
    exact hname ▸ repeated_call hcomputed hcall
  | aggregateRows function =>
    rw [extract] at h
    obtain ⟨type, -, h⟩ := bind_eq_ok_iff.1 h
    cases h
    obtain ⟨-, call, hcall, hname⟩ := addCall_extends a function none type
    exact hname ▸ repeated_call hcomputed hcall
  | not operand =>
    rw [extract] at h
    obtain ⟨⟨_, _⟩, -, h⟩ := bind_eq_ok_iff.1 h
    cases h
    rfl
  | _ =>
    rw [extract] at h
    obtain ⟨⟨_, _⟩, -, h⟩ := bind_eq_ok_iff.1 h
    obtain ⟨⟨_, _⟩, -, h⟩ := bind_eq_ok_iff.1 h
    cases h
    rfl

theorem extractItems_ok (grouped : Scope) {items rests : List SelectItem}
    (h : extractItems scope a items = .ok (rests, next)) :
    a.Extends next ∧ (∀ qualifier, .star qualifier ∉ rests) ∧ (next.ComputedIn grouped →
      (rests.flatMap (·.repeated grouped)).filter (·.isKey) =
        (items.flatMap (·.repeated grouped)).filter (·.isKey)) := by
  induction items generalizing a rests with
  | nil =>
    cases h
    exact ⟨.refl _, fun _ => List.not_mem_nil, fun _ => rfl⟩
  | cons item items ih =>
    cases item with
    | star qualifier => cases h
    | expression e aliasName =>
      obtain ⟨⟨rest, mid⟩, hitem, h⟩ := bind_eq_ok_iff.1 h
      obtain ⟨⟨_, _⟩, hitems, h⟩ := bind_eq_ok_iff.1 h
      cases h
      obtain ⟨hextends, hplain, hkept⟩ := ih hitems
      refine ⟨(extract_extends hitem).trans hextends, fun q hstar => ?_, fun hcomputed => ?_⟩
      · rcases List.mem_cons.1 hstar with hstar | hstar
        · cases hstar
        · exact hplain q hstar
      · have hmid : mid.ComputedIn grouped := fun call hcall =>
          hcomputed call (hextends.calls hcall)
        rw [List.flatMap_cons, List.flatMap_cons, List.filter_append, List.filter_append,
          hkept hcomputed, repeated_extract hitem hmid]

end Aggregation

/-! ### The rows that the selection reads -/

theorem Aggregation.groupingColumn_isKey {scope : Scope} {e : Expression}
    {column : ColumnReference × VisibleColumn} (h : groupingColumn scope e = .ok column) :
    column.2.isKey = true := by
  cases e with
  | column reference =>
    obtain ⟨c, -, h⟩ := bind_eq_ok_iff.1 h
    cases h
    rfl
  | _ => cases h

namespace ScopedPlan

variable {input next : ScopedPlan} {groupBy : List Expression} {select rest : List SelectItem}

theorem aggregate_ok (h : input.aggregate groupBy select = .ok (next, rest)) :
    (∃ grouping, groupBy.mapM (Aggregation.groupingColumn input.scope) = .ok grouping ∧
        next.scope.keys = grouping.map (·.2)) ∧
      (∀ qualifier, .star qualifier ∉ rest) ∧
      (rest.flatMap (·.repeated next.scope)).filter (·.isKey) =
        (select.flatMap (·.repeated next.scope)).filter (·.isKey) := by
  obtain ⟨grouping, hgrouping, h⟩ := bind_eq_ok_iff.1 h
  obtain ⟨⟨items, found⟩, hitems, h⟩ := bind_eq_ok_iff.1 h
  obtain ⟨_, -, h⟩ := bind_eq_ok_iff.1 h
  cases h
  obtain ⟨hextends, hplain, hkept⟩ := Aggregation.extractItems_ok ⟨found.columns⟩ hitems
  obtain ⟨computed, hcolumns, hvalues, hcalls⟩ := hextends.columns
  refine ⟨⟨grouping, hgrouping, ?_⟩, hplain, hkept fun call hcall => ?_⟩
  · have hgrouped : ∀ c ∈ grouping.map (·.2), c.isKey = true := by
      intro c hc
      obtain ⟨column, hcolumn, rfl⟩ := List.mem_map.1 hc
      obtain ⟨e, -, he⟩ := exists_of_mem_mapM hgrouping hcolumn
      exact Aggregation.groupingColumn_isKey he
    have hnone : computed.filter (·.isKey) = [] :=
      List.filter_eq_nil_iff.2 fun c hc => by simp [hvalues c hc]
    rw [Scope.keys, hcolumns, List.filter_append, List.filter_eq_self.2 hgrouped, hnone,
      List.append_nil]
  · obtain ⟨type, htype⟩ := (hcalls call hcall).resolve_left List.not_mem_nil
    exact ⟨type, show _ ∈ found.columns from hcolumns ▸ List.mem_append_right _ htype⟩

theorem addFilter_scope {filter : Option Expression}
    (h : Analysis.addFilter input filter = .ok next) : next.scope = input.scope := by
  cases filter with
  | none =>
    cases h
    rfl
  | some predicate =>
    obtain ⟨_, -, h⟩ := bind_eq_ok_iff.1 h
    cases h
    rfl

end ScopedPlan

namespace Analysis

variable {a : Analysis} {catalog : Catalog} {config : Settings} {logical : LogicalPlan}
  {input : ScopedPlan} {select : List SelectItem}

theorem joined_named (h : a.joined = .ok input) : ∃ name, input.scope.NamedBy name := by
  unfold joined at h
  split at h
  · cases h
  next first _ _ => exact ScopedPlan.joinAll_named ⟨_, Scope.namedBy_ofSchema _ _⟩ h

/-- The rows that the selection reads have the key of the joined rows, or that of the grouping
columns, all of them. -/
theorem selected_keys (h : a.selected = .ok (input, select)) :
    ∃ joined, a.joined = .ok joined ∧
      (a.groupBy = [] → input.scope.keys = joined.scope.keys) ∧
      (a.groupBy ≠ [] → ∃ grouping,
        a.groupBy.mapM (Aggregation.groupingColumn joined.scope) = .ok grouping ∧
          input.scope.keys = grouping.map (·.2)) := by
  obtain ⟨joined, hjoined, h⟩ := bind_eq_ok_iff.1 h
  obtain ⟨filtered, hfiltered, h⟩ := bind_eq_ok_iff.1 h
  have hscope := ScopedPlan.addFilter_scope hfiltered
  refine ⟨joined, hjoined, ?_⟩
  unfold addAggregation at h
  split at h
  next hgrouped =>
    obtain ⟨hkeys, -, -⟩ := ScopedPlan.aggregate_ok h
    exact ⟨fun hnone => by simp [hnone] at hgrouped, fun _ => hscope ▸ hkeys⟩
  next hplain =>
    refine ⟨fun _ => ?_, fun hgrouped => by simp [hgrouped] at hplain⟩
    split at h
    · cases h
    · cases h
      rw [hscope]

theorem selected_ok (h : a.selected = .ok (input, select)) :
    (∀ qualifier, .star qualifier ∈ select → ∃ name, input.scope.NamedBy name) ∧
      (select.flatMap (·.repeated input.scope)).filter (·.isKey) =
        (a.select.flatMap (·.repeated input.scope)).filter (·.isKey) := by
  obtain ⟨joined, hjoined, h⟩ := bind_eq_ok_iff.1 h
  obtain ⟨filtered, hfiltered, h⟩ := bind_eq_ok_iff.1 h
  unfold addAggregation at h
  split at h
  · obtain ⟨-, hplain, hkept⟩ := ScopedPlan.aggregate_ok h
    exact ⟨fun q hstar => absurd hstar (hplain q), hkept⟩
  · split at h
    · cases h
    · cases h
      exact ⟨fun _ _ => ScopedPlan.addFilter_scope hfiltered ▸ joined_named hjoined, rfl⟩

theorem plan_selected (h : a.plan catalog config = .ok logical) :
    ∃ input select list, a.selected = .ok (input, select) ∧
      select.foldlM (ProjectionList.pushItem input.scope) {} = .ok list ∧
        logical.Projects list := by
  obtain @⟨first, rest, joined, filtered, aggregated, select, projected, output, -, hsources,
    hjoined, hfiltered, haggregated, hprojected, -, -⟩ := plan_eq_ok_iff.1 h
  obtain ⟨list, hlist, heq⟩ := bind_eq_ok_iff.1 hprojected
  cases heq
  refine ⟨aggregated, select, list, ?_, hlist, _, rfl, rfl⟩
  refine bind_eq_ok_iff.2 ⟨joined, ?_, bind_eq_ok_iff.2 ⟨filtered, hfiltered, haggregated⟩⟩
  unfold Analysis.joined
  rw [hsources] at hjoined ⊢
  exact hjoined

end Analysis

end StreamSql
