import StreamSql.Engine.Pull
import StreamSql.Proofs.Query.Destination
import StreamSql.Proofs.Query.Selection

/-!
# The key of a result

The key of a result is made of the key columns that the selected items repeat, in the order of the
items (`Query.keySources_eq`). A table has to have a key, but not the whole key of the rows that it
is selected from: rows with different keys have different keys in the result exactly if every key
column is repeated by an item (`Query.table_key_whole_iff`).
-/

namespace StreamSql

/-- The key of a row, which has a value for every column in scope. -/
def Scope.keyOf (scope : Scope) (row : VisibleColumn → Value) : List Value := scope.keys.map row

namespace LogicalPlan

/-- What stands behind each key column of the result: the column in scope that the projection of its
name repeats. -/
def keySources (logical : LogicalPlan) (scope : Scope) : List (Option VisibleColumn) :=
  logical.schema.keyColumns.map fun column =>
    (logical.root.projections.find? (·.name == column.name)).bind (scope.repeated? ·.expression)

/-- The key that a row has in the result. -/
def keyOf (logical : LogicalPlan) (scope : Scope) (row : VisibleColumn → Value) :
    List (Option Value) :=
  (logical.keySources scope).map (Option.map row)

end LogicalPlan

/-! ### The keys that a selection makes -/

namespace ProjectionList

variable {list next : ProjectionList} {scope : Scope}

/-- The column in scope behind each key column that has been made. -/
def keySources (list : ProjectionList) (scope : Scope) : List (Option VisibleColumn) :=
  (list.columns.filter (·.isKey)).map fun c =>
    (list.projections.find? (·.name == c.output)).bind (scope.repeated? ·.expression)

theorem keySources_push {name : String} {e : Expression} {type : DataType} {isKey : Bool}
    (h : list.Sound) (hpush : list.push name e type isKey = .ok next) :
    next.keySources scope =
      list.keySources scope ++ if isKey then [scope.repeated? e] else [] := by
  unfold ProjectionList.push at hpush
  split at hpush
  · cases hpush
  next hnew =>
    obtain rfl := Except.ok.inj hpush
    have hold : ∀ c ∈ list.columns.filter (·.isKey),
        (list.projections ++ [Projection.mk name e]).find? (·.name == c.output) =
          list.projections.find? (·.name == c.output) := by
      intro c hc
      have hthere : c.output ∈ list.projections.map (·.name) :=
        h.names ▸ List.mem_map_of_mem (List.mem_filter.1 hc).1
      obtain ⟨p, hp, hname⟩ := List.mem_map.1 hthere
      rw [List.find?_append, Option.or_of_isSome]
      exact List.find?_isSome.2 ⟨p, hp, beq_iff_eq.2 hname⟩
    have hfresh : list.projections.find? (·.name == name) = none := by
      refine List.find?_eq_none.2 fun p hp hname => hnew ?_
      obtain rfl := beq_iff_eq.1 hname
      have hthere : p.name ∈ list.columns.map (·.output) := h.names ▸ List.mem_map_of_mem hp
      obtain ⟨c, hc, hcname⟩ := List.mem_map.1 hthere
      exact List.any_eq_true.2 ⟨c, hc, beq_iff_eq.2 ((h.plain c hc).trans hcname)⟩
    have hsources : ((list.columns.filter (·.isKey)).map fun c =>
        ((list.projections ++ [Projection.mk name e]).find? (·.name == c.output)).bind
          (scope.repeated? ·.expression)) = list.keySources scope :=
      List.map_congr_left fun c hc => by rw [hold c hc]
    rw [keySources, List.filter_append, List.map_append, hsources]
    cases isKey with
    | false => rfl
    | true => simp [VisibleColumn.named, hfresh]

theorem columns_push {name : String} {e : Expression} {type : DataType} {isKey : Bool}
    (hpush : list.push name e type isKey = .ok next) :
    next.columns = list.columns ++ [.named name type isKey] := by
  unfold ProjectionList.push at hpush
  split at hpush
  · cases hpush
  · exact Except.ok.inj hpush ▸ rfl

theorem keySources_pushColumns (scope : Scope) {columns : List VisibleColumn} (h : list.Sound)
    (hpush : columns.foldlM pushColumn list = .ok next) :
    next.columns.map (·.output) = list.columns.map (·.output) ++ columns.map (·.output) ∧
      next.keySources scope = list.keySources scope ++
        (columns.filter (·.isKey)).map fun c => scope.repeated? (.column c.reference) := by
  induction columns generalizing list with
  | nil =>
    obtain rfl := Except.ok.inj hpush
    simp
  | cons c rest ih =>
    rw [List.foldlM_cons] at hpush
    obtain ⟨mid, hmid, hpush⟩ := bind_eq_ok_iff.1 hpush
    obtain ⟨hcolumns, hsources⟩ := ih (h.push hmid) hpush
    rw [hcolumns, hsources, columns_push hmid, keySources_push h hmid]
    constructor
    · simp [VisibleColumn.named]
    · cases hkey : c.isKey with
      | false => simp [hkey]
      | true => simp [hkey]

theorem keySources_pushItem {item : SelectItem} (h : list.Sound)
    (hscope : ∀ qualifier, item = .star qualifier → ∃ name, scope.NamedBy name)
    (hpush : list.pushItem scope item = .ok next) :
    next.keySources scope =
      list.keySources scope ++ ((item.repeated scope).filter (·.isKey)).map some := by
  cases item with
  | star qualifier =>
    obtain ⟨name, hname⟩ := hscope qualifier rfl
    obtain ⟨hcolumns, hsources⟩ := keySources_pushColumns scope h hpush
    have hdistinct := (h.pushItem hpush).distinct_output
    rw [hcolumns] at hdistinct
    rw [hsources]
    refine congrArg _ (List.map_congr_left fun c hc => ?_)
    have hresolve := Scope.resolve_of_isSelectedBy hname rfl hdistinct.of_append_right
      (List.mem_filter.1 hc).1
    exact Scope.repeated?_eq_some_iff.2 ⟨_, rfl, hresolve⟩
  | expression e aliasName =>
    unfold ProjectionList.pushItem at hpush
    obtain ⟨type, htype, hpush⟩ := bind_eq_ok_iff.1 hpush
    cases e with
    | column reference =>
      obtain ⟨c, hc, hpush⟩ := bind_eq_ok_iff.1 hpush
      have hrepeated : scope.repeated? (.column reference) = some c :=
        Scope.repeated?_eq_some_iff.2 ⟨_, rfl, hc⟩
      rw [keySources_push h hpush, SelectItem.repeated, hrepeated]
      cases hkey : c.isKey with
      | false => simp [hkey]
      | true => simp [hkey]
    | _ =>
      have hsound : Sound { list with generated := list.generated + 1 } :=
        ⟨h.names, h.distinct, h.plain⟩
      exact keySources_push hsound hpush

theorem keySources_of_select {select : List SelectItem} (h : list.Sound)
    (hscope : ∀ qualifier, .star qualifier ∈ select → ∃ name, scope.NamedBy name)
    (hselect : select.foldlM (ProjectionList.pushItem scope) list = .ok next) :
    next.keySources scope = list.keySources scope ++
      ((select.flatMap (·.repeated scope)).filter (·.isKey)).map some := by
  induction select generalizing list with
  | nil =>
    obtain rfl := Except.ok.inj hselect
    simp
  | cons item rest ih =>
    rw [List.foldlM_cons] at hselect
    obtain ⟨mid, hmid, hselect⟩ := bind_eq_ok_iff.1 hselect
    have hitem := keySources_pushItem h (fun q hq => hscope q (hq ▸ List.mem_cons_self)) hmid
    rw [ih (h.pushItem hmid) (fun q hq => hscope q (List.mem_cons_of_mem _ hq)) hselect, hitem,
      List.flatMap_cons, List.filter_append, List.map_append, List.append_assoc]

end ProjectionList

/-! ### The key of a plan -/

theorem LogicalPlan.Projects.keySources {logical : LogicalPlan} {list : ProjectionList}
    (h : logical.Projects list) (scope : Scope) :
    logical.keySources scope = list.keySources scope := by
  obtain ⟨node, hroot, hschema⟩ := h
  have hnames := Scope.schema_keyNames ⟨list.columns⟩
  have hmap := congrArg (List.map fun name =>
    (list.projections.find? (·.name == name)).bind (scope.repeated? ·.expression)) hnames
  rw [List.map_map, List.map_map] at hmap
  rw [LogicalPlan.keySources, hroot, hschema]
  exact hmap

/-- **The key of a result** is made of the key columns that the selected items repeat. -/
theorem Query.keySources_eq {query : Query} {into : Option Sink} {catalog : Catalog}
    {config : Settings} {logical : LogicalPlan} (h : query.plan into catalog config = .ok logical) :
    ∃ a input select, Analysis.ofQuery catalog query into = .ok a ∧
      a.selected = .ok (input, select) ∧ logical.keySources input.scope =
        ((query.select.flatMap (·.repeated input.scope)).filter (·.isKey)).map some := by
  obtain ⟨a, ha, h⟩ := bind_eq_ok_iff.1 h
  obtain ⟨input, select, list, hselected, hlist, hprojects⟩ := Analysis.plan_selected h
  obtain ⟨hstar, hkept⟩ := Analysis.selected_ok hselected
  refine ⟨a, input, select, ha, hselected, ?_⟩
  have hsources := ProjectionList.keySources_of_select ProjectionList.sound_empty hstar hlist
  rw [hprojects.keySources, hsources, hkept, Analysis.ofQuery_select ha]
  rfl

theorem Query.table_isKeyed {query : Query} {sink : Sink} {catalog : Catalog} {config : Settings}
    {logical : LogicalPlan} (h : query.plan (some sink) catalog config = .ok logical)
    (hkind : logical.kind = .table) : logical.schema.isKeyed = true := by
  obtain ⟨a, ha, h⟩ := bind_eq_ok_iff.1 h
  obtain @⟨first, rest, joined, filtered, aggregated, select, projected, output, -, hsources,
    hjoined, hfiltered, haggregated, hprojected, houtput, -⟩ := Analysis.plan_eq_ok_iff.1 h
  unfold Analysis.output at houtput
  rw [Analysis.ofQuery_into ha] at houtput
  obtain ⟨hkeyed, -⟩ := guarded_eq_ok_iff.1 houtput
  simpa [show projected.node.outputKind = .table from hkind] using hkeyed

theorem Schema.exists_keyColumn {s : Schema} (h : s.isKeyed = true) : ∃ c, c ∈ s.keyColumns := by
  obtain ⟨c, hc, hkey⟩ := List.any_eq_true.1 h
  exact ⟨c, List.mem_filter.2 ⟨hc, hkey⟩⟩

/-- Rows with different keys have different keys in the result exactly if that key is made of all
key columns. -/
theorem LogicalPlan.keyOf_injective_iff {logical : LogicalPlan} {scope : Scope} :
    (∀ row other, logical.keyOf scope row = logical.keyOf scope other →
        scope.keyOf row = scope.keyOf other) ↔
      ∀ key ∈ scope.keys, some key ∈ logical.keySources scope := by
  constructor
  · intro h key hkey
    by_contra hlost
    -- Two rows that differ in this column only.
    let row : VisibleColumn → Value := fun _ => .null
    let other : VisibleColumn → Value := fun c => if c = key then .boolean true else .null
    have hsame : logical.keyOf scope row = logical.keyOf scope other := by
      refine List.map_congr_left fun source hsource => ?_
      cases source with
      | none => rfl
      | some c =>
        have hne : c ≠ key := fun heq => hlost (heq ▸ hsource)
        exact congrArg some (if_neg hne).symm
    have hvalue : Value.null = other key := List.map_inj_left.1 (h row other hsame) key hkey
    rw [show other key = .boolean true from if_pos rfl] at hvalue
    cases hvalue
  · intro h row other hsame
    refine List.map_congr_left fun key hkey => ?_
    exact Option.some.inj (List.map_inj_left.1 hsame (some key) (h key hkey))

/-- **The whole key.** The rows that a table is selected from have the key of the joined sources or,
where they are grouped, that of all grouping columns. A table that is written somewhere has a key,
made of key columns of those rows. Rows with different keys have different keys in the table exactly
if the key of the table is made of all key columns; and this is so exactly if every key column is
repeated by an item of the selection, as it always is where there is only one. -/
theorem Query.table_key_whole_iff {query : Query} {sink : Sink} {catalog : Catalog}
    {config : Settings} {logical : LogicalPlan}
    (h : query.plan (some sink) catalog config = .ok logical) (hkind : logical.kind = .table) :
    ∃ a joined input select, Analysis.ofQuery catalog query (some sink) = .ok a ∧
      a.joined = .ok joined ∧ a.selected = .ok (input, select) ∧
      (query.groupBy = [] → input.scope.keys = joined.scope.keys) ∧
      (query.groupBy ≠ [] → ∃ grouping,
        query.groupBy.mapM (Aggregation.groupingColumn joined.scope) = .ok grouping ∧
          input.scope.keys = grouping.map (·.2)) ∧
      logical.schema.isKeyed = true ∧
      (∀ source ∈ logical.keySources input.scope, ∃ key ∈ input.scope.keys, source = some key) ∧
      ((∀ row other, logical.keyOf input.scope row = logical.keyOf input.scope other →
          input.scope.keyOf row = input.scope.keyOf other) ↔
        ∀ key ∈ input.scope.keys, some key ∈ logical.keySources input.scope) ∧
      ((∀ key ∈ input.scope.keys, some key ∈ logical.keySources input.scope) ↔
        ∀ key ∈ input.scope.keys, ∃ item ∈ query.select, key ∈ item.repeated input.scope) ∧
      ∀ key, input.scope.keys = [key] → some key ∈ logical.keySources input.scope := by
  obtain ⟨a, input, select, ha, hselected, hsources⟩ := Query.keySources_eq h
  obtain ⟨joined, hjoined, hplain, hgrouped⟩ := Analysis.selected_keys hselected
  have hgroupBy := Analysis.ofQuery_groupBy ha
  have hkeyed := Query.table_isKeyed h hkind
  have hmade : ∀ source ∈ logical.keySources input.scope,
      ∃ key ∈ input.scope.keys, source = some key := by
    intro source hsource
    rw [hsources] at hsource
    obtain ⟨key, hkey, rfl⟩ := List.mem_map.1 hsource
    obtain ⟨hitems, hkey⟩ := List.mem_filter.1 hkey
    obtain ⟨item, -, hitem⟩ := List.mem_flatMap.1 hitems
    exact ⟨key, List.mem_filter.2 ⟨item.repeated_subset input.scope hitem, hkey⟩, rfl⟩
  refine ⟨a, joined, input, select, ha, hjoined, hselected, hgroupBy ▸ hplain, hgroupBy ▸ hgrouped,
    hkeyed, hmade, LogicalPlan.keyOf_injective_iff, ?_, ?_⟩
  · refine forall₂_congr fun key hkey => ?_
    have hkey : key.isKey = true := (List.mem_filter.1 hkey).2
    simp [hsources, hkey]
  · intro key hsole
    obtain ⟨c, hc⟩ := Schema.exists_keyColumn hkeyed
    obtain ⟨only, honly, heq⟩ := hmade _ (List.mem_map_of_mem hc)
    rw [hsole, List.mem_singleton] at honly
    subst honly
    rw [← heq]
    exact List.mem_map_of_mem hc

namespace Sample

/-- A table of orders, each with the shop that it was made in and its number there. -/
def orders : Source where
  name := ⟨"ORDERS"⟩
  kind := .table
  schema := ((Schema.empty.addKey "SHOP" .int8).addKey "NUMBER" .int8).addValue "TOTAL" .int8
  keyFormat := .kafka
  valueFormat := .json
  topic := "ORDERS"
  statement := "CREATE TABLE ORDERS ...;"
  isQuerySink := false

def ordersCatalog : Catalog := ⟨.ofList [(orders.name, orders)], .empty⟩

/-- `SELECT column, ... FROM ORDERS`. -/
def selectOrders (columns : List String) : Query :=
  { Query.selectAll (.source orders.name none) with
    select := columns.map fun name => .expression (.named name) none }

/-- The table that the selected orders are written into. -/
def selectedOrders : Sink := ⟨⟨"SELECTED"⟩, true, false, {}⟩

end Sample

/-- With the shop and the number selected, different orders stay different. -/
theorem Query.orders_with_whole_key :
    let query := Sample.selectOrders ["NUMBER", "TOTAL", "SHOP"]
    ∃ logical a joined input select,
      query.plan (some Sample.selectedOrders) Sample.ordersCatalog {} = .ok logical ∧
      logical.kind = .table ∧
      Analysis.ofQuery Sample.ordersCatalog query (some Sample.selectedOrders) = .ok a ∧
      a.joined = .ok joined ∧ a.selected = .ok (input, select) ∧
      input.scope.keys = joined.scope.keys ∧
      input.scope.keys.map (·.name) = ["SHOP", "NUMBER"] ∧
      ∀ row other, logical.keyOf input.scope row = logical.keyOf input.scope other →
        input.scope.keyOf row = input.scope.keyOf other := by
  intro query
  obtain ⟨logical, hplan, hkind⟩ : ∃ logical,
      query.plan (some Sample.selectedOrders) Sample.ordersCatalog {} = .ok logical ∧
        logical.kind = .table := ⟨_, rfl, rfl⟩
  obtain ⟨a, joined, input, select, ha, hjoined, hselected, hplain, -, -, -, hwhole, hitems, -⟩ :=
    Query.table_key_whole_iff hplan hkind
  refine ⟨logical, a, joined, input, select, hplan, hkind, ha, hjoined, hselected, hplain rfl, ?_,
    hwhole.2 (hitems.2 ?_)⟩
  · cases ha
    cases hselected
    rfl
  · cases ha
    cases hselected
    decide

/-- With the number selected alone, two orders of different shops have the same key, and the table
holds only one of them. -/
theorem Query.orders_of_two_shops :
    let query := Sample.selectOrders ["NUMBER", "TOTAL"]
    ∃ logical a input select,
      query.plan (some Sample.selectedOrders) Sample.ordersCatalog {} = .ok logical ∧
      logical.kind = .table ∧
      Analysis.ofQuery Sample.ordersCatalog query (some Sample.selectedOrders) = .ok a ∧
      a.selected = .ok (input, select) ∧
      let order (shop : Int64) (c : VisibleColumn) : Value :=
        if c.name = "SHOP" then .int8 shop else .int8 7
      logical.keyOf input.scope (order 1) = logical.keyOf input.scope (order 2) ∧
        input.scope.keyOf (order 1) ≠ input.scope.keyOf (order 2) :=
  ⟨_, _, _, _, rfl, rfl, rfl, rfl, by decide, by decide⟩

end StreamSql
