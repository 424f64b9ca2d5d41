import StreamSql.Engine.Pull
import StreamSql.Sample
import StreamSql.Proofs.Materialization
import StreamSql.Proofs.Query.Projection

/-!
# The rows of a pull query and its schema

A pull query is planned by the planner, bound to the state of its source, and its partitions are
located (`Engine.planPull_eq_ok_iff`). The values of a result row come in the order of the
selection, and the schema of the result in an order of its own, with the keys in front. Both are the
same order exactly where the key columns are selected before the others (`Engine.pull_rows`), and
then every value stands under the column it was selected for. `SELECT NAME, ID` puts the name under
the column of the key (`Engine.name_under_key`).
-/

namespace StreamSql

namespace PullPlan

variable {plan : PullPlan} {stored row : Row} {rows : List Row} {partition : PartitionId}

/-- Whether a name is that of a key column of the result. -/
def isKeyName (plan : PullPlan) (name : String) : Bool :=
  decide (name ∈ plan.schema.keyColumns.map (·.name))

/-- The key columns of the result are selected before the others. -/
def KeysSelectedFirst (plan : PullPlan) : Prop :=
  (plan.projections.map (·.name)).Pairwise fun a b => plan.isKeyName b → plan.isKeyName a

/-- The columns of the result are named in the order of the selection. -/
def NamedInOrder (plan : PullPlan) : Prop :=
  plan.schema.columns.map (·.name) = plan.projections.map (·.name)

/-- A result row has the values of the projections on a stored row, in the order of the
selection. -/
def SelectedFrom (plan : PullPlan) (stored row : Row) : Prop :=
  List.Forall₂ (fun p v => p.expression.evaluate plan.materialization.schema stored = .ok v)
    plan.projections row.values

/-- A result row has one value for every column of the result, and in the place of every column the
value, on a stored row, of the projection of the same name. -/
structure LinesUp (plan : PullPlan) (stored row : Row) : Prop where
  width : row.width = plan.schema.size
  values : ∀ (i : Nat) (column : Column), plan.schema.columns[i]? = some column →
    ∃ p ∈ plan.projections, p.name = column.name ∧ ∃ v, row.get? i = some v ∧
      p.expression.evaluate plan.materialization.schema stored = .ok v

theorem project_ok (h : plan.project stored = .ok row) :
    (plan.projections = [] → row = stored) ∧
      (plan.projections ≠ [] → plan.SelectedFrom stored row) := by
  unfold project at h
  split at h
  next hnone =>
    rw [List.isEmpty_iff] at hnone
    exact ⟨fun _ => (Except.ok.inj h).symm, fun hsome => absurd hnone hsome⟩
  next hsome =>
    rw [List.isEmpty_iff] at hsome
    obtain ⟨values, hvalues, h⟩ := bind_eq_ok_iff.1 h
    obtain rfl := Except.ok.inj h
    exact ⟨fun hnone => absurd hnone hsome, fun _ => mapM_eq_ok_iff.1 hvalues⟩

theorem answerRow_ok (h : plan.answerRow stored = .ok (some row)) :
    plan.admits stored = .ok true ∧ plan.project stored = .ok row := by
  obtain ⟨admitted, hadmits, h⟩ := bind_eq_ok_iff.1 h
  cases admitted with
  | false => cases h
  | true =>
    obtain ⟨projected, hproject, h⟩ := bind_eq_ok_iff.1 h
    cases h
    exact ⟨hadmits, hproject⟩

theorem exists_stored (h : plan.execute partition = .ok rows) (hrow : row ∈ rows) :
    ∃ found, plan.candidates partition = .ok found ∧ ∃ stored ∈ found,
      plan.admits stored = .ok true ∧ plan.project stored = .ok row := by
  obtain ⟨found, hfound, h⟩ := bind_eq_ok_iff.1 h
  obtain ⟨answers, hanswers, h⟩ := bind_eq_ok_iff.1 h
  obtain rfl := Except.ok.inj h
  obtain ⟨answer, hanswer, hrow⟩ := List.mem_flatMap.1 hrow
  obtain ⟨stored, hstored, hok⟩ := exists_of_mem_mapM (reported_eq_ok_iff.1 hanswers) hanswer
  rw [Option.mem_toList] at hrow
  exact ⟨found, reported_eq_ok_iff.1 hfound, stored, hstored, answerRow_ok (hrow ▸ hok)⟩

theorem NamedInOrder.linesUp (hnames : plan.NamedInOrder) (h : plan.SelectedFrom stored row) :
    plan.LinesUp stored row := by
  have hlength : plan.schema.columns.length = plan.projections.length := by
    simpa using congrArg List.length hnames
  refine ⟨(h.length_eq.symm.trans hlength.symm), fun i column hcolumn => ?_⟩
  obtain ⟨hi, rfl⟩ := List.getElem?_eq_some_iff.1 hcolumn
  have hprojection : i < plan.projections.length := hlength ▸ hi
  have hvalue : i < row.values.length := h.length_eq ▸ hprojection
  refine ⟨plan.projections[i], List.getElem_mem hprojection, ?_, row.values[i],
    List.getElem?_eq_getElem hvalue, h.get hprojection hvalue⟩
  have hname := congrArg (·[i]?) hnames
  simpa [List.getElem?_eq_getElem hi, List.getElem?_eq_getElem hprojection] using hname.symm

theorem bind_ok {logical : LogicalPlan} {registry : Registry} {id : QueryId}
    (h : bind logical registry id = .ok plan) :
    plan.schema = logical.schema ∧ plan.projections = logical.root.projections ∧
      plan.predicate = logical.root.predicate? ∧
      KeyLookup.ofFilter plan.predicate plan.materialization.schema = .ok plan.lookup := by
  unfold bind at h
  split at h
  · cases h
  · obtain ⟨query, -, h⟩ := bind_eq_ok_iff.1 h
    split at h
    · cases h
    · split at h
      · cases h
      · obtain ⟨lookup, hlookup, h⟩ := bind_eq_ok_iff.1 h
        obtain rfl := Except.ok.inj h
        exact ⟨rfl, rfl, rfl, reported_eq_ok_iff.1 hlookup⟩

end PullPlan

namespace Engine

variable {engine : Engine} {config : Settings} {query : Query} {token : String} {plan : PullPlan}
  {locations : List PartitionLocation}

/-- The planner accepts a pull query. -/
def AcceptsPull (engine : Engine) (config : Settings) (query : Query) (logical : LogicalPlan) :
    Prop :=
  query.isPull = true ∧ ∃ a, Analysis.ofQuery engine.catalog query none = .ok a ∧
    a.unqualified.plan engine.catalog config = .ok logical

/-- A pull query that the planner accepts is bound to its state, and its partitions are located. -/
theorem planPull_eq_ok_iff : engine.planPull config query token = .ok (plan, locations) ↔
    ∃ logical, engine.AcceptsPull config query logical ∧
      PullPlan.bind logical engine.registry (.ofPull token) = .ok plan ∧
      ∃ ids, plan.partitions = .ok ids ∧ locations = engine.placement.locate ids := by
  constructor
  · intro h
    unfold planPull at h
    split at h
    · cases h
    next hpull =>
      obtain ⟨a, ha, h⟩ := bind_eq_ok_iff.1 h
      obtain ⟨logical, hlogical, h⟩ := bind_eq_ok_iff.1 h
      obtain ⟨bound, hbound, h⟩ := bind_eq_ok_iff.1 h
      obtain ⟨ids, hids, h⟩ := bind_eq_ok_iff.1 h
      cases h
      exact ⟨logical, ⟨by simpa using hpull, a, reported_eq_ok_iff.1 ha,
        reported_eq_ok_iff.1 hlogical⟩, hbound, ids, reported_eq_ok_iff.1 hids, rfl⟩
  · rintro ⟨logical, ⟨hpull, a, ha, hlogical⟩, hbound, ids, hids, rfl⟩
    unfold planPull
    rw [hpull]
    refine bind_eq_ok_iff.2 ⟨a, reported_eq_ok_iff.2 ha, ?_⟩
    refine bind_eq_ok_iff.2 ⟨logical, reported_eq_ok_iff.2 hlogical, ?_⟩
    refine bind_eq_ok_iff.2 ⟨plan, hbound, ?_⟩
    exact bind_eq_ok_iff.2 ⟨ids, reported_eq_ok_iff.2 hids, rfl⟩

theorem planPull_ok (h : engine.planPull config query token = .ok (plan, locations)) :
    ∃ list : ProjectionList, list.Sound ∧ plan.projections = list.projections ∧
      plan.schema = (Scope.mk list.columns).schema := by
  obtain ⟨logical, ⟨-, a, -, hlogical⟩, hbound, -⟩ := planPull_eq_ok_iff.1 h
  obtain ⟨list, hsound, node, hroot, hschema⟩ := Analysis.plan_ok hlogical
  obtain ⟨hbound, hprojections, -, -⟩ := PullPlan.bind_ok hbound
  refine ⟨list, hsound, ?_, hbound.trans hschema⟩
  rw [hprojections, hroot, PlanNode.projections]

/-- **The rows of a pull query.** Every projection has a name of its own, and the schema has one
column for each. A result row has the values of the projections on a stored row, in the order of the
selection. The schema has that order exactly if the key columns are selected before the others, and
then, if anything is selected at all, every result row lines up with the schema. A selection that
comes to no projection gives the stored row itself. -/
theorem pull_rows (h : engine.planPull config query token = .ok (plan, locations)) :
    (plan.projections.map (·.name)).Nodup ∧
    (plan.schema.columns.map (·.name)).Perm (plan.projections.map (·.name)) ∧
    (plan.NamedInOrder ↔ plan.KeysSelectedFirst) ∧
    ∀ partition rows, plan.execute partition = .ok rows → ∀ row ∈ rows,
      ∃ found, plan.candidates partition = .ok found ∧ ∃ stored ∈ found,
        plan.admits stored = .ok true ∧ (plan.projections = [] → row = stored) ∧
        (plan.projections ≠ [] → plan.SelectedFrom stored row ∧
          (plan.KeysSelectedFirst → plan.LinesUp stored row)) := by
  obtain ⟨list, hsound, hprojections, hschema⟩ := planPull_ok h
  have hnames : plan.projections.map (·.name) = list.columns.map (·.output) := by
    rw [hprojections, hsound.names]
  have hcolumns := Scope.schema_names ⟨list.columns⟩ hsound.distinct_output
  rw [← hschema, ← hnames] at hcolumns
  have hordered : plan.NamedInOrder ↔ plan.KeysSelectedFirst := by
    rw [PullPlan.KeysSelectedFirst, ← filter_append_filter_not_eq_iff]
    exact Eq.congr_left hcolumns
  refine ⟨hnames ▸ hsound.distinct_output, ?_, hordered, fun partition rows hrows row hrow => ?_⟩
  · exact hcolumns ▸ List.filter_append_perm _ _
  obtain ⟨found, hfound, stored, hstored, hadmits, hproject⟩ := PullPlan.exists_stored hrows hrow
  obtain ⟨hwhole, hselected⟩ := PullPlan.project_ok hproject
  exact ⟨found, hfound, stored, hstored, hadmits, hwhole, fun hsome =>
    ⟨hselected hsome, fun hfirst => (hordered.2 hfirst).linesUp (hselected hsome)⟩⟩

end Engine

/-! ### The view of users -/

namespace Sample

/-- The sample engine with one user in the view. -/
def engineWithUser : Engine :=
  let engine := seed (.new {} ⟨"localhost", 8088⟩ none)
  let alice : Row := ⟨[.int8 1, .utf8 "alice", .utf8 "us"]⟩
  { engine with registry := engine.registry.update ⟨"CTAS_USERS_VIEW_0"⟩ fun query =>
      { query with materialization := query.materialization.map (·.changed (.put alice)) } }

/-- `SELECT columns FROM USERS_VIEW`, as a pull query. -/
def pullUsers (columns : List String) : Query :=
  { Query.selectAll (.source view none) with
    select := columns.map fun name => .expression (.named name) none
    isPull := true }

end Sample

namespace Engine

open Sample

/-- `SELECT ID, NAME` selects the key first. -/
theorem key_selected_first :
    ∃ plan locations, engineWithUser.planPull { pullTableScanEnabled := true }
        (pullUsers ["ID", "NAME"]) "1" = .ok (plan, locations) ∧
      ∀ partition rows, plan.execute partition = .ok rows → ∀ row ∈ rows,
        ∃ found, plan.candidates partition = .ok found ∧ ∃ stored ∈ found,
          plan.LinesUp stored row := by
  obtain ⟨plan, locations, hplan, hnamed, hsome⟩ : ∃ plan locations,
      engineWithUser.planPull { pullTableScanEnabled := true } (pullUsers ["ID", "NAME"]) "1" =
          .ok (plan, locations) ∧
        plan.NamedInOrder ∧ plan.projections ≠ [] := ⟨_, _, rfl, rfl, nofun⟩
  obtain ⟨-, -, hordered, hrows⟩ := pull_rows hplan
  refine ⟨plan, locations, hplan, fun partition rows hok row hrow => ?_⟩
  obtain ⟨found, hfound, stored, hstored, -, -, hselected⟩ := hrows partition rows hok row hrow
  exact ⟨found, hfound, stored, hstored, (hselected hsome).2 (hordered.1 hnamed)⟩

/-- `SELECT NAME, ID` has its rows in this order and its schema in the other, so that the name
stands under the column of the key. -/
theorem name_under_key :
    ∃ plan locations, engineWithUser.planPull { pullTableScanEnabled := true }
        (pullUsers ["NAME", "ID"]) "1" = .ok (plan, locations) ∧
      let alice : Row := ⟨[.int8 1, .utf8 "alice", .utf8 "us"]⟩
      let answer : Row := ⟨[.utf8 "alice", .int8 1]⟩
      plan.schema.columns.map (·.name) = ["ID", "NAME"] ∧
        plan.candidates ⟨0⟩ = .ok [alice] ∧ plan.execute ⟨0⟩ = .ok [answer] ∧
        ¬plan.LinesUp alice answer := by
  refine ⟨_, _, rfl, rfl, rfl, rfl, fun h => ?_⟩
  obtain ⟨p, hp, hname, v, hv, hevaluate⟩ := h.values 0 ⟨"ID", .int8, .key, 0⟩ rfl
  obtain rfl : Value.utf8 "alice" = v := Option.some.inj hv
  change p ∈ [⟨"NAME", .named "NAME"⟩, ⟨"ID", .named "ID"⟩] at hp
  simp only [List.mem_cons, List.not_mem_nil, or_false] at hp
  obtain rfl | rfl := hp
  · simp at hname
  · cases hevaluate

end Engine

end StreamSql
