import Mathlib.Data.List.Nodup
import StreamSql.Proofs.MovingToFront
import StreamSql.Proofs.Query.Stages
import StreamSql.Proofs.Query.Typing
import StreamSql.Proofs.Schema

/-!
# What a selection makes

A selection makes its columns and its expressions side by side, each pair under a name of its own
(`ProjectionList.Sound`). The schema that is made of the columns moves the key columns to the front
(`Scope.schema_names`), so the names of the schema are those of the selection in a different order,
and in the same one exactly where the keys are selected first (`filter_append_filter_not_eq_iff`).
-/

namespace StreamSql

/-! ### Schemas with their keys in front -/

namespace Scope

theorem schema_eq (scope : Scope) : scope.schema =
    .ofGroups ((scope.columns.filter (·.isKey)).map fun c => (c.output, c.type))
      ((scope.columns.filter (!·.isKey)).map fun c => (c.output, c.type)) :=
  Schema.foldl_add _ _ _ scope.columns [] []

theorem schema_columns (scope : Scope) :
    scope.schema.columns = scope.schema.keyColumns ++ scope.schema.valueColumns := by
  rw [schema_eq, Schema.keyColumns_ofGroups, Schema.valueColumns_ofGroups]
  rfl

theorem schema_keyNames (scope : Scope) :
    scope.schema.keyColumns.map (·.name) = (scope.columns.filter (·.isKey)).map (·.output) := by
  rw [schema_eq, Schema.keyColumns_ofGroups, Schema.names_numbered, List.map_map]
  rfl

theorem schema_valueNames (scope : Scope) :
    scope.schema.valueColumns.map (·.name) = (scope.columns.filter (!·.isKey)).map (·.output) := by
  rw [schema_eq, Schema.valueColumns_ofGroups, Schema.names_numbered, List.map_map]
  rfl

/-- **The schema of a scope** names the key columns ahead of the others. Where all names differ, it
is told from the names of the keys which these are. -/
theorem schema_names (scope : Scope) (hdistinct : (scope.columns.map (·.output)).Nodup) :
    let isKeyName name := decide (name ∈ scope.schema.keyColumns.map (·.name))
    scope.schema.columns.map (·.name) =
      (scope.columns.map (·.output)).filter isKeyName ++
        (scope.columns.map (·.output)).filter (!isKeyName ·) := by
  intro isKeyName
  have hkey : ∀ c ∈ scope.columns, isKeyName c.output = c.isKey := by
    intro c hc
    rw [Bool.eq_iff_iff, decide_eq_true_iff, schema_keyNames, List.mem_map]
    constructor
    · rintro ⟨other, hother, hname⟩
      obtain ⟨hmem, hother⟩ := List.mem_filter.1 hother
      rwa [List.inj_on_of_nodup_map hdistinct hmem hc hname] at hother
    · intro h
      exact ⟨c, List.mem_filter.2 ⟨hc, h⟩, rfl⟩
  rw [scope.schema_columns, List.map_append, schema_keyNames, schema_valueNames, List.filter_map,
    List.filter_map]
  congr 2
  · exact List.filter_congr fun c hc => (hkey c hc).symm
  · exact List.filter_congr fun c hc => congrArg (!·) (hkey c hc).symm

end Scope

/-! ### Columns and expressions side by side -/

namespace ProjectionList

variable {list next : ProjectionList}

/-- Every column has its expression beside it, under the same name, and all names differ. -/
structure Sound (list : ProjectionList) : Prop where
  names : list.projections.map (·.name) = list.columns.map (·.output)
  distinct : (list.columns.map (·.name)).Nodup
  plain : ∀ c ∈ list.columns, c.name = c.output

theorem Sound.push {name : String} {e : Expression} {type : DataType} {isKey : Bool}
    (h : list.Sound) (hpush : list.push name e type isKey = .ok next) : next.Sound := by
  unfold ProjectionList.push at hpush
  split at hpush
  · cases hpush
  next hnew =>
    obtain rfl := Except.ok.inj hpush
    refine ⟨by simp [h.names, VisibleColumn.named], ?_, ?_⟩
    · simp only [List.map_append, List.map_cons, List.map_nil, VisibleColumn.named]
      refine List.Nodup.append h.distinct (List.nodup_singleton _) ?_
      simpa [List.disjoint_singleton] using hnew
    · intro c hc
      rcases List.mem_append.1 hc with hc | hc
      · exact h.plain c hc
      · rw [List.mem_singleton.1 hc]
        rfl

theorem Sound.pushItem {scope : Scope} {item : SelectItem} (h : list.Sound)
    (hpush : list.pushItem scope item = .ok next) : next.Sound := by
  cases item with
  | star qualifier => exact invariant_of_foldlM (fun _ _ _ _ hs hp => hs.push hp) h hpush
  | expression e aliasName =>
    unfold ProjectionList.pushItem at hpush
    obtain ⟨type, -, hpush⟩ := bind_eq_ok_iff.1 hpush
    split at hpush
    · obtain ⟨c, -, hpush⟩ := bind_eq_ok_iff.1 hpush
      exact h.push hpush
    · refine Sound.push ?_ hpush
      exact ⟨h.names, h.distinct, h.plain⟩

theorem sound_empty : Sound {} := ⟨rfl, List.nodup_nil, by simp⟩

theorem sound_of_select {scope : Scope} {select : List SelectItem}
    (h : select.foldlM (ProjectionList.pushItem scope) {} = .ok list) : list.Sound :=
  invariant_of_foldlM (fun _ _ _ _ hs hp => hs.pushItem hp) sound_empty h

theorem Sound.distinct_output (h : list.Sound) : (list.columns.map (·.output)).Nodup := by
  rw [← List.map_congr_left h.plain]
  exact h.distinct

end ProjectionList

/-! ### What projections read -/

/-- The projection reads columns in scope, one row at a time. -/
structure Projection.Plain (scope : Scope) (p : Projection) : Prop where
  reads : ∀ reference ∈ p.expression.columns, ∃ c ∈ scope.columns, c.name = reference.name
  noAggregate : p.expression.isAggregate = false

namespace ProjectionList

variable {list next : ProjectionList} {scope : Scope}

theorem plain_of_push {name : String} {e : Expression} {type : DataType} {isKey : Bool}
    (h : ∀ p ∈ list.projections, p.Plain scope) (he : Projection.Plain scope ⟨name, e⟩)
    (hpush : list.push name e type isKey = .ok next) : ∀ p ∈ next.projections, p.Plain scope := by
  unfold ProjectionList.push at hpush
  split at hpush
  · cases hpush
  · obtain rfl := Except.ok.inj hpush
    exact List.forall_mem_append.2 ⟨h, List.forall_mem_singleton.2 he⟩

theorem plain_of_pushItem {item : SelectItem} (h : ∀ p ∈ list.projections, p.Plain scope)
    (hitem : ∀ e aliasName, item = .expression e aliasName → e.isAggregate = false)
    (hpush : list.pushItem scope item = .ok next) : ∀ p ∈ next.projections, p.Plain scope := by
  cases item with
  | star qualifier =>
    refine invariant_of_foldlM (P := fun list : ProjectionList =>
      ∀ p ∈ list.projections, p.Plain scope) (fun c hc _ _ hlist hc' => ?_) h hpush
    refine plain_of_push hlist ⟨fun reference hmem => ?_, rfl⟩ hc'
    obtain rfl := List.mem_singleton.1 hmem
    exact ⟨c, (List.mem_filter.1 hc).1, rfl⟩
  | expression e aliasName =>
    unfold ProjectionList.pushItem at hpush
    obtain ⟨type, htype, hpush⟩ := bind_eq_ok_iff.1 hpush
    have hplain : ∀ name, Projection.Plain scope ⟨name, e⟩ := by
      refine fun name => ⟨fun reference hmem => ?_, hitem e aliasName rfl⟩
      obtain ⟨c, hc⟩ := Scope.resolve_of_typeOf htype reference hmem
      exact ⟨c, Scope.mem_of_resolve hc⟩
    split at hpush
    · obtain ⟨c, -, hpush⟩ := bind_eq_ok_iff.1 hpush
      exact plain_of_push h (hplain _) hpush
    · refine plain_of_push ?_ (hplain _) hpush
      exact h

theorem plain_of_select {select : List SelectItem}
    (hselect : ∀ e aliasName, SelectItem.expression e aliasName ∈ select → e.isAggregate = false)
    (h : select.foldlM (ProjectionList.pushItem scope) {} = .ok list) :
    ∀ p ∈ list.projections, p.Plain scope :=
  invariant_of_foldlM (P := fun list : ProjectionList => ∀ p ∈ list.projections, p.Plain scope)
    (fun _ hitem _ _ hlist hpush => plain_of_pushItem hlist
      (fun e aliasName heq => hselect e aliasName (heq ▸ hitem)) hpush) (List.forall_mem_nil _) h

end ProjectionList

/-- A plan that is the projection onto a selection. -/
def LogicalPlan.Projects (logical : LogicalPlan) (list : ProjectionList) : Prop :=
  ∃ node, logical.root = .project node list.projections (Scope.mk list.columns).schema ∧
    logical.schema = (Scope.mk list.columns).schema

theorem ScopedPlan.project_ok {input projected : ScopedPlan} {select : List SelectItem}
    (h : input.project select = .ok projected) :
    ∃ list : ProjectionList, list.Sound ∧ projected =
      ⟨.project input.node list.projections (Scope.mk list.columns).schema, ⟨list.columns⟩⟩ := by
  obtain ⟨list, hlist, h⟩ := bind_eq_ok_iff.1 h
  exact ⟨list, ProjectionList.sound_of_select hlist, (Except.ok.inj h).symm⟩

theorem Analysis.plan_ok {a : Analysis} {catalog : Catalog} {config : Settings}
    {logical : LogicalPlan} (h : a.plan catalog config = .ok logical) :
    ∃ list : ProjectionList, list.Sound ∧ logical.Projects list := by
  obtain ⟨-, -, -, -, -, hprojected, -, -⟩ := plan_eq_ok_iff.1 h
  obtain ⟨list, hsound, rfl⟩ := ScopedPlan.project_ok hprojected
  exact ⟨list, hsound, _, rfl, rfl⟩

end StreamSql
