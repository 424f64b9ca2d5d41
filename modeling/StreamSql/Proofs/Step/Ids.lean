import StreamSql.Proofs.Query.Destination
import StreamSql.Proofs.Query.JoinTree
import StreamSql.Proofs.Step.Lowering
import StreamSql.Proofs.Text

/-!
# Ids of steps

The ids below the sink follow from the query (`Query.stepIds`): one for each clause that it has, one
for each join by its number, and one for each source by its alias. They are all different, as the
five forms have different first letters, and numbers and aliases come once
(`Query.nodup_stepIds`). A sink is known by its name alone, which may be any text
(`Query.lower_ids`).
-/

namespace StreamSql

/-! ### Ids and loggers -/

namespace Step

def ids (step : Step) : List String := step.steps.map (·.heading.id)

/-- What the summary of a query calls a step by. -/
def logger (query : QueryId) (step : Step) : String := s!"{query.text}.{step.heading.id}"

def loggers (query : QueryId) (step : Step) : List String := step.steps.map (logger query)

theorem nodup_loggers_iff (query : QueryId) (step : Step) :
    (step.loggers query).Nodup ↔ step.ids.Nodup := by
  have hloggers : step.loggers query = step.ids.map fun id => s!"{query.text}.{id}" := by
    rw [loggers, ids, List.map_map]
    rfl
  rw [hloggers, List.nodup_map_iff]
  intro id other h
  simpa [toString] using h

theorem traverse_visits {α : Type} (visit : Nat → Step → α) (step : Step) (depth other : Nat) :
    List.Forall₂ (fun a s => ∃ depth, a = visit depth s) (step.traverse visit depth)
      (step.traverse (fun _ s => s) other) := by
  induction step generalizing depth other with
  | source => exact .cons ⟨depth, rfl⟩ .nil
  | filter _ _ _ ih | select _ _ _ ih | aggregate _ _ _ _ ih | sink _ _ _ _ _ _ _ ih =>
    exact .cons ⟨depth, rfl⟩ (ih _ _)
  | join _ _ _ _ _ _ _ ihl ihr =>
    exact .cons ⟨depth, rfl⟩ (List.rel_append (ihl _ _) (ihr _ _))

theorem summary_lines (query : QueryId) (step : Step) :
    ∃ lines, step.summary query = String.join lines ∧
      List.Forall₂ (fun line logger => ∃ front, line = front ++ s!"Logger: {logger}\n") lines
        (step.loggers query) := by
  refine ⟨_, rfl, ?_⟩
  rw [loggers, List.forall₂_map_right_iff]
  refine (traverse_visits (summaryLine query) step 0 0).imp ?_
  rintro _ s ⟨depth, rfl⟩
  refine ⟨Text.times depth "\t\t" ++ s!" > [ {s.label} ] | Schema: {s.schema.text} | ", ?_⟩
  simp [summaryLine, logger, toString, String.append_assoc]

/-! ### Joins and sources of a tree -/

theorem postorder_perm (step : Step) : step.postorder.Perm step.steps := by
  induction step with
  | source => exact .refl _
  | filter _ _ _ ih | select _ _ _ ih | aggregate _ _ _ _ ih | sink _ _ _ _ _ _ _ ih =>
    rw [steps_of_input rfl]
    exact (List.perm_append_singleton _ _).trans (ih.cons _)
  | join _ _ _ _ _ _ _ ihl ihr =>
    rw [steps_of_join rfl]
    exact (List.perm_append_singleton _ _).trans ((ihl.append ihr).cons _)

theorem length_joins (step : Step) :
    step.joins.length + 1 = (step.steps.filter isSource).length := by
  induction step with
  | source => rfl
  | filter _ _ _ ih | select _ _ _ ih | aggregate _ _ _ _ ih | sink _ _ _ _ _ _ _ ih =>
    rw [steps_of_input rfl, List.filter_cons_of_neg Bool.false_ne_true, ← ih,
      joins_of_input rfl rfl]
  | join _ _ _ _ _ _ _ ihl ihr =>
    rw [joins_of_join rfl rfl, steps_of_join rfl, List.filter_cons_of_neg Bool.false_ne_true,
      List.filter_append, List.length_append, List.length_append, List.length_singleton,
      List.length_append, ← ihl, ← ihr]
    omega

end Step

/-! ### Ids of nodes -/

namespace PlanNode

/-- The ids that do not depend on the place of a node, from the root down and left to right. -/
def labels : PlanNode → List String
  | source _ aliasName => [s!"Source/{aliasName}"]
  | filter input _ => "WhereFilter" :: input.labels
  | project input _ _ => "Project" :: input.labels
  | aggregate input _ _ _ => "Aggregate" :: input.labels
  | join _ left right _ _ _ _ => left.labels ++ right.labels

theorem lower_labels (node : PlanNode) (joins : Nat) :
    ((node.lower joins).1.steps.filter (!·.isJoin)).map (·.heading.id) = node.labels := by
  induction node generalizing joins with
  | source => rfl
  | filter _ _ ih | project _ _ _ ih | aggregate _ _ _ _ ih =>
    rw [lower, Step.steps_of_input rfl, List.filter_cons_of_pos rfl, List.map_cons, ih, labels]
    rfl
  | join _ _ _ _ _ _ _ ihl ihr =>
    rw [lower, Step.steps_of_join rfl, List.filter_cons_of_neg (by simp [Step.isJoin]),
      List.filter_append, List.map_append, ihl, ihr, labels]

theorem lower_ids (node : PlanNode) {joins : Nat} (hjoins : joins + 1 = node.sources.length) :
    (node.lower 0).1.ids.Perm ((List.range joins).map (s!"Join/{·}") ++ node.labels) := by
  have hnumbered := (node.lower_numbered 0).ids
  have hcount := (node.lower 0).1.length_joins
  rw [← (node.lower_mirrors 0).sources.length_eq, ← hjoins, Nat.add_right_cancel_iff] at hcount
  rw [hcount, ← List.range_eq_range'] at hnumbered
  have hsplit : (node.lower 0).1.ids.Perm
      (((node.lower 0).1.steps.filter Step.isJoin).map (·.heading.id) ++ node.labels) := by
    rw [← node.lower_labels 0, ← List.map_append]
    exact (List.filter_append_perm Step.isJoin _).symm.map _
  have hpostorder := (Step.postorder_perm (node.lower 0).1).filter Step.isJoin
  rw [← hnumbered]
  exact hsplit.trans ((hpostorder.symm.map _).append_right _)

end PlanNode

/-! ### Ids of queries -/

namespace ScopedPlan

variable {left next : ScopedPlan} {sources : List QuerySource} {joins : List JoinClause}

/-- There is nothing but sources and joins in the node. -/
def IsJoined (plan : ScopedPlan) : Prop :=
  plan.node.labels = plan.node.sources.map fun s => s!"Source/{s.2}"

theorem joinAll_isJoined (h : left.joinAll sources joins = .ok next) (hleft : left.IsJoined) :
    next.IsJoined := by
  induction joins generalizing left with
  | nil =>
    cases h
    exact hleft
  | cons info rest ih =>
    obtain ⟨added, joined, -, hjoined, h⟩ := joinAll_cons_ok h
    obtain ⟨_, _, _, -, -, rfl⟩ := join_ok hjoined
    refine ih h ?_
    rw [IsJoined, PlanNode.labels, PlanNode.sources, hleft, List.map_append]
    rfl

end ScopedPlan

/-- The ids of the steps for the clauses that a query has besides `FROM`. -/
def Query.clauseIds (groupBy : List Expression) (filter : Option Expression) : List String :=
  "Project" :: ((if groupBy.isEmpty then [] else ["Aggregate"]) ++
    if filter.isSome then ["WhereFilter"] else [])

theorem Analysis.Tops.labels {a : Analysis} {joined root : PlanNode} (h : a.Tops joined root) :
    root.labels = Query.clauseIds a.groupBy a.filter ++ joined.labels := by
  have hfiltered : (a.filteredNode joined).labels =
      (if a.filter.isSome then ["WhereFilter"] else []) ++ joined.labels := by
    unfold filteredNode
    cases a.filter <;> rfl
  cases h with
  | plain hgroups => simp [Query.clauseIds, PlanNode.labels, hfiltered, hgroups]
  | grouped hgroups => simp [Query.clauseIds, PlanNode.labels, hfiltered, hgroups]

theorem LogicalPlan.lower_ids (plan : LogicalPlan) :
    plan.lower.ids = (plan.sinkName?.map (·.text)).toList ++ (plan.root.lower 0).1.ids := by
  unfold lower sinkName? destination?
  cases plan.output with
  | returned limit => rfl
  | stored d =>
    rw [Step.ids, Step.steps_of_input rfl]
    rfl

theorem Analysis.WellFormed.aliases {catalog : Catalog} {relation : Relation} {a : Analysis}
    (h : a.WellFormed catalog relation) :
    a.sources.map (·.aliasName) = relation.leaves.map fun leaf => leaf.2.getD leaf.1.text :=
  map_eq_map_iff_forall₂.2 (h.leaves.flip.imp fun _ _ hleaf => hleaf.2)

namespace Query

/-- The ids of the steps that carry out a query: of its clauses, of its joins and of its sources. -/
def stepIds (query : Query) : List String :=
  clauseIds query.groupBy query.filter ++
    ((List.range query.relation.joins.length).map (s!"Join/{·}") ++
      query.relation.leaves.map fun leaf => s!"Source/{leaf.2.getD leaf.1.text}")

variable {query : Query} {into : Option Sink} {catalog : Catalog} {config : Settings}
  {logical : LogicalPlan}

theorem lower_ids (h : query.plan into catalog config = .ok logical) :
    logical.lower.ids.Perm ((into.map (·.name.text)).toList ++ query.stepIds) := by
  have hsink := plan_sinkName h
  obtain ⟨a, ha, h⟩ := bind_eq_ok_iff.1 h
  have hwellFormed := Analysis.wellFormed_of_ofQuery ha
  have hsources := Analysis.plan_sources h (Analysis.ofQuery_reads ha).2
  obtain ⟨first, rest, joined, -, hjoined, htops⟩ := Analysis.plan_tops h
  have haliases := congrArg (List.map (s!"Source/{·}")) hwellFormed.aliases
  rw [List.map_map, List.map_map] at haliases
  have hlabels : logical.root.labels = clauseIds query.groupBy query.filter ++
      query.relation.leaves.map fun leaf => s!"Source/{leaf.2.getD leaf.1.text}" := by
    have hplain := ScopedPlan.joinAll_isJoined hjoined rfl
    rw [htops.labels, hplain, ← htops.sources, hsources, List.map_map,
      Analysis.ofQuery_groupBy ha, Analysis.ofQuery_filter ha]
    exact congrArg _ haliases
  have hcount : query.relation.joins.length + 1 = logical.root.sources.length := by
    rw [hsources, List.length_map, ← hwellFormed.length_joins, hwellFormed.joins.length_eq]
  rw [LogicalPlan.lower_ids, hsink, Option.map_map]
  refine List.Perm.append_left _ ((logical.root.lower_ids hcount).trans ?_)
  rw [hlabels, stepIds]
  exact List.perm_append_comm_assoc _ _ _

theorem clauseIds_sublist (groupBy : List Expression) (filter : Option Expression) :
    (clauseIds groupBy filter).Sublist ["Project", "Aggregate", "WhereFilter"] := by
  unfold clauseIds
  cases groupBy.isEmpty <;> cases filter.isSome <;> decide

/-! The first letter tells the ids of joins, of sources and of clauses apart. -/

theorem head_joinId (number : Nat) : (s!"Join/{number}").toList.head? = some 'J' := by
  simp [toString]

theorem head_sourceId (aliasName : String) :
    (s!"Source/{aliasName}").toList.head? = some 'S' := by
  simp [toString]

theorem head_clauseId {groupBy : List Expression} {filter : Option Expression} {id : String}
    (h : id ∈ clauseIds groupBy filter) :
    id.toList.head? ≠ some 'J' ∧ id.toList.head? ≠ some 'S' := by
  have hheads : ∀ id ∈ ["Project", "Aggregate", "WhereFilter"],
      id.toList.head? ≠ some 'J' ∧ id.toList.head? ≠ some 'S' := by decide
  exact hheads id ((clauseIds_sublist groupBy filter).subset h)

theorem nodup_joinIds (count : Nat) : ((List.range count).map (s!"Join/{·}")).Nodup :=
  List.nodup_range.map fun _ _ h =>
    Text.toDigits_injective (by simpa [toString] using congrArg String.toList h)

theorem nodup_sourceIds {aliases : List String} (h : aliases.Nodup) :
    (aliases.map (s!"Source/{·}")).Nodup :=
  h.map fun _ _ heq => by simpa [toString] using heq

theorem nodup_stepIds (h : query.plan into catalog config = .ok logical) :
    query.stepIds.Nodup := by
  obtain ⟨a, ha, -⟩ := bind_eq_ok_iff.1 h
  have hwellFormed := Analysis.wellFormed_of_ofQuery ha
  have hsources := nodup_sourceIds hwellFormed.distinct
  rw [hwellFormed.aliases, List.map_map] at hsources
  have hclauses : (clauseIds query.groupBy query.filter).Nodup :=
    (clauseIds_sublist _ _).nodup (by decide)
  rw [stepIds, List.nodup_append', List.nodup_append']
  refine ⟨hclauses, ⟨nodup_joinIds _, hsources, fun id hjoin hsource => ?_⟩, fun id hclause h => ?_⟩
  · obtain ⟨number, -, rfl⟩ := List.mem_map.1 hjoin
    obtain ⟨leaf, -, heq⟩ := List.mem_map.1 hsource
    have hhead := head_sourceId (leaf.2.getD leaf.1.text)
    rw [heq, head_joinId] at hhead
    cases hhead
  · obtain ⟨hjoin, hsource⟩ := head_clauseId hclause
    obtain h | h := List.mem_append.1 h
    · obtain ⟨number, -, rfl⟩ := List.mem_map.1 h
      exact hjoin (head_joinId number)
    · obtain ⟨leaf, -, rfl⟩ := List.mem_map.1 h
      exact hsource (head_sourceId _)

end Query

end StreamSql
