import Mathlib.Data.List.Forall2
import StreamSql.Step

/-!
# Steps mirror their plans

Lowering goes through a plan with one number, that of the next join. What it makes is related to the
plan node by node (`PlanNode.Mirrored`), so that there is a sink at the root or nowhere, and the
steps that read sources stand in the order of the sources. Only joins carry numbers, and they are
numbered in the order in which their rows can be made, both inputs ahead of the join
(`PlanNode.lower_numbered`). `LogicalPlan.lower_mirrored` puts this together.
-/

namespace StreamSql

namespace Step

/-! ### The steps of a tree -/

def isSource : Step → Bool
  | source .. => true
  | _ => false

def isJoin : Step → Bool
  | join .. => true
  | _ => false

def isSink : Step → Bool
  | sink .. => true
  | _ => false

/-- All steps, each behind its inputs. -/
def postorder : Step → List Step
  | source heading kind name aliasName topic keyFormat valueFormat =>
    [source heading kind name aliasName topic keyFormat valueFormat]
  | filter heading input predicate => input.postorder ++ [filter heading input predicate]
  | select heading input expressions => input.postorder ++ [select heading input expressions]
  | aggregate heading input groupBy aggregates =>
    input.postorder ++ [aggregate heading input groupBy aggregates]
  | join heading kind output left right leftKey rightKey =>
    left.postorder ++ right.postorder ++ [join heading kind output left right leftKey rightKey]
  | sink heading input kind name topic keyFormat valueFormat =>
    input.postorder ++ [sink heading input kind name topic keyFormat valueFormat]

/-- The joins, each behind those that it takes rows from. -/
def joins (step : Step) : List Step := step.postorder.filter isJoin

theorem traverse_eq_steps (step : Step) (depth : Nat) :
    step.traverse (fun _ s => s) depth = step.steps := by
  have hany : ∀ depth other, step.traverse (fun _ s => s) depth =
      step.traverse (fun _ s => s) other := by
    induction step with
    | source => exact fun _ _ => rfl
    | filter _ _ _ ih | select _ _ _ ih | aggregate _ _ _ _ ih | sink _ _ _ _ _ _ _ ih =>
      intro depth other
      rw [traverse, traverse, ih (depth + 1) (other + 1)]
    | join _ _ _ _ _ _ _ ihl ihr =>
      intro depth other
      rw [traverse, traverse, ihl (depth + 1) (other + 1), ihr (depth + 1) (other + 1)]
  exact hany depth 0

theorem steps_eq (step : Step) : step.steps = step :: step.inputs.flatMap steps := by
  rw [steps]
  cases step <;> simp [traverse, inputs, traverse_eq_steps]

theorem steps_of_input {step input : Step} (hinputs : step.inputs = [input]) :
    step.steps = step :: input.steps := by
  rw [steps_eq, hinputs, List.flatMap_singleton]

theorem steps_of_join {joined left right : Step} (hinputs : joined.inputs = [left, right]) :
    joined.steps = joined :: (left.steps ++ right.steps) := by
  rw [steps_eq, hinputs, List.flatMap_cons, List.flatMap_singleton]

theorem joins_eq (step : Step) :
    step.joins = step.inputs.flatMap joins ++ if step.isJoin then [step] else [] := by
  rw [joins]
  cases step <;> simp [postorder, inputs, isJoin, joins]

theorem joins_of_input {step input : Step} (hinputs : step.inputs = [input])
    (hstep : step.isJoin = false) : step.joins = input.joins := by
  simp [joins_eq step, hinputs, hstep]

theorem joins_of_join {joined left right : Step} (hinputs : joined.inputs = [left, right])
    (hjoin : joined.isJoin = true) : joined.joins = left.joins ++ right.joins ++ [joined] := by
  simp [joins_eq joined, hinputs, hjoin]

/-! ### Numbers of joins -/

/-- The joins of the step have the numbers from `first` up to the one before `next`. -/
structure Numbered (step : Step) (first next : Nat) : Prop where
  next_eq : next = first + step.joins.length
  ids : step.joins.map (·.heading.id) =
    (List.range' first step.joins.length).map (s!"Join/{·}")

theorem Numbered.of_input {step input : Step} {first next : Nat} (h : input.Numbered first next)
    (hinputs : step.inputs = [input]) (hstep : step.isJoin = false) :
    step.Numbered first next := by
  have hjoins := joins_of_input hinputs hstep
  exact ⟨hjoins ▸ h.next_eq, hjoins ▸ h.ids⟩

theorem Numbered.join {joined left right : Step} {first middle last : Nat}
    (hleft : left.Numbered first middle) (hright : right.Numbered middle last)
    (hinputs : joined.inputs = [left, right]) (hjoin : joined.isJoin = true)
    (hid : joined.heading.id = s!"Join/{last}") : joined.Numbered first (last + 1) := by
  obtain ⟨hmiddle, hleft⟩ := hleft
  obtain ⟨hlast, hright⟩ := hright
  have hlength : last = first + (left.joins ++ right.joins).length := by
    rw [List.length_append]
    omega
  have hearlier : (left.joins ++ right.joins).map (·.heading.id) =
      (List.range' first (left.joins ++ right.joins).length).map (s!"Join/{·}") := by
    rw [List.map_append, hleft, hright, hmiddle, ← List.map_append, List.range'_append_1,
      List.length_append]
  have hjoins := joins_of_join hinputs hjoin
  have hcount : joined.joins.length = (left.joins ++ right.joins).length + 1 := by
    rw [hjoins, List.length_append, List.length_singleton]
  refine ⟨by rw [hcount, hlength, Nat.add_assoc], ?_⟩
  rw [hcount, hjoins, List.map_append, hearlier, List.range'_1_concat, List.map_append,
    List.map_singleton, List.map_singleton, hid, hlength]

end Step

/-! ### Node by node -/

/-- The step carries out the node, with the schema of the node for its rows, and its inputs carry
out those of the node. Ids are not compared. -/
inductive PlanNode.Mirrored : PlanNode → Step → Prop
  | source (id : String) (s : Source) (aliasName : String) :
      Mirrored (.source s aliasName)
        (.source ⟨id, schema (.source s aliasName)⟩ s.kind s.name aliasName s.topic s.keyFormat
          s.valueFormat)
  | filter (id : String) {input : PlanNode} {step : Step} (hinput : input.Mirrored step)
      (predicate : Expression) :
      Mirrored (.filter input predicate)
        (.filter ⟨id, schema (.filter input predicate)⟩ step predicate)
  | project (id : String) {input : PlanNode} {step : Step} (hinput : input.Mirrored step)
      (projections : List Projection) (outputs : Schema) :
      Mirrored (.project input projections outputs)
        (.select ⟨id, schema (.project input projections outputs)⟩ step projections)
  | aggregate (id : String) {input : PlanNode} {step : Step} (hinput : input.Mirrored step)
      (groupBy : List ColumnReference) (calls : List AggregateCall) (outputs : Schema) :
      Mirrored (.aggregate input groupBy calls outputs)
        (.aggregate ⟨id, schema (.aggregate input groupBy calls outputs)⟩ step groupBy calls)
  | join (id : String) {left right : PlanNode} {leftStep rightStep : Step}
      (hleft : left.Mirrored leftStep) (hright : right.Mirrored rightStep) (kind : JoinKind)
      (leftKey rightKey : ColumnReference) (outputs : Schema) (output : SourceKind) :
      Mirrored (.join kind left right leftKey rightKey outputs output)
        (.join ⟨id, schema (.join kind left right leftKey rightKey outputs output)⟩ kind output
          leftStep rightStep leftKey rightKey)

namespace PlanNode

variable {node : PlanNode} {step : Step}

theorem lower_mirrors (node : PlanNode) (joins : Nat) : node.Mirrored (node.lower joins).1 := by
  induction node generalizing joins with
  | source s aliasName => exact .source _ s aliasName
  | filter input predicate ih => exact .filter _ (ih joins) predicate
  | project input projections outputs ih => exact .project _ (ih joins) projections outputs
  | aggregate input groupBy calls outputs ih => exact .aggregate _ (ih joins) groupBy calls outputs
  | join kind left right leftKey rightKey outputs output ihl ihr =>
    exact .join _ (ihl joins) (ihr _) kind leftKey rightKey outputs output

theorem Mirrored.sinks_eq_nil (h : node.Mirrored step) : step.steps.filter Step.isSink = [] := by
  induction h with
  | source => rfl
  | filter _ _ _ ih | project _ _ _ _ ih | aggregate _ _ _ _ _ ih =>
    rw [Step.steps_of_input rfl, List.filter_cons_of_neg Bool.false_ne_true, ih]
  | join _ _ _ _ _ _ _ _ ihl ihr =>
    rw [Step.steps_of_join rfl, List.filter_cons_of_neg Bool.false_ne_true, List.filter_append, ihl,
      ihr, List.append_nil]

theorem Mirrored.sources (h : node.Mirrored step) :
    List.Forall₂ (fun s step => (PlanNode.source s.1 s.2).Mirrored step) node.sources
      (step.steps.filter Step.isSource) := by
  induction h with
  | source id s aliasName => exact .cons (.source id s aliasName) .nil
  | filter _ _ _ ih | project _ _ _ _ ih | aggregate _ _ _ _ _ ih =>
    rw [Step.steps_of_input rfl, List.filter_cons_of_neg Bool.false_ne_true]
    exact ih
  | join _ _ _ _ _ _ _ _ ihl ihr =>
    rw [Step.steps_of_join rfl, List.filter_cons_of_neg Bool.false_ne_true, List.filter_append]
    exact List.rel_append ihl ihr

/-- Between the counts of joins before it and after it, the steps of a node are numbered. -/
theorem lower_numbered (node : PlanNode) (joins : Nat) :
    (node.lower joins).1.Numbered joins (node.lower joins).2 := by
  induction node generalizing joins with
  | source => exact ⟨rfl, rfl⟩
  | filter _ _ ih | project _ _ _ ih | aggregate _ _ _ _ ih => exact (ih joins).of_input rfl rfl
  | join _ _ _ _ _ _ _ ihl ihr => exact (ihl joins).join (ihr _) rfl rfl rfl

end PlanNode

/-- The steps carry out the plan: on top of what carries out its root there is a sink if the result
is stored, with the schema and the kind of the plan, and else nothing. -/
inductive LogicalPlan.Mirrored (plan : LogicalPlan) : Step → Prop
  | returned {limit : Option Nat} {root : Step} (houtput : plan.output = .returned limit)
      (hroot : plan.root.Mirrored root) : plan.Mirrored root
  | stored (id : String) {d : Destination} {root : Step} (houtput : plan.output = .stored d)
      (hroot : plan.root.Mirrored root) :
      plan.Mirrored (.sink ⟨id, plan.schema⟩ root plan.kind d.into d.topic d.keyFormat
        d.valueFormat)

namespace LogicalPlan

/-- **Lowering mirrors the plan**, node by node. The only sink is the one for a stored result, at
the root; the steps that read sources read those of the plan, from left to right; and the joins,
each behind its inputs, are numbered from zero without a gap. -/
theorem lower_mirrored (plan : LogicalPlan) :
    plan.Mirrored plan.lower ∧
      plan.lower.steps.filter Step.isSink =
        (match plan.output with
        | .returned _ => []
        | .stored _ => [plan.lower]) ∧
      List.Forall₂ (fun s step => (PlanNode.source s.1 s.2).Mirrored step) plan.root.sources
        (plan.lower.steps.filter Step.isSource) ∧
      plan.lower.joins.map (·.heading.id) =
        (List.range plan.lower.joins.length).map (s!"Join/{·}") := by
  have hroot := plan.root.lower_mirrors 0
  have hnumbered := (plan.root.lower_numbered 0).ids
  rw [← List.range_eq_range'] at hnumbered
  unfold lower
  generalize plan.root.lower 0 = lowered at hroot hnumbered ⊢
  obtain ⟨root, next⟩ := lowered
  simp only at hroot hnumbered ⊢
  cases houtput : plan.output with
  | returned limit => exact ⟨.returned houtput hroot, hroot.sinks_eq_nil, hroot.sources, hnumbered⟩
  | stored d =>
    refine ⟨.stored d.into.text houtput hroot, ?_, ?_, ?_⟩
    · rw [Step.steps_eq, List.filter_cons_of_pos rfl, Step.inputs, List.flatMap_singleton,
        hroot.sinks_eq_nil]
    · rw [Step.steps_eq, List.filter_cons_of_neg Bool.false_ne_true, Step.inputs,
        List.flatMap_singleton]
      exact hroot.sources
    · rw [Step.joins_of_input rfl rfl]
      exact hnumbered

end LogicalPlan

end StreamSql
