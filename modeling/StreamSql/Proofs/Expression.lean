import Mathlib.Data.List.Basic
import StreamSql.Expression

/-!
# Induction on expressions

The members of a list are parts of the expression as its operands are: what holds of an expression
whenever it holds of all its parts holds of every expression (`Expression.induct`). So it is shown
what an expression keeps when its qualifiers are dropped.
-/

namespace StreamSql

/-- The reference without its qualifier. -/
def ColumnReference.unqualified (reference : ColumnReference) : ColumnReference :=
  ⟨none, reference.name⟩

namespace Expression

@[elab_as_elim, induction_eliminator]
theorem induct {P : Expression → Prop}
    (column : ∀ reference, P (.column reference))
    (literal : ∀ value, P (.literal value))
    (comparison : ∀ operator left right, P left → P right → P (.comparison operator left right))
    (and : ∀ left right, P left → P right → P (.and left right))
    (or : ∀ left right, P left → P right → P (.or left right))
    (not : ∀ operand, P operand → P (.not operand))
    (inList : ∀ operand list, P operand → (∀ member ∈ list, P member) → P (.inList operand list))
    (aggregate : ∀ function argument, P argument → P (.aggregate function argument))
    (aggregateRows : ∀ function, P (.aggregateRows function)) (e : Expression) : P e :=
  Expression.rec (motive_2 := fun list => ∀ member ∈ list, P member) column literal comparison and
    or not inList aggregate aggregateRows nofun
    (fun _ _ hhead hrest => List.forall_mem_cons.2 ⟨hhead, hrest⟩) e

theorem isAggregate_unqualified (e : Expression) : e.unqualified.isAggregate = e.isAggregate := by
  induction e with
  | column reference => rfl
  | literal value => rfl
  | comparison operator left right ihl ihr => simp only [unqualified, isAggregate, ihl, ihr]
  | and left right ihl ihr => simp only [unqualified, isAggregate, ihl, ihr]
  | or left right ihl ihr => simp only [unqualified, isAggregate, ihl, ihr]
  | not operand ih => simp only [unqualified, isAggregate, ih]
  | inList operand list ih ihs =>
    have hlist : list.any (isAggregate ∘ unqualified) = list.any isAggregate := by
      rw [Bool.eq_iff_iff, List.any_eq_true, List.any_eq_true]
      exact exists_congr fun member => and_congr_right fun hmem => by rw [← ihs member hmem]; rfl
    simp only [unqualified, isAggregate, ih, anyAggregate_eq_any, listUnqualified_eq_map,
      List.any_map, hlist]
  | aggregate function argument ih => rfl
  | aggregateRows function => rfl

theorem columns_unqualified (e : Expression) :
    e.unqualified.columns = e.columns.map (·.unqualified) := by
  induction e with
  | column reference => rfl
  | literal value => rfl
  | comparison operator left right ihl ihr =>
    simp only [unqualified, columns, ihl, ihr, List.map_append]
  | and left right ihl ihr => simp only [unqualified, columns, ihl, ihr, List.map_append]
  | or left right ihl ihr => simp only [unqualified, columns, ihl, ihr, List.map_append]
  | not operand ih => simp only [unqualified, columns, ih]
  | inList operand list ih ihs =>
    have hlist : (list.map unqualified).flatMap columns =
        (list.flatMap columns).map (·.unqualified) := by
      rw [List.flatMap_map, List.map_flatMap]
      exact List.flatMap_congr ihs
    simp only [unqualified, columns, ih, listColumns_eq_flatMap, listUnqualified_eq_map, hlist,
      List.map_append]
  | aggregate function argument ih => simp only [unqualified, columns, ih]
  | aggregateRows function => rfl

theorem conjuncts_unqualified (e : Expression) :
    e.unqualified.conjuncts = e.conjuncts.map unqualified := by
  induction e with
  | and left right ihl ihr => simp only [unqualified, conjuncts, ihl, ihr, List.map_append]
  | _ => rfl

theorem unqualified_unqualified (e : Expression) : e.unqualified.unqualified = e.unqualified := by
  induction e with
  | column reference => rfl
  | literal value => rfl
  | comparison operator left right ihl ihr => simp only [unqualified, ihl, ihr]
  | and left right ihl ihr => simp only [unqualified, ihl, ihr]
  | or left right ihl ihr => simp only [unqualified, ihl, ihr]
  | not operand ih => simp only [unqualified, ih]
  | inList operand list ih ihs =>
    have hlist : list.map (unqualified ∘ unqualified) = list.map unqualified :=
      List.map_congr_left ihs
    simp only [unqualified, ih, listUnqualified_eq_map, List.map_map, hlist]
  | aggregate function argument ih => simp only [unqualified, ih]
  | aggregateRows function => rfl

end Expression

end StreamSql
