import StreamSql.Evaluation
import StreamSql.Proofs.Expression
import StreamSql.Proofs.Results
import StreamSql.Proofs.Value

/-!
# Predicates and their terms

A row passes a conjunction exactly if it passes every term of it (`Expression.passes_iff`), and the
terms are all evaluated, from left to right (`Expression.passes_eq_all`). The comparisons of a term
are those of the operands' values, and under distinct names the value of a column is the one in its
place (`Expression.evaluate_column`). Only missing columns and aggregate calls keep an expression
from being evaluated (`Expression.mayStop_of_error`). The qualifiers of its columns are not read
(`Expression.evaluate_unqualified`).
-/

namespace StreamSql

/-! ### Truth values -/

theorem Value.truth?_eq_true_iff {v : Value} : v.truth? = some true ↔ v = .boolean true := by
  cases v <;> simp [truth?]

theorem Value.ofTruth_eq_true_iff {t : Option Bool} :
    ofTruth t = .boolean true ↔ t = some true := by
  cases t <;> simp [ofTruth]

@[simp]
theorem Value.truth?_ofTruth (t : Option Bool) : (ofTruth t).truth? = t := by
  cases t <;> rfl

theorem Truth.and_eq_true_iff {a b : Option Bool} :
    Truth.and a b = some true ↔ a = some true ∧ b = some true := by
  rcases a with _ | _ | _ <;> rcases b with _ | _ | _ <;> simp [Truth.and]

namespace Expression

variable {schema : Schema} {row : Row} {e left right : Expression} {v : Value}
  {error : EvaluationError}

/-! ### Conjunctions -/

theorem passes_iff_evaluate : e.passes schema row = .ok true ↔
    e.evaluate schema row = .ok (.boolean true) := by
  unfold passes
  cases h : e.evaluate schema row with
  | error error => simp [bind, Except.bind]
  | ok value => simp [bind, Except.bind, pure, Except.pure, Value.truth?_eq_true_iff]

theorem passes_eq_error_iff :
    e.passes schema row = .error error ↔ e.evaluate schema row = .error error := by
  unfold passes
  cases e.evaluate schema row <;> simp [bind, Except.bind, pure, Except.pure]

theorem exists_passes_iff :
    (∃ passed, e.passes schema row = .ok passed) ↔ ∃ v, e.evaluate schema row = .ok v := by
  unfold passes
  cases e.evaluate schema row <;> simp [bind, Except.bind, pure, Except.pure]

/-- Both operands of a conjunction are evaluated, also if the row does not pass the left one. -/
theorem passes_and (left right : Expression) (schema : Schema) (row : Row) :
    (and left right).passes schema row = do
      let passesLeft ← left.passes schema row
      let passesRight ← right.passes schema row
      return passesLeft && passesRight := by
  unfold passes
  rw [evaluate]
  cases left.evaluate schema row with
  | error error => rfl
  | ok l =>
    cases right.evaluate schema row with
    | error error => rfl
    | ok r =>
      refine congrArg Except.ok ?_
      rw [Value.truth?_ofTruth, ← Bool.decide_and, decide_eq_decide]
      exact Truth.and_eq_true_iff

/-- **A conjunction is its terms, taken one after the other**: a row passes if it passes all of
them, and the first term without a value is the one that stops the evaluation. -/
theorem passes_eq_all (e : Expression) (schema : Schema) (row : Row) :
    e.passes schema row = (·.all id) <$> e.conjuncts.mapM (·.passes schema row) := by
  fun_induction conjuncts e with
  | case1 left right ihl ihr =>
    rw [passes_and, ihl, ihr, List.mapM_append]
    cases left.conjuncts.mapM (·.passes schema row) with
    | error error => rfl
    | ok passesLeft =>
      cases right.conjuncts.mapM (·.passes schema row) with
      | error error => rfl
      | ok passesRight => exact congrArg Except.ok List.all_append.symm
  | case2 e =>
    rw [List.mapM_cons]
    cases e.passes schema row with
    | error error => rfl
    | ok passed => exact congrArg Except.ok (Bool.and_true passed).symm

theorem passes_iff : e.passes schema row = .ok true ↔
    ∀ term ∈ e.conjuncts, term.passes schema row = .ok true := by
  rw [passes_eq_all, map_eq_ok_iff]
  constructor
  · rintro ⟨results, hresults, hall⟩ term hterm
    obtain ⟨passed, hpassed, hterm⟩ := exists_of_mem_left (mapM_eq_ok_iff.1 hresults) hterm
    exact hterm.trans (congrArg Except.ok (List.all_eq_true.1 hall passed hpassed))
  · intro h
    exact ⟨_, mapM_eq_ok_map h, by simp⟩

theorem evaluate_eq_error_iff : e.evaluate schema row = .error error ↔
    ∃ before term after, e.conjuncts = before ++ term :: after ∧
      (∀ earlier ∈ before, ∃ v, earlier.evaluate schema row = .ok v) ∧
      term.evaluate schema row = .error error := by
  rw [← passes_eq_error_iff, passes_eq_all, map_eq_error_iff, mapM_eq_error_iff]
  simp only [exists_passes_iff, passes_eq_error_iff]

/-- A term is evaluated although the one ahead of it is false. -/
example : (and (.literal (.boolean false)) (named "AGE")).evaluate .empty ⟨[]⟩ =
    .error (.missingColumn "AGE") := rfl

theorem evaluates_iff : (∃ v, e.evaluate schema row = .ok v) ↔
    ∀ term ∈ e.conjuncts, ∃ v, term.evaluate schema row = .ok v := by
  rw [← exists_passes_iff, passes_eq_all]
  simp only [← exists_passes_iff, ← exists_mapM_eq_ok_iff, map_eq_ok_iff]
  exact ⟨fun ⟨_, results, h, _⟩ => ⟨results, h⟩, fun ⟨results, h⟩ => ⟨_, results, h, rfl⟩⟩

/-! ### Terms -/

theorem compare_of_passes_equal (h : (comparison .equal left right).passes schema row = .ok true) :
    ∃ v w, left.evaluate schema row = .ok v ∧ right.evaluate schema row = .ok w ∧
      v.compare? w = some .eq := by
  simp only [passes_iff_evaluate, evaluate, bind_eq_ok_iff] at h
  obtain ⟨v, hv, w, hw, h⟩ := h
  refine ⟨v, w, hv, hw, ?_⟩
  obtain ⟨o, ho, haccepts⟩ :=
    Option.map_eq_some_iff.1 (Value.ofTruth_eq_true_iff.1 (Except.ok.inj h))
  rw [ho, Ordering.isEq_iff_eq_eq.1 haccepts]

theorem exists_of_evaluateMember {value : Value} {list : List Expression}
    (h : evaluateMember schema row value list = .ok true) :
    ∃ e ∈ list, ∃ w, e.evaluate schema row = .ok w ∧ value.compare? w = some .eq := by
  induction list with
  | nil => cases h
  | cons e rest ih =>
    simp only [evaluateMember, bind_eq_ok_iff] at h
    obtain ⟨w, hw, h⟩ := h
    by_cases heq : value.compare? w = some .eq
    · exact ⟨e, List.mem_cons_self, w, hw, heq⟩
    · simp only [heq, if_false] at h
      obtain ⟨e', he', found⟩ := ih h
      exact ⟨e', List.mem_cons_of_mem _ he', found⟩

theorem compare_of_passes_inList {list : List Expression}
    (h : (inList e list).passes schema row = .ok true) :
    ∃ v, e.evaluate schema row = .ok v ∧
      ∃ member ∈ list, ∃ w, member.evaluate schema row = .ok w ∧ v.compare? w = some .eq := by
  simp only [passes_iff_evaluate, evaluate, bind_eq_ok_iff] at h
  obtain ⟨v, hv, h⟩ := h
  refine ⟨v, hv, ?_⟩
  split at h
  · cases h
  · obtain ⟨found, hfound, h⟩ := bind_eq_ok_iff.1 h
    cases h
    exact exists_of_evaluateMember hfound

/-! ### Columns -/

theorem position?_eq_some {i : Nat} (hdistinct : (schema.columns.map (·.name)).Nodup)
    (hi : i < schema.columns.length) : schema.position? schema.columns[i].name = some i := by
  rw [Schema.position?, List.findIdx?_eq_some_iff_getElem]
  rw [List.nodup_iff_pairwise_ne, List.pairwise_map] at hdistinct
  refine ⟨hi, by simp, fun j hj hname => ?_⟩
  exact List.pairwise_iff_getElem.1 hdistinct j i (Nat.lt_trans hj hi) hi hj (by simpa using hname)

theorem evaluate_column {column : Column} {qualifier : Option String}
    (hdistinct : (schema.columns.map (·.name)).Nodup)
    (h : (column, v) ∈ schema.columns.zip row.values) :
    evaluate schema row (.column ⟨qualifier, column.name⟩) = .ok v := by
  obtain ⟨i, hi, hpair⟩ := List.mem_iff_getElem.1 h
  rw [List.getElem_zip, Prod.mk.injEq] at hpair
  obtain ⟨rfl, rfl⟩ := hpair
  rw [List.length_zip] at hi
  have hcolumn : i < schema.columns.length := by omega
  have hvalue : i < row.values.length := by omega
  simp only [evaluate, position?_eq_some hdistinct hcolumn, Row.get?,
    List.getElem?_eq_getElem hvalue]
  rfl

/-! ### What stops an evaluation -/

variable {part : Expression}

/-- The columns of the expression are in the schema. -/
def ReadsFrom (e : Expression) (schema : Schema) : Prop :=
  ∀ reference ∈ e.columns, ∃ i, schema.position? reference.name = some i

/-- The expression has what may stop its evaluation with the error: a column that is not in the
schema, or an aggregate call. -/
def MayStop (schema : Schema) (e : Expression) (error : EvaluationError) : Prop :=
  ¬e.ReadsFrom schema ∨
    e.isAggregate = true ∧ ∃ function : AggregateFunction, error = .aggregate function.name

theorem MayStop.of_part (h : MayStop schema part error) (hcolumns : part.columns ⊆ e.columns)
    (haggregate : part.isAggregate = true → e.isAggregate = true) : MayStop schema e error := by
  obtain hmissing | ⟨hcall, hfunction⟩ := h
  · exact .inl fun hreads => hmissing fun reference hmem => hreads reference (hcolumns hmem)
  · exact .inr ⟨haggregate hcall, hfunction⟩

theorem evaluateMember_error {value : Value} {list : List Expression}
    (h : evaluateMember schema row value list = .error error) :
    ∃ member ∈ list, member.evaluate schema row = .error error := by
  induction list with
  | nil => cases h
  | cons first rest ih =>
    rw [evaluateMember] at h
    obtain h | ⟨v, -, h⟩ := bind_eq_error_iff.1 h
    · exact ⟨first, List.mem_cons_self, h⟩
    · split at h
      · cases h
      · obtain ⟨member, hmember, h⟩ := ih h
        exact ⟨member, List.mem_cons_of_mem _ hmember, h⟩

theorem mayStop_of_operands {result : Value → Value → Value}
    (ihl : left.evaluate schema row = .error error → MayStop schema left error)
    (ihr : right.evaluate schema row = .error error → MayStop schema right error)
    (hcolumns : e.columns = left.columns ++ right.columns)
    (haggregate : e.isAggregate = (left.isAggregate || right.isAggregate))
    (h : (do
      let left ← left.evaluate schema row
      let right ← right.evaluate schema row
      return result left right) = .error error) : MayStop schema e error := by
  obtain h | ⟨_, -, h⟩ := bind_eq_error_iff.1 h
  · exact (ihl h).of_part (by simp [hcolumns]) (by simp +contextual [haggregate])
  · obtain h | ⟨_, -, h⟩ := bind_eq_error_iff.1 h
    · exact (ihr h).of_part (by simp [hcolumns]) (by simp +contextual [haggregate])
    · cases h

/-- **Only missing columns and aggregate calls stop an evaluation.** -/
theorem mayStop_of_error (h : e.evaluate schema row = .error error) : MayStop schema e error := by
  induction e with
  | column reference =>
    rw [evaluate] at h
    split at h
    · cases h
    next hnone =>
      refine .inl fun hreads => ?_
      obtain ⟨i, hi⟩ := hreads reference (List.mem_singleton_self _)
      cases hnone.symm.trans hi
  | literal value => cases h
  | comparison operator left right ihl ihr =>
    rw [evaluate] at h
    exact mayStop_of_operands ihl ihr rfl rfl h
  | and left right ihl ihr =>
    rw [evaluate] at h
    exact mayStop_of_operands ihl ihr rfl rfl h
  | or left right ihl ihr =>
    rw [evaluate] at h
    exact mayStop_of_operands ihl ihr rfl rfl h
  | not operand ih =>
    rw [evaluate] at h
    obtain h | ⟨_, -, h⟩ := bind_eq_error_iff.1 h
    · exact (ih h).of_part (List.Subset.refl _) id
    · cases h
  | inList operand list ih ihs =>
    rw [evaluate] at h
    obtain h | ⟨_, -, h⟩ := bind_eq_error_iff.1 h
    · exact (ih h).of_part (by simp [columns]) (by simp +contextual [isAggregate])
    · split at h
      · cases h
      · obtain h | ⟨_, -, h⟩ := bind_eq_error_iff.1 h
        · obtain ⟨member, hmember, h⟩ := evaluateMember_error h
          refine (ihs member hmember h).of_part ?_ fun hcall => ?_
          · intro reference hmem
            rw [columns, listColumns_eq_flatMap, List.mem_append, List.mem_flatMap]
            exact .inr ⟨member, hmember, hmem⟩
          · rw [isAggregate, anyAggregate_eq_any, Bool.or_eq_true, List.any_eq_true]
            exact .inr ⟨member, hmember, hcall⟩
        · cases h
  | aggregate function argument ih =>
    cases h
    exact .inr ⟨rfl, function, rfl⟩
  | aggregateRows function =>
    cases h
    exact .inr ⟨rfl, function, rfl⟩

theorem evaluate_or_aggregate (hreads : e.ReadsFrom schema) (row : Row) :
    (∃ v, e.evaluate schema row = .ok v) ∨ e.isAggregate = true ∧
      ∃ function : AggregateFunction,
        e.evaluate schema row = .error (.aggregate function.name) := by
  cases h : e.evaluate schema row with
  | ok v => exact .inl ⟨v, rfl⟩
  | error error =>
    obtain hmissing | ⟨hcall, function, rfl⟩ := mayStop_of_error h
    · exact absurd hreads hmissing
    · exact .inr ⟨hcall, function, rfl⟩

/-! ### Without qualifiers -/

theorem evaluateMember_unqualified {value : Value} {list : List Expression}
    (h : ∀ member ∈ list,
      (member.unqualified.evaluate schema row).toOption =
        (member.evaluate schema row).toOption) :
    (evaluateMember schema row value (listUnqualified list)).toOption =
      (evaluateMember schema row value list).toOption := by
  induction list with
  | nil => rfl
  | cons first rest ih =>
    obtain ⟨hfirst, hrest⟩ := List.forall_mem_cons.1 h
    rw [listUnqualified, evaluateMember, evaluateMember]
    refine toOption_bind_congr hfirst fun member => ?_
    by_cases heq : value.compare? member = some .eq
    · rw [if_pos heq, if_pos heq]
    · rw [if_neg heq, if_neg heq]
      exact ih hrest

/-- **Qualifiers do not matter to the value of an expression.** A missing column is reported by
another name without them. -/
theorem evaluate_unqualified (e : Expression) (schema : Schema) (row : Row) :
    (e.unqualified.evaluate schema row).toOption = (e.evaluate schema row).toOption := by
  induction e with
  | column reference =>
    simp only [unqualified, named, evaluate]
    cases schema.position? reference.name with
    | some position => rfl
    | none => rfl
  | literal value => rfl
  | comparison operator left right ihl ihr =>
    rw [unqualified, evaluate, evaluate]
    exact toOption_bind_congr ihl fun _ => toOption_bind_congr ihr fun _ => rfl
  | and left right ihl ihr =>
    rw [unqualified, evaluate, evaluate]
    exact toOption_bind_congr ihl fun _ => toOption_bind_congr ihr fun _ => rfl
  | or left right ihl ihr =>
    rw [unqualified, evaluate, evaluate]
    exact toOption_bind_congr ihl fun _ => toOption_bind_congr ihr fun _ => rfl
  | not operand ih =>
    rw [unqualified, evaluate, evaluate]
    exact toOption_bind_congr ih fun _ => rfl
  | inList operand list ih ihs =>
    rw [unqualified, evaluate, evaluate]
    refine toOption_bind_congr ih fun value => ?_
    by_cases hnull : value.isNull = true
    · rw [if_pos hnull, if_pos hnull]
    · rw [if_neg hnull, if_neg hnull]
      exact toOption_bind_congr (evaluateMember_unqualified ihs) fun _ => rfl
  | aggregate function argument ih => rfl
  | aggregateRows function => rfl

end Expression

end StreamSql
