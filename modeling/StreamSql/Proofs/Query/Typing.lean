import StreamSql.Proofs.Evaluation
import StreamSql.Proofs.Query.Scope

/-!
# Types of expressions

Typing is sound: an expression that has a type in the scope of a schema, and no aggregate call, is
evaluated on every row that conforms to the schema, to a value of that type
(`Expression.evaluates_to_type`). That there is a value does not depend on the row, as every column
of such an expression is in the schema (`Scope.resolve_of_typeOf`); that it is of the type does.
-/

namespace StreamSql

/-! ### What has a type -/

namespace Scope

variable {scope : Scope} {e : Expression} {type : DataType}

theorem typeOf_operands {left right : Expression}
    (h : (do
      discard (scope.typeOf left)
      discard (scope.typeOf right)
      return DataType.boolean) = .ok type) :
    (∃ t, scope.typeOf left = .ok t) ∧ (∃ t, scope.typeOf right = .ok t) ∧ type = .boolean := by
  obtain ⟨⟨⟩, hleft, h⟩ := bind_eq_ok_iff.1 h
  obtain ⟨⟨⟩, hright, h⟩ := bind_eq_ok_iff.1 h
  exact ⟨discard_eq_ok_iff.1 hleft, discard_eq_ok_iff.1 hright, (Except.ok.inj h).symm⟩

theorem checkTypes_eq_ok_iff {list : List Expression} :
    scope.checkTypes list = .ok () ↔ ∀ e ∈ list, ∃ t, scope.typeOf e = .ok t := by
  induction list with
  | nil => exact iff_of_true rfl nofun
  | cons e rest ih =>
    rw [checkTypes, bind_eq_ok_iff, List.forall_mem_cons, ← ih]
    exact ⟨fun ⟨⟨⟩, he, hrest⟩ => ⟨discard_eq_ok_iff.1 he, hrest⟩,
      fun ⟨he, hrest⟩ => ⟨(), discard_eq_ok_iff.2 he, hrest⟩⟩

theorem resolve_of_typeOf (h : scope.typeOf e = .ok type) :
    ∀ reference ∈ e.columns, ∃ c, scope.resolve reference = .ok c := by
  induction e generalizing type with
  | column reference =>
    rw [typeOf] at h
    obtain ⟨c, hc, -⟩ := bind_eq_ok_iff.1 h
    exact fun other hother => List.mem_singleton.1 hother ▸ ⟨c, hc⟩
  | literal value => exact List.forall_mem_nil _
  | comparison operator left right ihl ihr =>
    rw [typeOf] at h
    obtain ⟨⟨_, hleft⟩, ⟨_, hright⟩, -⟩ := typeOf_operands h
    exact List.forall_mem_append.2 ⟨ihl hleft, ihr hright⟩
  | and left right ihl ihr =>
    rw [typeOf] at h
    obtain ⟨⟨_, hleft⟩, ⟨_, hright⟩, -⟩ := typeOf_operands h
    exact List.forall_mem_append.2 ⟨ihl hleft, ihr hright⟩
  | or left right ihl ihr =>
    rw [typeOf] at h
    obtain ⟨⟨_, hleft⟩, ⟨_, hright⟩, -⟩ := typeOf_operands h
    exact List.forall_mem_append.2 ⟨ihl hleft, ihr hright⟩
  | not operand ih =>
    rw [typeOf] at h
    obtain ⟨⟨⟩, hoperand, -⟩ := bind_eq_ok_iff.1 h
    obtain ⟨_, hoperand⟩ := discard_eq_ok_iff.1 hoperand
    exact ih hoperand
  | inList operand list ih ihs =>
    rw [typeOf] at h
    obtain ⟨⟨⟩, hoperand, h⟩ := bind_eq_ok_iff.1 h
    obtain ⟨⟨⟩, hlist, -⟩ := bind_eq_ok_iff.1 h
    obtain ⟨_, hoperand⟩ := discard_eq_ok_iff.1 hoperand
    rw [Expression.columns, Expression.listColumns_eq_flatMap]
    refine List.forall_mem_append.2 ⟨ih hoperand, fun reference hmem => ?_⟩
    obtain ⟨member, hmember, hmem⟩ := List.mem_flatMap.1 hmem
    obtain ⟨_, htype⟩ := checkTypes_eq_ok_iff.1 hlist member hmember
    exact ihs member hmember htype reference hmem
  | aggregate function argument ih =>
    rw [typeOf] at h
    obtain ⟨-, h⟩ := guarded_eq_ok_iff.1 h
    obtain ⟨_, hargument, -⟩ := bind_eq_ok_iff.1 h
    exact ih hargument
  | aggregateRows function => exact List.forall_mem_nil _

end Scope

/-! ### Values of a type -/

/-- The value is of the type; null is of every type. -/
def Value.HasType (v : Value) (type : DataType) : Prop := v = .null ∨ v.type? = some type

theorem Value.hasType_null (type : DataType) : Value.null.HasType type := .inl rfl

theorem Value.hasType_ofTruth (t : Option Bool) : (Value.ofTruth t).HasType .boolean := by
  cases t with
  | none => exact .inl rfl
  | some b => exact .inr rfl

/-- The row has one value for every column of the schema, each of the type of its column. -/
def Row.Conforms (row : Row) (schema : Schema) : Prop :=
  List.Forall₂ (fun column value => value.HasType column.type) schema.columns row.values

theorem Row.Conforms.hasType {row : Row} {schema : Schema} {i : Nat} {column : Column}
    (h : row.Conforms schema) (hcolumn : schema.columns[i]? = some column) :
    ((row.get? i).getD .null).HasType column.type := by
  obtain ⟨hi, rfl⟩ := List.getElem?_eq_some_iff.1 hcolumn
  have hvalue : i < row.values.length := h.length_eq ▸ hi
  rw [Row.get?, List.getElem?_eq_getElem hvalue, Option.getD_some]
  exact h.get hi hvalue

/-! ### Evaluation -/

namespace Expression

variable {schema : Schema} {qualifier : Option String} {row : Row} {e : Expression}
  {type : DataType} {v : Value}

theorem readsFrom_of_typeOf (h : (Scope.ofSchema qualifier schema).typeOf e = .ok type) :
    e.ReadsFrom schema := by
  intro reference hmem
  obtain ⟨c, hc⟩ := Scope.resolve_of_typeOf h reference hmem
  obtain ⟨i, column, hposition, -⟩ := Scope.position_of_resolve hc
  exact ⟨i, hposition⟩

theorem hasType_of_operands {left right : Expression} {truth : Value → Value → Option Bool}
    (hv : (do
      let left ← left.evaluate schema row
      let right ← right.evaluate schema row
      return Value.ofTruth (truth left right)) = .ok v) : v.HasType .boolean := by
  obtain ⟨l, -, hv⟩ := bind_eq_ok_iff.1 hv
  obtain ⟨r, -, hv⟩ := bind_eq_ok_iff.1 hv
  exact Except.ok.inj hv ▸ Value.hasType_ofTruth _

theorem hasType_of_evaluate (hrow : row.Conforms schema)
    (htype : (Scope.ofSchema qualifier schema).typeOf e = .ok type)
    (hv : e.evaluate schema row = .ok v) : v.HasType type := by
  cases e with
  | column reference =>
    rw [Scope.typeOf] at htype
    obtain ⟨c, hc, htype⟩ := bind_eq_ok_iff.1 htype
    obtain ⟨i, column, hposition, hcolumn, hsame⟩ := Scope.position_of_resolve hc
    rw [evaluate, hposition] at hv
    obtain rfl := Except.ok.inj hv
    obtain rfl := Except.ok.inj htype
    exact hsame ▸ hrow.hasType hcolumn
  | literal value =>
    rw [evaluate] at hv
    rw [Scope.typeOf] at htype
    obtain rfl := Except.ok.inj hv
    obtain rfl := Except.ok.inj htype
    cases value with
    | null => exact .inl rfl
    | _ => exact .inr rfl
  | comparison operator left right =>
    rw [Scope.typeOf] at htype
    rw [evaluate] at hv
    obtain ⟨-, -, rfl⟩ := Scope.typeOf_operands htype
    exact hasType_of_operands hv
  | and left right =>
    rw [Scope.typeOf] at htype
    rw [evaluate] at hv
    obtain ⟨-, -, rfl⟩ := Scope.typeOf_operands htype
    exact hasType_of_operands hv
  | or left right =>
    rw [Scope.typeOf] at htype
    rw [evaluate] at hv
    obtain ⟨-, -, rfl⟩ := Scope.typeOf_operands htype
    exact hasType_of_operands hv
  | not operand =>
    rw [Scope.typeOf] at htype
    rw [evaluate] at hv
    obtain ⟨⟨⟩, -, htype⟩ := bind_eq_ok_iff.1 htype
    obtain rfl := Except.ok.inj htype
    obtain ⟨o, -, hv⟩ := bind_eq_ok_iff.1 hv
    exact Except.ok.inj hv ▸ Value.hasType_ofTruth _
  | inList operand list =>
    rw [Scope.typeOf] at htype
    rw [evaluate] at hv
    obtain ⟨⟨⟩, -, htype⟩ := bind_eq_ok_iff.1 htype
    obtain ⟨⟨⟩, -, htype⟩ := bind_eq_ok_iff.1 htype
    obtain rfl := Except.ok.inj htype
    obtain ⟨o, -, hv⟩ := bind_eq_ok_iff.1 hv
    split at hv
    · exact Except.ok.inj hv ▸ Value.hasType_null _
    · obtain ⟨found, -, hv⟩ := bind_eq_ok_iff.1 hv
      exact Except.ok.inj hv ▸ .inr rfl
  | aggregate function argument => cases hv
  | aggregateRows function => cases hv

/-- **Typing is sound.** On a row that conforms to the schema, an expression without aggregate calls
that has a type in the scope of the schema is evaluated to a value of that type. -/
theorem evaluates_to_type (hrow : row.Conforms schema) (hplain : e.isAggregate = false)
    (htype : (Scope.ofSchema qualifier schema).typeOf e = .ok type) :
    ∃ v, e.evaluate schema row = .ok v ∧ v.HasType type := by
  obtain ⟨v, hv⟩ | ⟨hcall, -⟩ := evaluate_or_aggregate (readsFrom_of_typeOf htype) row
  · exact ⟨v, hv, hasType_of_evaluate hrow htype hv⟩
  · rw [hplain] at hcall
    cases hcall

/-- `U.ID IN (NULL, 1) AND NOT (ID = 2)` over users of whom two columns have the same name, for a
user without the second of them. -/
theorem users_filtered :
    let schema := ((Schema.empty.add "ID" .int8 true).add "NAME" .utf8 false).add "NAME" .int4 false
    let alice : Row := ⟨[.int8 1, .utf8 "alice", .null]⟩
    let filter : Expression :=
      .and (.inList (.column ⟨some "U", "ID"⟩) [.literal .null, .literal (.int4 1)])
        (.not (.equal (.named "ID") (.literal (.int4 2))))
    alice.Conforms schema ∧ filter.isAggregate = false ∧
      (Scope.ofSchema (some "U") schema).typeOf filter = .ok .boolean ∧
      ∃ v, filter.evaluate schema alice = .ok v ∧ v.HasType .boolean := by
  intro schema alice filter
  have hrow : alice.Conforms schema :=
    .cons (.inr rfl) (.cons (.inr rfl) (.cons (.inl rfl) .nil))
  have htype : (Scope.ofSchema (some "U") schema).typeOf filter = .ok .boolean := rfl
  exact ⟨hrow, rfl, htype, evaluates_to_type hrow rfl htype⟩

end Expression

end StreamSql
