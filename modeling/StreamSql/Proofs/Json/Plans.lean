import StreamSql.Json.Plan
import StreamSql.Proofs.Expression
import StreamSql.Proofs.Json.Values

/-!
# Plans are read back

Expressions and steps are trees, so that they are read back by induction, with one case for every
constructor: each is recognised by its name, and its fields are read back. With the commands and the
schemas, whole plans are. A plan that carries nothing does not exist, and nothing is read as one.
-/

namespace StreamSql

open Json (fieldAt_null_then fieldAt_then field_then fieldWith_then variant?_tagged)

/-! ### Expressions -/

instance : LawfulForm ColumnReference where
  ofJson_toJson _ := fieldAt_then rfl <| fieldAt_then rfl rfl

instance : LawfulForm ComparisonOperator := ⟨fun o => by cases o <;> rfl⟩

instance : LawfulForm AggregateFunction := ⟨fun f => by cases f <;> rfl⟩

namespace Expression

theorem encode_ne_null (e : Expression) : encode e ≠ .null := by
  cases e <;> simp [encode, Json.tagged]

theorem encodeList_eq_map (list : List Expression) : encodeList list = list.map encode := by
  induction list with
  | nil => rfl
  | cons e rest ih => rw [encodeList, ih, List.map_cons]

theorem readOperands_encode {left right : Expression} (hleft : decode (encode left) = .ok left)
    (hright : decode (encode right) = .ok right) :
    readOperands (.array [encode left, encode right]) (fun m _ => decode m) =
      .ok (left, right) := by
  have hitems : (Json.array ([left, right].map encode)).itemsWith (fun m _ => decode m) =
      .ok [left, right] := Json.itemsWith_map (by simp [hleft, hright])
  exact bind_eq_ok_iff.2 ⟨[left, right], hitems, rfl⟩

theorem decode_encode (e : Expression) : decode (encode e) = .ok e := by
  induction e with
  | column reference =>
    rw [encode, decode]
    exact bind_eq_ok_iff.2 ⟨reference, ofJson_toJson reference, rfl⟩
  | literal v =>
    rw [encode, decode, variant?_tagged _ (toJson_ne_null v)]
    exact bind_eq_ok_iff.2 ⟨v, ofJson_toJson v, rfl⟩
  | comparison operator left right ihl ihr =>
    rw [encode, decode]
    exact field_then rfl <| fieldWith_then rfl (fun _ => ihl) <|
      fieldWith_then rfl (fun _ => ihr) rfl
  | and left right ihl ihr =>
    rw [encode, decode]
    exact bind_eq_ok_iff.2 ⟨_, readOperands_encode ihl ihr, rfl⟩
  | or left right ihl ihr =>
    rw [encode, decode]
    exact bind_eq_ok_iff.2 ⟨_, readOperands_encode ihl ihr, rfl⟩
  | not operand ih =>
    rw [encode, decode, variant?_tagged _ (encode_ne_null operand)]
    exact bind_eq_ok_iff.2 ⟨operand, ih, rfl⟩
  | inList operand list ih ihs =>
    rw [encode, encodeList_eq_map, decode]
    exact fieldWith_then rfl (fun _ => ih) <|
      fieldWith_then rfl (fun _ => Json.itemsWith_map ihs) rfl
  | aggregate function argument ih =>
    rw [encode, decode]
    have hnull := encode_ne_null argument
    refine field_then rfl <| fieldWith_then (a := some argument) rfl ?_ rfl
    generalize encode argument = form at ih hnull
    intro smaller
    cases form with
    | null => exact absurd rfl hnull
    | _ => exact bind_eq_ok_iff.2 ⟨argument, ih, rfl⟩
  | aggregateRows function =>
    rw [encode, decode]
    exact field_then rfl <| fieldWith_then rfl (fun _ => rfl) rfl

end Expression

instance : LawfulForm Expression := ⟨Expression.decode_encode⟩

instance : NeverNull Expression := ⟨Expression.encode_ne_null⟩

/-! ### Steps -/

instance : LawfulForm StepHeading where
  ofJson_toJson _ := fieldAt_then rfl <| fieldAt_then rfl rfl

instance : LawfulForm Projection where
  ofJson_toJson _ := fieldAt_then rfl <| fieldAt_then rfl rfl

instance : LawfulForm AggregateCall where
  ofJson_toJson _ := fieldAt_then rfl <| fieldAt_then rfl <| fieldAt_then rfl rfl

instance : LawfulForm JoinKind := ⟨fun kind => by cases kind <;> rfl⟩

theorem Step.decode_encode (step : Step) : decode (encode step) = .ok step := by
  induction step with
  | source heading kind name aliasName topic keyFormat valueFormat =>
    rw [encode, decode]
    exact field_then rfl <| field_then rfl <| field_then rfl <| field_then rfl <|
      field_then rfl <| field_then rfl <| field_then rfl rfl
  | filter heading input predicate ih =>
    rw [encode, decode]
    exact fieldWith_then rfl (fun _ => ih) <| field_then rfl <| field_then rfl rfl
  | select heading input expressions ih =>
    rw [encode, decode]
    exact fieldWith_then rfl (fun _ => ih) <| field_then rfl <| field_then rfl rfl
  | aggregate heading input groupBy aggregates ih =>
    rw [encode, decode]
    exact fieldWith_then rfl (fun _ => ih) <| field_then rfl <| field_then rfl <| field_then rfl rfl
  | join heading kind output left right leftKey rightKey ihl ihr =>
    rw [encode, decode]
    exact fieldWith_then rfl (fun _ => ihl) <| fieldWith_then rfl (fun _ => ihr) <|
      field_then rfl <| field_then rfl <| field_then rfl <| field_then rfl <| field_then rfl rfl
  | sink heading input kind name topic keyFormat valueFormat ih =>
    rw [encode, decode]
    exact fieldWith_then rfl (fun _ => ih) <| field_then rfl <| field_then rfl <| field_then rfl <|
      field_then rfl <| field_then rfl <| field_then rfl rfl

instance : LawfulForm Step := ⟨Step.decode_encode⟩

/-! ### Plans -/

instance : LawfulForm QueryPlan where
  ofJson_toJson _ := fieldAt_then rfl <| fieldAt_then rfl <| fieldAt_then rfl <|
    fieldAt_then rfl <| fieldAt_then rfl rfl

instance : NeverNull QueryPlan := ⟨nofun⟩

instance : LawfulForm Plan where
  ofJson_toJson p := fieldAt_then rfl <| fieldAt_then rfl <| fieldAt_then rfl <|
    dif_pos p.carries

namespace Plan

theorem ofJson_empty {members : List (String × Json)} {statement : String}
    (htext : (Json.object members).member "statement_text" = .text statement)
    (hcommand : (Json.object members).member "ddl_command" = .null)
    (hquery : (Json.object members).member "query_plan" = .null) :
    (ofJson (.object members) : Except DecodeError Plan) = .error .emptyPlan := by
  have hlookup : members.lookup "statement_text" = some (toJson statement) :=
    Json.lookup_of_member htext nofun
  exact fieldAt_then hlookup <| fieldAt_null_then hcommand <| fieldAt_null_then hquery rfl

/-- **Plans are read back**, whatever they carry, down to the bits of the floats in them. What
carries neither a command nor a query is not read as a plan. -/
theorem persisted :
    (∀ p : Plan, ofJson (toJson p) = .ok p) ∧
    (∀ members statement, (Json.object members).member "statement_text" = .text statement →
      (Json.object members).member "ddl_command" = .null →
      (Json.object members).member "query_plan" = .null →
      (ofJson (.object members) : Except DecodeError Plan) = .error .emptyPlan) ∧
    ∀ (j : Json) (p : Plan), ofJson j = .ok p → p.command.isSome ∨ p.query.isSome :=
  ⟨ofJson_toJson, fun _ _ => ofJson_empty, fun _ p _ => p.carries⟩

namespace Sample

/-- A statement on its own, with nothing to carry out. -/
theorem bare_statement_refused :
    (ofJson (.object [("statement_text", .text "SELECT 1;"), ("ddl_command", .null),
      ("query_plan", .null)]) : Except DecodeError Plan) = .error .emptyPlan :=
  persisted.2.1 _ "SELECT 1;" rfl rfl rfl

end Sample

end Plan

end StreamSql
