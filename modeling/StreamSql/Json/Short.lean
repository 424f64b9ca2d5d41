import StreamSql.Json.Statement

/-!
# Expressions and queries in short

A short form is an array of the name of the form and its parts, such as `["col", "ID"]` for a column
and `["eq", left, right]` for an equation. A query in short is an object of the relation that it
selects from and of the clauses that are put on, one after the other.
-/

namespace StreamSql

namespace Json

/-- Reads a part of a short form. -/
def part {α : Type} [JsonForm α] (parts : List Json) (i : Nat) : Except DecodeError α :=
  match parts[i]? with
  | some m => ofJson m
  | none => .error .malformed

/-- Reads a part of a short form, which is smaller than the list of the parts. -/
def partWith {α : Type} (parts : List Json) (i : Nat)
    (read : (m : Json) → sizeOf m < sizeOf parts → Except DecodeError α) :
    Except DecodeError α :=
  match parts.attach[i]? with
  | some m => read m.val (List.sizeOf_lt_of_mem m.property)
  | none => .error .malformed

end Json

def Expression.ofShort (j : Json) : Except DecodeError Expression :=
  match j with
  | .array (.text form :: parts) =>
    let operand (i : Nat) : Except DecodeError Expression :=
      Json.partWith parts i fun m _ => ofShort m
    match form with
    | "col" => return .named (← Json.part parts 0)
    | "qcol" => return .column ⟨some (← Json.part parts 0), ← Json.part parts 1⟩
    | "lit" => return .literal (← Json.part parts 0)
    | "cmp" => return .comparison (← Json.part parts 0) (← operand 1) (← operand 2)
    | "eq" => return .equal (← operand 0) (← operand 1)
    | "and" => return .and (← operand 0) (← operand 1)
    | "in" => do
      let alternatives := Json.partWith parts 1 fun m _ =>
        m.itemsWith fun item _ => ofShort item
      return .inList (← operand 0) (← alternatives)
    | "agg" => do
      let function ← Json.part parts 0
      match parts[1]? with
      | some .null | none => return .aggregateRows function
      | some _ => return .aggregate function (← operand 1)
    | _ => throw .unknownForm
  | _ => throw .malformed
termination_by sizeOf j

def Relation.ofShort (j : Json) : Except DecodeError Relation :=
  match j with
  | .array (.text form :: parts) =>
    let operand (i : Nat) : Except DecodeError Relation :=
      Json.partWith parts i fun m _ => ofShort m
    match form with
    | "source" => return .source (← Json.part parts 0) none
    | "aliased" => return .source (← Json.part parts 0) (some (← Json.part parts 1))
    | "join" =>
      return .join (← Json.part parts 0) (← operand 1) (← operand 2)
        (← Json.partWith parts 3 fun m _ => Expression.ofShort m)
    | _ => throw .unknownForm
  | _ => throw .malformed
termination_by sizeOf j

def SelectItem.ofShort : Json → Except DecodeError SelectItem
  | .array (.text form :: parts) =>
    let operand (i : Nat) : Except DecodeError Expression :=
      Json.partWith parts i fun m _ => Expression.ofShort m
    match form with
    | "star" => return .star none
    | "expr" => return .expression (← operand 0) none
    | "aliased" => return .expression (← operand 0) (some (← Json.part parts 1))
    | _ => throw .unknownForm
  | _ => throw .malformed

/-- Puts a clause on a query, in the place of the one it has. -/
def Query.addShort (q : Query) : Json → Except DecodeError Query
  | .array (.text clause :: parts) =>
    let list {α : Type} (read : Json → Except DecodeError α) : Except DecodeError (List α) :=
      Json.partWith parts 0 fun m _ => m.itemsWith fun item _ => read item
    match clause with
    | "select" => return { q with select := ← list SelectItem.ofShort }
    | "filter" =>
      return { q with
        filter := ← Json.partWith parts 0 fun m _ => Expression.ofShort m }
    | "group_by" => return { q with groupBy := ← list Expression.ofShort }
    | "limit" => return { q with limit := some (← Json.part parts 0) }
    | "pull" => return { q with isPull := true }
    | _ => throw .unknownForm
  | _ => throw .malformed

def Query.ofShort (j : Json) : Except DecodeError Query := do
  let relation ← Relation.ofShort (j.member "from")
  match j.member "calls" with
  | .null => return .selectAll relation
  | .array clauses => clauses.foldlM addShort (.selectAll relation)
  | _ => throw .malformed

end StreamSql
