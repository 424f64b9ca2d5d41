import StreamSql.Proofs.Expression
import StreamSql.Proofs.Query.NameResolution
import StreamSql.Proofs.Text
import StreamSql.Proofs.Value.Zeros

/-!
# What replaces aggregate calls

Aggregation replaces every aggregate call of a selection by a reference to a computed column and
leaves the rest of the expression as it is (`Expression.Replaces`). Each call is recorded once under
a name of its own, with a column that is computed for it (`Aggregation.Sound`), and everything that
is recorded is referred to (`Aggregation.extractItems_replaces`). Calls are taken to be the same if
they are equal as values, so what is recorded for a call may differ from it in the signs of zeros.
-/

namespace StreamSql

namespace Expression

/-! ### Expressions but for the signs of zeros -/

mutual

/-- The expression without the signs of the zeros among its literals. -/
def unsigned : Expression → Expression
  | column reference => column reference
  | literal value => literal value.unsigned
  | comparison operator left right => comparison operator (unsigned left) (unsigned right)
  | and left right => and (unsigned left) (unsigned right)
  | or left right => or (unsigned left) (unsigned right)
  | not operand => not (unsigned operand)
  | inList operand list => inList (unsigned operand) (listUnsigned list)
  | aggregate function argument => aggregate function (unsigned argument)
  | aggregateRows function => aggregateRows function

def listUnsigned : List Expression → List Expression
  | [] => []
  | e :: rest => unsigned e :: listUnsigned rest

end

theorem listUnsigned_eq_of_listEquals {list others : List Expression}
    (hlist : ∀ member ∈ list, ∀ other, member.equals other = true →
      member.unsigned = other.unsigned)
    (h : listEquals list others = true) : listUnsigned list = listUnsigned others := by
  induction list generalizing others with
  | nil =>
    cases others with
    | nil => rfl
    | cons => cases h
  | cons e rest ih =>
    cases others with
    | nil => cases h
    | cons other others =>
      rw [listEquals, Bool.and_eq_true] at h
      obtain ⟨hhead, hrest⟩ := List.forall_mem_cons.1 hlist
      rw [listUnsigned, listUnsigned, hhead other h.1, ih hrest h.2]

theorem unsigned_eq_of_equals {e other : Expression} (h : e.equals other = true) :
    e.unsigned = other.unsigned := by
  induction e generalizing other with
  | column reference =>
    cases other with
    | column other => rw [beq_iff_eq.1 (show (reference == other) = true from h)]
    | _ => cases h
  | literal value =>
    cases other with
    | literal other => exact congrArg literal (Value.unsigned_eq_of_equals h)
    | _ => cases h
  | comparison operator left right ihl ihr =>
    cases other with
    | comparison =>
      simp only [equals, Bool.and_eq_true, beq_iff_eq] at h
      obtain ⟨⟨rfl, hleft⟩, hright⟩ := h
      rw [unsigned, unsigned, ihl hleft, ihr hright]
    | _ => cases h
  | and left right ihl ihr =>
    cases other with
    | and =>
      rw [equals, Bool.and_eq_true] at h
      rw [unsigned, unsigned, ihl h.1, ihr h.2]
    | _ => cases h
  | or left right ihl ihr =>
    cases other with
    | or =>
      rw [equals, Bool.and_eq_true] at h
      rw [unsigned, unsigned, ihl h.1, ihr h.2]
    | _ => cases h
  | not operand ih =>
    cases other with
    | not => exact congrArg Expression.not (ih h)
    | _ => cases h
  | inList operand list ih ihs =>
    cases other with
    | inList =>
      rw [equals, Bool.and_eq_true] at h
      rw [unsigned, unsigned, ih h.1,
        listUnsigned_eq_of_listEquals (fun member hmem _ => ihs member hmem) h.2]
    | _ => cases h
  | aggregate function argument ih =>
    cases other with
    | aggregate =>
      rw [equals, Bool.and_eq_true, beq_iff_eq] at h
      obtain ⟨rfl, hargument⟩ := h
      rw [unsigned, unsigned, ih hargument]
    | _ => cases h
  | aggregateRows function =>
    cases other with
    | aggregateRows other => rw [beq_iff_eq.1 (show (function == other) = true from h)]
    | _ => cases h

/-! ### Outside aggregate calls -/

theorem append_subset_append {α : Type} {as bs cs ds : List α} (h : as ⊆ bs) (h' : cs ⊆ ds) :
    as ++ cs ⊆ bs ++ ds :=
  List.append_subset.2
    ⟨List.subset_append_of_subset_left _ h, List.subset_append_of_subset_right _ h'⟩

mutual

/-- The column references outside aggregate calls, from left to right. -/
def plainColumns : Expression → List ColumnReference
  | column reference => [reference]
  | literal _ | aggregate _ _ | aggregateRows _ => []
  | comparison _ left right | and left right | or left right =>
    plainColumns left ++ plainColumns right
  | not operand => plainColumns operand
  | inList operand list => plainColumns operand ++ listPlainColumns list

def listPlainColumns : List Expression → List ColumnReference
  | [] => []
  | e :: rest => plainColumns e ++ listPlainColumns rest

end

theorem listPlainColumns_eq_flatMap (list : List Expression) :
    listPlainColumns list = list.flatMap plainColumns := by
  induction list with
  | nil => rfl
  | cons e rest ih => rw [listPlainColumns, ih, List.flatMap_cons]

theorem plainColumns_subset_columns (e : Expression) : e.plainColumns ⊆ e.columns := by
  induction e with
  | column reference => exact List.Subset.refl _
  | comparison operator left right ihl ihr => exact append_subset_append ihl ihr
  | and left right ihl ihr => exact append_subset_append ihl ihr
  | or left right ihl ihr => exact append_subset_append ihl ihr
  | not operand ih => exact ih
  | inList operand list ih ihs =>
    rw [plainColumns, columns, listPlainColumns_eq_flatMap, listColumns_eq_flatMap]
    refine append_subset_append ih fun reference hmem => ?_
    obtain ⟨member, hmember, hreference⟩ := List.mem_flatMap.1 hmem
    exact List.mem_flatMap.2 ⟨member, hmember, ihs member hmember hreference⟩
  | _ => exact List.nil_subset _

end Expression

/-- The call as it stands in an expression. -/
def AggregateCall.expression (call : AggregateCall) : Expression :=
  match call.argument with
  | some argument => .aggregate call.function argument
  | none => .aggregateRows call.function

/-- The reference to the column that is computed for the call. -/
def AggregateCall.reference (call : AggregateCall) : ColumnReference := ⟨none, call.name⟩

namespace Expression

variable {calls : List AggregateCall} {e rest : Expression}

/-- What is left of an expression whose aggregate calls are replaced by references to recorded
calls: with the recorded calls in the place of these references it is the expression again, but for
the signs of zeros in the arguments. -/
inductive Replaces (calls : List AggregateCall) : Expression → Expression → Prop
  | column (reference : ColumnReference) : Replaces calls (.column reference) (.column reference)
  | literal (value : Value) : Replaces calls (.literal value) (.literal value)
  | comparison {operator : ComparisonOperator} {left right l r : Expression}
      (hleft : Replaces calls left l) (hright : Replaces calls right r) :
      Replaces calls (.comparison operator left right) (.comparison operator l r)
  | and {left right l r : Expression} (hleft : Replaces calls left l)
      (hright : Replaces calls right r) : Replaces calls (.and left right) (.and l r)
  | or {left right l r : Expression} (hleft : Replaces calls left l)
      (hright : Replaces calls right r) : Replaces calls (.or left right) (.or l r)
  | not {operand o : Expression} (h : Replaces calls operand o) :
      Replaces calls (.not operand) (.not o)
  | inList {operand o : Expression} {list rests : List Expression} (h : Replaces calls operand o)
      (hlist : List.Forall₂ (Replaces calls) list rests) :
      Replaces calls (.inList operand list) (.inList o rests)
  | aggregate {call : AggregateCall} {function : AggregateFunction} {argument : Expression}
      (hcall : call ∈ calls)
      (hsame : call.expression.unsigned = (Expression.aggregate function argument).unsigned) :
      Replaces calls (.aggregate function argument) (.column call.reference)
  | aggregateRows {call : AggregateCall} {function : AggregateFunction} (hcall : call ∈ calls)
      (hsame : call.expression = .aggregateRows function) :
      Replaces calls (.aggregateRows function) (.column call.reference)

theorem Replaces.isAggregate_eq_false (h : Replaces calls e rest) : rest.isAggregate = false := by
  induction e generalizing rest with
  | column reference => cases h; rfl
  | literal value => cases h; rfl
  | comparison operator left right ihl ihr =>
    cases h with
    | comparison hleft hright => rw [isAggregate, ihl hleft, ihr hright]; rfl
  | and left right ihl ihr =>
    cases h with
    | and hleft hright => rw [isAggregate, ihl hleft, ihr hright]; rfl
  | or left right ihl ihr =>
    cases h with
    | or hleft hright => rw [isAggregate, ihl hleft, ihr hright]; rfl
  | not operand ih =>
    cases h with
    | not h => rw [isAggregate, ih h]
  | inList operand list ih ihs =>
    cases h with
    | inList h hlist =>
      rw [isAggregate, ih h, anyAggregate_eq_any, Bool.false_or, List.any_eq_false]
      intro member hmem
      obtain ⟨original, horiginal, hmember⟩ := exists_of_mem_right hlist hmem
      rw [ihs original horiginal hmember]
      exact Bool.false_ne_true
  | aggregate function argument ih => cases h; rfl
  | aggregateRows function => cases h; rfl

theorem Replaces.plainColumns_subset (h : Replaces calls e rest) :
    e.plainColumns ⊆ rest.columns := by
  induction e generalizing rest with
  | column reference => cases h; exact List.Subset.refl _
  | comparison operator left right ihl ihr =>
    cases h with
    | comparison hleft hright => exact append_subset_append (ihl hleft) (ihr hright)
  | and left right ihl ihr =>
    cases h with
    | and hleft hright => exact append_subset_append (ihl hleft) (ihr hright)
  | or left right ihl ihr =>
    cases h with
    | or hleft hright => exact append_subset_append (ihl hleft) (ihr hright)
  | not operand ih =>
    cases h with
    | not h =>
      rw [plainColumns, columns]
      exact ih h
  | inList operand list ih ihs =>
    cases h with
    | inList h hlist =>
      rw [plainColumns, columns, listPlainColumns_eq_flatMap, listColumns_eq_flatMap]
      refine append_subset_append (ih h) fun reference hmem => ?_
      obtain ⟨member, hmember, hreference⟩ := List.mem_flatMap.1 hmem
      obtain ⟨left, hleft, hreplaces⟩ := exists_of_mem_left hlist hmember
      exact List.mem_flatMap.2 ⟨left, hleft, ihs member hmember hreplaces hreference⟩
  | _ => exact List.nil_subset _

end Expression

/-! ### The record of the calls -/

namespace Aggregation

open Expression (Replaces)

variable {scope : Scope} {grouping : List VisibleColumn} {a mid next : Aggregation}
  {e rest : Expression} {references others : List ColumnReference}

/-- The recorded calls have numbered names, and the columns are those of the grouping and one for
each call. -/
structure Sound (scope : Scope) (grouping : List VisibleColumn) (a : Aggregation) : Prop where
  names : a.calls.map (·.name) = (List.range a.calls.length).map fun i => s!"AGG_{i}"
  columns : ∃ computed, a.columns = grouping ++ computed ∧
    List.Forall₂ (fun call c => ∃ type, scope.typeOf call.expression = .ok type ∧
      c = .named call.name type false) a.calls computed

theorem number_injective {m n : Nat} (h : s!"AGG_{m}" = s!"AGG_{n}") : m = n :=
  Text.toDigits_injective (by simpa [toString] using congrArg String.toList h)

theorem Sound.distinct (h : a.Sound scope grouping) : (a.calls.map (·.name)).Nodup := by
  rw [h.names]
  exact List.nodup_range.map fun _ _ => number_injective

/-- What is recorded in addition, all of it referred to. -/
structure Adds (scope : Scope) (grouping : List VisibleColumn) (a next : Aggregation)
    (references : List ColumnReference) : Prop where
  sound : a.Sound scope grouping → next.Sound scope grouping
  calls : a.calls ⊆ next.calls
  referenced : ∀ call ∈ next.calls, call ∈ a.calls ∨ call.reference ∈ references

theorem Adds.refl (a : Aggregation) (references : List ColumnReference) :
    Adds scope grouping a a references :=
  ⟨id, List.Subset.refl _, fun _ => .inl⟩

theorem Adds.trans (h : Adds scope grouping a mid references)
    (h' : Adds scope grouping mid next others) :
    Adds scope grouping a next (references ++ others) where
  sound := fun ha => h'.sound (h.sound ha)
  calls := List.Subset.trans h.calls h'.calls
  referenced call hcall := by
    rcases h'.referenced call hcall with hmid | hother
    · exact (h.referenced call hmid).imp_right (List.mem_append_left _)
    · exact .inr (List.mem_append_right _ hother)

theorem map_unsigned_of_sameArgument {first second : Option Expression}
    (h : sameArgument first second = true) :
    first.map (·.unsigned) = second.map (·.unsigned) := by
  cases first with
  | none =>
    cases second with
    | none => rfl
    | some => cases h
  | some =>
    cases second with
    | none => cases h
    | some => exact congrArg some (Expression.unsigned_eq_of_equals h)

/-- A call is recorded unless the same call is, and has a column that it is referred to by. -/
theorem addCall_adds (grouping : List VisibleColumn) (a : Aggregation)
    (function : AggregateFunction) (argument : Option Expression) {type : DataType}
    (htype : scope.typeOf (AggregateCall.mk "" function argument).expression = .ok type) :
    Adds scope grouping a (a.addCall function argument type).2
        [⟨none, (a.addCall function argument type).1⟩] ∧
      ∃ call ∈ (a.addCall function argument type).2.calls,
        call.reference = ⟨none, (a.addCall function argument type).1⟩ ∧
        call.function = function ∧
        call.argument.map (·.unsigned) = argument.map (·.unsigned) := by
  unfold addCall
  split
  next call hfound =>
    have hsame := List.find?_some hfound
    rw [Bool.and_eq_true, beq_iff_eq] at hsame
    exact ⟨.refl a _, call, List.mem_of_find?_eq_some hfound, rfl, hsame.1,
      map_unsigned_of_sameArgument hsame.2⟩
  next =>
    dsimp only
    refine ⟨⟨fun ha => ⟨?_, ?_⟩, List.subset_append_left _ _, fun call hcall => ?_⟩, _,
      List.mem_append_right _ (List.mem_singleton_self _), rfl, rfl, rfl⟩
    · rw [List.map_append, ha.names, List.length_append, List.length_singleton, List.range_succ,
        List.map_append]
      rfl
    · obtain ⟨computed, hcolumns, hcomputed⟩ := ha.columns
      refine ⟨computed ++ [_], by rw [hcolumns, List.append_assoc], ?_⟩
      exact List.rel_append hcomputed (.cons ⟨type, htype, rfl⟩ .nil)
    · refine (List.mem_append.1 hcall).imp_right fun hnew => ?_
      rw [List.mem_singleton.1 hnew]
      exact List.mem_singleton_self _

/-- Counts of the two zeros are taken to be the same call. -/
example : let counted (bits : UInt64) := some (Expression.literal (.float8 ⟨bits⟩))
    let first := (addCall {} .count (counted 0) .int8).2
    (first.addCall .count (counted 0x8000000000000000) .int8).1 = "AGG_0" := by
  decide +kernel

/-! ### Expressions and selections -/

/-- What becomes of an expression: its calls are recorded and replaced. -/
def Records (scope : Scope) (grouping : List VisibleColumn) (a : Aggregation) (e rest : Expression)
    (next : Aggregation) : Prop :=
  Adds scope grouping a next rest.columns ∧ ∀ calls, next.calls ⊆ calls → Replaces calls e rest

theorem extract_operands {left right : Expression} {make : Expression → Expression → Expression}
    (h : (do
      let (left, a) ← extract scope a left
      let (right, a) ← extract scope a right
      return (make left right, a)) = .ok (rest, next))
    (hleft : ∀ {a next : Aggregation} {rest : Expression},
      extract scope a left = .ok (rest, next) → Records scope grouping a left rest next)
    (hright : ∀ {a next : Aggregation} {rest : Expression},
      extract scope a right = .ok (rest, next) → Records scope grouping a right rest next) :
    ∃ l r, rest = make l r ∧ Adds scope grouping a next (l.columns ++ r.columns) ∧
      ∀ calls, next.calls ⊆ calls → Replaces calls left l ∧ Replaces calls right r := by
  obtain ⟨⟨l, mid⟩, hl, h⟩ := bind_eq_ok_iff.1 h
  obtain ⟨⟨r, _⟩, hr, h⟩ := bind_eq_ok_iff.1 h
  cases h
  obtain ⟨hadds, hreplaces⟩ := hleft hl
  obtain ⟨hadds', hreplaces'⟩ := hright hr
  exact ⟨l, r, rfl, hadds.trans hadds', fun calls hcalls =>
    ⟨hreplaces calls (List.Subset.trans hadds'.calls hcalls), hreplaces' calls hcalls⟩⟩

theorem extractList_records {list rests : List Expression}
    (hlist : ∀ member ∈ list, ∀ {a next : Aggregation} {rest : Expression},
      extract scope a member = .ok (rest, next) → Records scope grouping a member rest next)
    (h : extractList scope a list = .ok (rests, next)) :
    Adds scope grouping a next (Expression.listColumns rests) ∧
      ∀ calls, next.calls ⊆ calls → List.Forall₂ (Replaces calls) list rests := by
  induction list generalizing a rests with
  | nil =>
    cases h
    exact ⟨.refl _ _, fun _ _ => .nil⟩
  | cons member list ih =>
    rw [extractList] at h
    obtain ⟨⟨first, mid⟩, hfirst, h⟩ := bind_eq_ok_iff.1 h
    obtain ⟨⟨others, _⟩, hothers, h⟩ := bind_eq_ok_iff.1 h
    cases h
    obtain ⟨hhead, hlist⟩ := List.forall_mem_cons.1 hlist
    obtain ⟨hadds, hreplaces⟩ := hhead hfirst
    obtain ⟨hadds', hreplaces'⟩ := ih hlist hothers
    exact ⟨hadds.trans hadds', fun calls hcalls =>
      .cons (hreplaces calls (List.Subset.trans hadds'.calls hcalls)) (hreplaces' calls hcalls)⟩

theorem extract_records (grouping : List VisibleColumn)
    (h : extract scope a e = .ok (rest, next)) : Records scope grouping a e rest next := by
  induction e generalizing a rest next with
  | column reference =>
    rw [extract] at h
    cases h
    exact ⟨.refl _ _, fun _ _ => .column reference⟩
  | literal value =>
    rw [extract] at h
    cases h
    exact ⟨.refl _ _, fun _ _ => .literal value⟩
  | comparison operator left right ihl ihr =>
    rw [extract] at h
    obtain ⟨l, r, rfl, hadds, hreplaces⟩ := extract_operands h ihl ihr
    exact ⟨hadds, fun calls hcalls =>
      .comparison (hreplaces calls hcalls).1 (hreplaces calls hcalls).2⟩
  | and left right ihl ihr =>
    rw [extract] at h
    obtain ⟨l, r, rfl, hadds, hreplaces⟩ := extract_operands h ihl ihr
    exact ⟨hadds, fun calls hcalls => .and (hreplaces calls hcalls).1 (hreplaces calls hcalls).2⟩
  | or left right ihl ihr =>
    rw [extract] at h
    obtain ⟨l, r, rfl, hadds, hreplaces⟩ := extract_operands h ihl ihr
    exact ⟨hadds, fun calls hcalls => .or (hreplaces calls hcalls).1 (hreplaces calls hcalls).2⟩
  | not operand ih =>
    rw [extract] at h
    obtain ⟨⟨o, _⟩, hoperand, h⟩ := bind_eq_ok_iff.1 h
    cases h
    obtain ⟨hadds, hreplaces⟩ := ih hoperand
    exact ⟨hadds, fun calls hcalls => .not (hreplaces calls hcalls)⟩
  | inList operand list ih ihs =>
    rw [extract] at h
    obtain ⟨⟨o, mid⟩, hoperand, h⟩ := bind_eq_ok_iff.1 h
    obtain ⟨⟨rests, _⟩, hlist, h⟩ := bind_eq_ok_iff.1 h
    cases h
    obtain ⟨hadds, hreplaces⟩ := ih hoperand
    obtain ⟨hadds', hreplaces'⟩ := extractList_records ihs hlist
    exact ⟨hadds.trans hadds', fun calls hcalls =>
      .inList (hreplaces calls (List.Subset.trans hadds'.calls hcalls)) (hreplaces' calls hcalls)⟩
  | aggregate function argument =>
    rw [extract] at h
    obtain ⟨type, htype, h⟩ := bind_eq_ok_iff.1 h
    obtain ⟨hadds, call, hcall, hname, rfl, hargument⟩ :=
      addCall_adds grouping a function (some argument) htype
    cases h
    obtain ⟨recorded, hrecorded, hsame⟩ := Option.map_eq_some_iff.1 hargument
    refine ⟨hadds, fun calls hcalls => ?_⟩
    have hreplaces :
        Replaces calls (.aggregate call.function argument) (.column call.reference) := by
      refine .aggregate (hcalls hcall) ?_
      rw [AggregateCall.expression, hrecorded]
      exact congrArg (Expression.aggregate call.function) hsame
    rwa [hname] at hreplaces
  | aggregateRows function =>
    rw [extract] at h
    obtain ⟨type, htype, h⟩ := bind_eq_ok_iff.1 h
    obtain ⟨hadds, call, hcall, hname, rfl, hargument⟩ :=
      addCall_adds grouping a function none htype
    cases h
    refine ⟨hadds, fun calls hcalls => ?_⟩
    have hreplaces : Replaces calls (.aggregateRows call.function) (.column call.reference) := by
      refine .aggregateRows (hcalls hcall) ?_
      rw [AggregateCall.expression, Option.map_eq_none_iff.1 hargument]
    rwa [hname] at hreplaces

/-- What is left of a selected expression, under the same alias. -/
inductive ReplacesItem (calls : List AggregateCall) : SelectItem → SelectItem → Prop
  | mk {e rest : Expression} (aliasName : Option String) (h : Replaces calls e rest) :
      ReplacesItem calls (.expression e aliasName) (.expression rest aliasName)

/-- **The calls of a selection are recorded, and replaced by references to the record.** -/
theorem extractItems_replaces {items rests : List SelectItem} (grouping : List VisibleColumn)
    (h : extractItems scope a items = .ok (rests, next)) :
    Adds scope grouping a next (rests.flatMap (·.columns)) ∧
      ∀ calls, next.calls ⊆ calls → List.Forall₂ (ReplacesItem calls) items rests := by
  induction items generalizing a rests with
  | nil =>
    cases h
    exact ⟨.refl _ _, fun _ _ => .nil⟩
  | cons item items ih =>
    cases item with
    | star qualifier => cases h
    | expression e aliasName =>
      obtain ⟨⟨rest, mid⟩, hitem, h⟩ := bind_eq_ok_iff.1 h
      obtain ⟨⟨others, _⟩, hitems, h⟩ := bind_eq_ok_iff.1 h
      cases h
      obtain ⟨hadds, hreplaces⟩ := extract_records grouping hitem
      obtain ⟨hadds', hreplaces'⟩ := ih hitems
      refine ⟨hadds.trans hadds', fun calls hcalls => .cons (.mk aliasName ?_) ?_⟩
      · exact hreplaces calls (List.Subset.trans hadds'.calls hcalls)
      · exact hreplaces' calls hcalls

end Aggregation

end StreamSql
