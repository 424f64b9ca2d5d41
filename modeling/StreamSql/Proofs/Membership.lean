import StreamSql.Proofs.Evaluation

/-!
# Membership and disjunction

`x IN (e, ...)` and `x = e OR ...` pass the same rows. They differ in what they leave unknown: where
the operand equals no member and does not compare with all of them, the disjunction is null and the
membership test is false, so its negation passes rows that the negated disjunction does not
(`Expression.inList_agrees_iff`).
-/

namespace StreamSql

namespace Truth

variable {a b : Option Bool}

theorem or_eq_true_iff : Truth.or a b = some true ↔ a = some true ∨ b = some true := by
  rcases a with _ | _ | _ <;> rcases b with _ | _ | _ <;> simp [Truth.or]

theorem or_eq_false_iff : Truth.or a b = some false ↔ a = some false ∧ b = some false := by
  rcases a with _ | _ | _ <;> rcases b with _ | _ | _ <;> simp [Truth.or]

theorem false_or (a : Option Bool) : Truth.or (some false) a = a := by
  rcases a with _ | _ | _ <;> rfl

theorem eq_iff (h : a = some true ↔ b = some true) :
    a = b ↔ (a = some false ↔ b = some false) := by
  rcases a with _ | _ | _ <;> rcases b with _ | _ | _ <;> simp_all

theorem not_eq_true_iff : Truth.not a = some true ↔ a = some false := by
  rcases a with _ | _ | _ <;> simp [Truth.not]

end Truth

namespace Expression

variable {schema : Schema} {row : Row} {operand first e : Expression} {rest list : List Expression}
  {v w : Value} {values : List Value} {t : Option Bool}

/-- `operand = first OR operand = e OR ...`, bracketed from the left. -/
def anyEqual (operand first : Expression) (rest : List Expression) : Expression :=
  rest.foldl (fun disjunction e => or disjunction (equal operand e)) (equal operand first)

/-- The values of the expressions of a list. -/
def Values (schema : Schema) (row : Row) (list : List Expression) (values : List Value) : Prop :=
  List.Forall₂ (fun e w => e.evaluate schema row = .ok w) list values

/-- A value that equals no member and does not compare with all of them, though it is not null. -/
def Undecided (v : Value) (values : List Value) : Prop :=
  v ≠ .null ∧ (∀ w ∈ values, v.compare? w ≠ some .eq) ∧ ∃ w ∈ values, v.compare? w = none

/-! ### Equations -/

theorem compareValues_eq_true_iff :
    compareValues .equal v w = some true ↔ v.compare? w = some .eq := by
  unfold compareValues
  rcases v.compare? w with _ | _ | _ | _ <;> simp [ComparisonOperator.accepts]

theorem compareValues_eq_false_iff :
    compareValues .equal v w = some false ↔ v.compare? w ≠ none ∧ v.compare? w ≠ some .eq := by
  unfold compareValues
  rcases v.compare? w with _ | _ | _ | _ <;> simp [ComparisonOperator.accepts]

theorem evaluate_equal (hoperand : operand.evaluate schema row = .ok v)
    (he : e.evaluate schema row = .ok w) :
    (equal operand e).evaluate schema row = .ok (.ofTruth (compareValues .equal v w)) := by
  simp only [equal, evaluate, hoperand, he]
  rfl

/-! ### Both forms on values -/

/-- The truth value of the disjunction of equations with the values. -/
def anyEqualTruth (v : Value) (values : List Value) : Option Bool :=
  values.foldl (fun t w => Truth.or t (compareValues .equal v w)) (some false)

/-- The truth value of the membership test among the values. -/
def memberTruth (v : Value) (values : List Value) : Option Bool :=
  if v = .null then none else some (values.any fun w => v.compare? w = some .eq)

theorem anyEqualTruth_eq_true_iff :
    anyEqualTruth v values = some true ↔ ∃ w ∈ values, v.compare? w = some .eq := by
  have hfold : ∀ t, values.foldl (fun t w => Truth.or t (compareValues .equal v w)) t = some true ↔
      t = some true ∨ ∃ w ∈ values, v.compare? w = some .eq := by
    induction values with
    | nil => simp
    | cons w rest ih =>
      intro t
      rw [List.foldl_cons, ih, Truth.or_eq_true_iff, compareValues_eq_true_iff,
        List.exists_mem_cons_iff, or_assoc]
  exact (hfold _).trans (or_iff_right (by decide))

theorem anyEqualTruth_eq_false_iff : anyEqualTruth v values = some false ↔
    ∀ w ∈ values, v.compare? w ≠ none ∧ v.compare? w ≠ some .eq := by
  have hfold : ∀ t, values.foldl (fun t w => Truth.or t (compareValues .equal v w)) t = some false ↔
      t = some false ∧ ∀ w ∈ values, v.compare? w ≠ none ∧ v.compare? w ≠ some .eq := by
    induction values with
    | nil => simp
    | cons w rest ih =>
      intro t
      rw [List.foldl_cons, ih, Truth.or_eq_false_iff, compareValues_eq_false_iff,
        List.forall_mem_cons, and_assoc]
  exact (hfold _).trans (and_iff_right rfl)

theorem memberTruth_eq_true_iff :
    memberTruth v values = some true ↔ ∃ w ∈ values, v.compare? w = some .eq := by
  unfold memberTruth
  split
  next hnull =>
    refine iff_of_false (fun h => nomatch h) ?_
    rintro ⟨w, -, h⟩
    exact (Value.ne_null_of_compare h).1 hnull
  next => simp

theorem memberTruth_eq_false_iff :
    memberTruth v values = some false ↔ v ≠ .null ∧ ∀ w ∈ values, v.compare? w ≠ some .eq := by
  unfold memberTruth
  split
  next hnull => simp [hnull]
  next hnull => simp [hnull]

theorem Undecided.truths (h : Undecided v values) :
    memberTruth v values = some false ∧ anyEqualTruth v values = none := by
  obtain ⟨hv, hdiffer, w, hw, hnone⟩ := h
  refine ⟨memberTruth_eq_false_iff.2 ⟨hv, hdiffer⟩, Option.eq_none_iff_forall_ne_some.2 ?_⟩
  rintro (_ | _) ht
  · exact (anyEqualTruth_eq_false_iff.1 ht w hw).1 hnone
  · obtain ⟨u, hu, hequal⟩ := anyEqualTruth_eq_true_iff.1 ht
    exact hdiffer u hu hequal

theorem false_iff_false_iff (hvalues : values ≠ []) :
    (memberTruth v values = some false ↔ anyEqualTruth v values = some false) ↔
      ¬Undecided v values := by
  constructor
  · intro h hundecided
    obtain ⟨hmember, hnone⟩ := hundecided.truths
    cases hnone.symm.trans (h.1 hmember)
  · intro hdecided
    rw [memberTruth_eq_false_iff, anyEqualTruth_eq_false_iff]
    constructor
    · rintro ⟨hv, hdiffer⟩ w hw
      exact ⟨fun hnone => hdecided ⟨hv, hdiffer, w, hw, hnone⟩, hdiffer w hw⟩
    · intro h
      refine ⟨?_, fun w hw => (h w hw).2⟩
      -- A null compares with no member, and there is one.
      rintro rfl
      obtain ⟨w, hw⟩ := List.exists_mem_of_ne_nil values hvalues
      exact (h w hw).1 (Value.null_compare? w)

/-! ### Both forms on rows -/

theorem evaluate_anyEqual (hoperand : operand.evaluate schema row = .ok v)
    (hlist : Values schema row (first :: rest) values) :
    (anyEqual operand first rest).evaluate schema row =
      .ok (.ofTruth (anyEqualTruth v values)) := by
  obtain ⟨w, others, hfirst, hrest, rfl⟩ := List.forall₂_cons_left_iff.1 hlist
  -- By induction on the members still to come, whatever disjunction is before them.
  have hfold : ∀ (disjunction : Expression) (t : Option Bool),
      disjunction.evaluate schema row = .ok (.ofTruth t) →
      (rest.foldl (fun disjunction e => or disjunction (equal operand e)) disjunction).evaluate
        schema row = .ok (.ofTruth (others.foldl
          (fun t w => Truth.or t (compareValues .equal v w)) t)) := by
    clear hlist
    induction hrest with
    | nil => exact fun _ _ h => h
    | cons he _ ih =>
      intro disjunction t h
      refine ih _ _ ?_
      simp only [evaluate, h, evaluate_equal hoperand he, Value.truth?_ofTruth, bind, Except.bind]
      rfl
  rw [anyEqualTruth, List.foldl_cons, Truth.false_or]
  exact hfold _ _ (evaluate_equal hoperand hfirst)

theorem evaluateMember_eq (hlist : Values schema row list values) :
    evaluateMember schema row v list = .ok (values.any fun w => v.compare? w = some .eq) := by
  induction hlist with
  | nil => rfl
  | @cons e w rest values he _ ih =>
    simp only [evaluateMember, he, bind, Except.bind]
    by_cases hequal : v.compare? w = some .eq
    · rw [if_pos hequal, List.any_cons, decide_eq_true hequal, Bool.true_or]
      rfl
    · rw [if_neg hequal, List.any_cons, decide_eq_false hequal, Bool.false_or, ih]

theorem evaluate_inList (hoperand : operand.evaluate schema row = .ok v)
    (hlist : Values schema row list values) :
    (inList operand list).evaluate schema row = .ok (.ofTruth (memberTruth v values)) := by
  simp only [evaluate, hoperand, evaluateMember_eq hlist, bind, Except.bind]
  cases v <;> rfl

theorem passes_eq (h : e.evaluate schema row = .ok (.ofTruth t)) :
    e.passes schema row = .ok (decide (t = some true)) := by
  simp only [passes, h, bind, Except.bind, Value.truth?_ofTruth]
  rfl

theorem passes_not_eq (h : e.evaluate schema row = .ok (.ofTruth t)) :
    (Expression.not e).passes schema row = .ok (decide (t = some false)) := by
  have hnot : (Expression.not e).evaluate schema row = .ok (.ofTruth (Truth.not t)) := by
    simp only [evaluate, h, bind, Except.bind, Value.truth?_ofTruth]
    rfl
  rw [passes_eq hnot]
  exact congrArg _ (decide_eq_decide.2 Truth.not_eq_true_iff)

/-- **Membership is the disjunction of equations, but for what is undecided.** Both forms evaluate
where the operand and the members do. Their truth values, and the rows that pass their negations,
are the same unless the operand equals no member and does not compare with all of them; then the
membership test is false and the disjunction is null. The rows that pass are always the same, and
nulls make none pass: neither form, negated or not, passes where the operand is null, a row passes
only by a member that is not, and one with a null member does not pass the negated disjunction. -/
theorem inList_agrees_iff (hoperand : operand.evaluate schema row = .ok v)
    (hlist : Values schema row (first :: rest) values) :
    ∃ member disjunction : Value,
      (inList operand (first :: rest)).evaluate schema row = .ok member ∧
      (anyEqual operand first rest).evaluate schema row = .ok disjunction ∧
      (member.truth? = disjunction.truth? ↔ ¬Undecided v values) ∧
      (Undecided v values → member = .boolean false ∧ disjunction = .null) ∧
      (inList operand (first :: rest)).passes schema row =
        (anyEqual operand first rest).passes schema row ∧
      ((Expression.not (inList operand (first :: rest))).passes schema row =
        (Expression.not (anyEqual operand first rest)).passes schema row ↔ ¬Undecided v values) ∧
      (v = .null → (inList operand (first :: rest)).passes schema row = .ok false ∧
        (Expression.not (inList operand (first :: rest))).passes schema row = .ok false) ∧
      ((inList operand (first :: rest)).passes schema row = .ok true →
        ∃ w ∈ values, w ≠ .null ∧ v.compare? w = some .eq) ∧
      (.null ∈ values →
        (Expression.not (anyEqual operand first rest)).passes schema row = .ok false) := by
  have hmember := evaluate_inList hoperand hlist
  have hdisjunction := evaluate_anyEqual hoperand hlist
  have hvalues : values ≠ [] := by
    rintro rfl
    cases hlist
  have htrue : memberTruth v values = some true ↔ anyEqualTruth v values = some true :=
    memberTruth_eq_true_iff.trans anyEqualTruth_eq_true_iff.symm
  refine ⟨_, _, hmember, hdisjunction, ?_, ?_, ?_, ?_, ?_, ?_, ?_⟩
  · rw [Value.truth?_ofTruth, Value.truth?_ofTruth, Truth.eq_iff htrue, false_iff_false_iff hvalues]
  · intro hundecided
    rw [hundecided.truths.1, hundecided.truths.2]
    exact ⟨rfl, rfl⟩
  · rw [passes_eq hmember, passes_eq hdisjunction, decide_eq_decide.2 htrue]
  · rw [passes_not_eq hmember, passes_not_eq hdisjunction, ← false_iff_false_iff hvalues,
      Except.ok.injEq, decide_eq_decide]
  · rintro rfl
    rw [passes_eq hmember, passes_not_eq hmember]
    exact ⟨rfl, rfl⟩
  · intro hpasses
    rw [passes_eq hmember] at hpasses
    obtain ⟨w, hw, hequal⟩ :=
      memberTruth_eq_true_iff.1 (of_decide_eq_true (Except.ok.inj hpasses))
    exact ⟨w, hw, (Value.ne_null_of_compare hequal).2, hequal⟩
  · intro hnull
    rw [passes_not_eq hdisjunction, decide_eq_false fun hfalse => ?_]
    exact (anyEqualTruth_eq_false_iff.1 hfalse .null hnull).1 (Value.compare?_null v)

/-- Membership of a region among `'eu'` and another column, on a row where that column is null. -/
theorem region_undecided :
    let schema : Schema := ⟨[⟨"REGION", .utf8, .value, 0⟩, ⟨"HOME", .utf8, .value, 1⟩]⟩
    let row : Row := ⟨[.utf8 "us", .null]⟩
    let member := inList (named "REGION") [.literal (.utf8 "eu"), named "HOME"]
    let disjunction := anyEqual (named "REGION") (.literal (.utf8 "eu")) [named "HOME"]
    (named "REGION").evaluate schema row = .ok (.utf8 "us") ∧
      Values schema row [.literal (.utf8 "eu"), named "HOME"] [.utf8 "eu", .null] ∧
      (Expression.not disjunction).passes schema row = .ok false ∧
      (Expression.not member).passes schema row ≠
        (Expression.not disjunction).passes schema row := by
  intro schema row member disjunction
  have hoperand : (named "REGION").evaluate schema row = .ok (.utf8 "us") := by decide +kernel
  have hlist : Values schema row [.literal (.utf8 "eu"), named "HOME"] [.utf8 "eu", .null] :=
    .cons (by decide +kernel) (.cons (by decide +kernel) .nil)
  obtain ⟨_, _, -, -, -, -, -, hnegated, -, -, hnull⟩ := inList_agrees_iff hoperand hlist
  refine ⟨hoperand, hlist, hnull (by decide), fun heq => ?_⟩
  exact hnegated.1 heq ⟨by decide, by decide +kernel, by decide +kernel⟩

/-- `'us' IN ('eu', NULL)` is false, and its negation passes, where `'us' = 'eu' OR 'us' = NULL` is
null. -/
theorem negated_membership_passes :
    let operand := Expression.literal (.utf8 "us")
    let member := inList operand [.literal (.utf8 "eu"), .literal .null]
    let disjunction := anyEqual operand (.literal (.utf8 "eu")) [.literal .null]
    member.evaluate .empty ⟨[]⟩ = .ok (.boolean false) ∧
      disjunction.evaluate .empty ⟨[]⟩ = .ok .null ∧
      (Expression.not member).passes .empty ⟨[]⟩ = .ok true ∧
      (Expression.not disjunction).passes .empty ⟨[]⟩ = .ok false := by
  decide +kernel

end Expression

end StreamSql
