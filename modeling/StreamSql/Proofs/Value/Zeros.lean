import StreamSql.Proofs.Value
import StreamSql.Proofs.Value.Order

/-!
# Values but for the signs of zeros

The two zeros are equal as numbers and differ in their bits. They are the only such values: what
compares equal is, once it is coerced to a common type, the same value but for the sign of a zero
(`Value.unsigned_eq_of_compare`), and so is what `Value.equals` takes to be equal
(`Value.unsigned_eq_of_equals`).
-/

namespace StreamSql.Value

variable {v w c d : Value} {t : DataType} {x y : Binary64}

/-- Two floats that are zeros of different signs. -/
def OppositeZeros (v w : Value) : Prop :=
  ∃ x y, v = .float8 x ∧ w = .float8 y ∧ x.magnitude = 0 ∧ y.magnitude = 0 ∧ x ≠ y

/-- The value itself, or the positive zero for either zero. -/
def unsigned : Value → Value
  | float8 x => if x.magnitude = 0 then float8 ⟨0⟩ else float8 x
  | v => v

theorem type?_unsigned (v : Value) : v.unsigned.type? = v.type? := by
  cases v with
  | float8 x =>
    rw [unsigned]
    split <;> rfl
  | _ => rfl

theorem unsigned_of_type (h : v.type? ≠ some .float8) : v.unsigned = v := by
  cases v with
  | float8 x => exact absurd rfl h
  | _ => rfl

theorem exists_float8 (h : v.type? = some .float8) : ∃ x, v = .float8 x := by
  cases v with
  | float8 x => exact ⟨x, rfl⟩
  | _ => cases h

theorem unsigned_float8_eq_iff :
    (float8 x).unsigned = (float8 y).unsigned ↔ x = y ∨ x.magnitude = 0 ∧ y.magnitude = 0 := by
  have hzero : (Binary64.mk 0).magnitude = 0 := rfl
  simp only [unsigned]
  split <;> split <;> grind

theorem unsigned_eq_iff : v.unsigned = w.unsigned ↔ v = w ∨ v.OppositeZeros w := by
  constructor
  · intro h
    have htype : v.type? = w.type? := by rw [← type?_unsigned v, h, type?_unsigned]
    by_cases hfloat : v.type? = some .float8
    · obtain ⟨x, rfl⟩ := exists_float8 hfloat
      obtain ⟨y, rfl⟩ := exists_float8 (htype ▸ hfloat)
      by_cases heq : x = y
      · exact .inl (congrArg float8 heq)
      · obtain ⟨hx, hy⟩ := (unsigned_float8_eq_iff.1 h).resolve_left heq
        exact .inr ⟨x, y, rfl, rfl, hx, hy, heq⟩
    · rw [unsigned_of_type hfloat, unsigned_of_type (htype ▸ hfloat)] at h
      exact .inl h
  · rintro (rfl | ⟨x, y, rfl, rfl, hx, hy, -⟩)
    · rfl
    · exact unsigned_float8_eq_iff.2 (.inr ⟨hx, hy⟩)

theorem OppositeZeros.ne (h : v.OppositeZeros w) : v ≠ w := by
  obtain ⟨x, y, rfl, rfl, -, -, hne⟩ := h
  exact fun heq => hne (float8.inj heq)

theorem eq_iff_of_unsigned (h : v.unsigned = w.unsigned) : v = w ↔ ¬v.OppositeZeros w :=
  ⟨fun heq hzeros => hzeros.ne heq, fun hnot => (unsigned_eq_iff.1 h).resolve_right hnot⟩

/-! ### Comparison and equality -/

theorem rank_eq_of_compare (hv : v.asFloat? = some x) (hw : w.asFloat? = some y)
    (h : v.compare? w = some .eq) : x.rank = y.rank := by
  generalize ho : Ordering.eq = o at h
  cases compare?_eq_some_iff.1 h with
  | booleans p q => cases hv
  | texts s t => cases hv
  | integers hm hn =>
    obtain rfl := Int.compare_eq_eq.1 ho.symm
    rw [asFloat?_of_asInt? hm] at hv
    rw [asFloat?_of_asInt? hn] at hw
    rw [← Option.some.inj hv, ← Option.some.inj hw]
  | floats _ hx hy _ _ =>
    obtain rfl := Option.some.inj (hx.symm.trans hv)
    obtain rfl := Option.some.inj (hy.symm.trans hw)
    exact Int.compare_eq_eq.1 ho.symm

theorem coerce?_float8 (h : v.coerce? .float8 = some c) (hv : v ≠ .null) :
    ∃ x, v.asFloat? = some x ∧ c = .float8 x := by
  cases v with
  | null => exact absurd rfl hv
  | int4 n => exact ⟨_, rfl, (Option.some.inj h).symm⟩
  | int8 n => exact ⟨_, rfl, (Option.some.inj h).symm⟩
  | float8 x => exact ⟨_, rfl, (Option.some.inj h).symm⟩
  | _ => cases h

/-- **Coercion settles comparison, but for the sign of a zero.** -/
theorem unsigned_eq_of_compare (hv : v.coerce? t = some c) (hw : w.coerce? t = some d)
    (h : v.compare? w = some .eq) : c.unsigned = d.unsigned := by
  by_cases ht : t = .float8
  · subst ht
    obtain ⟨hvnull, hwnull⟩ := ne_null_of_compare h
    obtain ⟨x, hx, rfl⟩ := coerce?_float8 hv hvnull
    obtain ⟨y, hy, rfl⟩ := coerce?_float8 hw hwnull
    exact unsigned_float8_eq_iff.2 (Binary64.rank_eq_iff.1 (rank_eq_of_compare hx hy h))
  · rw [coerced_eq_of_compare ht hv hw h]

theorem unsigned_eq_of_equals (h : v.equals w = true) : v.unsigned = w.unsigned := by
  cases hv : v.type? with
  | none =>
    cases v with
    | null =>
      cases w with
      | null => rfl
      | _ => cases h
    | _ => cases hv
  | some t =>
    by_cases ht : t = .float8
    · obtain ⟨x, rfl⟩ := exists_float8 (ht ▸ hv)
      cases w with
      | float8 y =>
        have hcompare : x.compare? y = some .eq := beq_iff_eq.1 h
        have hrank := (Binary64.compare?_eq_some_iff.1 hcompare).2.2
        exact unsigned_float8_eq_iff.2 (Binary64.rank_eq_iff.1 (Int.compare_eq_eq.1 hrank))
      | _ => cases h
    · rw [(equals_iff_eq ht hv).1 h]

end StreamSql.Value
