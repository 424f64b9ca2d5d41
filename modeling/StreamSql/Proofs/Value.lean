import StreamSql.Value

/-!
# Coercion, comparison and equality

Away from floats, values that compare equal are the same value once they are coerced to a common
type (`Value.coerced_eq_of_compare`), and `Value.equals` is equality (`Value.equals_iff_eq`).
-/

namespace StreamSql

@[simp]
theorem DataType.widensTo_self (type : DataType) : type.widensTo type = true := by
  simp [DataType.widensTo]

namespace Value

variable {v w c d : Value} {t : DataType}

theorem coerce?_cases (ht : t ≠ .float8) (h : v.coerce? t = some c) :
    (v = .null ∧ c = .null) ∨ (v.type? = some t ∧ c = v) ∨
      ∃ n, v = .int4 n ∧ t = .int8 ∧ c = .int8 n.toInt64 := by
  cases v with
  | null => exact .inl ⟨rfl, (Option.some.inj h).symm⟩
  | int4 n =>
    cases t with
    | int4 => exact .inr (.inl ⟨rfl, (Option.some.inj h).symm⟩)
    | int8 => exact .inr (.inr ⟨n, rfl, rfl, (Option.some.inj h).symm⟩)
    | float8 => exact absurd rfl ht
    | _ => cases h
  | int8 n =>
    cases t with
    | int8 => exact .inr (.inl ⟨rfl, (Option.some.inj h).symm⟩)
    | float8 => exact absurd rfl ht
    | _ => cases h
  | boolean b =>
    cases t with
    | boolean => exact .inr (.inl ⟨rfl, (Option.some.inj h).symm⟩)
    | _ => cases h
  | float8 x =>
    cases t with
    | float8 => exact absurd rfl ht
    | _ => cases h
  | utf8 s =>
    cases t with
    | utf8 => exact .inr (.inl ⟨rfl, (Option.some.inj h).symm⟩)
    | _ => cases h

theorem coerce?_of_type (h : v.type? = some t) : v.coerce? t = some v := by
  cases v <;> cases t <;> first | rfl | cases h

theorem type?_coerced (h : v.coerce? t = some c) :
    (v = .null ∧ c = .null) ∨ (v ≠ .null ∧ c.type? = some t) := by
  cases v with
  | null => exact .inl ⟨rfl, (Option.some.inj h).symm⟩
  | _ => exact .inr ⟨nofun, by cases t <;> cases h <;> rfl⟩

theorem eq_of_compare (ht : t ≠ .float8) (hv : v.type? = some t) (hw : w.type? = some t)
    (h : v.compare? w = some .eq) : v = w := by
  cases v with
  | null => cases hv
  | boolean a =>
    cases w with
    | boolean b => exact congrArg boolean (Std.LawfulEqOrd.eq_of_compare (Option.some.inj h))
    | _ => cases hv; cases hw
  | int4 m =>
    cases w with
    | int4 n =>
      have hint := Std.LawfulEqOrd.eq_of_compare (Option.some.inj h)
      exact congrArg int4 (Int32.toInt_inj.1 hint)
    | _ => cases hv; cases hw
  | int8 m =>
    cases w with
    | int8 n =>
      have hint := Std.LawfulEqOrd.eq_of_compare (Option.some.inj h)
      exact congrArg int8 (Int64.toInt_inj.1 hint)
    | _ => cases hv; cases hw
  | float8 x => exact absurd (Option.some.inj hv).symm ht
  | utf8 s =>
    cases w with
    | utf8 t => exact congrArg utf8 (Std.LawfulEqOrd.eq_of_compare (Option.some.inj h))
    | _ => cases hv; cases hw

/-! ### Comparison of coerced values -/

theorem widened_compare? (n : Int32) (w : Value) :
    (int8 n.toInt64).compare? w = (int4 n).compare? w := by
  cases w <;> simp [compare?, asInt?, asFloat?]

theorem compare?_widened (n : Int32) (v : Value) :
    v.compare? (int8 n.toInt64) = v.compare? (int4 n) := by
  cases v <;> simp [compare?, asInt?, asFloat?]

theorem coerced_compare? (ht : t ≠ .float8) (h : v.coerce? t = some c) (w : Value) :
    c.compare? w = v.compare? w := by
  obtain ⟨rfl, rfl⟩ | ⟨-, rfl⟩ | ⟨n, rfl, -, rfl⟩ := coerce?_cases ht h
  · rfl
  · rfl
  · exact widened_compare? n w

theorem compare?_coerced (ht : t ≠ .float8) (h : w.coerce? t = some c) (v : Value) :
    v.compare? c = v.compare? w := by
  obtain ⟨rfl, rfl⟩ | ⟨-, rfl⟩ | ⟨n, rfl, -, rfl⟩ := coerce?_cases ht h
  · rfl
  · rfl
  · exact compare?_widened n v

@[simp] theorem null_compare? (w : Value) : null.compare? w = none := by
  cases w <;> rfl

@[simp] theorem compare?_null (v : Value) : v.compare? null = none := by
  cases v <;> rfl

theorem ne_null_of_compare (h : v.compare? w = some .eq) : v ≠ .null ∧ w ≠ .null := by
  constructor
  · rintro rfl
    cases (null_compare? w).symm.trans h
  · rintro rfl
    cases (compare?_null v).symm.trans h

/-- **Coercion settles comparison.** Values that compare equal and have a common type, not that of
the floats, are the same value of that type. -/
theorem coerced_eq_of_compare (ht : t ≠ .float8) (hv : v.coerce? t = some c)
    (hw : w.coerce? t = some d) (h : v.compare? w = some .eq) : c = d := by
  -- A comparison with a null has no outcome, so both coerced values are of the type.
  obtain ⟨hvnull, hwnull⟩ := ne_null_of_compare h
  obtain ⟨rfl, -⟩ | ⟨-, hc⟩ := type?_coerced hv
  · exact absurd rfl hvnull
  obtain ⟨rfl, -⟩ | ⟨-, hd⟩ := type?_coerced hw
  · exact absurd rfl hwnull
  refine eq_of_compare ht hc hd ?_
  rw [coerced_compare? ht hv, compare?_coerced ht hw, h]

theorem equals_iff_eq (ht : t ≠ .float8) (hv : v.type? = some t) : v.equals w = true ↔ v = w := by
  cases v with
  | null => cases hv
  | float8 x => exact absurd (Option.some.inj hv).symm ht
  | _ => cases w <;> simp [equals]

end Value

end StreamSql
