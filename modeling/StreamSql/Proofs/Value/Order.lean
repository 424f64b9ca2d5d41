import StreamSql.Proofs.Binary64
import StreamSql.Value

/-!
# Comparison as an order

Values are compared as booleans, as texts, as integers or as floats (`Value.Compares`). Comparison
from the other side has the opposite outcome, and comparisons one after the other compose, but for
one case (`Value.compare_consistent`): integers are compared exactly among themselves and rounded
when they meet a float, so a float can equal two integers that differ (`Value.Blurs`). It takes an
integer of more than 53 bits.
-/

namespace StreamSql

theorem compare_then {α : Type} [Ord α] [Std.TransOrd α] {a b c : α} (hab : compare a b ≠ .gt)
    (hbc : compare b c ≠ .gt) : compare a c = (compare a b).then (compare b c) := by
  cases hx : compare a b with
  | gt => exact absurd hx hab
  | lt =>
    cases hy : compare b c with
    | gt => exact absurd hy hbc
    | lt => exact Std.TransCmp.lt_trans hx hy
    | eq => exact Std.TransCmp.lt_of_lt_of_eq hx hy
  | eq =>
    cases hy : compare b c with
    | gt => exact absurd hy hbc
    | lt => exact Std.TransCmp.lt_of_eq_of_lt hx hy
    | eq => exact Std.TransCmp.eq_trans hx hy

namespace Value

open Binary64 (ofInt IsWord)

variable {v w f a b c : Value} {m n : Int} {x y : Binary64} {o : Ordering}

/-! ### Integers and floats -/

theorem isWord_of_asInt? (h : v.asInt? = some n) : IsWord n := by
  unfold IsWord
  cases v with
  | int4 k =>
    obtain rfl := Option.some.inj h
    have hlow := k.le_toInt
    have hhigh := k.toInt_lt
    omega
  | int8 k =>
    obtain rfl := Option.some.inj h
    have hlow := k.le_toInt
    have hhigh := k.toInt_lt
    omega
  | _ => cases h

theorem asFloat?_of_asInt? (h : v.asInt? = some n) : v.asFloat? = some (ofInt n) := by
  cases v with
  | int4 k => exact congrArg _ (congrArg ofInt (Option.some.inj h))
  | int8 k => exact congrArg _ (congrArg ofInt (Option.some.inj h))
  | _ => cases h

theorem eq_float8 (hint : v.asInt? = none) (hfloat : v.asFloat? = some x) : v = .float8 x := by
  cases v with
  | float8 y => exact congrArg float8 (Option.some.inj hfloat)
  | int4 k => cases hint
  | int8 k => cases hint
  | _ => cases hfloat

theorem compare?_of_asInt? (hv : v.asInt? = some m) (hw : w.asInt? = some n) :
    v.compare? w = some (compare m n) := by
  cases v <;> cases hv <;> cases w <;> cases hw <;> rfl

theorem compare?_of_asFloat? (hmixed : v.asInt? = none ∨ w.asInt? = none)
    (hv : v.asFloat? = some x) (hw : w.asFloat? = some y) : v.compare? w = x.compare? y := by
  cases v <;> cases hv <;> cases w <;> cases hw <;> first | rfl | simp [asInt?] at hmixed

/-! ### What values are compared as -/

/-- Two values that compare, as what they do, and the outcome. -/
inductive Compares : Value → Value → Ordering → Prop
  | booleans (p q : Bool) : Compares (.boolean p) (.boolean q) (compare p q)
  | texts (s t : String) : Compares (.utf8 s) (.utf8 t) (compare s t)
  | integers {v w : Value} {m n : Int} (hv : v.asInt? = some m) (hw : w.asInt? = some n) :
      Compares v w (compare m n)
  | floats {v w : Value} {x y : Binary64} (hmixed : v.asInt? = none ∨ w.asInt? = none)
      (hv : v.asFloat? = some x) (hw : w.asFloat? = some y) (hx : x.isNaN = false)
      (hy : y.isNaN = false) : Compares v w (compare x.rank y.rank)

theorem compare?_eq_some_iff : v.compare? w = some o ↔ Compares v w o := by
  constructor
  · intro h
    unfold compare? at h
    split at h
    · exact Option.some.inj h ▸ .booleans _ _
    · exact Option.some.inj h ▸ .texts _ _
    · split at h
      next hv hw => exact Option.some.inj h ▸ .integers hv hw
      next hmixed =>
        split at h
        next x y hv hw =>
          obtain ⟨hx, hy, rfl⟩ := Binary64.compare?_eq_some_iff.1 h
          refine .floats ?_ hv hw hx hy
          cases hm : v.asInt? with
          | none => exact .inl rfl
          | some m =>
            cases hn : w.asInt? with
            | none => exact .inr rfl
            | some n => exact absurd hn (hmixed m n hm)
        · cases h
  · rintro (⟨p, q⟩ | ⟨s, t⟩ | ⟨hv, hw⟩ | ⟨hmixed, hv, hw, hx, hy⟩)
    · rfl
    · rfl
    · exact compare?_of_asInt? hv hw
    · rw [compare?_of_asFloat? hmixed hv hw]
      exact Binary64.compare?_eq_some_iff.2 ⟨hx, hy, rfl⟩

theorem Compares.swap (h : Compares v w o) : Compares w v o.swap := by
  cases h with
  | booleans p q =>
    rw [← Std.OrientedOrd.eq_swap]
    exact .booleans q p
  | texts s t =>
    rw [← Std.OrientedOrd.eq_swap]
    exact .texts t s
  | integers hv hw =>
    rw [← Std.OrientedOrd.eq_swap]
    exact .integers hw hv
  | floats hmixed hv hw hx hy =>
    rw [← Std.OrientedOrd.eq_swap]
    exact .floats hmixed.symm hw hv hy hx

theorem compare?_swap (v w : Value) : v.compare? w = (w.compare? v).map Ordering.swap := by
  ext o
  rw [Option.map_eq_some_iff, compare?_eq_some_iff]
  constructor
  · intro h
    exact ⟨o.swap, compare?_eq_some_iff.2 h.swap, Ordering.swap_swap⟩
  · rintro ⟨o, h, rfl⟩
    exact (compare?_eq_some_iff.1 h).swap

/-! ### Rounded integers -/

/-- A float that equals two different integers, as both are rounded to it. -/
def Blurs (f v w : Value) : Prop :=
  ∃ x m n, f = .float8 x ∧ v.asInt? = some m ∧ w.asInt? = some n ∧ m ≠ n ∧
    f.compare? v = some .eq ∧ f.compare? w = some .eq

/-- One of the values is a float that equals the others, which are different integers. -/
def Blurred (a b c : Value) : Prop := Blurs a b c ∨ Blurs b a c ∨ Blurs c a b

theorem Blurs.asInt? (h : Blurs f v w) :
    f.asInt? = none ∧ v.asInt? ≠ none ∧ w.asInt? ≠ none := by
  obtain ⟨x, m, n, rfl, hv, hw, -, -, -⟩ := h
  exact ⟨rfl, by simp [hv], by simp [hw]⟩

theorem not_blurred (ha : a.asInt? = none) (hb : b.asInt? = none) : ¬Blurred a b c := by
  rintro (h | h | h) <;> obtain ⟨-, h, h'⟩ := h.asInt?
  · exact h hb
  · exact h ha
  · exact h ha

theorem float_compare? (hx : x.isNaN = false) (hv : v.asInt? = some n) :
    (float8 x).compare? v = some (compare x.rank (ofInt n).rank) :=
  compare?_eq_some_iff.2 <| .floats (.inl rfl) rfl (asFloat?_of_asInt? hv) hx
    (Binary64.isNaN_ofInt (isWord_of_asInt? hv))

theorem blurs_iff (hx : x.isNaN = false) (hv : v.asInt? = some m) (hw : w.asInt? = some n) :
    Blurs (.float8 x) v w ↔ m ≠ n ∧ x.rank = (ofInt m).rank ∧ x.rank = (ofInt n).rank := by
  rw [Blurs, float_compare? hx hv, float_compare? hx hw]
  simp [hv, hw]

theorem blurred_iff (hx : x.isNaN = false) (hv : v.asInt? = some m) (hw : w.asInt? = some n) :
    let same := m ≠ n ∧ x.rank = (ofInt m).rank ∧ x.rank = (ofInt n).rank
    (Blurred (.float8 x) v w ↔ same) ∧ (Blurred v (.float8 x) w ↔ same) ∧
      (Blurred v w (.float8 x) ↔ same) := by
  intro same
  have hvnot : ∀ u u', ¬Blurs v u u' := fun u u' h => nomatch hv.symm.trans h.asInt?.1
  have hwnot : ∀ u u', ¬Blurs w u u' := fun u u' h => nomatch hw.symm.trans h.asInt?.1
  simp only [Blurred, hvnot, hwnot, blurs_iff hx hv hw, or_false, false_or]
  exact ⟨Iff.rfl, Iff.rfl, Iff.rfl⟩

/-- Only integers of more than 53 bits are rounded. -/
theorem Blurs.exists_large (h : Blurs f v w) :
    ∃ u, (u = v ∨ u = w) ∧ ∃ n, u.asInt? = some n ∧ 2 ^ 53 < n.natAbs := by
  obtain ⟨x, m, n, rfl, hv, hw, hne, heq, heq'⟩ := h
  have hrank : ∀ {u k}, u.asInt? = some k → (float8 x).compare? u = some .eq →
      x.rank = (ofInt k).rank := by
    intro u k hu hcompare
    rw [compare?_of_asFloat? (.inl rfl) rfl (asFloat?_of_asInt? hu)] at hcompare
    exact Int.compare_eq_eq.1 (Binary64.compare?_eq_some_iff.1 hcompare).2.2
  by_cases hm : 2 ^ 53 < m.natAbs
  · exact ⟨v, .inl rfl, m, hv, hm⟩
  by_cases hn : 2 ^ 53 < n.natAbs
  · exact ⟨w, .inr rfl, n, hw, hn⟩
  refine absurd (Binary64.eq_of_rank_ofInt (Nat.le_of_not_lt hm) (Nat.le_of_not_lt hn) ?_) hne
  exact (hrank hv heq).symm.trans (hrank hw heq')

/-! ### Comparisons one after the other -/

section Composition

/-! The integers `m` and `n` are rounded to numbers at the places `r` and `s`, and a float is at the
place `t`. Of three comparisons, that of the integers is exact and the others are of places. -/

variable {r s t : Int} (hmono : m ≤ n → r ≤ s) (hmono' : n ≤ m → s ≤ r)
include hmono hmono'

theorem then_iff_of_first (hmn : m ≤ n) (hst : s ≤ t) :
    compare r t = (compare m n).then (compare s t) ↔ ¬(m ≠ n ∧ t = r ∧ t = s) := by
  have hrs := hmono hmn
  rcases Int.lt_or_eq_of_le hmn with hlt | rfl
  · rw [Int.compare_eq_lt.2 hlt, Ordering.lt_then, Int.compare_eq_lt]
    omega
  · obtain rfl : r = s := Int.le_antisymm hrs (hmono' hmn)
    simp

theorem then_iff_of_second (htr : t ≤ r) (hmn : m ≤ n) :
    compare t s = (compare t r).then (compare m n) ↔ ¬(m ≠ n ∧ t = r ∧ t = s) := by
  have hrs := hmono hmn
  rcases Int.lt_or_eq_of_le htr with hlt | rfl
  · rw [Int.compare_eq_lt.2 hlt, Ordering.lt_then, Int.compare_eq_lt]
    omega
  · rw [Int.compare_eq_eq.2 rfl, Ordering.eq_then]
    rcases Int.lt_or_eq_of_le hmn with hlt | rfl
    · rw [Int.compare_eq_lt.2 hlt, Int.compare_eq_lt]
      omega
    · simp [Int.le_antisymm hrs (hmono' hmn)]

theorem then_iff_of_outer (hrt : r ≤ t) (hts : t ≤ s) :
    compare m n = (compare r t).then (compare t s) ↔ ¬(m ≠ n ∧ t = r ∧ t = s) := by
  rcases Int.lt_or_eq_of_le hrt with hlt | rfl
  · rw [Int.compare_eq_lt.2 hlt, Ordering.lt_then, Int.compare_eq_lt]
    omega
  · rw [Int.compare_eq_eq.2 rfl, Ordering.eq_then]
    rcases Int.lt_or_eq_of_le hts with hlt | rfl
    · rw [Int.compare_eq_lt.2 hlt, Int.compare_eq_lt]
      omega
    · rw [Int.compare_eq_eq.2 rfl, Int.compare_eq_eq]
      simp

end Composition

theorem Compares.then_iff {p q : Ordering} (hab : Compares a b p) (hbc : Compares b c q)
    (hp : p ≠ .gt) (hq : q ≠ .gt) : a.compare? c = some (p.then q) ↔ ¬Blurred a b c := by
  cases hab with
  | booleans p q =>
    cases hbc with
    | booleans _ r => exact iff_of_true (congrArg some (compare_then hp hq)) (not_blurred rfl rfl)
    | integers hb _ => cases hb
    | floats _ hb _ _ _ => cases hb
  | texts s t =>
    cases hbc with
    | texts _ u => exact iff_of_true (congrArg some (compare_then hp hq)) (not_blurred rfl rfl)
    | integers hb _ => cases hb
    | floats _ hb _ _ _ => cases hb
  | @integers _ _ m n ha hb =>
    have hmono := Binary64.rank_ofInt_mono (isWord_of_asInt? ha) (isWord_of_asInt? hb)
    have hmono' := Binary64.rank_ofInt_mono (isWord_of_asInt? hb) (isWord_of_asInt? ha)
    cases hbc with
    | booleans _ _ => cases hb
    | texts _ _ => cases hb
    | integers hb' hc =>
      obtain rfl := Option.some.inj (hb.symm.trans hb')
      rw [compare?_of_asInt? ha hc, compare_then hp hq]
      refine iff_of_true rfl ?_
      rintro (h | h | h) <;> exact absurd h.asInt? (by simp [ha, hb, hc])
    | @floats _ _ y z hmixed hb' hc hy hz =>
      obtain rfl := Option.some.inj (hb'.symm.trans (asFloat?_of_asInt? hb))
      obtain rfl := eq_float8 (hmixed.resolve_left (by simp [hb])) hc
      rw [compare?_swap, float_compare? hz ha, Option.map_some, ← Std.OrientedOrd.eq_swap,
        Option.some_inj, (blurred_iff hz ha hb).2.2]
      exact then_iff_of_first hmono hmono' (Int.compare_ne_gt.1 hp) (Int.compare_ne_gt.1 hq)
  | @floats _ _ x y hmixed ha hb hx hy =>
    cases hbc with
    | booleans _ _ => cases hb
    | texts _ _ => cases hb
    | @integers _ _ m n hb' hc =>
      have hmono := Binary64.rank_ofInt_mono (isWord_of_asInt? hb') (isWord_of_asInt? hc)
      have hmono' := Binary64.rank_ofInt_mono (isWord_of_asInt? hc) (isWord_of_asInt? hb')
      obtain rfl := Option.some.inj (hb.symm.trans (asFloat?_of_asInt? hb'))
      obtain rfl := eq_float8 (hmixed.resolve_right (by simp [hb'])) ha
      rw [float_compare? hx hc, Option.some_inj, (blurred_iff hx hb' hc).1]
      exact then_iff_of_second hmono hmono' (Int.compare_ne_gt.1 hp) (Int.compare_ne_gt.1 hq)
    | @floats _ _ y' z hmixed' hb' hc _ hz =>
      obtain rfl := Option.some.inj (hb.symm.trans hb')
      by_cases hac : a.asInt? = none ∨ c.asInt? = none
      · have hcompare : a.compare? c = some (compare x.rank z.rank) :=
          compare?_eq_some_iff.2 (.floats hac ha hc hx hz)
        rw [hcompare, compare_then hp hq]
        refine iff_of_true rfl ?_
        rintro (h | h | h) <;> obtain ⟨-, h, h'⟩ := h.asInt?
        · exact hmixed'.elim h h'
        · exact hac.elim h h'
        · exact hmixed.elim h h'
      · -- Both ends are integers, and so the float is in the middle.
        obtain ⟨ha', hc'⟩ := not_or.1 hac
        obtain ⟨m, hm⟩ := Option.ne_none_iff_exists'.1 ha'
        obtain ⟨n, hn⟩ := Option.ne_none_iff_exists'.1 hc'
        obtain rfl := eq_float8 (hmixed.resolve_left ha') hb
        obtain rfl := Option.some.inj (ha.symm.trans (asFloat?_of_asInt? hm))
        obtain rfl := Option.some.inj (hc.symm.trans (asFloat?_of_asInt? hn))
        rw [compare?_of_asInt? hm hn, Option.some_inj, (blurred_iff hy hm hn).2.1]
        refine then_iff_of_outer ?_ ?_ (Int.compare_ne_gt.1 hp) (Int.compare_ne_gt.1 hq)
        · exact Binary64.rank_ofInt_mono (isWord_of_asInt? hm) (isWord_of_asInt? hn)
        · exact Binary64.rank_ofInt_mono (isWord_of_asInt? hn) (isWord_of_asInt? hm)

/-- **Comparison is an order up to rounding.** Comparing the other way round has the opposite
outcome, or none in both cases. If no value is greater than the next, the first of three is equal to
the last if it equals the second and the second equals the last, and less otherwise, unless one of
them is a float that equals the others, which are different integers. Then one of these has more
than 53 bits. -/
theorem compare_consistent (a b c : Value) :
    a.compare? b = (b.compare? a).map Ordering.swap ∧
    (∀ p q, a.compare? b = some p → b.compare? c = some q → p ≠ .gt → q ≠ .gt →
      (a.compare? c = some (p.then q) ↔ ¬Blurred a b c)) ∧
    (Blurred a b c → ∃ v ∈ [a, b, c], ∃ n, v.asInt? = some n ∧ 2 ^ 53 < n.natAbs) := by
  refine ⟨compare?_swap a b, fun p q hab hbc hp hq => ?_, ?_⟩
  · exact (compare?_eq_some_iff.1 hab).then_iff (compare?_eq_some_iff.1 hbc) hp hq
  · rintro (h | h | h) <;> obtain ⟨u, hu | hu, hlarge⟩ := h.exists_large <;>
      exact ⟨u, by simp [hu], hlarge⟩

/-- `2 ^ 53`, the same as a float, and `2 ^ 53 + 1`: each equals the next one, and the first is less
than the last. -/
theorem rounded_successor :
    let two53 : Value := .int8 9007199254740992
    let float : Value := .float8 ⟨0x4340000000000000⟩
    let next : Value := .int8 9007199254740993
    two53.compare? float = some .eq ∧ float.compare? next = some .eq ∧
      two53.compare? next = some .lt := by
  decide

end Value

end StreamSql
