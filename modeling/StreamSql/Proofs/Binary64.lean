import Mathlib.Algebra.Group.Int.Defs
import Mathlib.Algebra.Group.Nat.Defs
import StreamSql.Binary64

/-!
# The order of numbers and the rounding of integers

Two numbers are at the same place of the order exactly if they are the same or the two zeros
(`Binary64.rank_eq_iff`). Rounding integers to numbers keeps their order
(`Binary64.rank_ofInt_mono`): a greater integer may become the same number, but no smaller one.
Within 53 bits nothing is rounded, so different integers become different numbers
(`Binary64.eq_of_rank_ofInt`).
-/

namespace StreamSql.Binary64

variable {x y : Binary64}

/-! ### Comparison -/

theorem compare?_eq_some_iff {o : Ordering} : x.compare? y = some o ↔
    x.isNaN = false ∧ y.isNaN = false ∧ compare x.rank y.rank = o := by
  unfold compare?
  cases x.isNaN <;> cases y.isNaN <;> simp

theorem toNat_bits (x : Binary64) :
    x.bits.toNat = (if x.isNegative then 2 ^ 63 else 0) + x.magnitude := by
  have hlt : x.bits.toNat < 2 ^ 64 := x.bits.toNat_lt
  simp only [isNegative, magnitude, Nat.pow_eq, decide_eq_true_eq]
  split <;> omega

theorem eq_of_sign_of_magnitude (hsign : x.isNegative = y.isNegative)
    (hmagnitude : x.magnitude = y.magnitude) : x = y := by
  have hbits : x.bits.toNat = y.bits.toNat := by
    rw [toNat_bits, toNat_bits, hsign, hmagnitude]
  obtain ⟨xbits⟩ := x
  obtain ⟨ybits⟩ := y
  exact congrArg mk (UInt64.toNat_inj.1 hbits)

theorem rank_eq_iff : x.rank = y.rank ↔ x = y ∨ x.magnitude = 0 ∧ y.magnitude = 0 := by
  constructor
  · intro h
    unfold rank at h
    by_cases hsign : x.isNegative = y.isNegative
    · rw [hsign] at h
      refine .inl (eq_of_sign_of_magnitude hsign ?_)
      split at h <;> omega
    · -- Of different signs, they are at one place only if that is the zero.
      right
      cases hx : x.isNegative <;> cases hy : y.isNegative <;>
        simp only [hx, hy, if_true, Bool.false_eq_true, if_false, not_true_eq_false] at h hsign
      all_goals omega
  · rintro (rfl | ⟨hx, hy⟩)
    · rfl
    · simp [rank, hx, hy]

/-! ### Rounding to the nearest -/

theorem div_le_roundShift (n shift : Nat) : n / 2 ^ shift ≤ roundShift n shift := by
  simp only [roundShift, Nat.pow_eq]
  split <;> omega

theorem roundShift_le (n shift : Nat) : roundShift n shift ≤ n / 2 ^ shift + 1 := by
  simp only [roundShift, Nat.pow_eq]
  split <;> omega

theorem roundShift_mono {m n : Nat} (h : m ≤ n) (shift : Nat) :
    roundShift m shift ≤ roundShift n shift := by
  obtain hlt | heq := Nat.lt_or_eq_of_le (Nat.div_le_div_right h : m / 2 ^ shift ≤ n / 2 ^ shift)
  · calc roundShift m shift ≤ m / 2 ^ shift + 1 := roundShift_le m shift
      _ ≤ n / 2 ^ shift := hlt
      _ ≤ roundShift n shift := div_le_roundShift n shift
  · -- Of two integers between the same grid points, the greater one is rounded up if the other is.
    have hrest : m % 2 ^ shift ≤ n % 2 ^ shift := by
      have hm := Nat.div_add_mod m (2 ^ shift)
      have hn := Nat.div_add_mod n (2 ^ shift)
      rw [heq] at hm
      omega
    simp only [roundShift, Nat.pow_eq, heq, Bool.or_eq_true, Bool.and_eq_true, decide_eq_true_eq,
      beq_iff_eq]
    split <;> split <;> omega

/-- The significand of the number nearest to `n`, a power of two more if rounding up made it one. -/
def roundedSignificand (n : Nat) : Nat :=
  if n.log2 ≤ 52 then n * 2 ^ (52 - n.log2) else roundShift n (n.log2 - 52)

theorem magnitudeOfNat_eq {n : Nat} (h : n ≠ 0) :
    magnitudeOfNat n = (n.log2 + 1022) * 2 ^ 52 + roundedSignificand n := by
  rw [magnitudeOfNat, if_neg h]
  rfl

theorem roundedSignificand_of_log2_le {n : Nat} (hn : n ≠ 0) (h : n.log2 ≤ 52) :
    2 ^ 52 ≤ roundedSignificand n ∧ roundedSignificand n < 2 ^ 53 := by
  have hscale : ∀ k, 2 ^ k * 2 ^ (52 - n.log2) = 2 ^ (k + (52 - n.log2)) := fun k =>
    (Nat.pow_add 2 k _).symm
  have hpos : 0 < 2 ^ (52 - n.log2) := Nat.two_pow_pos _
  rw [roundedSignificand, if_pos h]
  constructor
  · calc 2 ^ 52 = 2 ^ n.log2 * 2 ^ (52 - n.log2) := by rw [hscale, Nat.add_sub_cancel' h]
      _ ≤ n * 2 ^ (52 - n.log2) := Nat.mul_le_mul_right _ (Nat.log2_self_le hn)
  · calc n * 2 ^ (52 - n.log2) < 2 ^ (n.log2 + 1) * 2 ^ (52 - n.log2) :=
          Nat.mul_lt_mul_of_pos_right Nat.lt_log2_self hpos
      _ = 2 ^ 53 := by rw [hscale, Nat.add_right_comm, Nat.add_sub_cancel' h]

theorem roundedSignificand_bounds {n : Nat} (hn : n ≠ 0) :
    2 ^ 52 ≤ roundedSignificand n ∧ roundedSignificand n ≤ 2 ^ 53 := by
  by_cases h : n.log2 ≤ 52
  · obtain ⟨hlow, hhigh⟩ := roundedSignificand_of_log2_le hn h
    exact ⟨hlow, Nat.le_of_lt hhigh⟩
  · have hlow : 2 ^ 52 ≤ n / 2 ^ (n.log2 - 52) := by
      rw [Nat.le_div_iff_mul_le (Nat.two_pow_pos _), ← Nat.pow_add]
      rw [Nat.add_sub_cancel' (by omega : 52 ≤ n.log2)]
      exact Nat.log2_self_le hn
    have hhigh : n / 2 ^ (n.log2 - 52) < 2 ^ 53 := by
      rw [Nat.div_lt_iff_lt_mul (Nat.two_pow_pos _), ← Nat.pow_add]
      rw [show 53 + (n.log2 - 52) = n.log2 + 1 by omega]
      exact Nat.lt_log2_self
    rw [roundedSignificand, if_neg h]
    exact ⟨Nat.le_trans hlow (div_le_roundShift _ _), Nat.le_trans (roundShift_le _ _) hhigh⟩

theorem log2_mono {m n : Nat} (hm : m ≠ 0) (h : m ≤ n) : m.log2 ≤ n.log2 :=
  (Nat.le_log2 (by omega)).2 (Nat.le_trans (Nat.log2_self_le hm) h)

theorem magnitudeOfNat_mono {m n : Nat} (h : m ≤ n) : magnitudeOfNat m ≤ magnitudeOfNat n := by
  by_cases hm : m = 0
  · rw [hm]
    exact Nat.zero_le _
  · have hn : n ≠ 0 := by omega
    rw [magnitudeOfNat_eq hm, magnitudeOfNat_eq hn]
    obtain hlt | heq := Nat.lt_or_eq_of_le (log2_mono hm h)
    · have hmhigh := (roundedSignificand_bounds hm).2
      have hnlow := (roundedSignificand_bounds hn).1
      omega
    · have hsignificand : roundedSignificand m ≤ roundedSignificand n := by
        simp only [roundedSignificand, heq]
        split
        · exact Nat.mul_le_mul_right _ h
        · exact roundShift_mono h _
      omega

/-- Up to `2 ^ 53` the integers keep apart. -/
theorem magnitudeOfNat_lt {m n : Nat} (h : m < n) (hn : n ≤ 2 ^ 53) :
    magnitudeOfNat m < magnitudeOfNat n := by
  have hn0 : n ≠ 0 := by omega
  have hlow := (roundedSignificand_bounds hn0).1
  rw [magnitudeOfNat_eq hn0]
  by_cases hm : m = 0
  · have hzero : magnitudeOfNat 0 = 0 := rfl
    rw [hm, hzero]
    omega
  · have hlog : m.log2 ≤ 52 := by
      have hlt := (Nat.log2_lt hm).2 (Nat.lt_of_lt_of_le h hn)
      omega
    have hhigh := (roundedSignificand_of_log2_le hm hlog).2
    rw [magnitudeOfNat_eq hm]
    obtain hlt | heq := Nat.lt_or_eq_of_le (log2_mono hm (Nat.le_of_lt h))
    · omega
    · have hsignificand : roundedSignificand m < roundedSignificand n := by
        rw [roundedSignificand, roundedSignificand, ← heq, if_pos hlog, if_pos hlog]
        exact Nat.mul_lt_mul_of_pos_right h (Nat.two_pow_pos _)
      omega

/-! ### Integers as numbers -/

/-- The integers of at most 64 bits. -/
def IsWord (n : Int) : Prop := n.natAbs ≤ 2 ^ 63

theorem magnitudeOfNat_le {n : Int} (hn : IsWord n) :
    magnitudeOfNat n.natAbs ≤ 1086 * 2 ^ 52 :=
  Nat.le_trans (magnitudeOfNat_mono hn) (by decide)

theorem toNat_ofInt {n : Int} (hn : IsWord n) :
    (ofInt n).bits.toNat = (if n < 0 then 2 ^ 63 else 0) + magnitudeOfNat n.natAbs := by
  have hmagnitude := magnitudeOfNat_le hn
  simp only [ofInt, Nat.pow_eq, UInt64.toNat_ofNat']
  split <;> omega

theorem magnitude_ofInt {n : Int} (hn : IsWord n) :
    (ofInt n).magnitude = magnitudeOfNat n.natAbs := by
  have hmagnitude := magnitudeOfNat_le hn
  rw [magnitude, toNat_ofInt hn, Nat.pow_eq]
  split <;> omega

theorem isNegative_ofInt {n : Int} (hn : IsWord n) : (ofInt n).isNegative = decide (n < 0) := by
  have hmagnitude := magnitudeOfNat_le hn
  rw [isNegative, toNat_ofInt hn, Nat.pow_eq, decide_eq_decide]
  split <;> omega

theorem isNaN_ofInt {n : Int} (hn : IsWord n) : (ofInt n).isNaN = false := by
  have hmagnitude := magnitudeOfNat_le hn
  rw [isNaN, magnitude_ofInt hn, infinityMagnitude, Nat.pow_eq, decide_eq_false_iff_not]
  omega

theorem rank_ofInt {n : Int} (hn : IsWord n) : (ofInt n).rank =
    if n < 0 then -(magnitudeOfNat n.natAbs : Int) else magnitudeOfNat n.natAbs := by
  rw [rank, isNegative_ofInt hn, magnitude_ofInt hn]
  simp only [decide_eq_true_eq]

theorem rank_ofInt_mono {m n : Int} (hm : IsWord m) (hn : IsWord n) (h : m ≤ n) :
    (ofInt m).rank ≤ (ofInt n).rank := by
  rw [rank_ofInt hm, rank_ofInt hn]
  split
  next hmneg =>
    split
    · have hmagnitude : magnitudeOfNat n.natAbs ≤ magnitudeOfNat m.natAbs :=
        magnitudeOfNat_mono (by omega)
      omega
    · omega
  next hmpos =>
    rw [if_neg (by omega)]
    exact Int.ofNat_le.2 (magnitudeOfNat_mono (by omega))

theorem rank_ofInt_lt {m n : Int} (hm : m.natAbs ≤ 2 ^ 53) (hn : n.natAbs ≤ 2 ^ 53) (h : m < n) :
    (ofInt m).rank < (ofInt n).rank := by
  rw [rank_ofInt (Nat.le_trans hm (by decide)), rank_ofInt (Nat.le_trans hn (by decide))]
  split
  next hmneg =>
    have hpos : 0 < magnitudeOfNat m.natAbs := magnitudeOfNat_lt (m := 0) (by omega) hm
    split
    · have hmagnitude : magnitudeOfNat n.natAbs < magnitudeOfNat m.natAbs :=
        magnitudeOfNat_lt (by omega) hm
      omega
    · omega
  next hmpos =>
    rw [if_neg (by omega)]
    exact Int.ofNat_lt.2 (magnitudeOfNat_lt (by omega) hn)

/-- **Within 53 bits, different integers become different numbers.** -/
theorem eq_of_rank_ofInt {m n : Int} (hm : m.natAbs ≤ 2 ^ 53) (hn : n.natAbs ≤ 2 ^ 53)
    (h : (ofInt m).rank = (ofInt n).rank) : m = n := by
  rcases Int.lt_trichotomy m n with hlt | heq | hlt
  · exact absurd h (Int.ne_of_lt (rank_ofInt_lt hm hn hlt))
  · exact heq
  · exact absurd h.symm (Int.ne_of_lt (rank_ofInt_lt hn hm hlt))

end StreamSql.Binary64
