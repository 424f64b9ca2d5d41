import Mathlib.Data.List.Nodup

/-!
# Moving members to the front

The members of a list that have a property, and then the others, each in the order of the list. This
is what a stable sort by the property makes of the list (`mergeSort_eq_filter_append_filter_not`).
-/

namespace StreamSql

variable {α : Type} {p : α → Bool} {list : List α}

/-- The members with a property come first exactly if moving them to the front changes nothing. -/
theorem filter_append_filter_not_eq_iff :
    list.filter p ++ list.filter (!p ·) = list ↔ list.Pairwise fun a b => p b → p a := by
  induction list with
  | nil => simp
  | cons a rest ih =>
    rw [List.pairwise_cons]
    cases ha : p a with
    | true => simp [ha, ih]
    | false =>
      simp only [List.filter_cons, ha, Bool.not_false, Bool.false_eq_true, if_true, if_false,
        imp_false, Bool.not_eq_true]
      constructor
      · intro h
        have hnone : rest.filter p = [] := by
          cases hp : rest.filter p with
          | nil => rfl
          | cons b others =>
            rw [hp] at h
            obtain ⟨rfl, -⟩ := List.cons.inj h
            have hb : b ∈ rest.filter p := by simp [hp]
            simp [List.mem_filter, ha] at hb
        have hall : ∀ b ∈ rest, p b = false := by simpa using List.filter_eq_nil_iff.1 hnone
        refine ⟨hall, List.pairwise_of_forall_mem_list fun b _ c hc hpc => ?_⟩
        simp [hall c hc] at hpc
      · rintro ⟨hall, -⟩
        have hnone : rest.filter p = [] := List.filter_eq_nil_iff.2 (by simpa using hall)
        have hrest : rest.filter (!p ·) = rest := List.filter_eq_self.2 (by simpa using hall)
        rw [hnone, hrest, List.nil_append]

theorem pairwise_filter_append_filter_not (p : α → Bool) (list : List α) :
    (list.filter p ++ list.filter (!p ·)).Pairwise fun a b => p b → p a := by
  rw [← filter_append_filter_not_eq_iff]
  simp [List.filter_append, List.filter_filter]

theorem filter_filter_append_filter_not (p : α → Bool) (list : List α) (side : Bool) :
    (list.filter p ++ list.filter (!p ·)).filter (p · = side) = list.filter (p · = side) := by
  cases side with
  | true => simp [List.filter_append, List.filter_filter]
  | false => simp [List.filter_append, List.filter_filter]

/-- Whether a member may stand before another, with the members that have a property in front. -/
def mayPrecede (p : α → Bool) (a b : α) : Bool := p a || !p b

theorem mayPrecede_iff {a b : α} : mayPrecede p a b = true ↔ (p b → p a) := by
  cases ha : p a <;> cases hb : p b <;> simp [mayPrecede, ha, hb]

theorem mergeSort_eq_filter_append_filter_not (p : α → Bool) (list : List α) :
    list.mergeSort (mayPrecede p) = list.filter p ++ list.filter (!p ·) := by
  have htrans : ∀ a b c, mayPrecede p a b → mayPrecede p b c → mayPrecede p a c :=
    fun a b c hab hbc => mayPrecede_iff.2 fun hc => mayPrecede_iff.1 hab (mayPrecede_iff.1 hbc hc)
  have htotal : ∀ a b, mayPrecede p a b || mayPrecede p b a := fun a b => by
    cases ha : p a <;> simp [mayPrecede, ha]
  have hperm := List.mergeSort_perm list (mayPrecede p)
  -- Members that may precede each other stay in the order that they have.
  have hkept : ∀ q : α → Bool, (∀ a b, q a → q b → mayPrecede p a b) →
      (list.mergeSort (mayPrecede p)).filter q = list.filter q := by
    intro q hq
    have hsorted : (list.filter q).Pairwise (mayPrecede p · ·) :=
      List.pairwise_of_forall_mem_list fun a ha b hb =>
        hq a b (List.mem_filter.1 ha).2 (List.mem_filter.1 hb).2
    have hsub := (List.sublist_mergeSort htrans htotal hsorted List.filter_sublist).filter q
    rw [List.filter_filter] at hsub
    simp only [Bool.and_self] at hsub
    exact (hsub.eq_of_length (hperm.filter q).length_eq.symm).symm
  have hfront := (List.pairwise_mergeSort htrans htotal list).imp mayPrecede_iff.1
  rw [← filter_append_filter_not_eq_iff.2 hfront, hkept p, hkept (!p ·)]
  · exact fun a b ha hb => mayPrecede_iff.2 fun hpb => by simp [hpb] at hb
  · exact fun a b ha hb => mayPrecede_iff.2 fun _ => ha

end StreamSql
