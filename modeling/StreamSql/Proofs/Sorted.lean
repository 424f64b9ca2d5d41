import StreamSql.Sorted.Map
import StreamSql.Sorted.Set

/-!
# Sorted maps and sets by their contents

What the operations do to lookups and membership, for keys whose order tells different keys apart.
Elsewhere maps and sets are used through these facts and through `SortedMap.ext_get?` and
`SortedSet.ext_contains`: the order of the entries never matters.
-/

namespace StreamSql

/-! ### Maps -/

namespace SortedMap

variable {κ ν : Type} [Ord κ] [Std.TransOrd κ] [Std.LawfulEqOrd κ] [DecidableEq κ]

theorem lookup_insert (m : SortedMap κ ν) (key other : κ) (value : ν) :
    (m.insert key value).get? other = if other = key then some value else m.get? other := by
  simp only [get?_insert, Std.LawfulEqOrd.compare_eq_iff_eq]

theorem lookup_erase (m : SortedMap κ ν) (key other : κ) :
    (m.erase key).get? other = if other = key then none else m.get? other := by
  simp only [get?_erase, Std.LawfulEqOrd.compare_eq_iff_eq]

theorem lookup_set (m : SortedMap κ ν) (key other : κ) (value : Option ν) :
    (m.set key value).get? other = if other = key then value else m.get? other := by
  cases value with
  | none => exact lookup_erase m key other
  | some value => exact lookup_insert m key other value

omit [Std.TransOrd κ] [DecidableEq κ] in
theorem mem_keys_of_get? {m : SortedMap κ ν} {key : κ} {value : ν} (h : m.get? key = some value) :
    key ∈ m.keys := by
  obtain ⟨entries, hentries⟩ := m
  simp only [get?, keys] at h ⊢
  clear hentries
  induction entries with
  | nil => simp [findValue] at h
  | cons head rest ih =>
    obtain ⟨k, v⟩ := head
    simp only [findValue] at h
    split at h
    next heq =>
      rw [Std.LawfulEqOrd.compare_eq_iff_eq] at heq
      simp [heq]
    next => simp [ih h]

omit [Std.TransOrd κ] [DecidableEq κ] in
theorem mem_entries_iff (m : SortedMap κ ν) (key : κ) (value : ν) :
    (key, value) ∈ m.entries ↔ m.get? key = some value := by
  obtain ⟨entries, hentries⟩ := m
  simp only [get?]
  induction entries with
  | nil => simp [findValue]
  | cons head rest ih =>
    obtain ⟨k, v⟩ := head
    obtain ⟨hhead, hrest⟩ := List.pairwise_cons.1 hentries
    simp only [findValue, Std.LawfulEqOrd.compare_eq_iff_eq, List.mem_cons, Prod.mk.injEq]
    by_cases hkey : key = k
    · subst hkey
      have hnone : (key, value) ∉ rest := fun hmem => by simpa using hhead _ hmem
      simp [hnone, eq_comm]
    · simp [hkey, ih hrest]

omit [Std.TransOrd κ] [DecidableEq κ] in
theorem nodup_keys (m : SortedMap κ ν) : m.keys.Nodup := by
  rw [keys, List.nodup_iff_pairwise_ne, List.pairwise_map]
  refine m.ascending.imp fun hlt heq => ?_
  rw [heq] at hlt
  simp at hlt

end SortedMap

/-! ### Sets -/

namespace SortedSet

variable {α : Type} [Ord α] [Std.TransOrd α] [Std.LawfulEqOrd α]

omit [Std.TransOrd α] in
theorem contains_iff_mem (s : SortedSet α) (a : α) : s.contains a = true ↔ a ∈ s.toList := by
  simp [contains]

omit [Std.TransOrd α] [Std.LawfulEqOrd α] in
@[simp]
theorem contains_empty (a : α) : (empty : SortedSet α).contains a = false := rfl

omit [Std.TransOrd α] in
theorem isEmpty_iff (s : SortedSet α) : s.isEmpty = true ↔ ∀ a, s.contains a = false := by
  simp only [isEmpty, List.isEmpty_iff, List.eq_nil_iff_forall_not_mem, ← contains_iff_mem,
    Bool.not_eq_true]

omit [Std.TransOrd α] in
theorem mem_insertMember_iff (a b : α) (members : List α) :
    b ∈ insertMember a members ↔ b = a ∨ b ∈ members := by
  induction members with
  | nil => simp [insertMember]
  | cons head rest ih =>
    simp only [insertMember]
    split
    next => simp
    next heq =>
      rw [Std.LawfulEqOrd.compare_eq_iff_eq] at heq
      simp [heq]
    next => simp only [List.mem_cons, ih]; grind

theorem contains_insert (s : SortedSet α) (a b : α) :
    (s.insert a).contains b = true ↔ b = a ∨ s.contains b = true := by
  simp only [contains_iff_mem]
  exact mem_insertMember_iff a b s.toList

omit [Std.TransOrd α] in
theorem contains_erase (s : SortedSet α) (a b : α) :
    (s.erase a).contains b = true ↔ b ≠ a ∧ s.contains b = true := by
  simp only [contains_iff_mem, erase, List.mem_filter, bne_iff_ne, ne_eq,
    Std.LawfulEqOrd.compare_eq_iff_eq]
  grind

theorem mem_ofList (members : List α) (a : α) : a ∈ (ofList members).toList ↔ a ∈ members := by
  have hfold : ∀ s : SortedSet α,
      (members.foldl insert s).contains a = true ↔ s.contains a = true ∨ a ∈ members := by
    induction members with
    | nil => simp
    | cons b rest ih =>
      intro s
      rw [List.foldl_cons, ih, contains_insert, List.mem_cons]
      grind
  rw [← contains_iff_mem, ofList, hfold]
  simp

omit [Std.TransOrd α] in
theorem nodup_toList (s : SortedSet α) : s.toList.Nodup :=
  s.ascending.imp fun hlt heq => by
    rw [heq] at hlt
    simp at hlt

theorem ext_contains {s t : SortedSet α} (h : ∀ a, s.contains a = true ↔ t.contains a = true) :
    s = t := by
  obtain ⟨xs, hxs⟩ := s
  obtain ⟨ys, hys⟩ := t
  have hmem : ∀ a, a ∈ xs ↔ a ∈ ys := fun a => by simpa only [contains_iff_mem] using h a
  have hirrefl : ∀ a b : α, compare a b = .lt → a ≠ b := fun a b hlt heq => by
    subst heq
    simp at hlt
  have hperm : xs.Perm ys :=
    (List.perm_ext_iff_of_nodup (hxs.imp (hirrefl _ _)) (hys.imp (hirrefl _ _))).2 hmem
  have hanti : ∀ a b : α, a ∈ xs → b ∈ ys → compare a b = .lt → compare b a = .lt → a = b :=
    fun a b _ _ hab hba => absurd (Std.OrientedCmp.gt_of_lt hba) (by simp [hab])
  obtain rfl : xs = ys := hperm.eq_of_pairwise hanti hxs hys
  rfl

end SortedSet

end StreamSql
