/-!
# Sorted sets

A finite set kept as the list of its members in strictly ascending order, so that equal contents are
equal values and the members are always read in the same order.
-/

namespace StreamSql

/-- A finite set whose members are listed in strictly ascending order. -/
structure SortedSet (α : Type) [Ord α] where
  toList : List α
  ascending : toList.Pairwise fun a b => compare a b = .lt
  deriving DecidableEq

namespace SortedSet

variable {α : Type} [Ord α]

def empty : SortedSet α := ⟨[], .nil⟩

instance : Inhabited (SortedSet α) := ⟨empty⟩

instance : EmptyCollection (SortedSet α) := ⟨empty⟩

def contains (s : SortedSet α) (a : α) : Bool := s.toList.any fun b => compare a b == .eq

def isEmpty (s : SortedSet α) : Bool := s.toList.isEmpty

/-- Places a member among ascending members, unless it is there. -/
def insertMember (a : α) : List α → List α
  | [] => [a]
  | b :: rest =>
    match compare a b with
    | .lt => a :: b :: rest
    | .eq => b :: rest
    | .gt => b :: insertMember a rest

theorem mem_insertMember {a b : α} {members : List α} (h : b ∈ insertMember a members) :
    b = a ∨ b ∈ members := by
  induction members with
  | nil => simpa [insertMember] using h
  | cons head rest ih =>
    simp only [insertMember] at h
    split at h <;> grind

variable [Std.TransOrd α]

theorem ascending_insertMember (a : α) {members : List α}
    (h : members.Pairwise fun a b => compare a b = .lt) :
    (insertMember a members).Pairwise fun a b => compare a b = .lt := by
  induction members with
  | nil => simp [insertMember]
  | cons head rest ih =>
    obtain ⟨hhead, hrest⟩ := List.pairwise_cons.1 h
    simp only [insertMember]
    split
    next hlt =>
      refine List.pairwise_cons.2 ⟨fun b hb => ?_, h⟩
      rcases List.mem_cons.1 hb with rfl | hmem
      · exact hlt
      · exact Std.TransCmp.lt_trans hlt (hhead b hmem)
    next => exact h
    next hgt =>
      refine List.pairwise_cons.2 ⟨fun b hb => ?_, ih hrest⟩
      rcases mem_insertMember hb with rfl | hmem
      · exact Std.OrientedCmp.lt_of_gt hgt
      · exact hhead b hmem

def insert (s : SortedSet α) (a : α) : SortedSet α :=
  ⟨insertMember a s.toList, ascending_insertMember a s.ascending⟩

def erase (s : SortedSet α) (a : α) : SortedSet α :=
  ⟨s.toList.filter fun b => compare a b != .eq, s.ascending.filter _⟩

def ofList (members : List α) : SortedSet α := members.foldl insert empty

end SortedSet

end StreamSql
