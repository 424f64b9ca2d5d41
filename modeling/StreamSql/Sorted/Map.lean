/-!
# Sorted maps

A finite map kept as the list of its entries in strictly ascending key order. One content has one
representation, so equal contents are equal values: `SortedMap.ext_get?` says that two maps that
bind every key alike are the same map.
-/

namespace StreamSql

/-- A finite map whose entries are listed by strictly ascending key. -/
structure SortedMap (κ : Type) (ν : Type) [Ord κ] where
  entries : List (κ × ν)
  ascending : entries.Pairwise fun a b => compare a.1 b.1 = .lt
  deriving DecidableEq

namespace SortedMap

variable {κ ν : Type} [Ord κ]

def empty : SortedMap κ ν := ⟨[], .nil⟩

instance : Inhabited (SortedMap κ ν) := ⟨empty⟩

instance : EmptyCollection (SortedMap κ ν) := ⟨empty⟩

/-- The value beside the first entry with the key `key`. -/
def findValue (key : κ) : List (κ × ν) → Option ν
  | [] => none
  | (k, v) :: rest => if compare key k = .eq then some v else findValue key rest

/-- The value bound to `key`. -/
def get? (m : SortedMap κ ν) (key : κ) : Option ν := findValue key m.entries

def contains (m : SortedMap κ ν) (key : κ) : Bool := (m.get? key).isSome

def keys (m : SortedMap κ ν) : List κ := m.entries.map (·.1)

def values (m : SortedMap κ ν) : List ν := m.entries.map (·.2)

def size (m : SortedMap κ ν) : Nat := m.entries.length

/-- Places an entry among ascending entries, in the stead of one with the same key. -/
def insertEntry (key : κ) (value : ν) : List (κ × ν) → List (κ × ν)
  | [] => [(key, value)]
  | (k, v) :: rest =>
    match compare key k with
    | .lt => (key, value) :: (k, v) :: rest
    | .eq => (key, value) :: rest
    | .gt => (k, v) :: insertEntry key value rest

theorem mem_insertEntry {key : κ} {value : ν} {entry : κ × ν} {entries : List (κ × ν)}
    (h : entry ∈ insertEntry key value entries) : entry = (key, value) ∨ entry ∈ entries := by
  induction entries with
  | nil => simpa [insertEntry] using h
  | cons head rest ih =>
    obtain ⟨k, v⟩ := head
    simp only [insertEntry] at h
    split at h <;> grind

variable [Std.TransOrd κ]

theorem ascending_insertEntry (key : κ) (value : ν) {entries : List (κ × ν)}
    (h : entries.Pairwise fun a b => compare a.1 b.1 = .lt) :
    (insertEntry key value entries).Pairwise fun a b => compare a.1 b.1 = .lt := by
  induction entries with
  | nil => simp [insertEntry]
  | cons head rest ih =>
    obtain ⟨k, v⟩ := head
    obtain ⟨hhead, hrest⟩ := List.pairwise_cons.1 h
    simp only [insertEntry]
    split
    next hlt =>
      refine List.pairwise_cons.2 ⟨fun entry hentry => ?_, h⟩
      rcases List.mem_cons.1 hentry with rfl | hmem
      · exact hlt
      · exact Std.TransCmp.lt_trans hlt (hhead entry hmem)
    next heq =>
      refine List.pairwise_cons.2 ⟨fun entry hentry => ?_, hrest⟩
      exact Std.TransCmp.lt_of_eq_of_lt heq (hhead entry hentry)
    next hgt =>
      refine List.pairwise_cons.2 ⟨fun entry hentry => ?_, ih hrest⟩
      rcases mem_insertEntry hentry with rfl | hmem
      · exact Std.OrientedCmp.lt_of_gt hgt
      · exact hhead entry hmem

/-- Binds `key` to `value`, whatever it was bound to before. -/
def insert (m : SortedMap κ ν) (key : κ) (value : ν) : SortedMap κ ν :=
  ⟨insertEntry key value m.entries, ascending_insertEntry key value m.ascending⟩

/-- Unbinds `key`. -/
def erase (m : SortedMap κ ν) (key : κ) : SortedMap κ ν :=
  ⟨m.entries.filter fun entry => compare key entry.1 != .eq, m.ascending.filter _⟩

/-- Binds `key` to `value`, or unbinds it. -/
def set (m : SortedMap κ ν) (key : κ) : Option ν → SortedMap κ ν
  | some value => m.insert key value
  | none => m.erase key

/-- The map of `pairs`; a later pair wins over an earlier one with the same key. -/
def ofList (pairs : List (κ × ν)) : SortedMap κ ν :=
  pairs.foldl (fun m pair => m.insert pair.1 pair.2) empty

/-! ## What each operation does to the bindings -/

omit [Std.TransOrd κ] in
@[simp]
theorem get?_empty (key : κ) : (empty : SortedMap κ ν).get? key = none := rfl

theorem findValue_insertEntry (key other : κ) (value : ν) (entries : List (κ × ν)) :
    findValue other (insertEntry key value entries) =
      if compare other key = .eq then some value else findValue other entries := by
  induction entries with
  | nil => simp [insertEntry, findValue]
  | cons head rest ih =>
    obtain ⟨k, v⟩ := head
    simp only [insertEntry]
    split
    next => simp only [findValue]
    next heq =>
      have : compare other key = compare other k := Std.TransCmp.congr_right heq
      simp only [findValue, this]
      split <;> rfl
    next hgt =>
      simp only [findValue, ih]
      by_cases h : compare other key = .eq
      · have : compare other k ≠ .eq := fun hk => by
          have := Std.TransCmp.eq_trans (Std.OrientedCmp.eq_symm h) hk
          simp [this] at hgt
        simp [h, this]
      · simp [h]

theorem get?_insert (m : SortedMap κ ν) (key other : κ) (value : ν) :
    (m.insert key value).get? other =
      if compare other key = .eq then some value else m.get? other :=
  findValue_insertEntry key other value m.entries

theorem findValue_filter_ne (key other : κ) (entries : List (κ × ν)) :
    findValue other (entries.filter fun entry => compare key entry.1 != .eq) =
      if compare other key = .eq then none else findValue other entries := by
  induction entries with
  | nil => simp [findValue]
  | cons head rest ih =>
    obtain ⟨k, v⟩ := head
    by_cases hk : compare key k = .eq
    · have : compare other k = compare other key := (Std.TransCmp.congr_right hk).symm
      simp only [List.filter_cons, hk, bne_self_eq_false, Bool.false_eq_true, if_false, ih,
        findValue, this]
      split <;> rfl
    · simp only [List.filter_cons, bne_iff_ne, ne_eq, hk, not_false_eq_true, if_true, findValue, ih]
      by_cases h : compare other key = .eq
      · have : compare other k ≠ .eq := fun ho =>
          hk (Std.TransCmp.eq_trans (Std.OrientedCmp.eq_symm h) ho)
        simp [h, this]
      · simp [h]

theorem get?_erase (m : SortedMap κ ν) (key other : κ) :
    (m.erase key).get? other = if compare other key = .eq then none else m.get? other :=
  findValue_filter_ne key other m.entries

omit [Std.TransOrd κ] in
theorem findValue_of_lt {key : κ} {entries : List (κ × ν)}
    (h : ∀ entry ∈ entries, compare key entry.1 = .lt) : findValue key entries = none := by
  induction entries with
  | nil => rfl
  | cons head rest ih => simp_all [findValue]

theorem eq_of_findValue_eq [Std.LawfulEqOrd κ] {xs ys : List (κ × ν)}
    (hxs : xs.Pairwise fun a b => compare a.1 b.1 = .lt)
    (hys : ys.Pairwise fun a b => compare a.1 b.1 = .lt)
    (h : ∀ key, findValue key xs = findValue key ys) : xs = ys := by
  induction xs generalizing ys with
  | nil =>
    cases ys with
    | nil => rfl
    | cons y ys => simpa [findValue] using h y.1
  | cons x xs ih =>
    cases ys with
    | nil => simpa [findValue] using h x.1
    | cons y ys =>
      obtain ⟨hx, hxs'⟩ := List.pairwise_cons.1 hxs
      obtain ⟨hy, hys'⟩ := List.pairwise_cons.1 hys
      have hkey : compare x.1 y.1 = .eq := by
        cases hc : compare x.1 y.1 with
        | eq => rfl
        | lt =>
          have := h x.1
          have hbelow : ∀ entry ∈ y :: ys, compare x.1 entry.1 = .lt := fun entry hentry => by
            rcases List.mem_cons.1 hentry with rfl | hmem
            · exact hc
            · exact Std.TransCmp.lt_trans hc (hy entry hmem)
          rw [findValue_of_lt hbelow] at this
          simp [findValue] at this
        | gt =>
          have hlt : compare y.1 x.1 = .lt := Std.OrientedCmp.lt_of_gt hc
          have := h y.1
          have hbelow : ∀ entry ∈ x :: xs, compare y.1 entry.1 = .lt := fun entry hentry => by
            rcases List.mem_cons.1 hentry with rfl | hmem
            · exact hlt
            · exact Std.TransCmp.lt_trans hlt (hx entry hmem)
          rw [findValue_of_lt hbelow] at this
          simp [findValue] at this
      have hkeys : x.1 = y.1 := Std.LawfulEqOrd.eq_of_compare hkey
      have hvalues : x.2 = y.2 := by simpa [findValue, hkeys] using h x.1
      obtain rfl : x = y := Prod.ext hkeys hvalues
      congr 1
      refine ih hxs' hys' fun key => ?_
      by_cases hk : compare key x.1 = .eq
      · rw [findValue_of_lt fun entry hentry => Std.TransCmp.lt_of_eq_of_lt hk (hx entry hentry),
          findValue_of_lt fun entry hentry => Std.TransCmp.lt_of_eq_of_lt hk (hy entry hentry)]
      · simpa [findValue, hk] using h key

theorem ext_get? [Std.LawfulEqOrd κ] {a b : SortedMap κ ν} (h : ∀ key, a.get? key = b.get? key) :
    a = b := by
  obtain ⟨xs, hxs⟩ := a
  obtain ⟨ys, hys⟩ := b
  obtain rfl : xs = ys := eq_of_findValue_eq hxs hys h
  rfl

end SortedMap

end StreamSql
