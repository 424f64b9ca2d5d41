import Mathlib.Data.List.Nodup
import StreamSql.Materialization
import StreamSql.Proofs.Results
import StreamSql.Proofs.Sorted
import StreamSql.Proofs.Value

/-!
# Where rows are stored

After any run of changes every row is kept under the key of its own values, in the home of that key
(`Materialization.placed_after`). So a row is found under one key and in one partition only
(`Materialization.Placed.unique`), and no row is stored twice
(`Materialization.Placed.nodup_rows`).
-/

namespace StreamSql.Materialization

variable {m : Materialization} {id : PartitionId} {key : EncodedKey} {row : Row}

/-! ### Runs of changes -/

inductive Change where
  | put (row : Row)
  | delete (key : List Value)

/-- The materialization after a change. A change that is refused leaves it as it was. -/
def changed (m : Materialization) : Change → Materialization
  | .put row =>
    match m.put row with
    | .ok (_, next) => next
    | .error _ => m
  | .delete key =>
    match m.delete key with
    | .ok (_, next) => next
    | .error _ => m

def after (m : Materialization) (changes : List Change) : Materialization :=
  changes.foldl changed m

/-! ### Partitions -/

theorem partition_setPartition {rows : Partition} {other : PartitionId}
    (h : id.number < m.partitionCount) :
    (m.setPartition id rows).partition other = if other = id then rows else m.partition other := by
  obtain ⟨n⟩ := id
  obtain ⟨k⟩ := other
  unfold setPartition partition
  by_cases hk : k = n
  · subst hk
    simp [List.getD_eq_getElem?_getD, List.getElem?_set_self h]
  · simp [List.getD_eq_getElem?_getD, List.getElem?_set_ne (Ne.symm hk), hk]

theorem home_lt (h : 0 < m.partitionCount) : (m.home key).number < m.partitionCount := by
  unfold home EncodedKey.partition EncodedKey.partitionOf
  split
  · exact h
  · exact Nat.mod_lt _ h

theorem number_lt_of_getIn (h : m.getIn id key = some row) : id.number < m.partitionCount := by
  by_contra hlarge
  have hempty : m.partition id = .empty :=
    List.getD_eq_getElem?_getD.trans (by rw [List.getElem?_eq_none (Nat.le_of_not_lt hlarge)]; rfl)
  rw [getIn, hempty] at h
  cases h

/-! ### Keys -/

theorem encode_eq_ok_iff {values : List Value} : m.encode values = .ok key ↔
    values.length = m.schema.keyColumns.length ∧
      ∃ coerced, coerceKey m.schema.keyColumns values = .ok coerced ∧ key = .encode coerced := by
  unfold encode
  by_cases hlength : values.length = m.schema.keyColumns.length
  · simp only [hlength, ne_eq, not_true_eq_false, if_false, bind_eq_ok_iff, true_and]
    refine exists_congr fun coerced => and_congr_right fun _ => ?_
    exact ⟨fun h => (Except.ok.inj h).symm, fun h => h ▸ rfl⟩
  · simp [hlength]

theorem coerceKey_of_type {columns : List Column} {values : List Value}
    (h : List.Forall₂ (fun c v => v.type? = some c.type) columns values) :
    coerceKey columns values = .ok values := by
  induction h with
  | nil => rfl
  | cons htype _ ih =>
    rw [coerceKey, Value.coerce?_of_type htype]
    simp only [ih]
    rfl

theorem encode_of_type {values : List Value}
    (h : List.Forall₂ (fun c v => v.type? = some c.type) m.schema.keyColumns values) :
    m.encode values = .ok (.encode values) :=
  encode_eq_ok_iff.2 ⟨h.length_eq.symm, values, coerceKey_of_type h, rfl⟩

theorem forall₂_keyValues (h : row.width = m.schema.size) :
    List.Forall₂ (fun c v => (c, v) ∈ m.schema.columns.zip row.values) m.schema.keyColumns
      (m.keyValues row) := by
  have hcolumns : m.schema.keyColumns =
      ((m.schema.columns.zip row.values).filter (·.1.isKey)).map (·.1) := by
    have hfst : (m.schema.columns.zip row.values).map (·.1) = m.schema.columns :=
      List.map_fst_zip (Nat.le_of_eq h.symm)
    conv_lhs => rw [Schema.keyColumns, ← hfst, List.filter_map]
    rfl
  rw [hcolumns, keyValues, List.forall₂_map_left_iff, List.forall₂_map_right_iff,
    List.forall₂_same]
  exact fun pair hpair => (List.mem_filter.1 hpair).1

/-! ### What changes do -/

@[simp]
theorem setPartition_schema {rows : Partition} : (m.setPartition id rows).schema = m.schema := rfl

@[simp]
theorem setPartition_count {rows : Partition} :
    (m.setPartition id rows).partitionCount = m.partitionCount :=
  List.length_set

/-- A change that is accepted replaces the rows of one partition: a row is put under its key, or
the row of a key is taken away. -/
theorem changed_cases (m : Materialization) (change : Change) :
    m.changed change = m ∨
    (∃ row key, row.width = m.schema.size ∧ m.encode (m.keyValues row) = .ok key ∧
      m.changed change =
        m.setPartition (m.home key) ((m.partition (m.home key)).insert key row)) ∨
    ∃ key, m.changed change =
      m.setPartition (m.home key) ((m.partition (m.home key)).erase key) := by
  cases change with
  | put row =>
    unfold changed put
    by_cases hwidth : row.width = m.schema.size
    · cases hkey : m.encode (m.keyValues row) with
      | ok key =>
        refine .inr (.inl ⟨row, key, hwidth, hkey, ?_⟩)
        simp [hwidth, hkey]
      | error e => exact .inl (by simp [hwidth, hkey])
    · exact .inl (by simp [hwidth])
  | delete values =>
    unfold changed delete
    cases hkey : m.encode values with
    | ok key => exact .inr (.inr ⟨key, by simp [hkey, bind, Except.bind, pure, Except.pure]⟩)
    | error e => exact .inl (by simp [hkey, bind, Except.bind])

theorem changed_schema (m : Materialization) (change : Change) :
    (m.changed change).schema = m.schema := by
  obtain h | ⟨row, key, -, -, h⟩ | ⟨key, h⟩ := m.changed_cases change
  · rw [h]
  · rw [h, setPartition_schema]
  · rw [h, setPartition_schema]

theorem after_schema (m : Materialization) (changes : List Change) :
    (m.after changes).schema = m.schema := by
  induction changes generalizing m with
  | nil => rfl
  | cons change rest ih => exact (ih _).trans (m.changed_schema change)

/-! ### Rows in their places -/

/-- A row that belongs under a key in a partition: the key is that of its own values, and the
partition is the home of the key. -/
structure Belongs (m : Materialization) (id : PartitionId) (key : EncodedKey) (row : Row) : Prop
    where
  width : row.width = m.schema.size
  encoded : m.encode (m.keyValues row) = .ok key
  atHome : m.home key = id

/-- Every row is kept where it belongs. -/
structure Placed (m : Materialization) : Prop where
  populated : 0 < m.partitionCount
  belongs : ∀ id key row, m.getIn id key = some row → m.Belongs id key row

theorem partition_empty {schema : Schema} {count : Nat} :
    (empty schema count).partition id = .empty := by
  unfold empty partition
  rw [List.getD_eq_getElem?_getD, List.getElem?_replicate]
  split <;> rfl

theorem placed_empty (schema : Schema) (count : Nat) : (empty schema count).Placed where
  populated := by
    rw [partitionCount, empty, List.length_replicate]
    exact Nat.lt_of_lt_of_le Nat.zero_lt_one (Nat.le_max_right count 1)
  belongs id key row h := by
    rw [getIn, partition_empty] at h
    cases h

theorem Belongs.setPartition {rows : Partition} {other : PartitionId} (h : m.Belongs id key row) :
    (m.setPartition other rows).Belongs id key row where
  width := h.width
  encoded := h.encoded
  atHome := by
    rw [← h.atHome, home, home, setPartition_count]

theorem Placed.setPartition {rows : Partition} (hm : m.Placed) (hid : id.number < m.partitionCount)
    (hrows : ∀ key row, rows.get? key = some row → m.Belongs id key row) :
    (m.setPartition id rows).Placed where
  populated := by rw [setPartition_count]; exact hm.populated
  belongs other key row h := by
    rw [getIn, partition_setPartition hid] at h
    split at h
    next heq =>
      subst heq
      exact (hrows key row h).setPartition
    next => exact (hm.belongs other key row h).setPartition

theorem Placed.changed (hm : m.Placed) (change : Change) : (m.changed change).Placed := by
  obtain h | ⟨row, key, hwidth, hkey, h⟩ | ⟨key, h⟩ := m.changed_cases change
  · rwa [h]
  · rw [h]
    refine hm.setPartition (home_lt hm.populated) fun other stored hstored => ?_
    rw [SortedMap.lookup_insert] at hstored
    split at hstored
    next heq =>
      obtain rfl := Option.some.inj hstored
      subst heq
      exact ⟨hwidth, hkey, rfl⟩
    next => exact hm.belongs _ _ _ hstored
  · rw [h]
    refine hm.setPartition (home_lt hm.populated) fun other stored hstored => ?_
    rw [SortedMap.lookup_erase] at hstored
    split at hstored
    next => cases hstored
    next => exact hm.belongs _ _ _ hstored

theorem placed_after (schema : Schema) (count : Nat) (changes : List Change) :
    ((empty schema count).after changes).Placed := by
  have hrun : ∀ m : Materialization, m.Placed → (m.after changes).Placed := by
    induction changes with
    | nil => exact fun m hm => hm
    | cons change rest ih => exact fun m hm => ih _ (hm.changed change)
  exact hrun _ (placed_empty schema count)

/-! ### The rows of all partitions -/

/-- The rows of all partitions, one partition after the other. -/
def rows (m : Materialization) : List Row := m.partitionIds.flatMap m.scan

theorem mem_scan_iff : row ∈ m.scan id ↔ ∃ key, m.getIn id key = some row := by
  simp only [scan, getIn, SortedMap.values, List.mem_map, ← SortedMap.mem_entries_iff]
  constructor
  · rintro ⟨⟨key, _⟩, hmem, rfl⟩
    exact ⟨key, hmem⟩
  · rintro ⟨key, hmem⟩
    exact ⟨_, hmem, rfl⟩

theorem mem_partitionIds_iff : id ∈ m.partitionIds ↔ id.number < m.partitionCount := by
  obtain ⟨n⟩ := id
  simp [partitionIds]

theorem mem_rows_iff : row ∈ m.rows ↔ ∃ id key, m.getIn id key = some row := by
  simp only [rows, List.mem_flatMap, mem_scan_iff, mem_partitionIds_iff]
  constructor
  · rintro ⟨id, -, key, h⟩
    exact ⟨id, key, h⟩
  · rintro ⟨id, key, h⟩
    exact ⟨id, number_lt_of_getIn h, key, h⟩

theorem Placed.unique (hm : m.Placed) {other : PartitionId} {otherKey : EncodedKey}
    (h : m.getIn id key = some row) (hother : m.getIn other otherKey = some row) :
    key = otherKey ∧ id = other := by
  have hkey := (hm.belongs _ _ _ h).encoded
  rw [(hm.belongs _ _ _ hother).encoded] at hkey
  obtain rfl := Except.ok.inj hkey
  exact ⟨rfl, (hm.belongs _ _ _ h).atHome.symm.trans (hm.belongs _ _ _ hother).atHome⟩

theorem Placed.nodup_scan (hm : m.Placed) (id : PartitionId) : (m.scan id).Nodup := by
  have hkeys := (m.partition id).nodup_keys
  rw [SortedMap.keys, List.nodup_iff_pairwise_ne, List.pairwise_map] at hkeys
  rw [scan, SortedMap.values, List.nodup_iff_pairwise_ne, List.pairwise_map]
  refine hkeys.imp_of_mem fun {a b} ha hb hne heq => hne ?_
  have hfirst : m.getIn id a.1 = some a.2 := (SortedMap.mem_entries_iff _ _ _).1 ha
  have hsecond : m.getIn id b.1 = some a.2 := heq ▸ (SortedMap.mem_entries_iff _ _ _).1 hb
  exact (hm.unique hfirst hsecond).1

theorem nodup_partitionIds (m : Materialization) : m.partitionIds.Nodup :=
  List.nodup_range.map fun _ _ h => congrArg PartitionId.number h

/-- **No row is stored twice.** -/
theorem Placed.nodup_rows (hm : m.Placed) : m.rows.Nodup := by
  refine List.nodup_flatMap.2 ⟨fun id _ => hm.nodup_scan id, ?_⟩
  refine m.nodup_partitionIds.imp fun hne row hfirst hsecond => hne ?_
  obtain ⟨key, hkey⟩ := mem_scan_iff.1 hfirst
  obtain ⟨other, hother⟩ := mem_scan_iff.1 hsecond
  exact (hm.unique hkey hother).2

end StreamSql.Materialization
