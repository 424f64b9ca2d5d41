import Mathlib.Data.List.Induction
import StreamSql.Proofs.Key.Injective
import StreamSql.Proofs.Materialization

/-!
# The latest row of every key

A materialization is a map from keys to rows, whichever way the keys are spread over partitions. An
accepted change sets the row under one key and leaves those under all others
(`Materialization.under_changed`), so after a run of calls the row under a key is the one that was
put last, unless the key was deleted since (`Materialization.under_eq_some_iff_live`). The answers
to all calls follow from that (`Materialization.holds_latest_rows`). Nothing is assumed of the hash
that spreads the keys.
-/

namespace StreamSql

/-! ### Keys -/

namespace Schema

/-- The key that values stand for: one value for every key column, each widened to the type of its
column. -/
def key? (schema : Schema) (values : List Value) : Option (List Value) :=
  if values.length = schema.keyColumns.length then
    (schema.keyColumns.zip values).mapM fun (column, value) => value.coerce? column.type
  else none

/-- The key of a row that has one value for every column. -/
def rowKey? (schema : Schema) (row : Row) : Option (List Value) :=
  if row.width = schema.size then
    schema.key? (((schema.columns.zip row.values).filter (·.1.isKey)).map (·.2))
  else none

end Schema

namespace Materialization

variable {m : Materialization} {id : PartitionId} {row : Row} {values key : List Value}

theorem coerceKey_eq_ok_iff {columns : List Column} (hlength : values.length = columns.length) :
    coerceKey columns values = .ok key ↔
      (columns.zip values).mapM (fun (column, value) => value.coerce? column.type) = some key := by
  induction columns generalizing values key with
  | nil =>
    obtain rfl := List.eq_nil_of_length_eq_zero hlength
    simp [coerceKey, eq_comm]
  | cons column rest ih =>
    cases values with
    | nil => cases hlength
    | cons value others =>
      have hrest : others.length = rest.length := Nat.succ.inj hlength
      rw [coerceKey, List.zip_cons_cons, List.mapM_cons]
      cases hvalue : value.coerce? column.type with
      | none => simp [hvalue]
      | some coerced =>
        simp only [bind_eq_ok_iff, Option.bind_eq_bind, Option.bind_some, hvalue,
          Option.bind_eq_some_iff, ← ih hrest]
        exact exists_congr fun k => and_congr_right fun _ => by simp [pure, Except.pure]

theorem encode_eq_ok_iff_key? {encoded : EncodedKey} : m.encode values = .ok encoded ↔
    ∃ key, m.schema.key? values = some key ∧ encoded = .encode key := by
  rw [encode_eq_ok_iff, Schema.key?]
  by_cases hlength : values.length = m.schema.keyColumns.length
  · simp only [hlength, true_and, if_true, coerceKey_eq_ok_iff hlength]
  · simp [hlength]

theorem encode_of_key? (h : m.schema.key? values = some key) :
    m.encode values = .ok (.encode key) :=
  encode_eq_ok_iff_key?.2 ⟨key, h, rfl⟩

theorem exists_encode_error (h : m.schema.key? values = none) :
    ∃ e, m.encode values = .error e := by
  cases hencode : m.encode values with
  | error e => exact ⟨e, rfl⟩
  | ok encoded =>
    obtain ⟨key, hkey, -⟩ := encode_eq_ok_iff_key?.1 hencode
    cases h.symm.trans hkey

/-! ### The row under a key -/

/-- The row under a key, in the home of the key. -/
def under (m : Materialization) (encoded : EncodedKey) : Option Row :=
  m.getIn (m.home encoded) encoded

/-- The materialization with another row under a key, or with none. -/
def setUnder (m : Materialization) (encoded : EncodedKey) (row : Option Row) : Materialization :=
  m.setPartition (m.home encoded) ((m.partition (m.home encoded)).set encoded row)

variable {encoded other : EncodedKey} {found : Option Row}

theorem Placed.getIn_eq_some_iff (hm : m.Placed) :
    m.getIn id encoded = some row ↔ id = m.home encoded ∧ m.under encoded = some row := by
  constructor
  · intro h
    obtain rfl := (hm.belongs _ _ _ h).atHome
    exact ⟨rfl, h⟩
  · rintro ⟨rfl, h⟩
    exact h

theorem home_setUnder : (m.setUnder encoded found).home other = m.home other :=
  congrArg other.partition setPartition_count

theorem under_setUnder (hm : 0 < m.partitionCount) :
    (m.setUnder encoded found).under other = if other = encoded then found else m.under other := by
  rw [under, home_setUnder, getIn, setUnder, partition_setPartition (home_lt hm)]
  split
  next hhome =>
    rw [SortedMap.lookup_set, ← hhome]
    rfl
  next hhome =>
    rw [if_neg fun heq => hhome (congrArg m.home heq)]
    rfl

theorem get_of_key? (h : m.schema.key? values = some key) :
    m.get values = .ok (m.under (.encode key)) :=
  bind_eq_ok_iff.2 ⟨_, encode_of_key? h, rfl⟩

theorem delete_of_key? (h : m.schema.key? values = some key) :
    m.delete values = .ok ((m.under (.encode key)).isSome, m.setUnder (.encode key) none) :=
  bind_eq_ok_iff.2 ⟨_, encode_of_key? h, rfl⟩

theorem put_of_rowKey? (h : m.schema.rowKey? row = some key) :
    m.put row = .ok (m.home (.encode key), m.setUnder (.encode key) (some row)) := by
  obtain ⟨hwidth, hkey⟩ := Option.ite_none_right_eq_some.1 h
  have hencode : m.encode (m.keyValues row) = .ok (.encode key) := encode_of_key? hkey
  rw [put, if_neg (not_not.2 hwidth), hencode]
  rfl

theorem refused_of_key? (h : m.schema.key? values = none) :
    (∃ e, m.get values = .error e) ∧ ∃ e, m.delete values = .error e := by
  obtain ⟨e, he⟩ := exists_encode_error h
  exact ⟨⟨e, bind_eq_error_iff.2 (.inl he)⟩, ⟨e, bind_eq_error_iff.2 (.inl he)⟩⟩

theorem put_refused_of_rowKey? (h : m.schema.rowKey? row = none) :
    ∃ e, m.put row = .error e := by
  rw [put]
  split
  next => exact ⟨_, rfl⟩
  next hwidth =>
    rw [Schema.rowKey?, if_pos (not_not.1 hwidth)] at h
    obtain ⟨e, he⟩ : ∃ e, m.encode (m.keyValues row) = .error e := exists_encode_error h
    rw [he]
    exact ⟨_, rfl⟩

/-! ### Changes -/

/-- The key whose row a change sets; a change that is refused has none. -/
def Change.key? (schema : Schema) : Change → Option (List Value)
  | .put row => schema.rowKey? row
  | .delete values => schema.key? values

/-- The row that a change leaves under its key. -/
def Change.row? : Change → Option Row
  | .put row => some row
  | .delete _ => none

variable {change : Change}

theorem changed_of_key? (h : change.key? m.schema = some key) :
    m.changed change = m.setUnder (.encode key) change.row? := by
  cases change with
  | put row => rw [changed, put_of_rowKey? h, Change.row?]
  | delete values => rw [changed, delete_of_key? h, Change.row?]

theorem changed_of_refused (h : change.key? m.schema = none) : m.changed change = m := by
  cases change with
  | put row =>
    obtain ⟨e, he⟩ := put_refused_of_rowKey? h
    rw [changed, he]
  | delete values =>
    obtain ⟨-, e, he⟩ := refused_of_key? h
    rw [changed, he]

/-- **An accepted change sets the row under its key**, and leaves those under all others. -/
theorem under_changed (hm : 0 < m.partitionCount) : (m.changed change).under encoded =
    if (change.key? m.schema).map .encode = some encoded then change.row?
    else m.under encoded := by
  cases hkey : change.key? m.schema with
  | none =>
    rw [changed_of_refused hkey]
    rfl
  | some key =>
    rw [changed_of_key? hkey, under_setUnder hm]
    refine if_congr ?_ rfl rfl
    exact ⟨fun heq => congrArg some heq.symm, fun heq => (Option.some.inj heq).symm⟩

/-! ### Runs of calls -/

inductive Call where
  | change (change : Change)
  | get (values : List Value)

def Call.key? (schema : Schema) : Call → Option (List Value)
  | .change change => change.key? schema
  | .get _ => none

def Call.row? : Call → Option Row
  | .change change => change.row?
  | .get _ => none

/-- The materialization after a call. -/
def called (m : Materialization) : Call → Materialization
  | .change change => m.changed change
  | .get _ => m

def afterCalls (m : Materialization) (calls : List Call) : Materialization := calls.foldl called m

/-- The row was put under the key, and no call since has put another row there or deleted the
key. -/
def Live (schema : Schema) (calls : List Call) (key : List Value) (row : Row) : Prop :=
  ∃ before after, calls = before ++ .change (.put row) :: after ∧ schema.rowKey? row = some key ∧
    ∀ call ∈ after, call.key? schema ≠ some key

variable {call : Call} {calls : List Call} {schema : Schema}

theorem Placed.called (hm : m.Placed) (call : Call) : (m.called call).Placed := by
  cases call with
  | change change => exact hm.changed change
  | get values => exact hm

theorem called_schema : (m.called call).schema = m.schema := by
  cases call with
  | change change => exact m.changed_schema change
  | get values => rfl

theorem under_called (hm : 0 < m.partitionCount) : (m.called call).under (.encode key) =
    if call.key? m.schema = some key then call.row? else m.under (.encode key) := by
  cases call with
  | change change =>
    refine (under_changed hm).trans (if_congr ?_ rfl rfl)
    rw [Option.map_eq_some_iff]
    constructor
    · rintro ⟨k, hk, heq⟩
      rw [Call.key?, hk, EncodedKey.encode_injective heq]
    · exact fun h => ⟨key, h, rfl⟩
  | get values => rfl

theorem placed_afterCalls (schema : Schema) (count : Nat) (calls : List Call) :
    ((empty schema count).afterCalls calls).Placed :=
  List.foldlRecOn calls _ (placed_empty schema count) fun _ hm call _ => hm.called call

theorem afterCalls_schema (schema : Schema) (count : Nat) (calls : List Call) :
    ((empty schema count).afterCalls calls).schema = schema :=
  List.foldlRecOn (motive := fun m : Materialization => m.schema = schema) calls _ rfl
    fun _ hm _ _ => called_schema.trans hm

/-- The last call decides what is live under its key, and nothing else. -/
theorem live_append_singleton_iff : Live schema (calls ++ [call]) key row ↔
    if call.key? schema = some key then call.row? = some row else Live schema calls key row := by
  constructor
  · rintro ⟨before, after, hcalls, hkey, hafter⟩
    rcases List.eq_nil_or_concat' after with rfl | ⟨after, last, rfl⟩
    · obtain ⟨-, rfl⟩ := List.append_singleton_inj.1 hcalls
      exact (if_pos hkey).mpr rfl
    · rw [← List.cons_append, ← List.append_assoc] at hcalls
      obtain ⟨rfl, rfl⟩ := List.append_singleton_inj.1 hcalls
      obtain ⟨hafter, hlast⟩ := List.forall_mem_append.1 hafter
      rw [if_neg (hlast call List.mem_cons_self)]
      exact ⟨before, after, rfl, hkey, hafter⟩
  · intro h
    split at h
    next hkey =>
      -- Only putting a row leaves one.
      cases call with
      | get values => cases h
      | change change =>
        cases change with
        | delete values => cases h
        | put stored =>
          obtain rfl := Option.some.inj h
          exact ⟨calls, [], rfl, hkey, nofun⟩
    next hother =>
      obtain ⟨before, after, rfl, hkey, hafter⟩ := h
      refine ⟨before, after ++ [call], by simp, hkey, ?_⟩
      exact List.forall_mem_append.2 ⟨hafter, List.forall_mem_singleton.2 hother⟩

theorem under_eq_some_iff_live (schema : Schema) (count : Nat) (calls : List Call) :
    ((empty schema count).afterCalls calls).under (.encode key) = some row ↔
      Live schema calls key row := by
  -- By induction on the calls from the last one, which decides first.
  induction calls using List.reverseRecOn with
  | nil =>
    refine iff_of_false (fun h => ?_) fun ⟨before, after, hcalls, _⟩ => by simp at hcalls
    rw [afterCalls, List.foldl_nil, under, getIn, partition_empty] at h
    cases h
  | append_singleton calls call ih =>
    have hm : ((empty schema count).afterCalls calls).Placed := placed_afterCalls schema count calls
    rw [afterCalls, List.foldl_append, List.foldl_cons, List.foldl_nil, ← afterCalls,
      under_called hm.populated, afterCalls_schema, live_append_singleton_iff, ← ih]
    split <;> rfl

/-! ### What is answered -/

theorem Placed.mem_scan_iff (hm : m.Placed) :
    row ∈ m.scan id ↔ ∃ key, id = m.home (.encode key) ∧ m.under (.encode key) = some row := by
  simp only [Materialization.mem_scan_iff, hm.getIn_eq_some_iff]
  constructor
  · rintro ⟨encoded, h⟩
    obtain ⟨key, -, rfl⟩ :=
      encode_eq_ok_iff_key?.1 (hm.belongs _ _ _ (hm.getIn_eq_some_iff.2 h)).encoded
    exact ⟨key, h⟩
  · rintro ⟨key, h⟩
    exact ⟨_, h⟩

theorem Placed.mem_rows_iff (hm : m.Placed) :
    row ∈ m.rows ↔ ∃ key, m.under (.encode key) = some row := by
  simp only [rows, List.mem_flatMap, hm.mem_scan_iff, mem_partitionIds_iff]
  constructor
  · rintro ⟨id, -, key, -, h⟩
    exact ⟨key, h⟩
  · rintro ⟨key, h⟩
    exact ⟨_, home_lt hm.populated, key, rfl, h⟩

theorem size_eq_length_rows (m : Materialization) : m.size = m.rows.length := by
  have hpartitions : m.partitionIds.map m.partition = m.partitions := by
    rw [partitionIds, List.map_map]
    refine List.ext_getElem (by simp [partitionCount]) fun i hi hi' => ?_
    simp [partition, List.getElem?_eq_getElem hi']
  have hsizes : m.partitionIds.map (fun id => (m.scan id).length) =
      m.partitions.map SortedMap.size := by
    rw [← hpartitions, List.map_map]
    exact List.map_congr_left fun id _ => List.length_map _
  rw [rows, List.length_flatMap, hsizes, List.sum_eq_foldl, List.foldl_map]
  rfl

/-- What is answered after calls. -/
structure HoldsLatest (m : Materialization) (schema : Schema) (calls : List Call) : Prop where
  /-- A row is found under its key while it is live, and none otherwise. -/
  get : ∀ values key, schema.key? values = some key →
    ∃ found, m.get values = .ok found ∧ ∀ row, found = some row ↔ Live schema calls key row
  /-- Deleting says whether there was a row. -/
  delete : ∀ values key, schema.key? values = some key →
    ∃ found next, m.delete values = .ok (found, next) ∧
      (found = true ↔ ∃ row, Live schema calls key row)
  /-- Rows with a key are put. -/
  put : ∀ row key, schema.rowKey? row = some key → ∃ id next, m.put row = .ok (id, next)
  /-- All other calls are refused. -/
  refused : (∀ values, schema.key? values = none →
      (∃ e, m.get values = .error e) ∧ ∃ e, m.delete values = .error e) ∧
    ∀ row, schema.rowKey? row = none → ∃ e, m.put row = .error e
  /-- A refused call changes nothing. -/
  unchanged : ∀ call : Call, call.key? schema = none → m.called call = m
  /-- The size is the number of keys with a live row. -/
  size : ∃ keys : List (List Value), keys.Nodup ∧
    (∀ key, key ∈ keys ↔ ∃ row, Live schema calls key row) ∧ m.size = keys.length
  /-- A live row is in one partition, and this is the partition of its key. -/
  partitioned : ∀ key row, Live schema calls key row →
    ∃ id, id.number < m.partitionCount ∧
      (∀ values, schema.key? values = some key → m.partitionOf values = .ok id) ∧
      ∀ other, row ∈ m.scan other ↔ other = id
  /-- All partitions together have every live row once, and no other rows. -/
  scanned : m.rows.Nodup ∧ ∀ row, row ∈ m.rows ↔ ∃ key, Live schema calls key row

theorem Live.rowKey? (h : Live schema calls key row) : schema.rowKey? row = some key := by
  obtain ⟨-, -, -, hkey, -⟩ := h
  exact hkey

theorem exists_keys {live : List Value → Row → Prop} {rows : List Row} (hnodup : rows.Nodup)
    (hrows : ∀ row, row ∈ rows ↔ ∃ key, live key row)
    (hkey : ∀ key row, live key row → schema.rowKey? row = some key)
    (hunique : ∀ key row other, live key row → live key other → row = other) :
    ∃ keys : List (List Value), keys.Nodup ∧ (∀ key, key ∈ keys ↔ ∃ row, live key row) ∧
      rows.length = keys.length := by
  have hlive : ∀ row ∈ rows, live ((schema.rowKey? row).getD []) row := by
    intro row hrow
    obtain ⟨key, h⟩ := (hrows row).1 hrow
    rwa [hkey key row h]
  refine ⟨rows.map fun row => (schema.rowKey? row).getD [], ?_, fun key => ?_,
    (List.length_map _).symm⟩
  · refine List.Nodup.map_on (fun row hrow other hother heq => ?_) hnodup
    exact hunique _ row other (hlive row hrow) (heq ▸ hlive other hother)
  · rw [List.mem_map]
    constructor
    · rintro ⟨row, hrow, rfl⟩
      exact ⟨row, hlive row hrow⟩
    · rintro ⟨row, h⟩
      exact ⟨row, (hrows row).2 ⟨key, h⟩, by rw [hkey key row h]; rfl⟩

/-- **A materialization holds the latest row of every key**, whatever the schema, the number of
partitions and the calls. -/
theorem holds_latest_rows (schema : Schema) (count : Nat) (calls : List Call) :
    ((empty schema count).afterCalls calls).HoldsLatest schema calls := by
  have hm := placed_afterCalls schema count calls
  have hschema := afterCalls_schema schema count calls
  have hunder : ∀ key row, ((empty schema count).afterCalls calls).under (.encode key) = some row ↔
      Live schema calls key row := fun key row => under_eq_some_iff_live schema count calls
  generalize (empty schema count).afterCalls calls = m at hm hschema hunder
  subst hschema
  have hrows : ∀ row, row ∈ m.rows ↔ ∃ key, Live m.schema calls key row := by
    intro row
    simp only [hm.mem_rows_iff, hunder]
  exact {
    get := fun values key hkey => ⟨_, get_of_key? hkey, hunder key⟩
    delete := fun values key hkey => by
      refine ⟨_, _, delete_of_key? hkey, ?_⟩
      simp only [Option.isSome_iff_exists, hunder]
    put := fun row key hkey => ⟨_, _, put_of_rowKey? hkey⟩
    refused := ⟨fun _ => refused_of_key?, fun _ => put_refused_of_rowKey?⟩
    unchanged := by
      intro call hcall
      cases call with
      | change change => exact changed_of_refused hcall
      | get values => rfl
    size := by
      rw [size_eq_length_rows]
      refine exists_keys hm.nodup_rows hrows (fun key row h => h.rowKey?) ?_
      intro key row other hrow hother
      exact Option.some.inj (((hunder key row).2 hrow).symm.trans ((hunder key other).2 hother))
    partitioned := by
      intro key row h
      refine ⟨m.home (.encode key), home_lt hm.populated, fun values hvalues => ?_, fun other => ?_⟩
      · exact bind_eq_ok_iff.2 ⟨_, encode_of_key? hvalues, rfl⟩
      · rw [hm.mem_scan_iff]
        constructor
        · rintro ⟨otherKey, rfl, hother⟩
          have hsame := ((hunder otherKey row).1 hother).rowKey?.symm.trans h.rowKey?
          rw [Option.some.inj hsame]
        · exact fun heq => ⟨key, heq, (hunder key row).2 h⟩
    scanned := ⟨hm.nodup_rows, hrows⟩ }

/-- A short number and a long one are the same key; the rows are kept as they are. -/
example :
    let schema := (Schema.empty.add "ID" .int8 true).add "NAME" .utf8 false
    let calls : List Call := [.change (.put ⟨[.int8 1, .utf8 "alice"]⟩), .get [.int8 1],
      .change (.put ⟨[.int4 1, .utf8 "bob"]⟩)]
    ((empty schema 3).afterCalls calls).get [.int8 1] =
      .ok (some ⟨[.int4 1, .utf8 "bob"]⟩) := by
  decide +kernel

end Materialization

end StreamSql
