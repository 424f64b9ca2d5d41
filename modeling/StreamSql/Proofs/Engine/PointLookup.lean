import StreamSql.Engine.Pull
import StreamSql.Proofs.Key.Injective
import StreamSql.Proofs.Materialization
import StreamSql.Proofs.Query.KeyLookup

/-!
# Looking rows up and scanning for them

A pull query that looks keys up answers with the same rows as one that reads every row of every
partition (`PullPlan.lookup_perm_scan`). The rows that the lookup finds are stored rows, none of
them is found twice, and a stored row that it does not find does not pass the filter.
-/

namespace StreamSql

theorem flatMap_filter_of_nil {α β : Type} {p : α → Bool} {f : α → List β} {list : List α}
    (h : ∀ a ∈ list, p a = false → f a = []) : (list.filter p).flatMap f = list.flatMap f := by
  induction list with
  | nil => rfl
  | cons a rest ih =>
    obtain ⟨ha, hrest⟩ := List.forall_mem_cons.1 h
    cases hp : p a with
    | true => rw [List.filter_cons_of_pos hp, List.flatMap_cons, List.flatMap_cons, ih hrest]
    | false =>
      rw [List.filter_cons_of_neg (by simp [hp]), List.flatMap_cons, ha hp, List.nil_append,
        ih hrest]

namespace PullPlan

variable {plan : PullPlan} {row : Row} {partition : PartitionId}

/-! ### All partitions -/

/-- The rows of all partitions that the query asks, one partition after the other. -/
def answers (plan : PullPlan) : Except Diagnostic (List Row) := do
  let ids ← reported plan.partitions
  let rows ← ids.mapM plan.execute
  return rows.flatten

/-- The plan that reads every row of every partition. -/
def scanning (plan : PullPlan) : PullPlan := { plan with lookup := .scan }

/-- The result rows of a stored row: itself as it is selected, or none. -/
def answered (plan : PullPlan) (row : Row) : List Row :=
  match plan.answerRow row with
  | .ok (some answer) => [answer]
  | _ => []

theorem execute_eq {found : List Row} (hfound : plan.candidates partition = .ok found)
    (hevaluates : ∀ row ∈ found, ∃ answer, plan.answerRow row = .ok answer) :
    plan.execute partition = .ok (found.flatMap plan.answered) := by
  have hrow : ∀ row ∈ found, plan.answerRow row = .ok (plan.answered row).head? := by
    intro row hrow
    obtain ⟨answer, hanswer⟩ := hevaluates row hrow
    cases answer <;> simp [answered, hanswer]
  have htoList : ∀ row, (plan.answered row).head?.toList = plan.answered row := by
    intro row
    unfold answered
    split <;> rfl
  refine bind_eq_ok_iff.2 ⟨found, reported_eq_ok_iff.2 hfound, ?_⟩
  refine bind_eq_ok_iff.2 ⟨_, reported_eq_ok_iff.2 (mapM_eq_ok_map hrow), ?_⟩
  simp only [List.flatMap_map, htoList]
  rfl

/-- A partition is answered exactly if its rows are found and each of them can be answered. -/
theorem execute_eq_ok_iff {answers : List Row} : plan.execute partition = .ok answers ↔
    ∃ found, plan.candidates partition = .ok found ∧
      (∀ row ∈ found, ∃ answer, plan.answerRow row = .ok answer) ∧
      answers = found.flatMap plan.answered := by
  constructor
  · intro h
    obtain ⟨found, hfound, hrows⟩ := bind_eq_ok_iff.1 h
    obtain ⟨_, hanswers, -⟩ := bind_eq_ok_iff.1 hrows
    have hfound := reported_eq_ok_iff.1 hfound
    have hevaluates := exists_mapM_eq_ok_iff.1 ⟨_, reported_eq_ok_iff.1 hanswers⟩
    have hsame := h.symm.trans (execute_eq hfound hevaluates)
    exact ⟨found, hfound, hevaluates, Except.ok.inj hsame⟩
  · rintro ⟨found, hfound, hevaluates, rfl⟩
    exact execute_eq hfound hevaluates

theorem answers_eq {ids : List PartitionId} {found : PartitionId → List Row}
    (hids : plan.partitions = .ok ids)
    (hfound : ∀ id ∈ ids, plan.candidates id = .ok (found id))
    (hevaluates : ∀ row ∈ ids.flatMap found, ∃ answer, plan.answerRow row = .ok answer) :
    plan.answers = .ok ((ids.flatMap found).flatMap plan.answered) := by
  have hexecute : ∀ id ∈ ids, plan.execute id = .ok ((found id).flatMap plan.answered) :=
    fun id hid => execute_eq (hfound id hid) fun row hrow =>
      hevaluates row (List.mem_flatMap.2 ⟨id, hid, hrow⟩)
  refine bind_eq_ok_iff.2 ⟨ids, reported_eq_ok_iff.2 hids, ?_⟩
  refine bind_eq_ok_iff.2 ⟨_, mapM_eq_ok_map hexecute, ?_⟩
  rw [List.flatMap_assoc, List.flatMap_def]
  rfl

theorem scanning_answers
    (hevaluates : ∀ row ∈ plan.materialization.rows, ∃ answer, plan.answerRow row = .ok answer) :
    plan.scanning.answers = .ok (plan.materialization.rows.flatMap plan.answered) :=
  @answers_eq plan.scanning plan.materialization.partitionIds plan.materialization.scan rfl
    (fun _ _ => rfl) hevaluates

/-! ### Looking keys up -/

variable {keys : List (List Value)}

/-- The row of a key, if the partition is the home of the key. -/
def rowUnder (plan : PullPlan) (partition : PartitionId) (values : List Value) : Option Row :=
  if plan.materialization.home (.encode values) = partition then
    plan.materialization.getIn partition (.encode values)
  else none

/-- The partitions that keys are at home in. -/
def homes (plan : PullPlan) (keys : List (List Value)) : List PartitionId :=
  (SortedSet.ofList (keys.map fun values => plan.materialization.home (.encode values))).toList

/-- The rows under keys, one partition after the other. -/
def rowsUnder (plan : PullPlan) (keys : List (List Value)) : List Row :=
  (plan.homes keys).flatMap fun id => keys.flatMap fun values => (plan.rowUnder id values).toList

theorem partitions_keys {encoded : List Value → EncodedKey} (hlookup : plan.lookup = .keys keys)
    (hkeys : ∀ values ∈ keys, plan.materialization.encode values = .ok (encoded values)) :
    plan.partitions = .ok (SortedSet.ofList (keys.map fun values =>
      plan.materialization.home (encoded values))).toList := by
  have hhomes : ∀ values ∈ keys, plan.materialization.partitionOf values =
      .ok (plan.materialization.home (encoded values)) := fun values hvalues =>
    bind_eq_ok_iff.2 ⟨_, hkeys values hvalues, rfl⟩
  unfold partitions
  rw [hlookup]
  exact bind_eq_ok_iff.2 ⟨_, mapM_eq_ok_map hhomes, rfl⟩

theorem candidates_keys {encoded : List Value → EncodedKey} (hlookup : plan.lookup = .keys keys)
    (hkeys : ∀ values ∈ keys, plan.materialization.encode values = .ok (encoded values))
    (partition : PartitionId) : plan.candidates partition = .ok (keys.flatMap fun values =>
      (if plan.materialization.home (encoded values) = partition then
        plan.materialization.getIn partition (encoded values)
      else none).toList) := by
  have hfound : ∀ values ∈ keys, plan.lookupIn partition values =
      .ok (if plan.materialization.home (encoded values) = partition then
        plan.materialization.getIn partition (encoded values)
      else none) := by
    intro values hvalues
    refine bind_eq_ok_iff.2 ⟨_, hkeys values hvalues, ?_⟩
    split <;> rfl
  unfold candidates
  rw [hlookup]
  refine bind_eq_ok_iff.2 ⟨_, mapM_eq_ok_map hfound, ?_⟩
  rw [List.flatMap_map]
  rfl

theorem lookup_answers (hlookup : plan.lookup = .keys keys)
    (hkeys : ∀ values ∈ keys, plan.materialization.encode values = .ok (.encode values))
    (hevaluates : ∀ row ∈ plan.rowsUnder keys, ∃ answer, plan.answerRow row = .ok answer) :
    plan.answers = .ok ((plan.rowsUnder keys).flatMap plan.answered) :=
  answers_eq (partitions_keys hlookup hkeys)
    (fun id _ => candidates_keys hlookup hkeys id) hevaluates

theorem rowUnder_eq_some_iff {values : List Value} : plan.rowUnder partition values = some row ↔
    plan.materialization.home (.encode values) = partition ∧
      plan.materialization.getIn partition (.encode values) = some row := by
  unfold rowUnder
  exact Option.ite_none_right_eq_some

theorem mem_rowsUnder_iff (hplaced : plan.materialization.Placed) : row ∈ plan.rowsUnder keys ↔
    ∃ values ∈ keys, ∃ id, plan.materialization.getIn id (.encode values) = some row := by
  simp only [rowsUnder, homes, List.mem_flatMap, SortedSet.mem_ofList, List.mem_map,
    Option.mem_toList, rowUnder_eq_some_iff]
  constructor
  · rintro ⟨id, -, values, hvalues, -, hrow⟩
    exact ⟨values, hvalues, id, hrow⟩
  · rintro ⟨values, hvalues, id, hrow⟩
    have hhome := (hplaced.belongs _ _ _ hrow).atHome
    exact ⟨id, ⟨values, hvalues, hhome⟩, values, hvalues, hhome, hrow⟩

theorem nodup_rowsUnder (hplaced : plan.materialization.Placed) (hkeys : keys.Nodup) :
    (plan.rowsUnder keys).Nodup := by
  have hstored : ∀ {row id values}, row ∈ (plan.rowUnder id values).toList →
      plan.materialization.getIn id (.encode values) = some row := fun h =>
    (rowUnder_eq_some_iff.1 (Option.mem_toList.1 h)).2
  refine List.nodup_flatMap.2 ⟨fun id _ => List.nodup_flatMap.2 ⟨fun values _ => ?_, ?_⟩, ?_⟩
  · cases plan.rowUnder id values <;> simp
  · refine hkeys.imp fun hne row hfirst hsecond => hne ?_
    exact EncodedKey.encode_injective (hplaced.unique (hstored hfirst) (hstored hsecond)).1
  · refine (SortedSet.nodup_toList _).imp fun hne row hfirst hsecond => hne ?_
    obtain ⟨_, -, hfirst⟩ := List.mem_flatMap.1 hfirst
    obtain ⟨_, -, hsecond⟩ := List.mem_flatMap.1 hsecond
    exact (hplaced.unique (hstored hfirst) (hstored hsecond)).2

theorem mem_rowsUnder_of_admits (hplaced : plan.materialization.Placed)
    (hcovers : KeyLookup.Covers keys plan.materialization.schema plan.predicate)
    (hrow : row ∈ plan.materialization.rows) (hadmits : plan.admits row = .ok true) :
    row ∈ plan.rowsUnder keys := by
  obtain ⟨id, key, hstored⟩ := Materialization.mem_rows_iff.1 hrow
  have hbelongs := hplaced.belongs id key row hstored
  obtain ⟨-, coerced, hcoerced, rfl⟩ := Materialization.encode_eq_ok_iff.1 hbelongs.encoded
  refine (mem_rowsUnder_iff hplaced).2 ⟨coerced, ?_, id, hstored⟩
  refine hcovers.complete row _ coerced (fun predicate hpredicate => ?_)
    (Materialization.forall₂_keyValues hbelongs.width) hcoerced
  rw [Option.mem_def] at hpredicate
  rwa [admits, hpredicate] at hadmits

theorem answered_eq_nil (h : plan.admits row ≠ .ok true) : plan.answered row = [] := by
  unfold answered answerRow
  cases hadmits : plan.admits row with
  | error e => rfl
  | ok admitted =>
    cases admitted with
    | false => rfl
    | true => exact absurd hadmits h

theorem rowsUnder_perm_rows (hplaced : plan.materialization.Placed)
    (hcovers : KeyLookup.Covers keys plan.materialization.schema plan.predicate) :
    ((plan.rowsUnder keys).flatMap plan.answered).Perm
      (plan.materialization.rows.flatMap plan.answered) := by
  have hsubset : ∀ row ∈ plan.rowsUnder keys, row ∈ plan.materialization.rows := by
    intro row hrow
    obtain ⟨values, -, id, hstored⟩ := (mem_rowsUnder_iff hplaced).1 hrow
    exact Materialization.mem_rows_iff.2 ⟨id, _, hstored⟩
  -- Both sides hold no row twice, so they agree once they have the same members.
  have hperm : (plan.rowsUnder keys).Perm
      (plan.materialization.rows.filter (· ∈ plan.rowsUnder keys)) := by
    refine (List.perm_ext_iff_of_nodup (nodup_rowsUnder hplaced hcovers.nodup)
      (hplaced.nodup_rows.filter _)).2 fun row => ?_
    rw [List.mem_filter, decide_eq_true_iff]
    exact ⟨fun h => ⟨hsubset row h, h⟩, And.right⟩
  -- The rows that are not under the keys are not admitted and answer with nothing.
  refine (hperm.flatMap_right _).trans (.of_eq (flatMap_filter_of_nil fun row hrow hnone => ?_))
  refine answered_eq_nil fun hadmits => ?_
  exact of_decide_eq_false hnone (mem_rowsUnder_of_admits hplaced hcovers hrow hadmits)

/-- **Looking keys up agrees with scanning.** Over what any run of changes has stored, where the
columns have distinct names and no key column is of floats, and where the filter and the selection
can be evaluated on every stored row: a scan answers with the stored rows that pass, as they are
selected, and the lookup that the filter gives answers with the same rows, each as often. -/
theorem lookup_perm_scan {schema : Schema} {count : Nat} {changes : List Materialization.Change}
    (hstate : plan.materialization = (Materialization.empty schema count).after changes)
    (hdistinct : (schema.columns.map (·.name)).Nodup)
    (htypes : ∀ column ∈ schema.keyColumns, column.type ≠ .float8)
    (hlookup : KeyLookup.ofFilter plan.predicate schema = .ok plan.lookup)
    (hevaluates : ∀ row ∈ plan.materialization.rows, ∃ answer, plan.answerRow row = .ok answer) :
    plan.scanning.answers = .ok (plan.materialization.rows.flatMap plan.answered) ∧
    ∃ found, plan.answers = .ok found ∧
      found.Perm (plan.materialization.rows.flatMap plan.answered) := by
  have hplaced : plan.materialization.Placed :=
    hstate ▸ Materialization.placed_after schema count changes
  have hschema : plan.materialization.schema = schema :=
    hstate ▸ (Materialization.empty schema count).after_schema changes
  have hscan := scanning_answers hevaluates
  refine ⟨hscan, ?_⟩
  cases hkeys : plan.lookup with
  | scan =>
    have hsame : plan.scanning = plan := by
      rw [scanning, ← hkeys]
    exact ⟨_, hsame ▸ hscan, .refl _⟩
  | keys keys =>
    rw [hkeys] at hlookup
    have hcovers : KeyLookup.Covers keys plan.materialization.schema plan.predicate :=
      hschema ▸ KeyLookup.ofFilter_keys hdistinct htypes hlookup
    have hencoded : ∀ values ∈ keys,
        plan.materialization.encode values = .ok (.encode values) := fun values hvalues =>
      Materialization.encode_of_type (hcovers.typed values hvalues)
    have hfound : ∀ row ∈ plan.rowsUnder keys, ∃ answer, plan.answerRow row = .ok answer := by
      intro row hrow
      obtain ⟨values, -, id, hstored⟩ := (mem_rowsUnder_iff hplaced).1 hrow
      exact hevaluates row (Materialization.mem_rows_iff.2 ⟨id, _, hstored⟩)
    exact ⟨_, lookup_answers hkeys hencoded hfound, rowsUnder_perm_rows hplaced hcovers⟩

/-- Two users in two partitions are looked up by their ids. One id is asked for twice. -/
theorem users_looked_up :
    let schema := (Schema.empty.add "ID" .int8 true).add "NAME" .utf8 false
    let alice : Row := ⟨[.int8 1, .utf8 "alice"]⟩
    let bob : Row := ⟨[.int4 2, .utf8 "bob"]⟩
    let changes : List Materialization.Change := [.put alice, .put bob]
    let predicate : Expression :=
      .inList (.named "ID") [.literal (.int4 2), .literal (.int8 1), .literal (.int8 2)]
    let plan : PullPlan := {
      id := .ofPull "users"
      schema
      materialization := (Materialization.empty schema 2).after changes
      lookup := .keys [[.int8 2], [.int8 1]]
      predicate := some predicate
      projections := [⟨"NAME", .named "NAME"⟩] }
    let selected : List Row := [⟨[.utf8 "alice"]⟩, ⟨[.utf8 "bob"]⟩]
    KeyLookup.ofFilter plan.predicate schema = .ok plan.lookup ∧
    plan.materialization.rows = [alice, bob] ∧ plan.scanning.answers = .ok selected ∧
    ∃ found, plan.answers = .ok found ∧ found.Perm selected := by
  intro schema alice bob changes predicate plan selected
  have hlookup : KeyLookup.ofFilter plan.predicate schema = .ok plan.lookup := rfl
  have hrows : plan.materialization.rows = [alice, bob] := by decide +kernel
  have hevaluates : ∀ row ∈ plan.materialization.rows,
      ∃ answer, plan.answerRow row = .ok answer := by
    rw [hrows, List.forall_mem_cons, List.forall_mem_singleton]
    exact ⟨⟨_, rfl⟩, ⟨_, rfl⟩⟩
  have hselected : plan.materialization.rows.flatMap plan.answered = selected := by
    rw [hrows]
    rfl
  exact ⟨hlookup, hrows, hselected ▸
    lookup_perm_scan rfl (by decide) (by decide) hlookup hevaluates⟩

end PullPlan

end StreamSql
