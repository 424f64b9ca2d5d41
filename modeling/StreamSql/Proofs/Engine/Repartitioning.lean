import Mathlib.Data.List.Perm.Basic
import Mathlib.Tactic.Choose
import StreamSql.Proofs.Engine.PointLookup
import StreamSql.Proofs.Materialization.LatestRows

/-!
# The number of partitions

How many partitions there are is seen in no answer, but for the order of rows
(`Materialization.answers_alike`). The same changes leave the same row under every key, however the
keys are spread (`Materialization.alike_after`). A pull query looks at the rows under its keys, or
at all rows, wherever they are (`PullPlan.reached`): it is answered exactly if these rows can be,
and by what they answer, in some order (`PullPlan.answers_of_reached`,
`PullPlan.reached_of_answers`).
-/

namespace StreamSql

theorem flatMap_homes_perm {α β γ : Type} [DecidableEq β] {home : α → β} {homes : List β}
    {list : List α} (f : α → List γ) (hnodup : homes.Nodup) (hhomes : ∀ a ∈ list, home a ∈ homes) :
    (homes.flatMap fun id => list.flatMap fun a => if home a = id then f a else []).Perm
      (list.flatMap f) := by
  induction list with
  | nil => simp
  | cons a rest ih =>
    obtain ⟨ha, hrest⟩ := List.forall_mem_cons.1 hhomes
    -- The first member is found in its own home only.
    have hsole : homes.filter (· = home a) = [home a] := by
      rw [List.filter_eq, List.count_eq_one_of_mem hnodup ha, List.replicate_one]
    have hfirst : (homes.flatMap fun id => if home a = id then f a else []) = f a := by
      rw [← flatMap_filter_of_nil fun id _ hid => if_neg (Ne.symm (of_decide_eq_false hid)), hsole]
      simp
    refine (List.flatMap_append_perm homes _ _).symm.trans ?_
    rw [hfirst]
    exact (ih hrest).append_left (f a)

namespace PullPlan

variable {plan : PullPlan} {answers rows : List Row}

/-! ### The rows of a query -/

/-- The rows that the query looks at, wherever they are: those under its keys, or all. -/
def reached (plan : PullPlan) : Except KeyError (List Row) :=
  match plan.lookup with
  | .scan => .ok plan.materialization.rows
  | .keys keys => do
    let found ← keys.mapM plan.materialization.get
    return found.flatMap (·.toList)

theorem reached_keys {keys : List (List Value)} (hlookup : plan.lookup = .keys keys)
    (h : plan.reached = .ok rows) :
    ∃ encoded : List Value → EncodedKey,
      (∀ values ∈ keys, plan.materialization.encode values = .ok (encoded values)) ∧
        rows = keys.flatMap fun values =>
          (plan.materialization.under (encoded values)).toList := by
  rw [reached, hlookup] at h
  obtain ⟨found, hfound, h⟩ := bind_eq_ok_iff.1 h
  obtain rfl := Except.ok.inj h
  have hencoded : ∀ values ∈ keys,
      ∃ encoded, plan.materialization.encode values = .ok encoded := by
    intro values hvalues
    obtain ⟨row, hrow⟩ := exists_mapM_eq_ok_iff.1 ⟨_, hfound⟩ values hvalues
    obtain ⟨encoded, hencoded, -⟩ := bind_eq_ok_iff.1 hrow
    exact ⟨encoded, hencoded⟩
  -- As a function of the key, since a key may be asked for more than once.
  have : Nonempty EncodedKey := ⟨.encode []⟩
  choose! encoded hencoded using hencoded
  have hgets : ∀ values ∈ keys, plan.materialization.get values =
      .ok (plan.materialization.under (encoded values)) := fun values hvalues =>
    bind_eq_ok_iff.2 ⟨_, hencoded values hvalues, rfl⟩
  obtain rfl := Except.ok.inj ((mapM_eq_ok_map hgets).symm.trans hfound)
  exact ⟨encoded, hencoded, List.flatMap_map ..⟩

theorem exists_candidates (h : plan.reached = .ok rows) :
    ∃ ids found, plan.partitions = .ok ids ∧ (∀ id, plan.candidates id = .ok (found id)) ∧
      (ids.flatMap found).Perm rows := by
  cases hlookup : plan.lookup with
  | scan =>
    rw [reached, hlookup] at h
    obtain rfl := Except.ok.inj h
    refine ⟨plan.materialization.partitionIds, plan.materialization.scan, ?_, fun id => ?_, .refl _⟩
    · rw [partitions, hlookup]
    · rw [candidates, hlookup]
  | keys keys =>
    obtain ⟨encoded, hencoded, rfl⟩ := reached_keys hlookup h
    refine ⟨_, _, partitions_keys hlookup hencoded, candidates_keys hlookup hencoded, ?_⟩
    have hunder : ∀ (id : PartitionId) (encoded : EncodedKey),
        (if plan.materialization.home encoded = id then
          plan.materialization.getIn id encoded else none).toList =
        if plan.materialization.home encoded = id then
          (plan.materialization.under encoded).toList else [] := by
      intro id encoded
      split
      next hhome =>
        subst hhome
        rfl
      next => rfl
    simp only [hunder]
    refine flatMap_homes_perm _ (SortedSet.nodup_toList _) fun values hvalues => ?_
    exact (SortedSet.mem_ofList _ _).2 (List.mem_map_of_mem hvalues)

theorem exists_reached {ids : List PartitionId} (h : plan.partitions = .ok ids) :
    ∃ rows, plan.reached = .ok rows := by
  unfold reached
  unfold partitions at h
  cases hlookup : plan.lookup with
  | scan => exact ⟨_, rfl⟩
  | keys keys =>
    rw [hlookup] at h
    obtain ⟨homes, hhomes, -⟩ := bind_eq_ok_iff.1 h
    obtain ⟨found, hfound⟩ : ∃ found, keys.mapM plan.materialization.get = .ok found := by
      refine exists_mapM_eq_ok_iff.2 fun values hvalues => ?_
      obtain ⟨home, hhome⟩ := exists_mapM_eq_ok_iff.1 ⟨_, hhomes⟩ values hvalues
      obtain ⟨encoded, hencoded, -⟩ := bind_eq_ok_iff.1 hhome
      exact ⟨_, bind_eq_ok_iff.2 ⟨encoded, hencoded, rfl⟩⟩
    exact ⟨_, bind_eq_ok_iff.2 ⟨found, hfound, rfl⟩⟩

theorem answers_of_reached (h : plan.reached = .ok rows)
    (hevaluates : ∀ row ∈ rows, ∃ answer, plan.answerRow row = .ok answer) :
    ∃ answers, plan.answers = .ok answers ∧ answers.Perm (rows.flatMap plan.answered) := by
  obtain ⟨ids, found, hids, hfound, hperm⟩ := exists_candidates h
  refine ⟨_, answers_eq hids (fun id _ => hfound id) fun row hrow => ?_, hperm.flatMap_right _⟩
  exact hevaluates row (hperm.mem_iff.1 hrow)

theorem reached_of_answers (h : plan.answers = .ok answers) :
    ∃ rows, plan.reached = .ok rows ∧ ∀ row ∈ rows, ∃ answer, plan.answerRow row = .ok answer := by
  obtain ⟨_, hpartitions, hexecutes⟩ := bind_eq_ok_iff.1 h
  obtain ⟨rows, hrows⟩ := exists_reached (reported_eq_ok_iff.1 hpartitions)
  obtain ⟨ids, found, hids, hfound, hperm⟩ := exists_candidates hrows
  obtain rfl := Except.ok.inj ((reported_eq_ok_iff.1 hpartitions).symm.trans hids)
  obtain ⟨results, hresults, -⟩ := bind_eq_ok_iff.1 hexecutes
  refine ⟨rows, hrows, fun row hrow => ?_⟩
  obtain ⟨id, hid, hrow⟩ := List.mem_flatMap.1 (hperm.mem_iff.2 hrow)
  obtain ⟨_, -, hexecute⟩ := exists_of_mem_left (mapM_eq_ok_iff.1 hresults) hid
  obtain ⟨_, hcandidates, hevaluates, -⟩ := execute_eq_ok_iff.1 hexecute
  obtain rfl := Except.ok.inj (hcandidates.symm.trans (hfound id))
  exact hevaluates row hrow

/-- The plan bound to another materialization. -/
def boundTo (plan : PullPlan) (m : Materialization) : PullPlan :=
  { plan with materialization := m }

/-- What a row answers depends on the schema of the stored rows only. -/
theorem answerRow_boundTo {m n : Materialization} (h : m.schema = n.schema) :
    (plan.boundTo m).answerRow = (plan.boundTo n).answerRow := by
  obtain ⟨schema, _⟩ := m
  obtain rfl : schema = n.schema := h
  rfl

end PullPlan

/-- Both results are errors, or both are lists with the same members, each as often. -/
inductive AnswerAlike {ε α : Type} : Except ε (List α) → Except ε (List α) → Prop
  | ok {answers others : List α} (h : answers.Perm others) : AnswerAlike (.ok answers) (.ok others)
  | error (d e : ε) : AnswerAlike (.error d) (.error e)

namespace Materialization

variable {m n : Materialization} {change : Change} {rows : List Row}

/-! ### The same rows under the same keys -/

/-- Both materializations have the same row under every key. -/
structure Alike (m n : Materialization) : Prop where
  schema : m.schema = n.schema
  placed : m.Placed ∧ n.Placed
  under : ∀ encoded, m.under encoded = n.under encoded

theorem Alike.symm (h : m.Alike n) : n.Alike m where
  schema := h.schema.symm
  placed := h.placed.symm
  under encoded := (h.under encoded).symm

theorem Alike.changed (h : m.Alike n) (change : Change) :
    (m.changed change).Alike (n.changed change) where
  schema := by rw [changed_schema, changed_schema, h.schema]
  placed := ⟨h.placed.1.changed change, h.placed.2.changed change⟩
  under encoded := by
    rw [under_changed h.placed.1.populated, under_changed h.placed.2.populated, h.schema,
      h.under encoded]

theorem alike_empty (schema : Schema) (count other : Nat) :
    (empty schema count).Alike (empty schema other) where
  schema := rfl
  placed := ⟨placed_empty schema count, placed_empty schema other⟩
  under encoded := by rw [under, under, getIn, getIn, partition_empty, partition_empty]

/-- **The same changes leave the same rows under the same keys**, over any numbers of
partitions. -/
theorem alike_after (schema : Schema) (count other : Nat) (changes : List Change) :
    ((empty schema count).after changes).Alike ((empty schema other).after changes) := by
  have hrun : ∀ m n : Materialization, m.Alike n → (m.after changes).Alike (n.after changes) := by
    induction changes with
    | nil => exact fun m n h => h
    | cons change rest ih => exact fun m n h => ih _ _ (h.changed change)
  exact hrun _ _ (alike_empty schema count other)

/-! ### Answers -/

theorem Alike.encode_eq (h : m.Alike n) (values : List Value) :
    m.encode values = n.encode values := by
  rw [encode, encode, h.schema]

theorem Alike.get_eq (h : m.Alike n) (values : List Value) : m.get values = n.get values := by
  rw [get, get, h.encode_eq]
  exact bind_congr fun encoded => congrArg _ (h.under encoded)

theorem Alike.delete_eq (h : m.Alike n) (values : List Value) :
    (m.delete values).map (·.1) = (n.delete values).map (·.1) := by
  rw [delete, delete, h.encode_eq]
  cases n.encode values with
  | error e => rfl
  | ok encoded => exact congrArg (fun found => Except.ok found.isSome) (h.under encoded)

theorem Alike.rows_perm (h : m.Alike n) : m.rows.Perm n.rows := by
  refine (List.perm_ext_iff_of_nodup h.placed.1.nodup_rows h.placed.2.nodup_rows).2 fun row => ?_
  simp only [h.placed.1.mem_rows_iff, h.placed.2.mem_rows_iff, h.under]

theorem Alike.reached (h : m.Alike n) (plan : PullPlan)
    (hrows : (plan.boundTo m).reached = .ok rows) :
    ∃ others, (plan.boundTo n).reached = .ok others ∧ rows.Perm others := by
  unfold PullPlan.reached PullPlan.boundTo at hrows ⊢
  cases hlookup : plan.lookup with
  | scan =>
    rw [hlookup] at hrows
    obtain rfl := Except.ok.inj hrows
    exact ⟨n.rows, rfl, h.rows_perm⟩
  | keys keys =>
    simp only [hlookup, funext h.get_eq] at hrows
    exact ⟨rows, hrows, .refl _⟩

theorem Alike.answers (h : m.Alike n) {plan : PullPlan} {answers : List Row}
    (hanswers : (plan.boundTo m).answers = .ok answers) :
    ∃ others, (plan.boundTo n).answers = .ok others ∧ answers.Perm others := by
  obtain ⟨rows, hrows, hevaluates⟩ := PullPlan.reached_of_answers hanswers
  obtain ⟨others, hothers, hperm⟩ := h.reached plan hrows
  have hsame : (plan.boundTo m).answerRow = (plan.boundTo n).answerRow :=
    PullPlan.answerRow_boundTo h.schema
  have hanswered : (plan.boundTo m).answered = (plan.boundTo n).answered := by
    funext row
    rw [PullPlan.answered, PullPlan.answered, hsame]
  obtain ⟨_, hleft, hleftPerm⟩ := PullPlan.answers_of_reached hrows hevaluates
  obtain ⟨result, hright, hrightPerm⟩ := PullPlan.answers_of_reached hothers fun row hrow =>
    hsame ▸ hevaluates row (hperm.mem_iff.2 hrow)
  obtain rfl := Except.ok.inj (hanswers.symm.trans hleft)
  refine ⟨result, hright, (hleftPerm.trans ?_).trans hrightPerm.symm⟩
  rw [hanswered]
  exact hperm.flatMap_right _

/-- **Partitioning is transparent.** After the same changes, whatever the numbers of partitions,
rows are found and deleted alike, and every pull query, by keys or by a scan, is answered with the
same rows, each as often, or with an error on both sides. -/
theorem answers_alike (schema : Schema) (count other : Nat) (changes : List Change) :
    let m := (empty schema count).after changes
    let n := (empty schema other).after changes
    (∀ values, m.get values = n.get values) ∧
    (∀ values, (m.delete values).map (·.1) = (n.delete values).map (·.1)) ∧
    ∀ plan : PullPlan, AnswerAlike (plan.boundTo m).answers (plan.boundTo n).answers := by
  intro m n
  have h : m.Alike n := alike_after schema count other changes
  refine ⟨h.get_eq, h.delete_eq, fun plan => ?_⟩
  cases hleft : (plan.boundTo m).answers with
  | ok answers =>
    obtain ⟨others, hothers, hperm⟩ := h.answers hleft
    rw [hothers]
    exact .ok hperm
  | error d =>
    cases hright : (plan.boundTo n).answers with
    | error e => exact .error d e
    | ok others =>
      obtain ⟨answers, hanswers, -⟩ := h.symm.answers hright
      cases hleft.symm.trans hanswers

end Materialization

end StreamSql
