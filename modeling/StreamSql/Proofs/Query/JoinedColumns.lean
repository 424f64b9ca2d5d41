import StreamSql.Proofs.Query.JoinTree

/-!
# The columns of joined rows

Every join moves its key to the front, gives up the key there was, and names all columns anew, after
their sources (`ScopedPlan.join_named`, `ScopedPlan.join_keys`). However many joins there are, the
rows have each column of each source once (`Analysis.joined_columns`).
-/

namespace StreamSql

namespace ScopedPlan

variable {left next : ScopedPlan} {info : JoinClause} {added : QuerySource}

theorem join_keys (h : left.join info added = .ok next) :
    ∃ leftKey key, left.scope.resolve info.left = .ok leftKey ∧ next.scope.keys = [key] ∧
      key.label = leftKey.label := by
  obtain ⟨_, leftKey, _, hkey, -, rfl⟩ := join_ok h
  refine ⟨leftKey, joinedColumn true leftKey, hkey, ?_, rfl⟩
  have hvalues : ∀ columns : List VisibleColumn,
      (columns.map (joinedColumn false)).filter (·.isKey) = [] := fun columns => by
    simp [List.filter_eq_nil_iff, joinedColumn]
  rw [Scope.keys, joinedScope, List.filter_append, List.filter_cons_of_pos rfl, hvalues, hvalues,
    List.append_nil]

theorem joinAll_concat_ok {sources : List QuerySource} {before : List JoinClause}
    {last : JoinClause} (h : left.joinAll sources (before ++ [last]) = .ok next) :
    ∃ joined added, left.joinAll sources before = .ok joined ∧
      sources[last.rightSource]? = some added ∧ joined.join last added = .ok next := by
  induction before generalizing left with
  | nil =>
    obtain ⟨added, joined, hadded, hjoined, h⟩ := joinAll_cons_ok h
    cases h
    exact ⟨left, added, rfl, hadded, hjoined⟩
  | cons first rest ih =>
    obtain ⟨second, mid, hsecond, hmid, h⟩ := joinAll_cons_ok h
    obtain ⟨joined, added, hjoined, hadded, h⟩ := ih h
    refine ⟨joined, added, ?_, hadded, h⟩
    rw [joinAll, hsecond]
    exact bind_eq_ok_iff.2 ⟨mid, hmid, hjoined⟩

end ScopedPlan

namespace Analysis

variable {catalog : Catalog} {query : Query} {into : Option Sink} {a : Analysis}
  {joined : ScopedPlan}

theorem joined_sources (hinTurn : a.JoinsInTurn) (h : a.joined = .ok joined) :
    joined.node.sources = a.sources.map ScopedPlan.leaf := by
  unfold Analysis.joined at h
  split at h
  · cases h
  next first rest hsources =>
    rw [ScopedPlan.joinAll_sources h hinTurn, hsources]
    rfl

theorem joined_concat {before : List JoinClause} {last : JoinClause}
    (hjoins : a.joins = before ++ [last]) (h : a.joined = .ok joined) :
    ∃ first rest left added, a.sources = first :: rest ∧
      (ScopedPlan.ofSource first).joinAll a.sources before = .ok left ∧
      left.join last added = .ok joined := by
  unfold Analysis.joined at h
  split at h
  · cases h
  next first rest hsources =>
    rw [hjoins] at h
    obtain ⟨left, added, hleft, -, hlast⟩ := ScopedPlan.joinAll_concat_ok h
    exact ⟨first, rest, left, added, hsources, hleft, hlast⟩

theorem WellFormed.last_oriented {relation : Relation} (h : a.WellFormed catalog relation)
    {before : List JoinClause} {last : JoinClause} (hjoins : a.joins = before ++ [last]) :
    ∃ found, a.resolve last.left = .ok found ∧
      found.source ∈ a.sources.take (before.length + 1) := by
  have hlast : a.joins[before.length]? = some last := by rw [hjoins, List.getElem?_concat_length]
  obtain ⟨-, found, -, hfound, -, hbefore, -⟩ := h.oriented _ _ hlast
  have hlength := h.length_joins
  rw [hjoins, List.length_append, List.length_singleton] at hlength
  refine ⟨found, ?_, hbefore⟩
  rw [← hfound]
  refine FromClause.resolve_congr ?_ _
  rw [FromClause.upTo, List.take_of_length_le (Nat.le_of_eq hlength.symm)]

/-- **Joins lose and invent no column.** The rows of two or more joined sources have the columns of
all of them, under names made of the alias and the name of each. Their only key is the column that
the analysis finds for the left side of the last criterion. -/
theorem joined_columns (h : Analysis.ofQuery catalog query into = .ok a)
    (hmany : 2 ≤ a.sources.length) (hjoined : a.joined = .ok joined) :
    joined.scope.Shows a.sources ∧
      (∀ c ∈ joined.scope.columns,
        ∃ aliasName, c.qualifier = some aliasName ∧ c.output = s!"{aliasName}_{c.name}") ∧
      (∃ last found key, a.joins.getLast? = some last ∧ a.resolve last.left = .ok found ∧
        joined.scope.keys = [key] ∧ key.label = found.label) ∧
      joined.node.sources = a.sources.map ScopedPlan.leaf := by
  have hinTurn := (ofQuery_reads h).2
  have hwellFormed := wellFormed_of_ofQuery h
  obtain hnone | ⟨before, last, hjoins⟩ := List.eq_nil_or_concat' a.joins
  · have hlength := hwellFormed.length_joins
    rw [hnone, List.length_nil] at hlength
    omega
  obtain ⟨first, rest, left, added, hsources, hleft, hlast⟩ := joined_concat hjoins hjoined
  have hnamed : joined.scope.NamedBy Scope.joinedName :=
    ScopedPlan.join_named (ScopedPlan.joinAll_named ⟨_, Scope.namedBy_ofSchema _ _⟩ hleft) hlast
  refine ⟨joined_shows hinTurn hjoined, fun c hc => ?_, ?_, joined_sources hinTurn hjoined⟩
  · obtain ⟨hqualified, houtput⟩ := hnamed c hc
    obtain ⟨aliasName, halias⟩ := Option.isSome_iff_exists.1 hqualified
    refine ⟨aliasName, halias, ?_⟩
    rw [houtput, Scope.joinedName, VisibleColumn.reference, halias]
  · obtain ⟨found, hfound, hbefore⟩ := hwellFormed.last_oriented hjoins
    obtain ⟨leftKey, key, hleftKey, hkeys, hlabel⟩ := ScopedPlan.join_keys hlast
    have hshows := joinAll_shows hinTurn hsources hjoins hleft
    rw [Nat.add_comm] at hshows
    have hagrees := hshows.agrees hwellFormed.distinct (List.take_sublist _ _) hfound hbefore
    refine ⟨last, found, key, ?_, hfound, hkeys, hlabel.trans (hagrees.same leftKey hleftKey)⟩
    rw [hjoins, List.getLast?_concat]

/-- Three copies of the users, joined. The last criterion is written with its right column first. -/
theorem more_users_joined :
    let relation := Sample.withMoreUsers Sample.twiceUsers ⟨some "W", "ID"⟩ ⟨some "U", "ID"⟩
    ∃ a joined key, Analysis.ofQuery Sample.usersCatalog (.selectAll relation) none = .ok a ∧
      2 ≤ a.sources.length ∧ a.joined = .ok joined ∧ joined.scope.Shows a.sources ∧
      joined.scope.keys = [key] ∧ key.label = ⟨some "U", "ID", .int8⟩ ∧
      joined.node.sources.map (·.2) = ["U", "V", "W"] := by
  intro relation
  obtain ⟨a, joined, ha, hmany, hjoined⟩ : ∃ a joined,
      Analysis.ofQuery Sample.usersCatalog (.selectAll relation) none = .ok a ∧
        2 ≤ a.sources.length ∧ a.joined = .ok joined := ⟨_, _, rfl, by decide, rfl⟩
  obtain ⟨hshows, -, ⟨last, found, key, hlast, hfound, hkeys, hlabel⟩, hsources⟩ :=
    joined_columns ha hmany hjoined
  refine ⟨a, joined, key, ha, hmany, hjoined, hshows, hkeys, hlabel.trans ?_, ?_⟩
  · cases ha
    cases hlast
    cases hfound
    rfl
  · rw [hsources]
    cases ha
    rfl

end Analysis

end StreamSql
