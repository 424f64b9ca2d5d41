import StreamSql.Proofs.Query.NameResolution

/-!
# From the tree of joins to the clause

The analysis of a query flattens the tree of its joins. The sources are the leaves of the tree, and
each join equates a column of the source that it adds with a column of one before
(`Analysis.ofQuery_wellFormed`). A join adds one source only (`FromClause.addRelation_join_ok`), so
there is no clause for a tree with a join to the right of another.
-/

namespace StreamSql

namespace Relation

/-- The names that a relation reads, with the aliases given to them, from left to right. -/
def leaves : Relation → List (SourceName × Option String)
  | source name aliasName => [(name, aliasName)]
  | join _ left right _ => left.leaves ++ right.leaves

/-- The kinds and criteria of the joins, those of the operands first. -/
def joins : Relation → List (JoinKind × Expression)
  | source _ _ => []
  | join kind left right criteria => left.joins ++ right.joins ++ [(kind, criteria)]

/-- The right operand of some join is itself a join. -/
def NestsRight : Relation → Prop
  | source _ _ => False
  | join _ left right _ =>
    (∃ kind l r criteria, right = join kind l r criteria) ∨ left.NestsRight ∨ right.NestsRight

/-- The relations differ at most in which side of a criterion is written first. -/
inductive Turned : Relation → Relation → Prop
  | source (name : SourceName) (aliasName : Option String) :
      Turned (.source name aliasName) (.source name aliasName)
  | kept {left left' right right' : Relation} (kind : JoinKind) (criteria : Expression) :
      Turned left left' → Turned right right' →
        Turned (.join kind left right criteria) (.join kind left' right' criteria)
  | turned {left left' right right' : Relation} (kind : JoinKind) (a b : Expression) :
      Turned left left' → Turned right right' →
        Turned (.join kind left right (.equal a b)) (.join kind left' right' (.equal b a))

end Relation

/-- The source is the entry that the leaf of a relation names, under the alias given to it or else
under that name. -/
def QuerySource.IsOf (catalog : Catalog) (leaf : SourceName × Option String)
    (source : QuerySource) : Prop :=
  catalog.get? leaf.1 = some source.source ∧ source.aliasName = leaf.2.getD leaf.1.text

/-- The join is of the kind, and equates the two columns that the criterion equates. -/
def JoinClause.IsOf (made : JoinKind × Expression) (join : JoinClause) : Prop :=
  join.kind = made.1 ∧
    (made.2 = .equal (.column join.left) (.column join.right) ∨
      made.2 = .equal (.column join.right) (.column join.left))

/-! ### One join -/

namespace FromClause

variable {catalog : Catalog} {f g : FromClause} {added : String} {criteria : Expression}

theorem orient_criteria {left right : ColumnReference}
    (h : f.orient added criteria = .ok (left, right)) :
    criteria = .equal (.column left) (.column right) ∨
      criteria = .equal (.column right) (.column left) := by
  unfold orient at h
  dsimp only at h
  split at h
  next a b =>
    obtain ⟨_, -, h⟩ := bind_eq_ok_iff.1 h
    obtain ⟨_, -, h⟩ := bind_eq_ok_iff.1 h
    split at h
    · cases h
      exact .inl rfl
    · cases h
      exact .inr rfl
    · cases h
  · cases h

theorem orient_turned {a b : Expression} {keys : ColumnReference × ColumnReference}
    (h : f.orient added (.equal a b) = .ok keys) : f.orient added (.equal b a) = .ok keys := by
  obtain ⟨left, right⟩ := keys
  obtain ⟨⟨foundLeft, hleft, hother⟩, foundRight, hright, hadded⟩ := orient_ok h
  have hother : (foundLeft.source.aliasName == added) = false := by simpa using hother
  have hadded : (foundRight.source.aliasName == added) = true := by simpa using hadded
  obtain heq | heq := orient_criteria h
  · cases heq
    refine bind_eq_ok_iff.2 ⟨foundRight, hright, bind_eq_ok_iff.2 ⟨foundLeft, hleft, ?_⟩⟩
    rw [hother, hadded]
    rfl
  · cases heq
    refine bind_eq_ok_iff.2 ⟨foundLeft, hleft, bind_eq_ok_iff.2 ⟨foundRight, hright, ?_⟩⟩
    rw [hother, hadded]
    rfl

/-! ### The tree -/

/-- The clause has the leaves of the relation for sources, and the joins of the relation. -/
structure Flattens (catalog : Catalog) (relation : Relation) (f : FromClause) : Prop where
  leaves : List.Forall₂ (QuerySource.IsOf catalog) relation.leaves f.sources
  joins : List.Forall₂ JoinClause.IsOf relation.joins f.joins

theorem Adds.isOf {name : SourceName} {aliasName : Option String} {source : QuerySource}
    (h : Adds catalog f name aliasName source) : source.IsOf catalog (name, aliasName) :=
  ⟨h.denotes, h.aliasName_eq⟩

theorem addRelation_flattens {relation : Relation}
    (h : addRelation catalog {} relation = .ok f) : Flattens catalog relation f := by
  induction relation generalizing f with
  | source name aliasName =>
    obtain ⟨added, hadds, rfl⟩ := addSource_ok h
    exact ⟨.cons hadds.isOf .nil, .nil⟩
  | join kind left right criteria ihl _ =>
    obtain ⟨_, _, before, added, _, _, rfl, hbefore, hadds, horient, rfl⟩ := addRelation_join_ok h
    obtain ⟨hleaves, hjoins⟩ := ihl hbefore
    refine ⟨List.rel_append hleaves (.cons hadds.isOf .nil), ?_⟩
    rw [Relation.joins, Relation.joins, List.append_nil]
    exact List.rel_append hjoins (.cons ⟨rfl, orient_criteria horient⟩ .nil)

theorem not_nestsRight_of_addRelation {relation : Relation}
    (h : f.addRelation catalog relation = .ok g) : ¬relation.NestsRight := by
  induction relation generalizing f g with
  | source name aliasName => exact id
  | join kind left right criteria ihl _ =>
    obtain ⟨_, _, before, _, _, _, rfl, hbefore, -⟩ := addRelation_join_ok h
    rintro (⟨_, _, _, _, hjoin⟩ | hleft | hright)
    · cases hjoin
    · exact ihl hbefore hleft
    · exact hright

theorem addRelation_turned {relation turned : Relation} (hturned : relation.Turned turned)
    (h : f.addRelation catalog relation = .ok g) : f.addRelation catalog turned = .ok g := by
  induction hturned generalizing f g with
  | source name aliasName => exact h
  | kept kind criteria hleft hright ihl ihr =>
    obtain ⟨before, hbefore, h⟩ := bind_eq_ok_iff.1 h
    obtain ⟨after, hafter, h⟩ := bind_eq_ok_iff.1 h
    exact bind_eq_ok_iff.2 ⟨before, ihl hbefore, bind_eq_ok_iff.2 ⟨after, ihr hafter, h⟩⟩
  | turned kind a b hleft hright ihl ihr =>
    obtain ⟨before, hbefore, h⟩ := bind_eq_ok_iff.1 h
    obtain ⟨after, hafter, h⟩ := bind_eq_ok_iff.1 h
    refine bind_eq_ok_iff.2 ⟨before, ihl hbefore, bind_eq_ok_iff.2 ⟨after, ihr hafter, ?_⟩⟩
    split at h
    next added hadded =>
      obtain ⟨keys, hkeys, h⟩ := bind_eq_ok_iff.1 h
      exact bind_eq_ok_iff.2 ⟨keys, orient_turned hkeys, h⟩
    · cases h

end FromClause

theorem ScopedPlan.joinAll_eq_foldlM {left : ScopedPlan} {sources : List QuerySource}
    {joins : List JoinClause} {place : Nat}
    (hplaces : joins.map (·.rightSource) = List.range' place joins.length)
    (hlength : place + joins.length ≤ sources.length) :
    left.joinAll sources joins =
      (joins.zip (sources.drop place)).foldlM (fun left step => left.join step.1 step.2) left := by
  induction joins generalizing left place with
  | nil => rfl
  | cons info rest ih =>
    rw [List.map_cons, List.length_cons, List.range'_succ] at hplaces
    obtain ⟨hplace, hplaces⟩ := List.cons.inj hplaces
    rw [List.length_cons] at hlength
    have hlt : place < sources.length := by omega
    rw [joinAll, hplace, List.getElem?_eq_getElem hlt, List.drop_eq_getElem_cons hlt,
      List.zip_cons_cons, List.foldlM_cons]
    exact bind_congr fun next => ih hplaces (by omega)

/-! ### The analysis -/

namespace Analysis

variable {catalog : Catalog} {query : Query} {into : Option Sink} {a : Analysis}

/-- The places at which planning looks sources up: the first one, and those that the joins add. -/
def places (a : Analysis) : List Nat := 0 :: a.joins.map (·.rightSource)

/-- The clause of the analysis is that of the relation, with a join for every source but the first,
which equates a column of that source with a column of one before. -/
structure WellFormed (catalog : Catalog) (relation : Relation) (a : Analysis) : Prop where
  leaves : List.Forall₂ (QuerySource.IsOf catalog) relation.leaves a.sources
  nonempty : a.sources ≠ []
  distinct : (a.sources.map (·.aliasName)).Nodup
  joins : List.Forall₂ JoinClause.IsOf relation.joins a.joins
  length_joins : a.joins.length + 1 = a.sources.length
  oriented : ∀ i join, a.joins[i]? = some join → join.rightSource = i + 1 ∧
    ∃ left right, (a.upTo (i + 2)).resolve join.left = .ok left ∧
      (a.upTo (i + 2)).resolve join.right = .ok right ∧
      left.source ∈ a.sources.take (i + 1) ∧ a.sources[i + 1]? = some right.source
  inRange : ∀ place ∈ a.places, place < a.sources.length
  /-- The rows come of joining the sources one after the other, without looking any of them up. -/
  joined_eq : ∀ first rest, a.sources = first :: rest → a.joined =
    (a.joins.zip rest).foldlM (fun left step => left.join step.1 step.2) (.ofSource first)

theorem sources_ne_nil (h : Analysis.ofQuery catalog query into = .ok a) : a.sources ≠ [] := by
  have hreads := (ofQuery_reads h).1
  have hpos := query.relation.length_names_pos
  rw [hreads.length_eq] at hpos
  exact List.ne_nil_of_length_pos hpos

theorem JoinsInTurn.length_joins (h : a.JoinsInTurn) (hsources : a.sources ≠ []) :
    a.joins.length + 1 = a.sources.length := by
  have hlength := congrArg List.length h
  have hpos := List.length_pos_of_ne_nil hsources
  rw [List.length_map, List.length_range'] at hlength
  omega

theorem JoinsInTurn.rightSource_eq (h : a.JoinsInTurn) {i : Nat} {join : JoinClause}
    (hjoin : a.joins[i]? = some join) : join.rightSource = i + 1 := by
  obtain ⟨hlt, rfl⟩ := List.getElem?_eq_some_iff.1 hjoin
  have hsplit : a.joins = a.joins.take i ++ a.joins[i] :: a.joins.drop (i + 1) := by
    rw [← List.drop_eq_getElem_cons hlt, List.take_append_drop]
  rw [Analysis.rightSource_eq h hsplit, List.length_take_of_le (Nat.le_of_lt hlt), Nat.add_comm]

theorem JoinsInTurn.joined_eq (h : a.JoinsInTurn) {first : QuerySource} {rest : List QuerySource}
    (hsources : a.sources = first :: rest) : a.joined =
      (a.joins.zip rest).foldlM (fun left step => left.join step.1 step.2) (.ofSource first) := by
  have hlength : 1 + a.joins.length = a.sources.length := by
    rw [Nat.add_comm, h.length_joins (hsources ▸ List.cons_ne_nil _ _)]
  have hplaces := (places_of_joins h (List.append_nil _).symm).1
  have hjoinAll : (ScopedPlan.ofSource first).joinAll a.sources a.joins = _ :=
    ScopedPlan.joinAll_eq_foldlM hplaces (Nat.le_of_eq hlength)
  unfold Analysis.joined
  rw [hsources] at hjoinAll ⊢
  exact hjoinAll

theorem wellFormed_of_ofQuery (h : Analysis.ofQuery catalog query into = .ok a) :
    a.WellFormed catalog query.relation := by
  have hsound := ofQuery_sound h
  have hinTurn := (ofQuery_reads h).2
  have hsources := sources_ne_nil h
  have hlength := hinTurn.length_joins hsources
  obtain ⟨clause, hclause, rfl⟩ := ofQuery_ok h
  obtain ⟨hleaves, hjoins⟩ := FromClause.addRelation_flattens hclause
  refine ⟨hleaves, hsources, hsound.distinct, hjoins, hlength, fun i join hjoin => ?_, ?_,
    fun _ _ => hinTurn.joined_eq⟩
  · have hplace := hinTurn.rightSource_eq hjoin
    obtain ⟨left, right, hadded, hleft, hright, hbefore⟩ :=
      hsound.oriented join (List.mem_of_getElem? hjoin)
    rw [hplace] at hadded hleft hright hbefore
    exact ⟨hplace, left, right, hleft, hright, hbefore, hadded⟩
  · refine List.forall_mem_cons.2 ⟨List.length_pos_of_ne_nil hsources, fun place hplace => ?_⟩
    obtain ⟨join, hmem, rfl⟩ := List.mem_map.1 hplace
    obtain ⟨i, hi, rfl⟩ := List.mem_iff_getElem.1 hmem
    rw [hinTurn.rightSource_eq (List.getElem?_eq_getElem hi)]
    omega

/-- **Accepted queries are well-formed.** The analysis of a query is made of the tree of its joins,
and does not depend on which side of a criterion is written first. A query with a join to the right
of another has no analysis. -/
theorem ofQuery_wellFormed (catalog : Catalog) (query : Query) (into : Option Sink) :
    (∀ a, Analysis.ofQuery catalog query into = .ok a →
      a.WellFormed catalog query.relation ∧
        ∀ turned, query.relation.Turned turned →
          Analysis.ofQuery catalog { query with relation := turned } into = .ok a) ∧
      (query.relation.NestsRight → ∃ e, Analysis.ofQuery catalog query into = .error e) := by
  refine ⟨fun a h => ⟨wellFormed_of_ofQuery h, fun turned hturned => ?_⟩, fun hnests => ?_⟩
  · obtain ⟨clause, hclause, h⟩ := bind_eq_ok_iff.1 h
    exact bind_eq_ok_iff.2 ⟨clause, FromClause.addRelation_turned hturned hclause, h⟩
  · cases h : Analysis.ofQuery catalog query into with
    | error e => exact ⟨e, rfl⟩
    | ok a =>
      obtain ⟨clause, hclause, -⟩ := bind_eq_ok_iff.1 h
      exact absurd hnests (FromClause.not_nestsRight_of_addRelation hclause)

end Analysis

namespace Sample

/-- `relation LEFT JOIN USERS AS W ON left = right`. -/
def withMoreUsers (relation : Relation) (left right : ColumnReference) : Relation :=
  .join .left relation (.source ⟨"USERS"⟩ (some "W")) (.equal (.column left) (.column right))

/-- `USERS JOIN (USERS AS U JOIN USERS AS V ON U.ID = V.ID) ON USERS.ID = V.ID`. -/
def nestedUsers : Relation :=
  .join .inner (.source ⟨"USERS"⟩ none) twiceUsers
    (.equal (.column ⟨some "USERS", "ID"⟩) (.column ⟨some "V", "ID"⟩))

end Sample

/-- A third copy of the users, with the criterion written either way round, and two copies that are
joined first. -/
theorem Analysis.more_users_wellFormed :
    let written := Sample.withMoreUsers Sample.twiceUsers ⟨some "W", "ID"⟩ ⟨some "U", "ID"⟩
    let turned := Sample.withMoreUsers Sample.twiceUsers ⟨some "U", "ID"⟩ ⟨some "W", "ID"⟩
    (∃ a, Analysis.ofQuery Sample.usersCatalog (.selectAll written) none = .ok a ∧
      a.WellFormed Sample.usersCatalog written ∧
      a.joins.map (fun join => (join.left.qualifier, join.right.qualifier)) =
        [(some "U", some "V"), (some "U", some "W")] ∧
      Analysis.ofQuery Sample.usersCatalog (.selectAll turned) none = .ok a) ∧
    Sample.nestedUsers.NestsRight ∧ ∃ e,
      Analysis.ofQuery Sample.usersCatalog (.selectAll Sample.nestedUsers) none = .error e := by
  intro written turned
  have hturned : written.Turned turned :=
    .turned .left _ _ (.kept .inner _ (.source _ _) (.source _ _)) (.source _ _)
  have hnests : Sample.nestedUsers.NestsRight := .inl ⟨_, _, _, _, rfl⟩
  obtain ⟨a, ha⟩ : ∃ a, Analysis.ofQuery Sample.usersCatalog (.selectAll written) none = .ok a :=
    ⟨_, rfl⟩
  obtain ⟨hwellFormed, hsame⟩ :=
    (Analysis.ofQuery_wellFormed Sample.usersCatalog (.selectAll written) none).1 a ha
  refine ⟨⟨a, ha, hwellFormed, ?_, hsame turned hturned⟩, hnests,
    (Analysis.ofQuery_wellFormed _ _ _).2 hnests⟩
  cases ha
  rfl

end StreamSql
