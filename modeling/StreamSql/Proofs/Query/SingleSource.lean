import StreamSql.Proofs.Evaluation
import StreamSql.Proofs.Query.NameResolution

/-!
# Queries without qualifiers

A query over a single source needs no qualifiers: whatever a reference denotes, its name alone
denotes too (`FromClause.resolve_unqualified`). Dropping them leaves the query as it is otherwise
(`Analysis.unqualified_keeps`).
-/

namespace StreamSql

namespace FromClause

variable {f : FromClause} {source : QuerySource} {reference : ColumnReference} {found : FoundColumn}

theorem resolve_unqualified (hsingle : f.sources = [source])
    (h : f.resolve reference = .ok found) : f.resolve reference.unqualified = .ok found := by
  have hdistinct : f.Distinct := by
    rw [Distinct, hsingle]
    exact List.nodup_singleton _
  obtain ⟨hmem, hcolumn, -⟩ := resolve_ok hdistinct h
  rw [hsingle, List.mem_singleton] at hmem
  have hin : columnIn reference.unqualified source = some found := by
    rw [columnIn, ColumnReference.unqualified, ← hmem, hcolumn]
    rfl
  have hcandidates : f.sources.filterMap (columnIn reference.unqualified) = [found] := by
    rw [hsingle, List.filterMap_cons_some hin, List.filterMap_nil]
  rw [ColumnReference.unqualified] at hcandidates ⊢
  simp only [resolve, hcandidates]

end FromClause

/-- The items are the same star, or their expressions are related and have the same alias. -/
inductive SelectItem.Related (R : Expression → Expression → Prop) : SelectItem → SelectItem → Prop
  | star (qualifier : Option String) : Related R (.star qualifier) (.star qualifier)
  | expression {e e' : Expression} (aliasName : Option String) (h : R e e') :
      Related R (.expression e aliasName) (.expression e' aliasName)

namespace Analysis

variable {catalog : Catalog} {query : Query} {into : Option Sink} {a : Analysis} {e : Expression}

/-- What an expression of a query keeps when qualifiers are dropped: its references, each without a
qualifier but for the same column, and its value on every row. -/
structure Keeps (a : Analysis) (e e' : Expression) : Prop where
  columns : List.Forall₂ (fun reference reference' =>
    reference'.name = reference.name ∧ reference'.qualifier = none ∧
      ∃ found, a.resolve reference = .ok found ∧ a.unqualified.resolve reference' = .ok found)
    e.columns e'.columns
  isAggregate : e'.isAggregate = e.isAggregate
  conjuncts : e'.conjuncts.length = e.conjuncts.length
  evaluate : ∀ schema row,
    (e'.evaluate schema row).toOption = (e.evaluate schema row).toOption

theorem keeps_unqualified {source : QuerySource} (hsingle : a.sources = [source])
    (hfound : ∀ reference ∈ e.columns, ∃ found, a.resolve reference = .ok found) :
    a.Keeps e e.unqualified where
  columns := by
    rw [e.columns_unqualified, List.forall₂_map_right_iff, List.forall₂_same]
    intro reference hmem
    obtain ⟨found, hresolve⟩ := hfound reference hmem
    exact ⟨rfl, rfl, found, hresolve, FromClause.resolve_unqualified hsingle hresolve⟩
  isAggregate := e.isAggregate_unqualified
  conjuncts := by rw [e.conjuncts_unqualified, List.length_map]
  evaluate := e.evaluate_unqualified

theorem exists_single {name : SourceName} {aliasName : Option String}
    (h : Analysis.ofQuery catalog query into = .ok a)
    (hone : query.relation = .source name aliasName) : ∃ source, a.sources = [source] := by
  have hreads := (ofQuery_reads h).1
  rw [hone, Relation.names, List.forall₂_cons_left_iff] at hreads
  obtain ⟨source, rest, -, hrest, hsources⟩ := hreads
  rw [List.forall₂_nil_left_iff.1 hrest] at hsources
  exact ⟨source, hsources⟩

theorem found_of_ofQuery (h : Analysis.ofQuery catalog query into = .ok a) :
    let Found (e : Expression) := ∀ reference ∈ e.columns, ∃ found, a.resolve reference = .ok found
    (∀ e aliasName, .expression e aliasName ∈ a.select → Found e) ∧
      (∀ e ∈ a.filter, Found e) ∧ ∀ e ∈ a.groupBy, Found e := by
  obtain ⟨hfound, -⟩ := ofQuery_found h
  obtain ⟨clause, -, rfl⟩ := ofQuery_ok h
  simp only [Query.references, List.mem_append, List.mem_flatMap, Option.mem_toList] at hfound
  exact ⟨fun e aliasName hitem reference hmem => hfound reference (.inl (.inl ⟨_, hitem, hmem⟩)),
    fun e he reference hmem => hfound reference (.inl (.inr ⟨e, he, hmem⟩)),
    fun e he reference hmem => hfound reference (.inr ⟨e, he, hmem⟩)⟩

theorem unqualified_again (a : Analysis) : a.unqualified.unqualified = a.unqualified := by
  have hexpressions : Expression.unqualified ∘ Expression.unqualified = Expression.unqualified :=
    funext Expression.unqualified_unqualified
  unfold Analysis.unqualified
  simp only [List.map_map, Option.map_map, hexpressions]
  congr 1
  refine List.map_congr_left fun item _ => ?_
  cases item with
  | star qualifier => rfl
  | expression e aliasName =>
    exact congrArg (SelectItem.expression · aliasName) e.unqualified_unqualified

/-- **A query over a single source needs no qualifiers.** Without them its expressions read the same
columns and have the same values, and there is nothing more to drop. -/
theorem unqualified_keeps {name : SourceName} {aliasName : Option String}
    (h : Analysis.ofQuery catalog query into = .ok a)
    (hone : query.relation = .source name aliasName) :
    List.Forall₂ (SelectItem.Related a.Keeps) a.select a.unqualified.select ∧
      Option.Rel a.Keeps a.filter a.unqualified.filter ∧
      List.Forall₂ a.Keeps a.groupBy a.unqualified.groupBy ∧
      a.unqualified.unqualified = a.unqualified := by
  obtain ⟨source, hsingle⟩ := exists_single h hone
  obtain ⟨hselect, hfilter, hgroupBy⟩ := found_of_ofQuery h
  refine ⟨?_, ?_, ?_, a.unqualified_again⟩
  · refine List.forall₂_map_right_iff.2 (List.forall₂_same.2 fun item hitem => ?_)
    cases item with
    | star qualifier => exact .star qualifier
    | expression e aliasName =>
      exact .expression aliasName (keeps_unqualified hsingle (hselect e aliasName hitem))
  · change Option.Rel a.Keeps a.filter (a.filter.map (·.unqualified))
    cases hsome : a.filter with
    | none => exact .none
    | some e => exact .some (keeps_unqualified hsingle (hfilter e hsome))
  · exact List.forall₂_map_right_iff.2
      (List.forall₂_same.2 fun e he => keeps_unqualified hsingle (hgroupBy e he))

end Analysis

namespace Sample

/-- `U.ID = 1 AND USERS.NAME IN ('alice', NAME)`, for users called `U`. -/
def qualifiedFilter : Expression :=
  .and (.equal (.column ⟨some "U", "ID"⟩) (.literal (.int8 1)))
    (.inList (.column ⟨some "USERS", "NAME"⟩) [.literal (.utf8 "alice"), .named "NAME"])

/-- `SELECT USERS.ID, USERS.* FROM USERS AS U WHERE U.ID = 1 AND USERS.NAME IN ('alice', NAME)`. -/
def qualifiedUsers : Query :=
  { selectQualified "USERS" (.source ⟨"USERS"⟩ (some "U")) with filter := some qualifiedFilter }

end Sample

/-- Users called `U`, with columns after the alias, after the table's name and after neither. -/
theorem Analysis.users_unqualified :
    ∃ a, Analysis.ofQuery Sample.usersCatalog Sample.qualifiedUsers none = .ok a ∧
      Sample.qualifiedUsers.relation = .source ⟨"USERS"⟩ (some "U") ∧
      a.Keeps Sample.qualifiedFilter (.and (.equal (.named "ID") (.literal (.int8 1)))
        (.inList (.named "NAME") [.literal (.utf8 "alice"), .named "NAME"])) ∧
      a.unqualified.unqualified = a.unqualified := by
  obtain ⟨a, ha⟩ : ∃ a, Analysis.ofQuery Sample.usersCatalog Sample.qualifiedUsers none = .ok a :=
    ⟨_, rfl⟩
  obtain ⟨-, hfilter, -, hagain⟩ := Analysis.unqualified_keeps ha rfl
  refine ⟨a, ha, rfl, ?_, hagain⟩
  cases ha
  cases hfilter with
  | some hkeeps => exact hkeeps

end StreamSql
