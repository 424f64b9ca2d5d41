import Mathlib.Data.List.Nodup
import StreamSql.Proofs.Query.Selection

/-!
# Names in the analysis and in the plan

The names of a query are looked up twice: in the sources when it is analysed, and in the scopes of
the rows when it is planned. A scope shows the columns of the sources joined so far
(`Scope.Shows`), so a reference that both resolve denotes the same column in both. But the analysis
resolves more: it takes the name of a source for its alias, and the first of several columns with
the same name (`Query.names_agree`).
-/

namespace StreamSql

theorem flatMap_eq_of_only {α β : Type} {list : List α} {f : α → List β} {a : α}
    (hnodup : list.Nodup) (ha : a ∈ list) (h : ∀ b ∈ list, b ≠ a → f b = []) :
    list.flatMap f = f a := by
  obtain ⟨before, after, rfl⟩ := List.append_of_mem ha
  obtain ⟨hnot, -⟩ := List.nodup_cons.1 (List.nodup_middle.1 hnodup)
  have hnone : ∀ others ⊆ before ++ after, others.flatMap f = [] := fun others hothers =>
    List.flatMap_eq_nil_iff.2 fun b hb => h b
      (List.mem_append.2 ((List.mem_append.1 (hothers hb)).imp_right (List.mem_cons_of_mem a)))
      fun heq => hnot (heq ▸ hothers hb)
  rw [List.flatMap_append, List.flatMap_cons, hnone before (List.subset_append_left _ _),
    hnone after (List.subset_append_right _ _), List.nil_append, List.append_nil]

/-! ### What a scope shows -/

/-- What a column shows of itself in any scope: the source that it is of, its name and its type. -/
structure ColumnLabel where
  qualifier : Option String
  name : String
  type : DataType
  deriving DecidableEq

def ColumnLabel.isDenotedBy (label : ColumnLabel) (reference : ColumnReference) : Bool :=
  label.name == reference.name &&
    (reference.qualifier.isNone || label.qualifier == reference.qualifier)

def VisibleColumn.label (c : VisibleColumn) : ColumnLabel := ⟨c.qualifier, c.name, c.type⟩

def QuerySource.label (source : QuerySource) (column : Column) : ColumnLabel :=
  ⟨some source.aliasName, column.name, column.type⟩

def QuerySource.labels (source : QuerySource) : List ColumnLabel :=
  source.source.schema.columns.map source.label

def FoundColumn.label (found : FoundColumn) : ColumnLabel := found.source.label found.column

/-- The columns in scope are those of the sources. -/
def Scope.Shows (scope : Scope) (sources : List QuerySource) : Prop :=
  (scope.columns.map (·.label)).Perm (sources.flatMap (·.labels))

/-- The reference does not need the name of a source for its alias, nor the first of several columns
of one name, to denote the column. -/
def ColumnReference.IsPlainFor (reference : ColumnReference) (found : FoundColumn) : Prop :=
  (reference.qualifier = none ∨ reference.qualifier = some found.source.aliasName) ∧
    found.source.source.schema.Sole reference.name

/-- A reference is resolved in the scope if it is plain for the column found for it, and whatever it
is resolved to is that column. -/
structure Scope.Agrees (scope : Scope) (reference : ColumnReference) (found : FoundColumn) :
    Prop where
  resolves_iff : (∃ c, scope.resolve reference = .ok c) ↔ reference.IsPlainFor found
  same : ∀ c, scope.resolve reference = .ok c → c.label = found.label

namespace Scope

variable {scope : Scope} {reference : ColumnReference}

theorem Shows.resolve_iff {sources : List QuerySource} {label : ColumnLabel}
    (h : scope.Shows sources) :
    (∃ c, scope.resolve reference = .ok c ∧ c.label = label) ↔
      (sources.flatMap (·.labels)).filter (·.isDenotedBy reference) = [label] := by
  have hfilter := h.filter (·.isDenotedBy reference)
  rw [List.filter_map] at hfilter
  constructor
  · rintro ⟨c, hc, rfl⟩
    rw [show ((·.isDenotedBy reference) ∘ VisibleColumn.label) =
      (·.isDenotedBy reference) from rfl, resolve_eq_ok_iff.1 hc] at hfilter
    exact List.singleton_perm.1 hfilter |>.symm
  · intro honly
    rw [honly, List.perm_singleton] at hfilter
    obtain ⟨c, hc, hlabel⟩ := List.map_eq_singleton_iff.1 hfilter
    exact ⟨c, resolve_eq_ok_iff.2 hc, hlabel⟩

end Scope

/-! ### What the analysis finds -/

theorem QuerySource.filter_labels (source : QuerySource) (reference : ColumnReference) :
    source.labels.filter (·.isDenotedBy reference) =
      if reference.qualifier = none ∨ reference.qualifier = some source.aliasName then
        (source.source.schema.columns.filter (·.name == reference.name)).map source.label
      else [] := by
  rw [labels, List.filter_map]
  split
  next hsource =>
    refine congrArg _ (List.filter_congr fun c _ => ?_)
    rcases hsource with hsource | hsource <;>
      simp [ColumnLabel.isDenotedBy, QuerySource.label, hsource]
  next hsource =>
    obtain ⟨hqualified, hother⟩ := not_or.1 hsource
    rw [List.map_eq_nil_iff, List.filter_eq_nil_iff]
    intro c _
    simp [ColumnLabel.isDenotedBy, QuerySource.label, hqualified, Ne.symm hother]

namespace FromClause

variable {f : FromClause} {qualifier : String} {source : QuerySource}
  {reference : ColumnReference} {found : FoundColumn}

/-- No two sources have the same alias. -/
def Distinct (f : FromClause) : Prop := (f.sources.map (·.aliasName)).Nodup

theorem findSource_ok (hdistinct : f.Distinct) (h : f.findSource? qualifier = some source) :
    source ∈ f.sources ∧ ∀ other ∈ f.sources, other.aliasName = qualifier → other = source := by
  unfold findSource? at h
  split at h
  next first hfirst =>
    cases h
    have hmem := List.mem_of_find?_eq_some hfirst
    have hname : source.aliasName = qualifier := by simpa using List.find?_some hfirst
    exact ⟨hmem, fun other hother heq =>
      List.inj_on_of_nodup_map hdistinct hother hmem (heq.trans hname.symm)⟩
  next hnone =>
    split at h
    next only honly =>
      cases h
      refine ⟨(List.mem_filter.1 (honly ▸ List.mem_singleton_self source)).1,
        fun other hother heq => ?_⟩
      exact absurd (beq_iff_eq.2 heq) (List.find?_eq_none.1 hnone other hother)
    · cases h

/-- What a reference denotes is in the source found for it, and no other source has anything that it
could denote. -/
theorem resolve_ok (hdistinct : f.Distinct) (h : f.resolve reference = .ok found) :
    found.source ∈ f.sources ∧
      found.source.source.schema.find? reference.name = some found.column ∧
      ∀ other ∈ f.sources, other ≠ found.source →
        other.labels.filter (·.isDenotedBy reference) = [] := by
  unfold resolve at h
  split at h
  next qualifier hqualifier =>
    split at h
    next resolved hresolved =>
      cases h
      obtain ⟨source, hsource, hin⟩ := Option.bind_eq_some_iff.1 hresolved
      obtain ⟨column, hcolumn, rfl⟩ := Option.map_eq_some_iff.1 hin
      obtain ⟨hmem, honly⟩ := findSource_ok hdistinct hsource
      refine ⟨hmem, hcolumn, fun other hother hne => ?_⟩
      rw [QuerySource.filter_labels, if_neg]
      rintro (hnone | halias)
      · cases hqualifier.symm.trans hnone
      · have hsame := Option.some.inj (hqualifier.symm.trans halias)
        exact hne (honly other hother hsame.symm)
    · cases h
  next hqualifier =>
    split at h
    · cases h
    next only honly =>
      cases h
      obtain ⟨source, hmem, hin⟩ :=
        List.mem_filterMap.1 (honly ▸ List.mem_singleton_self found)
      obtain ⟨column, hcolumn, rfl⟩ := Option.map_eq_some_iff.1 hin
      refine ⟨hmem, hcolumn, fun other hother hne => ?_⟩
      rw [QuerySource.filter_labels, if_pos (.inl hqualifier), List.map_eq_nil_iff,
        List.filter_eq_nil_iff]
      intro c hc hname
      -- Else the name would be found in two sources.
      cases hfind : other.source.schema.find? reference.name with
      | none => exact List.find?_eq_none.1 hfind c hc hname
      | some second =>
        have hsecond : ⟨other, second⟩ ∈ f.sources.filterMap (columnIn reference) :=
          List.mem_filterMap.2 ⟨other, hother, by rw [columnIn, hfind]; rfl⟩
        rw [honly, List.mem_singleton] at hsecond
        exact hne (congrArg FoundColumn.source hsecond)
    · cases h

end FromClause

theorem FoundColumn.filter_labels_eq_singleton_iff {found : FoundColumn}
    {reference : ColumnReference} {label : ColumnLabel}
    (hcolumn : found.source.source.schema.find? reference.name = some found.column) :
    found.source.labels.filter (·.isDenotedBy reference) = [label] ↔
      reference.IsPlainFor found ∧ label = found.label := by
  have hfirst : ∀ column, found.source.source.schema.columns.filter (·.name == reference.name) =
      [column] → column = found.column := by
    intro column honly
    have hhead := congrArg List.head? honly
    rw [List.head?_filter] at hhead
    exact Option.some.inj (hhead.symm.trans hcolumn)
  rw [QuerySource.filter_labels, ColumnReference.IsPlainFor]
  split
  next hsource =>
    rw [List.map_eq_singleton_iff]
    constructor
    · rintro ⟨column, honly, rfl⟩
      exact ⟨⟨hsource, column, honly⟩, by rw [hfirst column honly, FoundColumn.label]⟩
    · rintro ⟨⟨-, column, honly⟩, rfl⟩
      exact ⟨column, honly, by rw [hfirst column honly, FoundColumn.label]⟩
  next hsource => exact iff_of_false nofun fun h => hsource h.1.1

theorem Scope.Shows.agrees {scope : Scope} {f : FromClause} {sources : List QuerySource}
    {reference : ColumnReference} {found : FoundColumn} (h : scope.Shows sources)
    (hdistinct : f.Distinct) (hsources : sources.Sublist f.sources)
    (hfound : f.resolve reference = .ok found) (hmem : found.source ∈ sources) :
    scope.Agrees reference found := by
  obtain ⟨-, hcolumn, hothers⟩ := FromClause.resolve_ok hdistinct hfound
  have hnodup : sources.Nodup := (hdistinct.sublist (hsources.map _)).of_map
  have hdenoted : (sources.flatMap (·.labels)).filter (·.isDenotedBy reference) =
      found.source.labels.filter (·.isDenotedBy reference) := by
    rw [List.filter_flatMap]
    exact flatMap_eq_of_only hnodup hmem fun other hother => hothers other (hsources.subset hother)
  have hresolve : ∀ label, (∃ c, scope.resolve reference = .ok c ∧ c.label = label) ↔
      reference.IsPlainFor found ∧ label = found.label := fun label => by
    rw [h.resolve_iff, hdenoted, FoundColumn.filter_labels_eq_singleton_iff hcolumn]
  refine ⟨⟨fun ⟨c, hc⟩ => ((hresolve c.label).1 ⟨c, hc, rfl⟩).1, fun hplain => ?_⟩,
    fun c hc => ((hresolve c.label).1 ⟨c, hc, rfl⟩).2⟩
  obtain ⟨c, hc, -⟩ := (hresolve found.label).2 ⟨hplain, rfl⟩
  exact ⟨c, hc⟩

theorem QuerySource.filter_qualifier (source : QuerySource) (qualifier : String) :
    source.labels.filter (·.qualifier == some qualifier) =
      if source.aliasName = qualifier then source.labels else [] := by
  rw [labels, List.filter_map]
  split
  next halias => rw [List.filter_eq_self.2 fun c _ => by simp [label, halias]]
  next hother => rw [List.filter_eq_nil_iff.2 fun c _ => by simp [label, hother], List.map_nil]

/-- A star stands for the columns of the source found for it exactly if it is after the alias of the
source, or the source has no columns at all. -/
theorem Scope.Shows.star_iff {scope : Scope} {f : FromClause} {qualifier : String}
    {source : QuerySource} (h : scope.Shows f.sources) (hdistinct : f.Distinct)
    (hfound : f.findSource? qualifier = some source) :
    (((SelectItem.star (some qualifier)).repeated scope).map (·.label)).Perm source.labels ↔
      qualifier = source.aliasName ∨ source.source.schema.columns = [] := by
  obtain ⟨hmem, honly⟩ := FromClause.findSource_ok hdistinct hfound
  have hselected : (((SelectItem.star (some qualifier)).repeated scope).map (·.label)).Perm
      (f.sources.flatMap fun s => if s.aliasName = qualifier then s.labels else []) := by
    have hfilter := h.filter (·.qualifier == some qualifier)
    rw [List.filter_map, List.filter_flatMap] at hfilter
    simp only [QuerySource.filter_qualifier] at hfilter
    exact hfilter
  rw [hselected.congr_left]
  by_cases halias : qualifier = source.aliasName
  · refine iff_of_true ?_ (.inl halias)
    rw [flatMap_eq_of_only hdistinct.of_map hmem fun other hother hne =>
      if_neg fun heq => hne (honly other hother heq), if_pos halias.symm]
  · have hnone : (f.sources.flatMap fun s => if s.aliasName = qualifier then s.labels else []) =
        [] := List.flatMap_eq_nil_iff.2 fun other hother =>
      if_neg fun heq => halias (honly other hother heq ▸ heq.symm)
    rw [hnone, List.nil_perm, QuerySource.labels, List.map_eq_nil_iff]
    exact (or_iff_right halias).symm

/-! ### The scopes of a plan -/

namespace ScopedPlan

variable {left next : ScopedPlan} {sources : List QuerySource}

theorem ofSource_shows (source : QuerySource) : (ofSource source).scope.Shows [source] := by
  rw [Scope.Shows, List.flatMap_singleton, ofSource, Scope.ofSchema, List.map_map]
  exact List.Perm.refl _

theorem perm_of_resolve {scope : Scope} {reference : ColumnReference} {key : VisibleColumn}
    (h : scope.resolve reference = .ok key) :
    (key :: scope.columns.filter (· ≠ key)).Perm scope.columns := by
  have honly : scope.columns.filter (decide <| · = key) = [key] := by
    have hkey := Scope.resolve_eq_ok_iff.1 h
    have hdenoted := (List.mem_filter.1 (hkey ▸ List.mem_singleton_self key)).2
    calc scope.columns.filter (decide <| · = key)
        = (scope.columns.filter (·.isDenotedBy reference)).filter (decide <| · = key) := by
          rw [List.filter_filter]
          refine List.filter_congr fun c _ => (Bool.and_eq_left_iff_imp.2 fun heq => ?_).symm
          rw [of_decide_eq_true heq, hdenoted]
      _ = [key] := by rw [hkey]; simp
  have hperm := List.filter_append_perm (decide <| · = key) scope.columns
  rw [honly] at hperm
  simpa using hperm

theorem join_shows {info : JoinClause} {added : QuerySource} (hleft : left.scope.Shows sources)
    (h : left.join info added = .ok next) : next.scope.Shows (sources ++ [added]) := by
  obtain ⟨_, key, _, hkey, -, rfl⟩ := join_ok h
  have hlabels : (joinedScope left.scope (ofSource added).scope key).columns.map (·.label) =
      (key :: left.scope.columns.filter (· ≠ key)).map (·.label) ++
        (ofSource added).scope.columns.map (·.label) := by
    simp [joinedScope, Function.comp_def, VisibleColumn.label, joinedColumn]
  rw [Scope.Shows, hlabels, List.flatMap_append]
  exact (((perm_of_resolve hkey).map _).trans hleft).append (ofSource_shows added)

theorem joinAll_shows {joins : List JoinClause} {place : Nat}
    (hleft : left.scope.Shows (sources.take place)) (h : left.joinAll sources joins = .ok next)
    (hplaces : joins.map (·.rightSource) = List.range' place joins.length) :
    next.scope.Shows (sources.take (place + joins.length)) := by
  induction joins generalizing left place with
  | nil => exact Except.ok.inj h ▸ hleft
  | cons info rest ih =>
    obtain ⟨added, joined, hadded, hjoined, h⟩ := joinAll_cons_ok h
    rw [List.map_cons, List.length_cons, List.range'_succ] at hplaces
    obtain ⟨hplace, hplaces⟩ := List.cons.inj hplaces
    rw [hplace] at hadded
    have hshows : joined.scope.Shows (sources.take (place + 1)) := by
      rw [List.take_add_one, hadded]
      exact join_shows hleft hjoined
    rw [List.length_cons, Nat.add_comm rest.length, ← Nat.add_assoc]
    exact ih hshows h hplaces

end ScopedPlan

/-! ### The clause -/

namespace FromClause

variable {catalog : Catalog} {f g : FromClause}

/-- The clause as it was when it had so many sources. -/
def upTo (f : FromClause) (n : Nat) : FromClause := { f with sources := f.sources.take n }

theorem resolve_congr (h : f.sources = g.sources) (reference : ColumnReference) :
    f.resolve reference = g.resolve reference := by
  unfold resolve findSource?
  rw [h]

/-- When the join was added, its left column was found in a source from before, and its right column
in the added one. -/
def Oriented (f : FromClause) (join : JoinClause) : Prop :=
  ∃ left right, f.sources[join.rightSource]? = some right.source ∧
    (f.upTo (join.rightSource + 1)).resolve join.left = .ok left ∧
    (f.upTo (join.rightSource + 1)).resolve join.right = .ok right ∧
    left.source ∈ f.sources.take join.rightSource

/-- A clause that has been put together from a relation. -/
structure Sound (f : FromClause) : Prop where
  distinct : f.Distinct
  oriented : ∀ join ∈ f.joins, f.Oriented join

theorem sound_empty : Sound {} := ⟨List.nodup_nil, nofun⟩

theorem upTo_append {more : List QuerySource} {n : Nat} (hsources : g.sources = f.sources ++ more)
    (hn : n ≤ f.sources.length) : (f.upTo n).sources = (g.upTo n).sources := by
  rw [upTo, upTo, hsources, List.take_append_of_le_length hn]

theorem Oriented.append {join : JoinClause} {more : List QuerySource} (h : f.Oriented join)
    (hsources : g.sources = f.sources ++ more) : g.Oriented join := by
  obtain ⟨left, right, hadded, hleft, hright, hbefore⟩ := h
  obtain ⟨hlt, -⟩ := List.getElem?_eq_some_iff.1 hadded
  refine ⟨left, right, ?_, ?_, ?_, ?_⟩
  · rw [hsources, List.getElem?_append_left hlt, hadded]
  · rw [← resolve_congr (upTo_append hsources hlt), hleft]
  · rw [← resolve_congr (upTo_append hsources hlt), hright]
  · rw [hsources, List.take_append_of_le_length (Nat.le_of_lt hlt)]
    exact hbefore

theorem Sound.snoc {name : SourceName} {aliasName : Option String} {added : QuerySource}
    (hf : f.Sound) (hadds : Adds catalog f name aliasName added) : (f.snoc added).Sound := by
  refine ⟨?_, fun join hjoin => (hf.oriented join hjoin).append rfl⟩
  rw [Distinct, FromClause.snoc, List.map_append]
  refine List.Nodup.append hf.distinct (List.nodup_singleton _) ?_
  simpa [List.disjoint_singleton] using hadds.isNew

theorem orient_ok {added : String} {criteria : Expression} {left right : ColumnReference}
    (h : f.orient added criteria = .ok (left, right)) :
    (∃ found, f.resolve left = .ok found ∧ found.source.aliasName ≠ added) ∧
      ∃ found, f.resolve right = .ok found ∧ found.source.aliasName = added := by
  unfold orient at h
  dsimp only at h
  split at h
  next a b =>
    obtain ⟨foundA, hfoundA, h⟩ := bind_eq_ok_iff.1 h
    obtain ⟨foundB, hfoundB, h⟩ := bind_eq_ok_iff.1 h
    split at h
    next hA hB =>
      cases h
      exact ⟨⟨foundA, hfoundA, by simpa using hA⟩, foundB, hfoundB, by simpa using hB⟩
    next hA hB =>
      cases h
      exact ⟨⟨foundB, hfoundB, by simpa using hB⟩, foundA, hfoundA, by simpa using hA⟩
    · cases h
  · cases h

theorem oriented_of_orient {added : QuerySource} {criteria : Expression} {kind : JoinKind}
    {left right : ColumnReference} (hsound : (f.snoc added).Sound)
    (h : (f.snoc added).orient added.aliasName criteria = .ok (left, right)) :
    (f.snoc added).Oriented ⟨kind, left, right, f.sources.length⟩ := by
  obtain ⟨⟨l, hl, hother⟩, r, hr, hsame⟩ := orient_ok h
  have hlmem := (resolve_ok hsound.distinct hl).1
  have hrmem := (resolve_ok hsound.distinct hr).1
  have hrsource : r.source = added :=
    List.inj_on_of_nodup_map hsound.distinct hrmem (List.mem_append_right _ List.mem_cons_self)
      hsame
  have hlbefore : l.source ∈ f.sources :=
    (List.mem_append.1 hlmem).resolve_right fun hadded =>
      hother (congrArg (·.aliasName) (List.mem_singleton.1 hadded))
  have hall : (f.snoc added).sources.take (f.sources.length + 1) = (f.snoc added).sources :=
    List.take_of_length_le (by simp [snoc])
  refine ⟨l, r, ?_, ?_, ?_, ?_⟩
  · rw [hrsource]
    exact List.getElem?_concat_length
  · exact (resolve_congr hall _).trans hl
  · exact (resolve_congr hall _).trans hr
  · rw [snoc, List.take_left]
    exact hlbefore

theorem Sound.addRelation {relation : Relation} (hf : f.Sound)
    (h : f.addRelation catalog relation = .ok g) : g.Sound := by
  induction relation generalizing f g with
  | source name aliasName =>
    obtain ⟨added, hadds, rfl⟩ := addSource_ok h
    exact hf.snoc hadds
  | join kind left right criteria ihl _ =>
    obtain ⟨_, _, before, added, _, _, rfl, hbefore, hadds, horient, rfl⟩ := addRelation_join_ok h
    have hsound := (ihl hf hbefore).snoc hadds
    refine ⟨hsound.distinct, List.forall_mem_append.2 ⟨hsound.oriented, ?_⟩⟩
    exact List.forall_mem_singleton.2 (oriented_of_orient hsound horient)

end FromClause

/-! ### The references of a query -/

/-- The column references in a selected item. -/
def SelectItem.columns : SelectItem → List ColumnReference
  | .star _ => []
  | .expression e _ => e.columns

/-- The column references of a query, but for those in its joins. -/
def Query.references (query : Query) : List ColumnReference :=
  query.select.flatMap (·.columns) ++ query.filter.toList.flatMap (·.columns) ++
    query.groupBy.flatMap (·.columns)

namespace Analysis

variable {catalog : Catalog} {query : Query} {into : Option Sink} {a : Analysis}

theorem ofQuery_sound (h : Analysis.ofQuery catalog query into = .ok a) : a.toFromClause.Sound := by
  obtain ⟨clause, hclause, rfl⟩ := ofQuery_ok h
  exact FromClause.sound_empty.addRelation hclause

theorem checkColumns_ok_iff {f : FromClause} {e : Expression} : f.checkColumns e = .ok () ↔
    ∀ reference ∈ e.columns, ∃ found, f.resolve reference = .ok found := by
  simp only [FromClause.checkColumns, forM_eq_ok_iff, discard_eq_ok_iff]

theorem checkItem_ok {f : FromClause} {item : SelectItem} (h : checkItem f item = .ok ()) :
    (∀ reference ∈ item.columns, ∃ found, f.resolve reference = .ok found) ∧
      ∀ qualifier, item = .star (some qualifier) →
        ∃ source, f.findSource? qualifier = some source := by
  cases item with
  | star qualifier =>
    refine ⟨nofun, fun name hname => ?_⟩
    cases hname
    rw [← Option.isSome_iff_exists]
    by_contra hnone
    simp [checkItem, hnone] at h
  | expression e aliasName => exact ⟨checkColumns_ok_iff.1 h, nofun⟩

theorem ofQuery_found (h : Analysis.ofQuery catalog query into = .ok a) :
    (∀ reference ∈ query.references, ∃ found, a.resolve reference = .ok found) ∧
      ∀ qualifier, .star (some qualifier) ∈ query.select →
        ∃ source, a.findSource? qualifier = some source := by
  obtain ⟨clause, hclause, h⟩ := bind_eq_ok_iff.1 h
  obtain ⟨⟨⟩, hselect, h⟩ := bind_eq_ok_iff.1 h
  obtain ⟨⟨⟩, hfilter, h⟩ := bind_eq_ok_iff.1 h
  obtain ⟨⟨⟩, hgroupBy, h⟩ := bind_eq_ok_iff.1 h
  cases h
  rw [forM_eq_ok_iff] at hselect hfilter hgroupBy
  refine ⟨?_, fun qualifier hstar => (checkItem_ok (hselect _ hstar)).2 qualifier rfl⟩
  refine List.forall_mem_append.2 ⟨List.forall_mem_append.2 ⟨?_, ?_⟩, ?_⟩ <;>
    refine List.forall_mem_flatMap.2 fun part hpart => ?_
  · exact (checkItem_ok (hselect part hpart)).1
  · exact checkColumns_ok_iff.1 (hfilter part hpart)
  · exact checkColumns_ok_iff.1 (hgroupBy part hpart)

theorem places_of_joins {before after : List JoinClause} (hinTurn : a.JoinsInTurn)
    (hjoins : a.joins = before ++ after) :
    before.map (·.rightSource) = List.range' 1 before.length ∧
      after.map (·.rightSource) = List.range' (1 + before.length) after.length := by
  rw [JoinsInTurn, hjoins, List.map_append, eq_comm, List.range'_eq_append_iff] at hinTurn
  obtain ⟨n, -, hfirst, hrest⟩ := hinTurn
  obtain rfl : n = before.length := by simpa using (congrArg List.length hfirst).symm
  have hlength : a.sources.length - 1 - before.length = after.length := by
    simpa using (congrArg List.length hrest).symm
  rw [hlength, Nat.mul_one] at hrest
  exact ⟨hfirst, hrest⟩

theorem joinAll_shows {first : QuerySource} {rest : List QuerySource} {left : ScopedPlan}
    {before after : List JoinClause} (hinTurn : a.JoinsInTurn)
    (hsources : a.sources = first :: rest) (hjoins : a.joins = before ++ after)
    (hleft : (ScopedPlan.ofSource first).joinAll a.sources before = .ok left) :
    left.scope.Shows (a.sources.take (1 + before.length)) := by
  refine ScopedPlan.joinAll_shows ?_ hleft (places_of_joins hinTurn hjoins).1
  rw [hsources]
  exact ScopedPlan.ofSource_shows first

theorem joined_shows {joined : ScopedPlan} (hinTurn : a.JoinsInTurn) (h : a.joined = .ok joined) :
    joined.scope.Shows a.sources := by
  have hlength : a.joins.length = a.sources.length - 1 := by
    simpa using congrArg List.length hinTurn
  unfold Analysis.joined at h
  split at h
  · cases h
  next first rest hsources =>
    have hshows := joinAll_shows hinTurn hsources (List.append_nil _).symm h
    rwa [List.take_of_length_le (by omega)] at hshows

theorem rightSource_eq {before after : List JoinClause} {join : JoinClause}
    (hinTurn : a.JoinsInTurn) (hjoins : a.joins = before ++ join :: after) :
    join.rightSource = 1 + before.length := by
  have hplaces := (places_of_joins hinTurn hjoins).2
  exact (List.range'_eq_cons_iff.1 hplaces.symm).1.symm

end Analysis

/-- **Names in the analysis and in the plan.** Every reference of an accepted query is found by the
analysis, and the scope of the joined rows agrees on it; so do the two scopes of every join on the
columns of its criterion, which are found among the sources joined by then. The star after a
qualifier stands for the columns of the source found for it if that is its alias. -/
theorem Query.names_agree {query : Query} {into : Option Sink} {catalog : Catalog} {a : Analysis}
    (h : Analysis.ofQuery catalog query into = .ok a) :
    (∀ joined, a.joined = .ok joined →
      (∀ reference ∈ query.references,
        ∃ found, a.resolve reference = .ok found ∧ joined.scope.Agrees reference found) ∧
      ∀ qualifier, .star (some qualifier) ∈ query.select →
        ∃ source, a.findSource? qualifier = some source ∧
          ((((SelectItem.star (some qualifier)).repeated joined.scope).map (·.label)).Perm
              source.labels ↔
            qualifier = source.aliasName ∨ source.source.schema.columns = [])) ∧
    ∀ first rest before join after left, a.sources = first :: rest →
      a.joins = before ++ join :: after →
      (ScopedPlan.ofSource first).joinAll a.sources before = .ok left →
      let clause := a.upTo (join.rightSource + 1)
      ∃ leftFound rightFound, a.sources[join.rightSource]? = some rightFound.source ∧
        clause.resolve join.left = .ok leftFound ∧ clause.resolve join.right = .ok rightFound ∧
        left.scope.Agrees join.left leftFound ∧
        (ScopedPlan.ofSource rightFound.source).scope.Agrees join.right rightFound := by
  have hsound := Analysis.ofQuery_sound h
  have hinTurn := (Analysis.ofQuery_reads h).2
  constructor
  · intro joined hjoined
    have hshows := Analysis.joined_shows hinTurn hjoined
    obtain ⟨hreferences, hstars⟩ := Analysis.ofQuery_found h
    refine ⟨fun reference hmem => ?_, fun qualifier hstar => ?_⟩
    · obtain ⟨found, hfound⟩ := hreferences reference hmem
      have hsource := (FromClause.resolve_ok hsound.distinct hfound).1
      exact ⟨found, hfound, hshows.agrees hsound.distinct (List.Sublist.refl _) hfound hsource⟩
    · obtain ⟨source, hsource⟩ := hstars qualifier hstar
      exact ⟨source, hsource, hshows.star_iff hsound.distinct hsource⟩
  · intro first rest before join after left hsources hjoins hleft clause
    obtain ⟨leftFound, rightFound, hadded, hleftFound, hrightFound, hbefore⟩ :=
      hsound.oriented join (hjoins ▸ List.mem_append_right _ List.mem_cons_self)
    have hdistinct : clause.Distinct := hsound.distinct.sublist ((List.take_sublist _ _).map _)
    refine ⟨leftFound, rightFound, hadded, hleftFound, hrightFound, ?_, ?_⟩
    · have hshows := Analysis.joinAll_shows hinTurn hsources hjoins hleft
      rw [← Analysis.rightSource_eq hinTurn hjoins] at hshows
      exact hshows.agrees hdistinct (List.take_sublist_take_left (Nat.le_succ _)) hleftFound hbefore
    · refine (ScopedPlan.ofSource_shows _).agrees hdistinct ?_ hrightFound
        (List.mem_singleton_self _)
      exact List.singleton_sublist.2 (FromClause.resolve_ok hdistinct hrightFound).1

namespace Sample

/-- A table of users, and nothing else. -/
def usersCatalog : Catalog :=
  ⟨.ofList [(⟨"USERS"⟩, {
    name := ⟨"USERS"⟩
    kind := .table
    schema := (Schema.empty.addKey "ID" .int8).addValue "NAME" .utf8
    keyFormat := .kafka
    valueFormat := .json
    topic := "USERS"
    statement := "CREATE TABLE USERS ...;"
    isQuerySink := false })], .empty⟩

/-- `SELECT qualifier.ID, qualifier.* FROM relation`. -/
def selectQualified (qualifier : String) (relation : Relation) : Query :=
  { Query.selectAll relation with
    select := [.expression (.column ⟨some qualifier, "ID"⟩) none, .star (some qualifier)] }

/-- `USERS AS U JOIN USERS AS V ON U.ID = V.ID`. -/
def twiceUsers : Relation :=
  .join .inner (.source ⟨"USERS"⟩ (some "U")) (.source ⟨"USERS"⟩ (some "V"))
    (.equal (.column ⟨some "U", "ID"⟩) (.column ⟨some "V", "ID"⟩))

end Sample

/-- Names after the alias of one of two copies of the users. -/
theorem Query.names_after_alias :
    let query := Sample.selectQualified "V" Sample.twiceUsers
    ∃ a joined source, Analysis.ofQuery Sample.usersCatalog query none = .ok a ∧
      a.joined = .ok joined ∧ a.findSource? "V" = some source ∧
      (∃ c, joined.scope.resolve ⟨some "V", "ID"⟩ = .ok c) ∧
      (((SelectItem.star (some "V")).repeated joined.scope).map (·.label)).Perm source.labels := by
  intro query
  obtain ⟨a, joined, ha, hjoined⟩ : ∃ a joined,
      Analysis.ofQuery Sample.usersCatalog query none = .ok a ∧ a.joined = .ok joined :=
    ⟨_, _, rfl, rfl⟩
  obtain ⟨hreferences, hstars⟩ := (Query.names_agree ha).1 joined hjoined
  obtain ⟨found, hfound, hagrees⟩ := hreferences ⟨some "V", "ID"⟩ List.mem_cons_self
  obtain ⟨source, hsource, hstar⟩ := hstars "V" (List.mem_cons_of_mem _ List.mem_cons_self)
  refine ⟨a, joined, source, ha, hjoined, hsource, hagrees.resolves_iff.2 ?_, hstar.2 (.inl ?_)⟩
  · cases ha
    cases hfound
    exact ⟨.inr rfl, _, rfl⟩
  · cases ha
    cases hsource
    rfl

/-- Names after the name of a source that has an alias are found by the analysis, but not in the
scope of the plan, and the star there stands for nothing. -/
theorem Query.names_after_source_name :
    let query := Sample.selectQualified "USERS" (.source ⟨"USERS"⟩ (some "U"))
    ∃ a joined source found e, Analysis.ofQuery Sample.usersCatalog query none = .ok a ∧
      a.joined = .ok joined ∧ a.findSource? "USERS" = some source ∧
      a.resolve ⟨some "USERS", "ID"⟩ = .ok found ∧
      joined.scope.resolve ⟨some "USERS", "ID"⟩ = .error e ∧
      (SelectItem.star (some "USERS")).repeated joined.scope = [] ∧ source.labels ≠ [] :=
  ⟨_, _, _, _, _, rfl, rfl, rfl, rfl, rfl, rfl, List.cons_ne_nil _ _⟩

end StreamSql
