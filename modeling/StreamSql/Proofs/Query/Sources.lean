import StreamSql.Proofs.Query.Stages

/-!
# What a query reads

A plan reads the entries that the names of the `FROM` clause stand for in the catalog, from left to
right (`Query.plan_reads`). The clause has one join less than it has sources, and the joins add the
sources from the second on, each in its turn (`FromClause.Extends`). What a plan is made of on top
of its joins depends on the clauses that the query has (`Analysis.Tops`).
-/

namespace StreamSql

/-- The names that a relation reads, from left to right. -/
def Relation.names : Relation → List SourceName
  | .source name _ => [name]
  | .join _ left right _ => left.names ++ right.names

/-- The name that a relation reads first. -/
def Relation.first : Relation → SourceName
  | .source name _ => name
  | .join _ left _ _ => left.first

theorem Relation.names_eq_cons (relation : Relation) :
    ∃ rest, relation.names = relation.first :: rest := by
  induction relation with
  | source name aliasName => exact ⟨[], rfl⟩
  | join kind left right criteria ihl _ =>
    obtain ⟨rest, hrest⟩ := ihl
    exact ⟨rest ++ right.names, by rw [names, hrest, first, List.cons_append]⟩

theorem Relation.length_names_pos (relation : Relation) : 0 < relation.names.length := by
  obtain ⟨rest, hrest⟩ := relation.names_eq_cons
  rw [hrest]
  exact Nat.succ_pos _

/-! ### The clause -/

namespace FromClause

variable {catalog : Catalog} {f g : FromClause} {names : List SourceName}

/-- The name stands for the entry of the source. -/
def Denotes (catalog : Catalog) (name : SourceName) (source : QuerySource) : Prop :=
  catalog.get? name = some source.source

/-- The clause with one more source. -/
def snoc (f : FromClause) (added : QuerySource) : FromClause :=
  { f with sources := f.sources ++ [added] }

/-- The source is the entry of the name, under the alias given or else under that name, which no
source of the clause has. -/
structure Adds (catalog : Catalog) (f : FromClause) (name : SourceName) (aliasName : Option String)
    (added : QuerySource) : Prop where
  denotes : Denotes catalog name added
  aliasName_eq : added.aliasName = aliasName.getD name.text
  isNew : ∀ source ∈ f.sources, source.aliasName ≠ added.aliasName

theorem addSource_ok {name : SourceName} {aliasName : Option String}
    (h : f.addSource catalog name aliasName = .ok g) :
    ∃ added, Adds catalog f name aliasName added ∧ g = f.snoc added := by
  unfold addSource at h
  split at h
  · cases h
  next source hsource =>
    dsimp only at h
    split at h
    · cases h
    next hnew =>
      cases h
      exact ⟨⟨aliasName.getD name.text, source⟩, ⟨hsource, rfl, by simpa using hnew⟩, rfl⟩

theorem length_addRelation {relation : Relation} (h : f.addRelation catalog relation = .ok g) :
    g.sources.length = f.sources.length + relation.names.length := by
  induction relation generalizing f g with
  | source name aliasName =>
    obtain ⟨added, -, rfl⟩ := addSource_ok h
    exact List.length_append
  | join kind left right criteria ihl ihr =>
    obtain ⟨before, hbefore, h⟩ := bind_eq_ok_iff.1 h
    obtain ⟨after, hafter, h⟩ := bind_eq_ok_iff.1 h
    have hlength : after.sources.length =
        f.sources.length + (left.names.length + right.names.length) := by
      rw [ihr hafter, ihl hbefore, Nat.add_assoc]
    split at h
    · obtain ⟨_, -, h⟩ := bind_eq_ok_iff.1 h
      cases h
      rw [Relation.names, List.length_append]
      exact hlength
    · cases h

theorem addRelation_join_ok {kind : JoinKind} {left right : Relation} {criteria : Expression}
    (h : f.addRelation catalog (.join kind left right criteria) = .ok g) :
    ∃ name aliasName before added leftKey rightKey, right = .source name aliasName ∧
      f.addRelation catalog left = .ok before ∧ Adds catalog before name aliasName added ∧
      (before.snoc added).orient added.aliasName criteria = .ok (leftKey, rightKey) ∧
      g = { before.snoc added with
        joins := before.joins ++ [⟨kind, leftKey, rightKey, before.sources.length⟩] } := by
  obtain ⟨before, hbefore, h⟩ := bind_eq_ok_iff.1 h
  obtain ⟨after, hafter, h⟩ := bind_eq_ok_iff.1 h
  split at h
  next only honly =>
    obtain ⟨⟨leftKey, rightKey⟩, horient, hmade⟩ := bind_eq_ok_iff.1 h
    cases right with
    | source name aliasName =>
      obtain ⟨added, hadds, rfl⟩ := addSource_ok hafter
      obtain rfl : added = only := by simpa [snoc] using honly
      exact ⟨name, aliasName, before, added, leftKey, rightKey, rfl, hbefore, hadds, horient,
        (Except.ok.inj hmade).symm⟩
    | join _ l r _ =>
      -- A join has two names at least, but only one source has been added.
      have hone := congrArg List.length honly
      rw [List.length_drop, length_addRelation hafter, Relation.names, List.length_append,
        List.length_singleton] at hone
      have hl := l.length_names_pos
      have hr := r.length_names_pos
      omega
  · cases h

/-- The clause `g` has further sources, those of the names, and further joins: one for each of the
sources but the first. -/
structure Extends (catalog : Catalog) (f : FromClause) (names : List SourceName) (g : FromClause) :
    Prop where
  sources : ∃ added, g.sources = f.sources ++ added ∧ List.Forall₂ (Denotes catalog) names added
  joins : ∃ added, g.joins = f.joins ++ added ∧
    added.map (·.rightSource) = List.range' (f.sources.length + 1) (names.length - 1)

theorem Extends.length_sources (h : Extends catalog f names g) :
    g.sources.length = f.sources.length + names.length := by
  obtain ⟨added, heq, hadded⟩ := h.sources
  rw [heq, List.length_append, hadded.length_eq]

theorem Extends.join {mid : FromClause} {name : SourceName} {added : QuerySource}
    {join : JoinClause} (hleft : Extends catalog f names mid)
    (hdenotes : Denotes catalog name added)
    (hnames : 0 < names.length) (hplace : join.rightSource = mid.sources.length) :
    Extends catalog f (names ++ [name]) { mid.snoc added with joins := mid.joins ++ [join] } := by
  obtain ⟨first, hfirst, hdenoted⟩ := hleft.sources
  obtain ⟨joins, hjoins, hplaces⟩ := hleft.joins
  obtain ⟨n, hn⟩ := Nat.exists_eq_add_of_le' hnames
  refine ⟨⟨first ++ [added], ?_, List.rel_append hdenoted (.cons hdenotes .nil)⟩,
    ⟨joins ++ [join], ?_, ?_⟩⟩
  · rw [snoc, hfirst, List.append_assoc]
  · rw [hjoins, List.append_assoc]
  · rw [List.map_append, hplaces, List.map_singleton, hplace, hleft.length_sources,
      List.length_append, List.length_singleton, hn, Nat.add_sub_cancel, Nat.add_sub_cancel,
      List.range'_1_concat]
    congr 2
    omega

theorem addRelation_ok {relation : Relation} (h : f.addRelation catalog relation = .ok g) :
    Extends catalog f relation.names g := by
  induction relation generalizing f g with
  | source name aliasName =>
    obtain ⟨added, hadds, rfl⟩ := addSource_ok h
    exact ⟨⟨[added], rfl, .cons hadds.denotes .nil⟩, ⟨[], (List.append_nil _).symm, rfl⟩⟩
  | join kind left right criteria ihl _ =>
    obtain ⟨_, _, _, _, _, _, rfl, hbefore, hadds, -, rfl⟩ := addRelation_join_ok h
    exact (ihl hbefore).join hadds.denotes left.length_names_pos rfl

end FromClause

/-! ### The plan -/

namespace ScopedPlan

variable {left next : ScopedPlan} {sources : List QuerySource}

/-- A source as it stands in a plan. -/
def leaf (source : QuerySource) : Source × String := (source.source, source.aliasName)

theorem join_ok {info : JoinClause} {added : QuerySource} (h : left.join info added = .ok next) :
    ∃ output leftKey rightKey, left.scope.resolve info.left = .ok leftKey ∧
      (ofSource added).scope.resolve info.right = .ok rightKey ∧
      let scope := joinedScope left.scope (ofSource added).scope leftKey
      next = ⟨.join info.kind left.node (ofSource added).node info.left info.right scope.schema
        output, scope⟩ := by
  obtain ⟨output, -, h⟩ := bind_eq_ok_iff.1 h
  obtain ⟨leftKey, hleftKey, h⟩ := bind_eq_ok_iff.1 h
  obtain ⟨rightKey, hrightKey, h⟩ := bind_eq_ok_iff.1 h
  obtain ⟨-, h⟩ := guarded_eq_ok_iff.1 h
  exact ⟨output, leftKey, rightKey, hleftKey, hrightKey, (Except.ok.inj h).symm⟩

theorem joinAll_cons_ok {info : JoinClause} {joins : List JoinClause}
    (h : left.joinAll sources (info :: joins) = .ok next) :
    ∃ added joined, sources[info.rightSource]? = some added ∧
      left.join info added = .ok joined ∧ joined.joinAll sources joins = .ok next := by
  unfold joinAll at h
  split at h
  next added hadded =>
    obtain ⟨joined, hjoined, h⟩ := bind_eq_ok_iff.1 h
    exact ⟨added, joined, hadded, hjoined, h⟩
  · cases h

theorem join_sources {info : JoinClause} {added : QuerySource}
    (h : left.join info added = .ok next) :
    next.node.sources = left.node.sources ++ [leaf added] := by
  obtain ⟨_, _, _, -, -, rfl⟩ := join_ok h
  rfl

theorem joinAll_sources {joins : List JoinClause} {place : Nat}
    (h : left.joinAll sources joins = .ok next)
    (hplaces : joins.map (·.rightSource) = List.range' place (sources.length - place)) :
    next.node.sources = left.node.sources ++ (sources.drop place).map leaf := by
  induction joins generalizing left place with
  | nil =>
    have hlength := congrArg List.length hplaces
    rw [List.map_nil, List.length_nil, List.length_range'] at hlength
    rw [List.drop_eq_nil_of_le (by omega), ← Except.ok.inj h, List.map_nil, List.append_nil]
  | cons info rest ih =>
    obtain ⟨added, joined, hadded, hjoined, hjoinAll⟩ := joinAll_cons_ok h
    obtain ⟨n, hn⟩ : ∃ n, sources.length - place = n + 1 := by
      have hlength := congrArg List.length hplaces
      rw [List.map_cons, List.length_cons, List.length_range'] at hlength
      exact ⟨rest.length, by rw [← hlength, List.length_map]⟩
    rw [hn, List.range'_succ, List.map_cons] at hplaces
    obtain ⟨hplace, hplaces⟩ := List.cons.inj hplaces
    rw [hplace] at hadded
    obtain ⟨hlt, rfl⟩ := List.getElem?_eq_some_iff.1 hadded
    have hrest : n = sources.length - (place + 1) := by omega
    rw [ih hjoinAll (hrest ▸ hplaces), join_sources hjoined, List.drop_eq_getElem_cons hlt,
      List.map_cons, List.append_assoc, List.singleton_append]

end ScopedPlan

/-- The joins add the sources from the second on, each in its turn. -/
def Analysis.JoinsInTurn (a : Analysis) : Prop :=
  a.joins.map (·.rightSource) = List.range' 1 (a.sources.length - 1)

namespace Analysis

variable {catalog : Catalog} {config : Settings} {query : Query} {into : Option Sink} {a : Analysis}

theorem ofQuery_reads (h : Analysis.ofQuery catalog query into = .ok a) :
    List.Forall₂ (FromClause.Denotes catalog) query.relation.names a.sources ∧ a.JoinsInTurn := by
  obtain ⟨clause, hclause, rfl⟩ := ofQuery_ok h
  have hextends := FromClause.addRelation_ok hclause
  have hlength := hextends.length_sources
  obtain ⟨added, hadded, hdenotes⟩ := hextends.sources
  obtain ⟨joins, hjoins, hplaces⟩ := hextends.joins
  refine ⟨hadded ▸ hdenotes, ?_⟩
  rw [JoinsInTurn, hjoins, hlength]
  simpa using hplaces

theorem first_reads {first : QuerySource} {rest : List QuerySource}
    (h : Analysis.ofQuery catalog query into = .ok a) (hsources : a.sources = first :: rest) :
    catalog.get? query.relation.first = some first.source := by
  obtain ⟨names, hnames⟩ := query.relation.names_eq_cons
  have hreads := (ofQuery_reads h).1
  rw [hnames, hsources] at hreads
  cases hreads with
  | cons hfirst _ => exact hfirst

/-- The filter, if the query has one, on the rows of a node. -/
def filteredNode (a : Analysis) (joined : PlanNode) : PlanNode :=
  a.filter.elim joined (.filter joined)

/-- The root is made of the rows of the joins: filtered, aggregated if the query has groups, and
projected. -/
inductive Tops (a : Analysis) (joined : PlanNode) : PlanNode → Prop
  | plain (hgroups : a.groupBy = []) (projections : List Projection) (schema : Schema) :
      Tops a joined (.project (a.filteredNode joined) projections schema)
  | grouped (hgroups : a.groupBy ≠ []) (keys : List ColumnReference) (calls : List AggregateCall)
      (aggregated : Schema) (projections : List Projection) (schema : Schema) :
      Tops a joined
        (.project (.aggregate (a.filteredNode joined) keys calls aggregated) projections schema)

theorem addFilter_node {input filtered : ScopedPlan} (h : addFilter input a.filter = .ok filtered) :
    filtered.node = a.filteredNode input.node := by
  unfold filteredNode
  cases hfilter : a.filter with
  | none =>
    rw [hfilter] at h
    cases h
    rfl
  | some predicate =>
    rw [hfilter] at h
    obtain ⟨_, -, h⟩ := bind_eq_ok_iff.1 h
    cases h
    rfl

theorem plan_tops {logical : LogicalPlan} (h : a.plan catalog config = .ok logical) :
    ∃ first rest joined, a.sources = first :: rest ∧
      (ScopedPlan.ofSource first).joinAll a.sources a.joins = .ok joined ∧
      a.Tops joined.node logical.root := by
  obtain @⟨first, rest, joined, filtered, aggregated, select, projected, output, -, hsources,
    hjoined, hfiltered, haggregated, hprojected, -, -⟩ := plan_eq_ok_iff.1 h
  refine ⟨first, rest, joined, hsources, hjoined, ?_⟩
  obtain ⟨list, -, hprojected⟩ := bind_eq_ok_iff.1 hprojected
  cases hprojected
  have hnode := addFilter_node hfiltered
  unfold addAggregation at haggregated
  split at haggregated
  next hgroups =>
    obtain ⟨grouping, -, h⟩ := bind_eq_ok_iff.1 haggregated
    obtain ⟨⟨items, found⟩, -, h⟩ := bind_eq_ok_iff.1 h
    obtain ⟨_, -, h⟩ := bind_eq_ok_iff.1 h
    cases h
    rw [hnode]
    exact .grouped (by simpa using hgroups) _ _ _ _ _
  next hgroups =>
    split at haggregated
    · cases haggregated
    · cases haggregated
      rw [hnode]
      exact .plain (by simpa using hgroups) _ _

theorem Tops.sources {joined root : PlanNode} (h : a.Tops joined root) :
    root.sources = joined.sources := by
  have hfiltered : (a.filteredNode joined).sources = joined.sources := by
    unfold filteredNode
    cases a.filter <;> rfl
  cases h with
  | plain => exact hfiltered
  | grouped => exact hfiltered

theorem plan_sources {logical : LogicalPlan} (h : a.plan catalog config = .ok logical)
    (hjoins : a.JoinsInTurn) : logical.root.sources = a.sources.map ScopedPlan.leaf := by
  obtain ⟨first, rest, joined, hsources, hjoined, htops⟩ := plan_tops h
  calc logical.root.sources = joined.node.sources := htops.sources
    _ = [ScopedPlan.leaf first] ++ (a.sources.drop 1).map ScopedPlan.leaf :=
        ScopedPlan.joinAll_sources hjoined hjoins
    _ = a.sources.map ScopedPlan.leaf := by rw [hsources]; rfl

end Analysis

/-- **A plan reads the entries that its query names.** -/
theorem Query.plan_reads {query : Query} {into : Option Sink} {catalog : Catalog}
    {config : Settings} {logical : LogicalPlan} (h : query.plan into catalog config = .ok logical) :
    List.Forall₂ (fun name entry => catalog.get? name = some entry.1) query.relation.names
      logical.root.sources := by
  obtain ⟨a, ha, h⟩ := bind_eq_ok_iff.1 h
  obtain ⟨hreads, hjoins⟩ := Analysis.ofQuery_reads ha
  rw [Analysis.plan_sources h hjoins, List.forall₂_map_right_iff]
  exact hreads

end StreamSql
