import StreamSql.Proofs.Engine.CreateAsSelect
import StreamSql.Proofs.Engine.PullRows
import StreamSql.Proofs.Engine.SinkMatch
import StreamSql.Proofs.Query.PullPlans

/-!
# Binding pull queries

The planner looks for the lookup of a pull query in the schema of the entry, and the binder looks
for it again in the schema of the rows that the query writing the entry keeps. Nothing compares the
two: every pull query that is planned can be bound, to a lookup that is no scan unless scans are
allowed, exactly if the key columns of both agree (`Engine.bindsPulls_iff`). They do once an entry
is created with its query, for as long as it keeps its schema (`Clients.created_bindsPulls`). They
need not after an `INSERT INTO` an entry whose key is wider, or once the entry is replaced
(`Engine.drifted_pulls`).
-/

namespace StreamSql

theorem Schema.agrees_self (schema : Schema) (scans : Bool) : schema.Agrees schema scans := by
  cases scans with
  | false =>
    exact fun hkeyed _ => ⟨hkeyed, fun key hkey => ⟨key, hkey, rfl, DataType.widensTo_self _⟩⟩
  | true =>
    intro before key after hsplit _
    exact ⟨before, key, after, hsplit, rfl, DataType.widensTo_self _,
      fun b hb => List.mem_map_of_mem hb⟩

namespace Engine

open KeyLookup (asking)

variable {engine : Engine} {config : Settings} {query : Query} {logical : LogicalPlan}
  {name : SourceName} {source : Source} {q : RunningQuery} {m : Materialization}

/-- Every pull query on the entry that the planner accepts can be bound to the state, to a lookup
that is no scan unless scans are allowed. -/
def BindsPulls (engine : Engine) (config : Settings) (name : SourceName) : Prop :=
  ∀ query logical, query.relation.first = name → engine.AcceptsPull config query logical →
    ∀ id, ∃ plan, PullPlan.bind logical engine.registry id = .ok plan ∧
      (plan.lookup.isScan = true → config.pullTableScanEnabled = true)

theorem AcceptsPull.planned (h : engine.AcceptsPull config query logical)
    (hsource : engine.catalog.get? query.relation.first = some source) :
    (∃ aliasName, logical.root.sources = [(source, aliasName)]) ∧
      logical.root.predicate? = query.filter.map (·.unqualified) ∧
      KeyLookup.Planned source.schema config.pullTableScanEnabled logical.root.predicate? := by
  obtain ⟨hpull, a, ha, hplan⟩ := h
  obtain ⟨only, hpulls, rfl⟩ := Analysis.ofQuery_pulls ha hpull hsource hplan rfl rfl
  refine ⟨⟨only.aliasName, hpulls.leaves⟩, hpulls.predicate.trans ?_,
    hpulls.predicate ▸ hpulls.lookup⟩
  rw [Analysis.unqualified, Analysis.ofQuery_filter ha]

theorem accepts_asking {literal : String → Value} {first : String} {others : List String}
    (hsource : engine.catalog.get? name = some source)
    (hsole : ∀ n ∈ first :: others, source.schema.Sole n)
    (hserves : KeyLookup.Serves source.schema config.pullTableScanEnabled
      (some (asking literal first others))) :
    ∃ logical, engine.AcceptsPull config (.pullWhere first name (asking literal first others))
      logical := by
  have hfirst := hsole first List.mem_cons_self
  have hresolve : ∀ n ∈ first :: others,
      ∃ c, (Scope.ofSchema (some name.text) source.schema).resolve ⟨none, n⟩ = .ok c :=
    fun n hn => Scope.resolve_of_sole (hsole n hn)
  have hcolumns : ∀ reference ∈ (asking literal first others).columns,
      reference.qualifier = none ∧ source.schema.Sole reference.name :=
    columns_asking fun n hn => ⟨rfl, hsole n hn⟩
  have hunqualified : (Analysis.pullWhere first name source
      (asking literal first others)).unqualified =
        .pullWhere first name source (asking literal first others) := by
    simp only [Analysis.pullWhere, Analysis.unqualified, Option.map_some, unqualified_asking]
    rfl
  obtain ⟨logical, hlogical⟩ : ∃ logical, (Analysis.pullWhere first name source
      (asking literal first others)).plan engine.catalog config = .ok logical :=
    Analysis.plan_pullWhere hfirst (typeOf_asking hresolve) hserves
  exact ⟨logical, rfl, _, Analysis.ofQuery_pullWhere hsource hfirst hcolumns,
    hunqualified.symm ▸ hlogical⟩

theorem bind_eq {aliasName : String} (hroot : logical.root.sources = [(source, aliasName)])
    (hwriters : engine.registry.writers source.name = [q]) (hstate : q.materialization = some m)
    (id : QueryId) :
    PullPlan.bind logical engine.registry id =
      (reported (KeyLookup.ofFilter logical.root.predicate? m.schema)).map fun lookup =>
        { id
          schema := logical.schema
          materialization := m
          lookup
          predicate := logical.root.predicate?
          projections := logical.root.projections } := by
  have hquery : engine.registry.materializing? source.name = .ok (some q) := by
    rw [Registry.materializing?, hwriters]
  unfold PullPlan.bind
  rw [hroot]
  simp only [hquery, reported, hstate, bind, Except.bind]
  cases KeyLookup.ofFilter logical.root.predicate? m.schema <;> rfl

theorem bind_serves_iff {aliasName : String}
    (hroot : logical.root.sources = [(source, aliasName)])
    (hwriters : engine.registry.writers source.name = [q]) (hstate : q.materialization = some m)
    (id : QueryId) :
    (∃ plan, PullPlan.bind logical engine.registry id = .ok plan ∧
      (plan.lookup.isScan = true → config.pullTableScanEnabled = true)) ↔
      KeyLookup.Serves m.schema config.pullTableScanEnabled logical.root.predicate? := by
  rw [bind_eq hroot hwriters hstate, KeyLookup.Serves]
  cases KeyLookup.ofFilter logical.root.predicate? m.schema <;> simp [reported, Except.map]

theorem bindsPulls_of_agrees (hsource : engine.catalog.get? name = some source)
    (hwriters : engine.registry.writers source.name = [q]) (hstate : q.materialization = some m)
    (hagrees : source.schema.Agrees m.schema config.pullTableScanEnabled) :
    engine.BindsPulls config name := by
  rintro query logical rfl haccepts id
  obtain ⟨⟨aliasName, hroot⟩, -, hplanned⟩ := haccepts.planned hsource
  exact (bind_serves_iff hroot hwriters hstate id).2
    (KeyLookup.serves_of_planned hagrees hplanned)

/-- **What is planned can be bound** exactly if the key columns of the entry and those of the rows
agree. -/
theorem bindsPulls_iff (hsource : engine.catalog.get? name = some source)
    (hwriters : engine.registry.writers source.name = [q])
    (hstate : q.materialization = some m) :
    engine.BindsPulls config name ↔
      source.schema.Agrees m.schema config.pullTableScanEnabled := by
  refine ⟨fun hbinds => ?_, bindsPulls_of_agrees hsource hwriters hstate⟩
  by_contra hdiffer
  obtain ⟨literal, first, others, hunserved⟩ := KeyLookup.exists_unserved hdiffer
  obtain ⟨logical, haccepts⟩ := accepts_asking hsource hunserved.sole hunserved.planned
  obtain ⟨⟨aliasName, hroot⟩, hpredicate, -⟩ := haccepts.planned hsource
  obtain ⟨plan, hbound⟩ := hbinds _ logical rfl haccepts (.ofPull "")
  have hserves := (bind_serves_iff hroot hwriters hstate _).1 ⟨plan, hbound⟩
  rw [hpredicate, Query.pullWhere, Option.map_some, unqualified_asking] at hserves
  exact hunserved.unserved hserves

end Engine

namespace Sample

/-- The clients once there are users and a view on them. -/
def viewing : Clients :=
  (Clients.start {} localhost none []).after (inTurn createUsers 0 ++ inTurn createView 1)

/-- The clients once the view has been replaced by a table of the same columns with another key. -/
def rekeyed : Clients :=
  viewing.after (inTurn (.define (.create
    { name := view
      kind := .table
      elements := [⟨"NAME", .utf8, true⟩, ⟨"ID", .int8, false⟩, ⟨"REGION", .utf8, false⟩]
      orReplace := true })) 2)

/-- The clients once short numbers are inserted into a table of long ones. -/
def widened : Clients :=
  (Clients.start {} localhost none []).after
    (inTurn (.createSource "SHORT" .table [⟨"ID", .int4, true⟩]) 0 ++
      inTurn (.createSource "LONG" .table [⟨"ID", .int8, true⟩]) 1 ++
      inTurn (.insertInto "LONG" (.selectAll (.source ⟨"SHORT"⟩ none))) 2)

/-- `SELECT column FROM name WHERE column = literal`, as a pull query. -/
def pullEqual (column : String) (name : SourceName) (literal : Value) : Query :=
  .pullWhere column name (.equal (.named column) (.literal literal))

end Sample

namespace Engine

open Sample

/-- The view on the users has the schema of its rows. -/
theorem view_bindsPulls : viewing.engine.BindsPulls {} view := by
  obtain ⟨source, q, m, hsource, hwriters, hstate, hsame⟩ : ∃ source q m,
      viewing.engine.catalog.get? view = some source ∧
        viewing.engine.registry.writers source.name = [q] ∧ q.materialization = some m ∧
          source.schema = m.schema := ⟨_, _, _, rfl, rfl, rfl, rfl⟩
  exact (bindsPulls_iff hsource hwriters hstate).2 (hsame ▸ source.schema.agrees_self _)

/-- Accepted pull queries on entries with a single writer that keeps state. A long number is no key
of the short ones, so that the query cannot be bound; and a name is no key of users by id, so that
all of them are read although scans are disabled. -/
theorem drifted_pulls :
    let long : SourceName := ⟨"LONG"⟩
    let keeps (x : Clients) (name : SourceName) := ∃ q, x.engine.registry.writers name = [q] ∧
      q.materialization.isSome = true
    (keeps widened long ∧ ∃ logical,
      widened.engine.AcceptsPull {} (pullEqual "ID" long (.int8 3000000000)) logical ∧
        ∃ d, ∀ id, PullPlan.bind logical widened.engine.registry id = .error d) ∧
      keeps rekeyed view ∧ ∃ logical,
        rekeyed.engine.AcceptsPull {} (pullEqual "NAME" view (.utf8 "alice")) logical ∧
          ∀ id, ∃ plan, PullPlan.bind logical rekeyed.engine.registry id = .ok plan ∧
            plan.lookup.isScan = true := by
  refine ⟨⟨⟨_, rfl, rfl⟩, _, ⟨rfl, _, rfl, rfl⟩, _, fun _ => rfl⟩, ⟨_, rfl, rfl⟩, _,
    ⟨rfl, _, rfl, rfl⟩, fun _ => ⟨_, rfl, rfl⟩⟩

end Engine

/-! ### Created entries -/

namespace Engine

/-- The rows that a query keeps have the schema of the query. -/
def KeepsOwnRows (engine : Engine) : Prop :=
  ∀ id q, engine.registry.get? id = some q → ∀ m ∈ q.materialization, m.schema = q.schema

theorem Executed.keepsOwnRows {engine next : Engine} {config : Settings} {plan : Plan}
    {result : Except Diagnostic ExecutionReport} (h : Executed engine config plan (result, next))
    (hbackend : engine.backend = .memory) (hkeeps : engine.KeepsOwnRows) : next.KeepsOwnRows := by
  cases h with
  | refused | commandOnly | failed => exact hkeeps
  | launched _ _ hlaunch =>
    obtain ⟨hregistered, -, hmaterialization⟩ := launch_memory hbackend hlaunch
    intro id q hq m hm
    rw [hregistered.get?] at hq
    split at hq
    next =>
      cases hq
      rw [hmaterialization, Option.mem_def, Option.ite_none_right_eq_some] at hm
      cases hm.2
      exact (congrArg (·.step.schema) hregistered.plan_eq).symm
    next => exact hkeeps id q hq m hm

end Engine

namespace Clients

variable {x : Clients} {call execute : ClientCall} {c : Compiled} {s : CreateAsSelect}
  {query : QueryPlan} {q : RunningQuery} {m : Materialization}

/-- The call launches no query elsewhere than in memory. -/
def InMemory : ClientCall → Prop
  | .plan .. => True
  | .execute backend _ _ => backend = .memory

theorem keepsOwnRows_step (hkeeps : x.engine.KeepsOwnRows) (hcall : InMemory call) :
    (x.step call).engine.KeepsOwnRows := by
  cases call with
  | plan config statement text =>
    obtain ⟨number, heq⟩ := x.engine_step_plan config statement text
    exact heq ▸ hkeeps
  | execute backend config place =>
    obtain rfl : backend = .memory := hcall
    cases hplace : x.compiled[place]? with
    | none =>
      simp only [step, hplace]
      exact hkeeps
    | some c =>
      obtain ⟨result, next, hexecuted, heq⟩ :=
        Engine.execute_cases { x.engine with backend := .memory } config c.plan
      rw [engine_step_execute hplace, heq]
      exact hexecuted.keepsOwnRows rfl hkeeps

theorem keepsOwnRows_start (config : Settings) (home : Endpoint) (placement : Option Placement)
    (interceptors : List Interceptor) :
    (start config home placement interceptors).engine.KeepsOwnRows := by
  intro id q hq
  have hnone : none = some q := hq
  cases hnone

theorem keepsOwnRows_after (config : Settings) (home : Endpoint) (placement : Option Placement)
    (interceptors : List Interceptor) {calls : List ClientCall}
    (hcalls : ∀ call ∈ calls, InMemory call) :
    ((start config home placement interceptors).after calls).engine.KeepsOwnRows :=
  List.foldlRecOn (motive := (·.engine.KeepsOwnRows)) calls step
    (keepsOwnRows_start config home placement interceptors)
    fun _ hkeeps call hcall => keepsOwnRows_step hkeeps (hcalls call hcall)

/-- **A created entry answers its pull queries.** The query of a `CREATE ... AS SELECT` that creates
its sink is launched, everything in memory. After any calls that leave the kind and the schema of
the sink alone, if such a query is the only one that writes the sink, every pull query on it that is
planned can be bound. -/
theorem created_bindsPulls (config : Settings) (home : Endpoint) (placement : Option Placement)
    (interceptors : List Interceptor) {earlier later : List ClientCall} {pulling : Settings}
    (hmemory : ∀ call ∈ earlier ++ execute :: later, InMemory call) :
    let x := (start config home placement interceptors).after earlier
    let y := (x.step execute).after later
    x.Launches execute c → c.plan.query = some query →
    c.statement = .write (.createAsSelect s) →
    (s.ifNotExists = false ∨ x.engine.catalog.contains s.name = false) →
    (∀ part call, part ++ [call] <+: later →
      ¬((x.step execute).after part).Reshapes call s.name) →
    y.engine.registry.writers s.name = [q] → q.plan = query → q.materialization = some m →
    y.engine.BindsPulls pulling s.name := by
  intro x y hlaunches hquery hstatement hcreates hshapes hwriters hplan hstate
  have hy : y = (start config home placement interceptors).after (earlier ++ execute :: later) := by
    simp only [y, x, after, List.foldl_append, List.foldl_cons]
  -- The entry has the schema of the query, and so have the rows.
  obtain ⟨entry, hentry, -, hschema⟩ := hlaunches.creates hquery hstatement hcreates
  have hshape := shape?_after hshapes
  rw [Catalog.shape?, Catalog.shape?, hentry, Option.map_some, Option.map_eq_some_iff] at hshape
  obtain ⟨source, hsource, hsame⟩ := hshape
  have hrows : m.schema = q.schema := by
    have hkeeps : y.engine.KeepsOwnRows :=
      hy ▸ keepsOwnRows_after config home placement interceptors hmemory
    obtain ⟨⟨id, hq⟩, -⟩ := Registry.mem_writers_iff.1 (hwriters ▸ List.mem_singleton_self q)
    exact hkeeps id q hq m hstate
  have hagree : source.schema = m.schema :=
    calc source.schema = entry.schema := (Prod.mk.inj hsame).2
      _ = q.schema := by rw [hschema, RunningQuery.schema, hplan]
      _ = m.schema := hrows.symm
  have hname : source.name = s.name := by
    have hnamed : y.engine.catalog.Named := hy ▸ named config home placement interceptors _
    exact hnamed _ _ hsource
  exact Engine.bindsPulls_of_agrees hsource (hname.symm ▸ hwriters) hstate
    (hagree ▸ source.schema.agrees_self _)

end Clients

end StreamSql
