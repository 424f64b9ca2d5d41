import StreamSql.Proofs.Engine.Names

/-!
# What a `CREATE ... AS SELECT` does

A `CREATE ... AS SELECT` that is planned and executed at once creates its sink and launches the
query that fills it, and changes nothing else (`Filled`). With `IF NOT EXISTS` on a sink that is
there it does nothing at all (`createAsSelect_does`).
-/

namespace StreamSql

namespace Engine

variable {engine planned next : Engine} {planning executing config : Settings} {text : String}
  {plan : Plan} {report : ExecutionReport} {s : CreateAsSelect}

theorem executed_of_ok (h : engine.execute config plan = (.ok report, next)) :
    Executed engine config plan (.ok report, next) := by
  obtain ⟨result, after, hexecuted, heq⟩ := execute_cases engine config plan
  obtain ⟨hresult, rfl⟩ := Prod.mk.inj (heq.symm.trans h)
  rw [annotated_eq_ok_iff] at hresult
  exact hresult ▸ hexecuted

theorem launch_memory {query : QueryPlan} {running : RunningQuery} {registry : Registry}
    (hbackend : engine.backend = .memory)
    (h : engine.launch config query text = .ok (running, registry)) :
    engine.registry.Registered query running registry ∧ running.status = .running ∧
      running.materialization =
        if query.sink.isSome && query.step.schema.isKeyed then
          some (.empty query.step.schema config.materializationPartitions)
        else none := by
  have hregistered := Clients.registered_of_launch h
  obtain ⟨materialization, hstart, h⟩ := bind_eq_ok_iff.1 h
  rw [hbackend] at hstart
  obtain rfl := Registry.register_query (reported_eq_ok_iff.1 h)
  exact ⟨hregistered, rfl, (Except.ok.inj hstart).symm⟩

/-- The query `q` has been launched to fill the sink that the statement creates with rows of a
schema. -/
structure Filled (before after : Engine) (s : CreateAsSelect) (text : String) (rows : Schema)
    (partitions : Nat) (q : RunningQuery) : Prop where
  entry : ∃ entry, after.catalog.get? s.name = some entry ∧ entry.kind = s.kind ∧
    entry.schema = rows ∧ entry.statement = text ∧ entry.isQuerySink = true
  other_entries : ∀ name, name ≠ s.name → after.catalog.get? name = before.catalog.get? name
  /-- What the query names has the sink as a reader, and no other links have come or gone. -/
  links : ∀ feed reader, after.catalog.hasLink feed reader = true ↔
    before.catalog.hasLink feed reader = true ∨
      (reader = s.name ∧ feed ∈ s.query.relation.names ∧ feed ≠ s.name)
  sources : ∀ feed, q.plan.sources.contains feed = true ↔ feed ∈ s.query.relation.names
  sink : q.sink = some s.name
  schema : q.schema = rows
  status : q.status = .running
  materialization : q.materialization =
    if rows.isKeyed then some (.empty rows partitions) else none
  registered : ∀ id, after.registry.get? id = if id = q.id then some q else before.registry.get? id

theorem PlannedQuery.filled {logical : LogicalPlan} {query : QueryPlan} {change : Change}
    {catalog : Catalog} {destination : Destination} {running : RunningQuery} {registry : Registry}
    (h : PlannedQuery engine planning (.createAsSelect s) text logical plan query)
    (hnamed : engine.catalog.Named) (hinto : destination.into = s.name)
    (hcarried : Catalog.Carried engine.catalog
      (destination.command logical.kind logical.schema s.ifNotExists) text query.sources change
      catalog)
    (hregistered : engine.registry.Registered query running registry)
    (hstatus : running.status = .running)
    (hmaterialization : running.materialization =
      if query.sink.isSome && query.step.schema.isKeyed then
        some (.empty query.step.schema executing.materializationPartitions)
      else none)
    (hcatalog : next.catalog = catalog) (hregistry : next.registry = registry) :
    engine.Filled next s text logical.schema executing.materializationPartitions running := by
  have hsources : ∀ feed, query.sources.contains feed = true ↔
      feed ∈ s.query.relation.names := fun feed => by
    rw [h.sources, Query.sourceNames_eq h.logical_eq hnamed]
    exact (SortedSet.contains_iff_mem _ _).trans (SortedSet.mem_ofList _ _)
  have hid : running.id = query.id := congrArg QueryPlan.id hregistered.plan_eq
  subst hcatalog hregistry
  refine {
    entry := ⟨_, hinto ▸ hcarried.get?_create, (h.shape s rfl).symm, rfl, rfl, rfl⟩
    other_entries := fun name hne => ?_
    links := fun feed reader => ?_
    sources := hregistered.plan_eq ▸ hsources
    sink := (congrArg QueryPlan.sink hregistered.plan_eq).trans h.sink
    schema := (congrArg (·.step.schema) hregistered.plan_eq).trans h.schema
    status := hstatus
    materialization := ?_
    registered := hid ▸ hregistered.get? }
  · rw [hcarried.entries]
    exact if_neg fun heq => hne (heq.trans hinto)
  · rw [hcarried.hasLink_create, hsources]
    exact hinto ▸ Iff.rfl
  · rw [hmaterialization, h.sink, h.schema]
    rfl

theorem createAsSelect_ok (hbackend : engine.backend = .memory) (hnamed : engine.catalog.Named)
    (hplan : engine.plan planning (.write (.createAsSelect s)) text = (.ok plan, planned))
    (hexecute : planned.execute executing plan = (.ok report, next)) :
    if s.ifNotExists && engine.catalog.contains s.name then
      report.query = none ∧ next.catalog = engine.catalog ∧ next.registry = engine.registry
    else ∃ logical q,
      s.query.plan (some (WriteStatement.createAsSelect s).sink) engine.catalog planning =
        .ok logical ∧ report.query = some q ∧
      engine.Filled next s text logical.schema executing.materializationPartitions q := by
  obtain ⟨number, hengine⟩ := plan_engine engine planning (.write (.createAsSelect s)) text
  obtain rfl : { engine with nextNumber := number } = planned :=
    hengine.symm.trans (congrArg Prod.snd hplan)
  have hexecuted := executed_of_ok hexecute
  rcases plan_write (congrArg Prod.fst hplan) with
    ⟨_, existing, hs, hskips, hexisting, rfl⟩ | ⟨logical, query, hquery, hplanned⟩
  · cases hs
    have hthere : engine.catalog.contains s.name = true := by
      rw [Catalog.contains_eq, hexisting]
      rfl
    rw [if_pos (Bool.and_eq_true_iff.2 ⟨hskips, hthere⟩)]
    cases hexecuted with
    | launched _ hquery => cases hquery
    | commandOnly hcommanded =>
      refine ⟨rfl, ?_, rfl⟩
      cases hcommanded with
      | without hnone => cases hnone
      | accepted hcommand happly =>
        cases hcommand
        exact (Catalog.run_ok (Catalog.run_of_apply_ok happly)).eq_of_idle
          (Bool.and_eq_true_iff.2 ⟨hthere, rfl⟩)
  · have hcreates : s.ifNotExists = false ∨ engine.catalog.contains s.name = false := by
      rcases Bool.eq_false_or_eq_true s.ifNotExists with hskips | hskips
      · refine .inr ?_
        rw [Catalog.contains_eq]
        exact congrArg Option.isSome (hplanned.fresh hskips)
      · exact .inl hskips
    rw [if_neg (by simpa [Bool.and_eq_true_iff, imp_iff_not_or] using hcreates)]
    obtain ⟨destination, hinto, hcommand, -⟩ := hplanned.command
    cases hexecuted with
    | commandOnly _ hnone => cases hquery.symm.trans hnone
    | launched hcommanded hsame hlaunch =>
      cases hquery.symm.trans hsame
      obtain ⟨hregistered, hstatus, hmaterialization⟩ := launch_memory hbackend hlaunch
      cases hcommanded with
      | without hnone => cases hcommand.symm.trans hnone
      | accepted hsome happly =>
        cases hcommand.symm.trans hsome
        have hsources : plan.sources = query.sources := by rw [Plan.sources, hquery]
        rw [hplanned.text_eq, hsources] at happly
        have haccepted := Catalog.run_ok (Catalog.run_of_apply_ok happly)
        obtain ⟨change, hcarried⟩ := haccepted.carried_of_create (hinto ▸ hcreates)
        exact ⟨logical, _, hplanned.logical_eq, rfl, hplanned.filled hnamed hinto hcarried
          hregistered hstatus hmaterialization rfl rfl⟩

end Engine

namespace Clients

/-- **What a `CREATE ... AS SELECT` does that is planned and executed at once.** -/
theorem createAsSelect_does (config : Settings) (home : Endpoint) (placement : Option Placement)
    (interceptors : List Interceptor) (calls : List ClientCall) {planning executing : Settings}
    {s : CreateAsSelect} {text : String} {plan : Plan} {planned next : Engine}
    {report : ExecutionReport} :
    let engine :=
      { ((start config home placement interceptors).after calls).engine with backend := .memory }
    engine.plan planning (.write (.createAsSelect s)) text = (.ok plan, planned) →
    planned.execute executing plan = (.ok report, next) →
    if s.ifNotExists && engine.catalog.contains s.name then
      report.query = none ∧ next.catalog = engine.catalog ∧ next.registry = engine.registry
    else ∃ logical q,
      s.query.plan (some (WriteStatement.createAsSelect s).sink) engine.catalog planning =
        .ok logical ∧ report.query = some q ∧
      engine.Filled next s text logical.schema executing.materializationPartitions q :=
  fun hplan hexecute =>
    Engine.createAsSelect_ok rfl (named config home placement interceptors calls) hplan hexecute

end Clients

namespace Sample

/-- The engine of clients who have created the users. -/
def populated : Engine :=
  { ((Clients.start {} localhost none []).after (inTurn createUsers 0)).engine with
    backend := .memory }

end Sample

namespace Clients

/-- The view on the users is created, and a query without rows so far fills it. -/
theorem view_filled :
    ∃ plan planned report next logical q,
      Sample.populated.plan {} Sample.createView "CREATE ...;" = (.ok plan, planned) ∧
      planned.execute {} plan = (.ok report, next) ∧ report.query = some q ∧
      Sample.populated.Filled next
        (.plain "USERS_VIEW" .table (.selectAll (.source ⟨"USERS"⟩ none)))
        "CREATE ...;" (logical : LogicalPlan).schema 1 q := by
  obtain ⟨plan, planned, report, next, hplan, hexecute⟩ : ∃ plan planned report next,
      Sample.populated.plan {} Sample.createView "CREATE ...;" = (.ok plan, planned) ∧
        planned.execute {} plan = (.ok report, next) := ⟨_, _, _, _, rfl, rfl⟩
  have hdoes := createAsSelect_does {} Sample.localhost none [] (Sample.inTurn Sample.createUsers 0)
    hplan hexecute
  rw [if_neg (by decide)] at hdoes
  obtain ⟨logical, q, -, hquery, hfilled⟩ := hdoes
  exact ⟨plan, planned, report, next, logical, q, hplan, hexecute, hquery, hfilled⟩

end Clients

end StreamSql
