import StreamSql.Engine.Planning
import StreamSql.Proofs.Catalog.Links
import StreamSql.Proofs.Engine.QueryIds
import StreamSql.Proofs.Query.Destination

/-!
# What planning gives

Planning uses up numbers for query ids and leaves the rest of the engine alone (`plan_engine`). A
plan with a query is that of a statement that writes (`plannedQuery`): if its sink is an entry, then
one that the rows of the query can be written into, and the only command that comes with a query is
the creation of its sink (`creates_of_plan`).
-/

namespace StreamSql

/-- The kind of rows that the step writes into a sink. -/
def Step.writtenKind? : Step → Option SourceKind
  | .sink _ _ kind .. => some kind
  | _ => none

/-- The rows of the query can be written into the entry: they are of its kind, and their schema fits
into that of the entry. -/
structure QueryPlan.Suits (query : QueryPlan) (entry : Source) : Prop where
  kind : query.step.writtenKind? = some entry.kind
  schema : query.step.schema.fitsInto entry.schema = true

theorem LogicalPlan.lower_eq {logical : LogicalPlan} {destination : Destination}
    (h : logical.destination? = some destination) :
    logical.lower.schema = logical.schema ∧ logical.lower.writtenKind? = some logical.kind := by
  unfold LogicalPlan.destination? at h
  unfold LogicalPlan.lower
  split at h
  next stored hstored =>
    rw [hstored]
    exact ⟨rfl, rfl⟩
  · cases h

/-- If the plan has a command, it is a creation. -/
def Plan.Creates (plan : Plan) : Prop := ∀ command ∈ plan.command, ∃ c, command = .create c

theorem CreateSourceStatement.command_ok {s : CreateSourceStatement} {config : Settings}
    {creation : CreateSource} (h : s.command config = .ok creation) :
    s.keyFormat config = .ok creation.keyFormat ∧ creation.schema = s.schema ∧
      creation.ifNotExists = s.ifNotExists ∧ creation.orReplace = s.orReplace := by
  obtain ⟨_, hkeyFormat, h⟩ := bind_eq_ok_iff.1 h
  obtain ⟨_, -, h⟩ := bind_eq_ok_iff.1 h
  cases h
  exact ⟨hkeyFormat, rfl, rfl, rfl⟩

theorem DefinitionStatement.command_create_ok {s : CreateSourceStatement} {config : Settings}
    {command : CatalogCommand}
    (h : (DefinitionStatement.create s).command config = .ok command) :
    ∃ creation, s.command config = .ok creation ∧ command = .create creation := by
  cases hmade : s.command config with
  | error e => simp [DefinitionStatement.command, hmade] at h
  | ok creation =>
    refine ⟨creation, rfl, ?_⟩
    simpa [DefinitionStatement.command, hmade] using h.symm

namespace Engine

variable {engine : Engine} {config : Settings} {text : String} {plan : Plan}

theorem plan_engine (engine : Engine) (config : Settings) (statement : Statement) (text : String) :
    ∃ next, (engine.plan config statement text).2 = { engine with nextNumber := next } := by
  unfold Engine.plan
  split
  next result after heq =>
    split at heq
    · cases heq
      exact ⟨engine.nextNumber, rfl⟩
    · unfold planWrite at heq
      split at heq
      · cases heq
        exact ⟨engine.nextNumber, rfl⟩
      · cases heq
        exact ⟨engine.nextNumber, rfl⟩
      · cases heq
        exact ⟨_, rfl⟩
    · cases heq
      exact ⟨engine.nextNumber, rfl⟩

theorem plan_nextNumber (engine : Engine) (config : Settings) (statement : Statement)
    (text : String) :
    (engine.plan config statement text).2.nextNumber = engine.nextNumber ∨
      (engine.plan config statement text).2.nextNumber = engine.nextNumber + 1 := by
  cases statement with
  | write s =>
    simp only [Engine.plan, planWrite]
    split
    · exact .inl rfl
    · exact .inl rfl
    · exact QueryId.allocate_next _ _ _ _
  | _ => exact .inl rfl

theorem planDefinition_ok {statement : DefinitionStatement}
    (h : planDefinition config statement text = .ok plan) :
    ∃ command, statement.command config = .ok command ∧ plan = .ofCommand text command := by
  have hcommand : (do return Plan.ofCommand text (← reported (statement.command config))) =
      Except.ok plan := by
    unfold planDefinition at h
    split at h
    · obtain ⟨_, -, h⟩ := bind_eq_ok_iff.1 h
      obtain ⟨_, -, h⟩ := bind_eq_ok_iff.1 h
      exact h
    · exact h
  obtain ⟨command, hok, heq⟩ := bind_eq_ok_iff.1 hcommand
  exact ⟨command, reported_eq_ok_iff.1 hok, (Except.ok.inj heq).symm⟩

/-! ### Plans of queries -/

/-- How the plan of a query comes from its statement. -/
structure PlannedQuery (engine : Engine) (config : Settings) (statement : WriteStatement)
    (text : String) (logical : LogicalPlan) (plan : Plan) (query : QueryPlan) : Prop where
  text_eq : plan.statement = text
  logical_eq : statement.query.plan (some statement.sink) engine.catalog config = .ok logical
  allocated : QueryId.Allocated statement engine.registry engine.nextNumber query.id
    (engine.plan config (.write statement) text).2.nextNumber
  sources : query.sources = .ofList logical.sourceNames
  sink : query.sink = some statement.sink.name
  orReplace : query.orReplace = statement.orReplace
  schema : query.step.schema = logical.schema
  kind : query.step.writtenKind? = some logical.kind
  shape : ∀ s, statement = .createAsSelect s → s.kind = logical.kind
  /-- A key format that the statement names is enabled. -/
  asked : ∀ s, statement = .createAsSelect s → checkAskedFormat config s = .ok ()
  /-- The sink is created if the statement says so, and only then. -/
  command : ∃ destination : Destination, destination.into = statement.sink.name ∧
    plan.command = (if statement.sink.create then
        some (destination.command logical.kind logical.schema statement.ifNotExists)
      else none) ∧
    ∃ first, engine.catalog.get? statement.query.relation.first = some first ∧
      Analysis.destination statement.sink first engine.catalog config = .ok destination
  /-- Where `IF NOT EXISTS` finds the entry, there is no query. -/
  fresh : statement.ifNotExists = true → engine.catalog.get? statement.sink.name = none
  /-- What is not created has to be there. -/
  known : statement.sink.create = false → engine.catalog.contains statement.sink.name = true
  suits : ∀ entry, engine.catalog.get? statement.sink.name = some entry → query.Suits entry

theorem draftQuery_ok {statement : WriteStatement} {draft : Draft}
    (h : engine.draftQuery config statement = .ok draft) :
    ∃ logical, draft = .query logical ∧
      statement.query.plan (some statement.sink) engine.catalog config = .ok logical := by
  obtain ⟨logical, hlogical, heq⟩ := bind_eq_ok_iff.1 h
  exact ⟨logical, (Except.ok.inj heq).symm, reported_eq_ok_iff.1 hlogical⟩

theorem draft_ok {statement : WriteStatement} {logical : LogicalPlan}
    (h : engine.draft config statement = .ok (.query logical)) :
    statement.query.plan (some statement.sink) engine.catalog config = .ok logical ∧
      (statement.ifNotExists = true → engine.catalog.get? statement.sink.name = none) ∧
      ∀ s, statement = .createAsSelect s → checkAskedFormat config s = .ok () := by
  have hquery : engine.draftQuery config statement = .ok (.query logical) ∧
      (statement.ifNotExists = true → engine.catalog.get? statement.sink.name = none) ∧
      ∀ s, statement = .createAsSelect s → checkAskedFormat config s = .ok () := by
    unfold draft at h
    cases statement with
    | insertInto s =>
      refine ⟨h, nofun, fun _ hstatement => ?_⟩
      cases hstatement
    | createAsSelect s =>
      obtain ⟨⟨⟩, hchecked, h⟩ := bind_eq_ok_iff.1 h
      have hasked : ∀ t, WriteStatement.createAsSelect s = .createAsSelect t →
          checkAskedFormat config t = .ok () := by
        rintro _ ⟨⟩
        exact hchecked
      split at h
      next existing hexisting =>
        split at h
        · cases h
        next hskips => exact ⟨h, fun hskip => absurd hskip hskips, hasked⟩
      next hnone => exact ⟨h, fun _ => hnone, hasked⟩
  obtain ⟨found, heq, hplan⟩ := draftQuery_ok hquery.1
  cases heq
  exact ⟨hplan, hquery.2⟩

theorem draft_idle {statement : WriteStatement} {command : CatalogCommand}
    (h : engine.draft config statement = .ok (.idle command)) :
    ∃ s existing, statement = .createAsSelect s ∧ s.ifNotExists = true ∧
      engine.catalog.get? s.name = some existing ∧ command = s.idleCommand existing := by
  have hnever : engine.draftQuery config statement ≠ .ok (.idle command) := by
    intro hdraft
    obtain ⟨logical, heq, -⟩ := draftQuery_ok hdraft
    cases heq
  unfold draft at h
  cases statement with
  | insertInto s => exact absurd h hnever
  | createAsSelect s =>
    obtain ⟨_, -, h⟩ := bind_eq_ok_iff.1 h
    split at h
    next existing hexisting =>
      split at h
      next hskips =>
        cases h
        exact ⟨s, existing, rfl, hskips, hexisting, rfl⟩
      · exact absurd h hnever
    next => exact absurd h hnever

theorem checkSink_ok {logical : LogicalPlan} {existing : Source}
    (h : checkSink logical existing = .ok ()) :
    existing.kind = logical.kind ∧ logical.schema.fitsInto existing.schema = true := by
  unfold checkSink at h
  by_cases hkind : existing.kind = logical.kind
  · rw [if_neg (not_not.2 hkind)] at h
    cases hfits : logical.schema.fitsInto existing.schema with
    | true => exact ⟨hkind, rfl⟩
    | false =>
      rw [hfits] at h
      cases h
  · rw [if_pos hkind] at h
    cases h

theorem sinkCommand_ok {statement : WriteStatement} {logical : LogicalPlan} {sink : Destination}
    {command : Option CatalogCommand}
    (h : engine.sinkCommand statement logical sink = .ok command) :
    command = (if sink.create then
        some (sink.command logical.kind logical.schema statement.ifNotExists)
      else none) ∧
    (sink.create = false → engine.catalog.contains sink.into = true) ∧
    ∀ existing, engine.catalog.get? sink.into = some existing →
      existing.kind = logical.kind ∧ logical.schema.fitsInto existing.schema = true := by
  have hlast : ∀ {command}, (if sink.create then
        (return some (sink.command logical.kind logical.schema statement.ifNotExists))
      else return none) = Except.ok (ε := EngineError) command → command = if sink.create then
        some (sink.command logical.kind logical.schema statement.ifNotExists)
      else none := by
    intro command hlast
    cases hcreate : sink.create <;> rw [hcreate] at hlast <;> exact (Except.ok.inj hlast).symm
  simp only [sinkCommand] at h
  split at h
  next existing hexisting =>
    obtain ⟨_, hcheck, h⟩ := bind_eq_ok_iff.1 h
    refine ⟨hlast h, fun _ => ?_, fun other hother => ?_⟩
    · rw [Catalog.contains_eq, hexisting]
      rfl
    · obtain rfl := Option.some.inj (hexisting.symm.trans hother)
      exact checkSink_ok hcheck
  next hnone =>
    split at h
    · cases h
    next hcreate =>
      refine ⟨hlast h, fun hfalse => ?_, fun other hother => ?_⟩
      · rw [hfalse] at hcreate
        exact absurd rfl hcreate
      · cases hnone.symm.trans hother

theorem checkShape_ok {statement : WriteStatement} {kind : SourceKind} {s : CreateAsSelect}
    (h : checkShape statement kind = .ok ()) (hstatement : statement = .createAsSelect s) :
    s.kind = kind := by
  subst hstatement
  by_contra hkind
  rw [checkShape, if_pos hkind] at h
  cases h

theorem complete_eq {statement : WriteStatement} {logical : LogicalPlan} {id : QueryId}
    (h : engine.complete statement text logical id = .ok plan) :
    ∃ destination command, logical.destination? = some destination ∧
      engine.sinkCommand statement logical destination = .ok command ∧
      checkShape statement logical.kind = .ok () ∧
      plan = .ofQuery text command {
        sources := .ofList logical.sourceNames
        sink := some destination.into
        step := logical.lower
        id
        orReplace := statement.orReplace } := by
  simp only [complete] at h
  split at h
  · cases h
  · split at h
    · cases h
    next destination hdestination =>
      obtain ⟨command, hsink, h⟩ := bind_eq_ok_iff.1 h
      obtain ⟨_, hshape, h⟩ := bind_eq_ok_iff.1 h
      cases h
      exact ⟨destination, command, hdestination, reported_eq_ok_iff.1 hsink,
        reported_eq_ok_iff.1 hshape, rfl⟩

theorem planWrite_completes {statement : WriteStatement} {query : QueryPlan}
    (h : (engine.planWrite config statement text).1 = .ok plan) (hquery : plan.query = some query) :
    ∃ logical id, engine.draft config statement = .ok (.query logical) ∧
      (QueryId.allocate statement engine.registry config.createOrReplaceEnabled
        engine.nextNumber).1 = .ok id ∧
      engine.complete statement text logical id = .ok plan := by
  simp only [planWrite] at h
  split at h
  · cases h
  · cases h
    cases hquery
  next logical hdraft =>
    obtain ⟨id, hid, h⟩ := bind_eq_ok_iff.1 h
    exact ⟨logical, id, hdraft, reported_eq_ok_iff.1 hid, h⟩

theorem planWrite_ok {statement : WriteStatement} {query : QueryPlan}
    (h : (engine.planWrite config statement text).1 = .ok plan) (hquery : plan.query = some query) :
    ∃ logical, PlannedQuery engine config statement text logical plan query := by
  obtain ⟨logical, id, hdraft, hid, h⟩ := planWrite_completes h hquery
  have hnext : (engine.plan config (.write statement) text).2.nextNumber =
      (QueryId.allocate statement engine.registry config.createOrReplaceEnabled
        engine.nextNumber).2 := by
    simp only [Engine.plan, planWrite, hdraft]
  obtain ⟨hlogical, hfresh, hasked⟩ := draft_ok hdraft
  obtain ⟨destination, first, hdestination, hfirst, hformats⟩ := Query.plan_destination hlogical
  obtain ⟨hinto, hcreate⟩ := Analysis.destination_ok hformats
  obtain ⟨_, command, hsame, hsinkCommand, hshape, rfl⟩ := complete_eq h
  obtain rfl := Option.some.inj (hdestination.symm.trans hsame)
  obtain ⟨hcommand, hknown, hmatches⟩ := sinkCommand_ok hsinkCommand
  obtain ⟨hschema, hkind⟩ := LogicalPlan.lower_eq hdestination
  rw [hinto] at hknown hmatches
  rw [hcreate] at hcommand hknown
  cases hquery
  exact ⟨logical, {
    text_eq := rfl
    logical_eq := hlogical
    allocated := hnext ▸ QueryId.allocated hid
    sources := rfl
    sink := congrArg some hinto
    orReplace := rfl
    schema := hschema
    kind := hkind
    shape := fun s hs => checkShape_ok hshape hs
    asked := hasked
    command := ⟨destination, hinto, hcommand, first, hfirst, hformats⟩
    fresh := hfresh
    known := hknown
    suits := fun entry hentry => by
      obtain ⟨hentryKind, hfits⟩ := hmatches entry hentry
      exact ⟨hkind.trans (congrArg some hentryKind.symm), hschema.symm ▸ hfits⟩ }⟩

theorem planWrite_idle {statement : WriteStatement}
    (h : (engine.planWrite config statement text).1 = .ok plan) (hquery : plan.query = none) :
    ∃ s existing, statement = .createAsSelect s ∧ s.ifNotExists = true ∧
      engine.catalog.get? s.name = some existing ∧
        plan = .ofCommand text (s.idleCommand existing) := by
  simp only [planWrite] at h
  split at h
  · cases h
  next command hdraft =>
    obtain ⟨s, existing, hs, hskips, hexisting, rfl⟩ := draft_idle hdraft
    exact ⟨s, existing, hs, hskips, hexisting, (Except.ok.inj h).symm⟩
  next logical hdraft =>
    obtain ⟨id, -, h⟩ := bind_eq_ok_iff.1 h
    obtain ⟨_, _, -, -, -, rfl⟩ := complete_eq h
    cases hquery

/-- **A plan with a query is that of a statement that writes.** -/
theorem plannedQuery {statement : Statement} {query : QueryPlan}
    (h : (engine.plan config statement text).1 = .ok plan) (hquery : plan.query = some query) :
    ∃ write logical, statement = .write write ∧
      PlannedQuery engine config write text logical plan query := by
  simp only [Engine.plan] at h
  replace h := annotated_eq_ok_iff.1 h
  cases statement with
  | define s =>
    obtain ⟨command, -, rfl⟩ := planDefinition_ok h
    cases hquery
  | write s =>
    obtain ⟨logical, hplanned⟩ := planWrite_ok h hquery
    exact ⟨s, logical, rfl, hplanned⟩
  | _ => cases h

/-- What is planned of a statement that writes: nothing to launch where `IF NOT EXISTS` finds the
sink, and a query otherwise. -/
theorem plan_write {write : WriteStatement}
    (h : (engine.plan config (.write write) text).1 = .ok plan) :
    (∃ s existing, write = .createAsSelect s ∧ s.ifNotExists = true ∧
        engine.catalog.get? s.name = some existing ∧
          plan = .ofCommand text (s.idleCommand existing)) ∨
      ∃ logical query, plan.query = some query ∧
        PlannedQuery engine config write text logical plan query := by
  simp only [Engine.plan] at h
  replace h := annotated_eq_ok_iff.1 h
  cases hquery : plan.query with
  | none => exact .inl (planWrite_idle h hquery)
  | some query =>
    obtain ⟨logical, hplanned⟩ := planWrite_ok h hquery
    exact .inr ⟨logical, query, rfl, hplanned⟩

theorem creates_of_plan {statement : Statement}
    (h : (engine.plan config statement text).1 = .ok plan) (hquery : plan.query.isSome = true) :
    plan.Creates := by
  obtain ⟨query, hquery⟩ := Option.isSome_iff_exists.1 hquery
  obtain ⟨write, logical, rfl, hplanned⟩ := plannedQuery h hquery
  obtain ⟨destination, -, hcommand, -⟩ := hplanned.command
  intro command hmem
  rw [hcommand] at hmem
  split at hmem
  · exact ⟨_, (Option.some.inj hmem).symm⟩
  · cases hmem

end Engine

end StreamSql
