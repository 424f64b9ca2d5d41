import StreamSql.Proofs.Engine.CreateAsSelect
import StreamSql.Proofs.Engine.FreshIds
import StreamSql.Proofs.Engine.Run
import StreamSql.Proofs.Engine.Writers

/-!
# Replacement that is disabled

A session may disable that statements replace what is there. Then no query of a statement that asks
for no id takes the place of a running one (`QueryId.Request.asked_or_new`), and that is all: a
statement that says `OR REPLACE` overwrites its entry all the same, and takes the place of the query
whose id it asks for (`Engine.disabled_replacement_iff`).
-/

namespace StreamSql

namespace Statement

/-- Whether the statement says `OR REPLACE`. -/
def orReplace : Statement → Bool
  | define (.create s) => s.orReplace
  | write w => w.orReplace
  | _ => false

/-- Whether the statement says `IF NOT EXISTS`. -/
def ifNotExists : Statement → Bool
  | define (.create s) => s.ifNotExists
  | write w => w.ifNotExists
  | _ => false

end Statement

theorem Analysis.destination_orReplace {sink : Sink} {first : Source} {catalog : Catalog}
    {config : Settings} {destination : Destination}
    (h : Analysis.destination sink first catalog config = .ok destination)
    (hcreate : sink.create = true) : destination.orReplace = sink.orReplace := by
  unfold Analysis.destination at h
  rw [if_pos hcreate] at h
  obtain ⟨_, -, h⟩ := bind_eq_ok_iff.1 h
  obtain ⟨_, -, h⟩ := bind_eq_ok_iff.1 h
  cases h
  rfl

namespace Engine

variable {engine next : Engine} {config planning executing : Settings} {statement : Statement}
  {text : String} {plan : Plan} {c : CreateSource} {query : QueryPlan}

/-! ### What the plan takes over from its statement -/

theorem creation_of_plan (h : (engine.plan config statement text).1 = .ok plan)
    (hcommand : plan.command = some (.create c)) :
    plan.statement = text ∧ c.ifNotExists = statement.ifNotExists ∧
      (c.ifNotExists = false → c.orReplace = statement.orReplace) := by
  cases statement with
  | define definition =>
    simp only [Engine.plan] at h
    obtain ⟨command, hok, rfl⟩ := planDefinition_ok (annotated_eq_ok_iff.1 h)
    cases hcommand
    cases definition with
    | create s =>
      obtain ⟨creation, hmade, hcreates⟩ := DefinitionStatement.command_create_ok hok
      cases hcreates
      obtain ⟨-, -, hskips, hreplaces⟩ := CreateSourceStatement.command_ok hmade
      exact ⟨rfl, hskips, fun _ => hreplaces⟩
    | drop s => cases hok
    | alter s => cases hok
  | write write =>
    rcases plan_write h with ⟨s, existing, rfl, hskips, -, rfl⟩ | ⟨logical, query, -, hplanned⟩
    · cases hcommand
      exact ⟨rfl, hskips.symm, fun hbusy => by cases hbusy⟩
    · obtain ⟨destination, -, hplan, first, -, hdestination⟩ := hplanned.command
      rw [hcommand] at hplan
      split at hplan
      next hcreate =>
        cases hplan
        have hreplaces := Analysis.destination_orReplace hdestination hcreate
        cases write with
        | createAsSelect s => exact ⟨hplanned.text_eq, rfl, fun _ => hreplaces⟩
        | insertInto s => cases hcreate
      · cases hplan
  | _ =>
    simp only [Engine.plan] at h
    cases annotated_eq_ok_iff.1 h

theorem answer_of_plan {write : WriteStatement}
    (h : (engine.plan config (.write write) text).1 = .ok plan) (hquery : plan.query = some query) :
    ((QueryId.Request.mk write engine.registry config.createOrReplaceEnabled).answer
      engine.nextNumber).1 = .ok query.id := by
  simp only [Engine.plan] at h
  replace h := annotated_eq_ok_iff.1 h
  simp only [planWrite] at h
  split at h
  · cases h
  · cases h
    cases hquery
  · obtain ⟨id, hid, h⟩ := bind_eq_ok_iff.1 h
    obtain ⟨_, _, -, -, -, rfl⟩ := complete_eq h
    cases hquery
    exact reported_eq_ok_iff.1 hid

/-! ### What an execution replaces -/

/-- The creation of the plan puts another entry in the place of one that was there. -/
def Overwrites (engine next : Engine) (plan : Plan) : Prop :=
  ∃ c entry, plan.command = some (.create c) ∧ engine.catalog.get? c.name = some entry ∧
    next.catalog.get? c.name ≠ some entry

/-- A query that was running has been terminated. -/
def Terminates (engine next : Engine) (q : RunningQuery) : Prop :=
  q ∈ engine.registry.queries ∧ next.registry.retired = q.terminate :: engine.registry.retired

/-- The execution of a plan succeeds. -/
def Succeeds (engine : Engine) (config : Settings) (plan : Plan) : Prop :=
  ∃ report, (engine.execute config plan).1 = .ok report

theorem execute_of_not_succeeds (hpruned : engine.catalog.Pruned) (hcreates : plan.Creates)
    (h : ¬engine.Succeeds executing plan) : (engine.execute executing plan).2 = engine := by
  cases hresult : (engine.execute executing plan).1 with
  | ok report => exact absurd ⟨report, hresult⟩ h
  | error d =>
    refine execute_error hpruned (fun command hcommand => ?_) hresult
    obtain ⟨c, rfl⟩ := hcreates command hcommand
    exact Catalog.not_removesStranded_create c

theorem Succeeds.accepted (h : engine.Succeeds executing plan)
    (hcommand : plan.command = some (.create c)) :
    ∃ outcome, Catalog.Accepted engine.catalog (.create c) plan.statement plan.sources outcome ∧
      (engine.execute executing plan).2.catalog = outcome.catalog := by
  obtain ⟨report, hreport⟩ := h
  have hexecuted : Executed engine executing plan (.ok report, (engine.execute executing plan).2) :=
    executed_of_ok (Prod.ext hreport rfl)
  have hcommanded : ∃ applied, Commanded engine plan
      (.ok applied, (engine.execute executing plan).2.catalog) := by
    generalize (engine.execute executing plan).2 = next at hexecuted
    cases hexecuted with
    | commandOnly hcommanded => exact ⟨_, hcommanded⟩
    | launched hcommanded => exact ⟨_, hcommanded⟩
  obtain ⟨applied, hcommanded⟩ := hcommanded
  generalize (engine.execute executing plan).2.catalog = catalog at hcommanded ⊢
  cases hcommanded with
  | without hnone => cases hnone.symm.trans hcommand
  | accepted hsome happly =>
    cases hsome.symm.trans hcommand
    exact ⟨_, Catalog.run_ok (Catalog.run_of_apply_ok happly), rfl⟩

/-- **A plan overwrites an entry** exactly if its execution succeeds and its creation says
`OR REPLACE`, is not skipped, and gives an entry that was there another form. -/
theorem overwrites_iff (hpruned : engine.catalog.Pruned) :
    Overwrites engine (engine.execute executing plan).2 plan ↔
      engine.Succeeds executing plan ∧ ∃ c entry, plan.command = some (.create c) ∧
        engine.catalog.get? c.name = some entry ∧ c.orReplace = true ∧ c.ifNotExists = false ∧
          c.source plan.statement ≠ entry := by
  constructor
  · rintro ⟨c, entry, hcommand, hget, hchanged⟩
    have hcreates : plan.Creates := fun command hmem => by
      rw [hcommand] at hmem
      exact ⟨c, (Option.some.inj hmem).symm⟩
    have hsucceeds : engine.Succeeds executing plan := by
      by_contra hfails
      rw [execute_of_not_succeeds hpruned hcreates hfails] at hchanged
      exact hchanged hget
    obtain ⟨outcome, haccepted, hcatalog⟩ := hsucceeds.accepted hcommand
    rw [hcatalog] at hchanged
    cases haccepted with
    | idle => exact absurd hget hchanged
    | carried _ _ hcarried =>
      obtain ⟨hskips, hreplaces, -⟩ := hcarried.admits entry hget
      rw [hcarried.get?_create] at hchanged
      exact ⟨hsucceeds, c, entry, hcommand, hget, hreplaces, hskips,
        fun heq => hchanged (congrArg some heq)⟩
  · rintro ⟨hsucceeds, c, entry, hcommand, hget, -, hskips, hother⟩
    obtain ⟨outcome, haccepted, hcatalog⟩ := hsucceeds.accepted hcommand
    obtain ⟨change, hcarried⟩ := haccepted.carried_of_create (.inl hskips)
    refine ⟨c, entry, hcommand, hget, ?_⟩
    rw [hcatalog, hcarried.get?_create]
    exact fun heq => hother (Option.some.inj heq)

/-- **A plan terminates a query** exactly if its execution succeeds and its own query may take the
place of one with the same id. -/
theorem terminates_iff :
    (∃ q, Terminates engine (engine.execute executing plan).2 q) ↔
      engine.Succeeds executing plan ∧ ∃ query, plan.query = some query ∧
        query.orReplace = true ∧ engine.registry.contains query.id = true := by
  obtain ⟨result, next, hexecuted, heq⟩ := execute_cases engine executing plan
  constructor
  · rintro ⟨q, -, hretired⟩
    rw [heq] at hretired
    cases hexecuted with
    | refused | commandOnly | failed => exact absurd hretired.symm (List.cons_ne_self _ _)
    | @launched _ _ query _ _ _ hquery hlaunch =>
      have hregistered := Clients.registered_of_launch hlaunch
      have hthere : engine.registry.contains query.id = true := by
        by_contra hnone
        have hget : engine.registry.get? query.id = none := Option.not_isSome_iff_eq_none.1 hnone
        have hsame := hregistered.retired.symm.trans hretired
        rw [hget] at hsame
        exact List.cons_ne_self _ _ hsame.symm
      refine ⟨⟨_, congrArg Prod.fst heq⟩, query, hquery, hregistered.replaces hthere, hthere⟩
  · rintro ⟨⟨report, hreport⟩, query, hquery, -, hthere⟩
    rw [heq] at hreport ⊢
    rw [annotated_eq_ok_iff] at hreport
    subst hreport
    cases hexecuted with
    | commandOnly _ hnone => cases hnone.symm.trans hquery
    | launched _ hsame hlaunch =>
      cases hsame.symm.trans hquery
      obtain ⟨q, hq⟩ := Option.isSome_iff_exists.1 hthere
      refine ⟨q, Registry.mem_queries_iff.2 ⟨_, hq⟩, ?_⟩
      rw [(Clients.registered_of_launch hlaunch).retired, Registry.get?, hq]
      rfl

/-- **What a session still replaces that disables replacement.** The execution of a plan that such a
session has just made overwrites an entry exactly if it succeeds and the statement says `OR REPLACE`
of an entry that is there, and it terminates a query exactly if it succeeds, the statement says
`OR REPLACE` and a query with the id of the plan is running. That id is never taken over from a
running query: the statement asks for it, or it is the next new one and no query writes the sink. -/
theorem disabled_replacement_iff (config executing : Settings) (home : Endpoint)
    (placement : Option Placement) (events : List Event)
    (hdisabled : planning.createOrReplaceEnabled = false) :
    let engine := (Engine.new config home placement).after events
    let planned := (engine.plan planning statement text).2
    let next := (planned.execute executing plan).2
    (engine.plan planning statement text).1 = .ok plan →
    (Overwrites planned next plan ↔
      planned.Succeeds executing plan ∧ statement.orReplace = true ∧
        statement.ifNotExists = false ∧ ∃ c entry, plan.command = some (.create c) ∧
          engine.catalog.get? c.name = some entry ∧ c.source text ≠ entry) ∧
    ((∃ q, Terminates planned next q) ↔
      planned.Succeeds executing plan ∧ statement.orReplace = true ∧
        ∃ query, plan.query = some query ∧ engine.registry.contains query.id = true) ∧
    ∀ query, plan.query = some query → ∃ write, statement = .write write ∧
      let request : QueryId.Request := ⟨write, engine.registry, false⟩
      QueryId.AskedBy write query.id ∨
        request.isNew = true ∧ query.id = request.newId engine.nextNumber := by
  intro engine planned next hplan
  obtain ⟨number, hplanned⟩ := plan_engine engine planning statement text
  have hcatalog : planned.catalog = engine.catalog := congrArg (·.catalog) hplanned
  have hregistry : planned.registry = engine.registry := congrArg (·.registry) hplanned
  have hpruned : planned.catalog.Pruned := hcatalog ▸ pruned_after config home placement events
  refine ⟨?_, ?_, fun query hquery => ?_⟩
  · rw [overwrites_iff hpruned, hcatalog]
    refine and_congr_right fun _ => ?_
    constructor
    · rintro ⟨c, entry, hcommand, hget, hreplaces, hskips, hother⟩
      obtain ⟨htext, hsame, hflag⟩ := creation_of_plan hplan hcommand
      exact ⟨hflag hskips ▸ hreplaces, hsame ▸ hskips, c, entry, hcommand, hget, htext ▸ hother⟩
    · rintro ⟨hreplaces, hskips, c, entry, hcommand, hget, hother⟩
      obtain ⟨htext, hsame, hflag⟩ := creation_of_plan hplan hcommand
      rw [← hsame] at hskips
      exact ⟨c, entry, hcommand, hget, (hflag hskips).trans hreplaces, hskips, htext ▸ hother⟩
  · rw [terminates_iff, hregistry]
    refine and_congr_right fun _ => ?_
    constructor
    · rintro ⟨query, hquery, hreplaces, hthere⟩
      obtain ⟨write, logical, rfl, hwrite⟩ := plannedQuery hplan hquery
      exact ⟨hwrite.orReplace.symm.trans hreplaces, query, hquery, hthere⟩
    · rintro ⟨hreplaces, query, hquery, hthere⟩
      obtain ⟨write, logical, rfl, hwrite⟩ := plannedQuery hplan hquery
      exact ⟨query, hquery, hwrite.orReplace.trans hreplaces, hthere⟩
  · obtain ⟨write, logical, rfl, -⟩ := plannedQuery hplan hquery
    have hanswer := answer_of_plan hplan hquery
    rw [hdisabled] at hanswer
    exact ⟨write, rfl, QueryId.Request.asked_or_new rfl hanswer⟩

end Engine

namespace Sample

/-- Plans a statement and executes the plan, as events on the engine. -/
def executed (engine : Engine) (statement : Statement) : List Engine.Event :=
  match (engine.plan {} statement "CREATE ...;").1 with
  | .ok plan => [.plan {} statement "CREATE ...;", .execute {} plan]
  | .error _ => []

/-- What happens until the users are there. -/
def usersCreated : List Engine.Event := executed (.new {} localhost none) createUsers

/-- What happens until there is a view on the users too, whose query has the id `A`. -/
def viewCreated : List Engine.Event :=
  usersCreated ++
    executed ((Engine.new {} localhost none).after usersCreated) (copyUsers "V" (some "A") false)

/-- The settings of a session that disables replacement. -/
def withoutReplacement : Settings := { createOrReplaceEnabled := false }

/-- `CREATE OR REPLACE TABLE USERS (ID BIGINT KEY)`. -/
def replaceUsers : Statement :=
  .define (.create {
    name := ⟨"USERS"⟩
    kind := .table
    elements := [⟨"ID", .int8, true⟩]
    orReplace := true })

end Sample

namespace Engine

/-- A new view on the users replaces nothing, although its statement says `OR REPLACE`. -/
theorem new_view_replaces_nothing :
    let engine := (Engine.new {} Sample.localhost none).after Sample.usersCreated
    let statement := Sample.copyUsers "V" none true
    let planned := (engine.plan Sample.withoutReplacement statement "CREATE ...;").2
    ∃ plan, (engine.plan Sample.withoutReplacement statement "CREATE ...;").1 = .ok plan ∧
      ¬Overwrites planned (planned.execute {} plan).2 plan ∧
      ¬∃ q, Terminates planned (planned.execute {} plan).2 q := by
  intro engine statement planned
  obtain ⟨plan, hplan, hcommand⟩ : ∃ plan,
      (engine.plan Sample.withoutReplacement statement "CREATE ...;").1 = .ok plan ∧
        plan.command.map (·.name) = some ⟨"V"⟩ := ⟨_, rfl, rfl⟩
  obtain ⟨hoverwrites, hterminates, -⟩ := disabled_replacement_iff {} {} Sample.localhost none
    Sample.usersCreated (by rfl) hplan
  refine ⟨plan, hplan, fun h => ?_, fun h => ?_⟩
  · obtain ⟨-, -, -, c, entry, hc, hentry, -⟩ := hoverwrites.1 h
    rw [hc] at hcommand
    rw [show c.name = ⟨"V"⟩ from Option.some.inj hcommand] at hentry
    cases hentry
  · -- no query is running yet
    obtain ⟨-, -, query, -, hthere⟩ := hterminates.1 h
    obtain ⟨q, hq⟩ :=
      Option.isSome_iff_exists.1 (show (engine.registry.get? query.id).isSome = true from hthere)
    exact absurd (Registry.mem_queries_iff.2 ⟨_, hq⟩)
      (show q ∉ engine.registry.queries from List.not_mem_nil)

/-- A session that disables replacement replaces the table of users, and a running query whose id it
asks for. -/
theorem replaced_though_disabled :
    let users := (Engine.new {} Sample.localhost none).after Sample.usersCreated
    let view := (Engine.new {} Sample.localhost none).after Sample.viewCreated
    let after (engine : Engine) (statement : Statement) (plan : Plan) : Engine :=
      ((engine.plan Sample.withoutReplacement statement "CREATE ...;").2.execute
        Sample.withoutReplacement plan).2
    (∃ plan, (users.plan Sample.withoutReplacement Sample.replaceUsers "CREATE ...;").1 =
        .ok plan ∧ Overwrites users (after users Sample.replaceUsers plan) plan) ∧
      ∃ plan, (view.plan Sample.withoutReplacement (Sample.copyUsers "V" (some "A") true)
          "CREATE ...;").1 = .ok plan ∧
        ∃ q, Terminates view (after view (Sample.copyUsers "V" (some "A") true) plan) q := by
  intro users view after
  refine ⟨⟨_, rfl, _, _, rfl, rfl, fun h => ?_⟩, _, rfl, _,
    Registry.mem_queries_iff.2 ⟨⟨"A"⟩, rfl⟩, rfl⟩
  have hwidth := congrArg (·.map (·.schema.columns.length)) h
  exact absurd hwidth (by decide)

end Engine

end StreamSql
