import StreamSql.Proofs.Engine.Clients

/-!
# The feeds of running queries

The catalog does not know which queries run. What keeps an entry from being dropped under a query is
its record of readers: the creation of a sink that comes with a query records the sink as a reader
of what the query reads (`Connects.guards`), and the record stays as long as the sink does
(`Guards.step`, `Guards.after`). So the feeds of a `CREATE ... AS SELECT` are safe while the sink is
there (`drop_of_feed_refused`). Queries that are launched without the creation of a sink, or whose
sink is dropped or read by themselves, have no such record (`feeds_dropped`).
-/

namespace StreamSql

/-! ### Links that stay -/

namespace Catalog

variable {catalog : Catalog} {command : CatalogCommand} {statement : String}
  {feeds : SortedSet SourceName} {outcome : Outcome} {feed reader : SourceName}

theorem Accepted.hasLink_revert (h : Accepted catalog command statement feeds outcome)
    (hlink : catalog.hasLink feed reader = true)
    (hkept : catalog.contains feed = true ∨ ∃ c, command = .create c) :
    (outcome.catalog.revert outcome.applied).hasLink feed reader = true := by
  cases h with
  | idle => exact hlink
  | carried _ _ hcarried =>
    refine (hcarried.hasLink_undo feed reader).2 ⟨hlink, fun _ hunlinked => ?_⟩
    rcases hkept with hfeed | ⟨c, rfl⟩
    · exact hfeed
    · obtain ⟨_, hdrop⟩ := hcarried.drop_of_unlinked hunlinked
      cases hdrop

theorem Accepted.contains_revert (h : Accepted catalog command statement feeds outcome)
    (name : SourceName) :
    (outcome.catalog.revert outcome.applied).contains name = catalog.contains name := by
  cases h with
  | idle => rfl
  | carried _ _ hcarried =>
    rw [contains_eq, contains_eq]
    exact congrArg Option.isSome (hcarried.get?_undo name)

theorem Accepted.hasLink_of_create {c : CreateSource}
    (h : Accepted catalog (.create c) statement feeds outcome)
    (hcreates : c.ifNotExists = false ∨ catalog.contains c.name = false)
    (hfeed : feeds.contains feed = true) (hother : feed ≠ c.name) :
    outcome.catalog.hasLink feed c.name = true ∧
      (catalog.contains feed = true → outcome.catalog.contains feed = true) := by
  obtain ⟨change, hcarried⟩ := h.carried_of_create hcreates
  refine ⟨(hcarried.own_links feed).2 (.inr ⟨hfeed, hother⟩), fun hthere => ?_⟩
  have hsame := hcarried.entries feed
  rw [if_neg (show feed ≠ (CatalogCommand.create c).name from hother)] at hsame
  rw [contains_eq] at hthere ⊢
  rwa [hsame]

/-- The reader is recorded at the feed, and the feed is an entry if anybody may object to
commands. -/
def Guarded (catalog : Catalog) (interceptors : List Interceptor) (feed reader : SourceName) :
    Prop :=
  catalog.hasLink feed reader = true ∧ (interceptors = [] ∨ catalog.contains feed = true)

variable {interceptors : List Interceptor}

theorem Guarded.accepted (h : catalog.Guarded interceptors feed reader)
    (haccepted : Accepted catalog command statement feeds outcome)
    (hreader : outcome.catalog.contains reader = true) :
    outcome.catalog.Guarded interceptors feed reader :=
  ⟨haccepted.hasLink_of_contains h.1 hreader, h.2.imp_right (haccepted.contains_of_read h.1)⟩

theorem Guarded.revert (h : catalog.Guarded interceptors feed reader)
    (haccepted : Accepted catalog command statement feeds outcome)
    (hkept : catalog.contains feed = true ∨ ∃ c, command = .create c) :
    (outcome.catalog.revert outcome.applied).Guarded interceptors feed reader :=
  ⟨haccepted.hasLink_revert h.1 hkept, h.2.imp_right (haccepted.contains_revert feed).trans⟩

theorem Guarded.apply (h : catalog.Guarded interceptors feed reader)
    (hreader : (catalog.apply interceptors command statement feeds).2.contains reader = true) :
    (catalog.apply interceptors command statement feeds).2.Guarded interceptors feed reader := by
  rcases apply_cases catalog interceptors command statement feeds with
    ⟨e, -, happly⟩ | ⟨outcome, objection, hrun, happly⟩ | ⟨outcome, hrun, happly⟩
  · rw [happly]
    exact h
  · rw [happly]
    rcases h.2 with hnobody | hfeed
    · subst hnobody
      simp only [Catalog.apply, hrun, List.findSome?_nil] at happly
      cases happly
    · exact h.revert (run_ok hrun) (.inl hfeed)
  · rw [happly] at hreader ⊢
    exact h.accepted (run_ok hrun) hreader

theorem drop_of_hasLink (hlink : catalog.hasLink feed reader = true)
    (hfeed : catalog.contains feed = true) {c : DropSource} (hname : c.name = feed) :
    ∃ e, catalog.drop c = .error e ∧ ∀ existing, catalog.get? feed = some existing →
      existing.kind = c.kind → e = .referenced feed (catalog.readersOf feed).toList := by
  subst hname
  rw [contains_eq] at hfeed
  obtain ⟨existing, hget⟩ := Option.isSome_iff_exists.1 hfeed
  have hread : (catalog.readersOf c.name).isEmpty = false := by
    rw [← Bool.not_eq_true, SortedSet.isEmpty_iff]
    intro hnone
    rw [hasLink, hnone] at hlink
    cases hlink
  unfold drop
  simp only [hget, hread]
  by_cases hkind : existing.kind = c.kind
  · refine ⟨.referenced c.name (catalog.readersOf c.name).toList, ?_, fun _ _ _ => rfl⟩
    rw [if_neg (not_not.2 hkind)]
    rfl
  · refine ⟨.kindMismatch c.name existing.kind c.kind "DROP", ?_, ?_⟩
    · rw [if_pos hkind]
      rfl
    · rintro _ ⟨⟩ hsame
      exact absurd hsame hkind

end Catalog

namespace Engine

variable {engine : Engine} {config : Settings} {plan : Plan} {feed reader : SourceName}

theorem Commanded.guarded {result : Except Diagnostic (Option Applied)} {catalog : Catalog}
    (h : Commanded engine plan (result, catalog))
    (hguarded : engine.catalog.Guarded engine.interceptors feed reader)
    (hreader : catalog.contains reader = true) :
    catalog.Guarded engine.interceptors feed reader := by
  cases h with
  | without => exact hguarded
  | refused _ happly | accepted _ happly =>
    obtain rfl : _ = catalog := congrArg Prod.snd happly
    exact hguarded.apply hreader

theorem Executed.guarded {result : Except Diagnostic ExecutionReport} {next : Engine}
    (h : Executed engine config plan (result, next))
    (hguarded : engine.catalog.Guarded engine.interceptors feed reader)
    (hcreates : plan.query.isSome = true → plan.Creates)
    (hreader : next.catalog.contains reader = true) :
    next.catalog.Guarded next.interceptors feed reader := by
  cases h with
  | refused hcommanded | commandOnly hcommanded | launched hcommanded =>
    exact hcommanded.guarded hguarded hreader
  | failed hcommanded hquery =>
    cases hcommanded with
    | without => exact hguarded
    | accepted hcommand happly =>
      have haccepted := Catalog.run_ok (Catalog.run_of_apply_ok happly)
      have hcreation := hcreates (by rw [hquery]; rfl) _ hcommand
      exact hguarded.revert haccepted (.inr hcreation)

theorem execute_refused {c : DropSource} {e : CatalogError}
    (hcommand : plan.command = some (.drop c))
    (hdrop : engine.catalog.drop c = .error e) :
    engine.execute config plan =
      (.error ((diagnostic e).withStatement plan.statement), engine) := by
  have hrun : engine.catalog.run (.drop c) plan.statement plan.sources = .error e := hdrop
  have happly : engine.applyCommand plan = (.error (diagnostic e), engine.catalog) := by
    simp only [applyCommand, hcommand, Catalog.apply, hrun]
    rfl
  simp only [execute, executePlan, happly]
  rfl

end Engine

/-! ### Queries that were launched -/

namespace Clients

variable {x : Clients} {call : ClientCall} {c : Compiled} {s : CreateAsSelect} {query : QueryPlan}
  {feed reader : SourceName}

/-- The feed is recorded as being read in the engine of the clients. -/
def Guards (x : Clients) (feed reader : SourceName) : Prop :=
  x.engine.catalog.Guarded x.engine.interceptors feed reader

theorem interceptors_step (x : Clients) (call : ClientCall) :
    (x.step call).engine.interceptors = x.engine.interceptors := by
  have hstepped := x.stepped call
  generalize x.step call = next at hstepped
  cases hstepped with
  | planned c hengine =>
    obtain ⟨number, heq⟩ := Engine.plan_engine c.engine c.config c.statement c.text
    rw [heq, hengine]
  | refused config statement text =>
    obtain ⟨number, heq⟩ := Engine.plan_engine x.engine config statement text
    rw [heq]
  | missing | launched => rfl
  | unlaunched _ hexecuted _ => cases hexecuted <;> rfl

theorem Guards.step (h : x.Guards feed reader) (call : ClientCall)
    (hreader : (x.step call).engine.catalog.contains reader = true) :
    (x.step call).Guards feed reader := by
  have hstepped := x.stepped call
  generalize x.step call = next at hstepped hreader
  cases hstepped with
  | planned c hengine =>
    obtain ⟨number, heq⟩ := Engine.plan_engine c.engine c.config c.statement c.text
    rw [heq, hengine]
    exact h
  | refused config statement text =>
    obtain ⟨number, heq⟩ := Engine.plan_engine x.engine config statement text
    rw [heq]
    exact h
  | missing => exact h
  | @unlaunched _ _ _ c _ _ _ hexecuted _ =>
    exact hexecuted.guarded h (Engine.creates_of_plan c.planned) hreader
  | launched _ _ hcommanded => exact hcommanded.guarded h hreader

theorem Guards.after (h : x.Guards feed reader) {calls : List ClientCall}
    (hreader : ∀ part, part <+: calls → (x.after part).engine.catalog.contains reader = true) :
    (x.after calls).Guards feed reader := by
  induction calls generalizing x with
  | nil => exact h
  | cons call rest ih =>
    have hnext := h.step call (hreader [call] ⟨rest, rfl⟩)
    exact ih hnext fun part hpart => hreader (call :: part) ((List.prefix_cons_inj call).2 hpart)

/-- The call launches the query of a `CREATE ... AS SELECT` that reads the feed and has not found
its sink there already with nothing to create. -/
def Connects (x : Clients) (call : ClientCall) (feed sink : SourceName) : Prop :=
  ∃ c s query, x.Launches call c ∧ c.statement = .write (.createAsSelect s) ∧ s.name = sink ∧
    c.plan.query = some query ∧ query.sources.contains feed = true ∧
    (s.ifNotExists = false ∨ x.engine.catalog.contains sink = false)

theorem Connects.guards {sink : SourceName} (h : x.Connects call feed sink) (hother : feed ≠ sink)
    (hthere : x.engine.interceptors = [] ∨ x.engine.catalog.contains feed = true) :
    (x.step call).Guards feed sink := by
  obtain ⟨c, s, query, hlaunches, hstatement, rfl, hquery, hfeed, hcreates⟩ := h
  obtain ⟨creation, hcreation, hname, hskips⟩ := Compiled.command_eq hquery hstatement
  obtain ⟨-, -, -, -, -, backend, applied, hcommanded⟩ := hlaunches.does
  have hinterceptors := x.interceptors_step call
  unfold Guards
  rw [hinterceptors]
  generalize (x.step call).engine.catalog = catalog at hcommanded
  have hsources : c.plan.sources = query.sources := by simp [Plan.sources, hquery]
  rw [← hname] at hcreates hother ⊢
  rw [← hskips] at hcreates
  cases hcommanded with
  | without hnone => cases hcreation.symm.trans hnone
  | accepted hcommand happly =>
    cases hcreation.symm.trans hcommand
    have haccepted := Catalog.run_ok (Catalog.run_of_apply_ok happly)
    have hlink := haccepted.hasLink_of_create hcreates (hsources ▸ hfeed) hother
    exact ⟨hlink.1, hthere.imp_right hlink.2⟩

/-- **No feed is dropped under the query of a `CREATE ... AS SELECT`**, as long as the sink that it
has created is there. -/
theorem drop_of_feed_refused {sink : SourceName} (hconnects : x.Connects call feed sink)
    (hother : feed ≠ sink)
    (hthere : x.engine.interceptors = [] ∨ x.engine.catalog.contains feed = true)
    {later : List ClientCall}
    (hsink : ∀ part, part <+: later →
      (x.after (call :: part)).engine.catalog.contains sink = true)
    (backend : Backend) (config : Settings) (plan : Plan) {drop : DropSource}
    (hdrop : plan.command = some (.drop drop)) (hname : drop.name = feed) :
    let engine := { (x.after (call :: later)).engine with backend }
    engine.catalog.contains feed = true →
      sink ∈ (engine.catalog.readersOf feed).toList ∧
        ∃ e : CatalogError, engine.execute config plan =
            (.error ((diagnostic e).withStatement plan.statement), engine) ∧
          ∀ existing, engine.catalog.get? feed = some existing → existing.kind = drop.kind →
            e = .referenced feed (engine.catalog.readersOf feed).toList := by
  intro engine hnow
  have hguards : (x.after (call :: later)).Guards feed sink :=
    (hconnects.guards hother hthere).after hsink
  obtain ⟨e, hrefused, he⟩ := Catalog.drop_of_hasLink hguards.1 hnow hname
  exact ⟨(SortedSet.contains_iff_mem _ _).1 hguards.1, e, Engine.execute_refused hdrop hrefused, he⟩

/-- The call removes a feed of a query that is registered before it and afterwards. -/
def Undermines (x : Clients) (call : ClientCall) (feed : SourceName) : Prop :=
  x.engine.catalog.contains feed = true ∧ (x.step call).engine.catalog.contains feed = false ∧
    ∃ id q, x.engine.registry.get? id = some q ∧ (x.step call).engine.registry.get? id = some q ∧
      q.plan.sources.contains feed = true

end Clients

namespace Sample

/-- `DROP TABLE name`. -/
def dropTable (name : String) : Statement := .define (.drop ⟨⟨name⟩, .table, false⟩)

def users : SourceName := ⟨"USERS"⟩

/-- The table of users with the view on it. -/
def viewed : List ClientCall := inTurn createUsers 0 ++ inTurn createView 1

/-- A table like that of the users. -/
def createCopy : Statement := .createSource "COPY" .table userElements

/-- `CREATE OR REPLACE TABLE USERS_VIEW AS SELECT * FROM USERS_VIEW`. -/
def reread : Statement :=
  .write (.createAsSelect {
    CreateAsSelect.plain "USERS_VIEW" .table (.selectAll (.source view none)) with
    orReplace := true })

end Sample

namespace Clients

/-- The view on the users is there, so they are. -/
theorem users_stay :
    let x := (start {} Sample.localhost none []).after
      (Sample.inTurn Sample.createUsers 0 ++ [.plan {} Sample.createView "CREATE ...;"])
    let later : List ClientCall := [.plan {} (Sample.dropTable "USERS") "DROP ...;"]
    let engine := { (x.after (.execute .memory {} 1 :: later)).engine with backend := .memory }
    let plan := Plan.ofCommand "DROP TABLE USERS;" (.drop ⟨Sample.users, .table, false⟩)
    engine.execute {} plan =
      (.error ((diagnostic (CatalogError.referenced Sample.users [Sample.view])).withStatement
        plan.statement), engine) := by
  intro x later engine plan
  have hconnects : x.Connects (.execute .memory {} 1) Sample.users Sample.view :=
    ⟨_, _, _, rfl, rfl, rfl, rfl, rfl, .inl rfl⟩
  have hsink : ∀ part, part <+: later →
      (x.after (.execute .memory {} 1 :: part)).engine.catalog.contains Sample.view = true := by
    intro part hpart
    rcases List.prefix_cons_iff.1 hpart with rfl | ⟨rest, rfl, hrest⟩
    · rfl
    · rw [List.prefix_nil.1 hrest]
      rfl
  obtain ⟨-, e, hrefused, he⟩ :=
    drop_of_feed_refused hconnects (by decide) (.inl rfl) hsink .memory {} plan rfl rfl rfl
  rw [he _ rfl rfl] at hrefused
  exact hrefused

/-- Queries whose feeds are dropped under them: one of an `INSERT INTO`, one whose sink is dropped
first, and one that reads its own sink. -/
theorem feeds_dropped :
    let run (calls : List ClientCall) := (start {} Sample.localhost none []).after calls
    let drop (name : String) : ClientCall := .plan {} (Sample.dropTable name) "DROP ...;"
    (run (Sample.inTurn Sample.createUsers 0 ++ Sample.inTurn Sample.createCopy 1 ++
      Sample.inTurn (.insertInto "COPY" (.selectAll (.source Sample.users none))) 2 ++
        [drop "USERS"])).Undermines (.execute .memory {} 3) Sample.users ∧
    (run (Sample.viewed ++ Sample.inTurn (Sample.dropTable "USERS_VIEW") 2 ++
      [drop "USERS"])).Undermines (.execute .memory {} 3) Sample.users ∧
    (run (Sample.viewed ++ Sample.inTurn Sample.reread 2 ++
      [drop "USERS_VIEW"])).Undermines (.execute .memory {} 3) Sample.view := by
  intro run drop
  exact ⟨⟨rfl, rfl, ⟨"INSERTQUERY_0"⟩, _, rfl, rfl, rfl⟩,
    ⟨rfl, rfl, ⟨"CTAS_USERS_VIEW_0"⟩, _, rfl, rfl, rfl⟩,
    ⟨rfl, rfl, ⟨"CTAS_USERS_VIEW_0"⟩, _, rfl, rfl, rfl⟩⟩

end Clients

end StreamSql
