import Mathlib.Data.List.Induction
import StreamSql.Proofs.Engine.Feeds
import StreamSql.Proofs.Schema

/-!
# The sinks that queries are launched into

A query is checked against its sink when it is planned, and is launched at any later time. The
launch of a `CREATE ... AS SELECT` that has something to create leaves the very entry that the
query needs (`Launches.creates`). The launch of an `INSERT INTO` does not look at the sink again:
the query has a sink that suits it as long as nothing changes the kind or the schema of the entry in
between (`launch_suits`), and otherwise it may be launched into an entry that does not suit it, or
into none at all (`unsuited_sinks`).
-/

namespace StreamSql

/-- The sink of the query is an entry that its rows can be written into. -/
def QueryPlan.HasSink (query : QueryPlan) (catalog : Catalog) : Prop :=
  ∃ sink entry, query.sink = some sink ∧ catalog.get? sink = some entry ∧ query.Suits entry

instance (query : QueryPlan) (entry : Source) : Decidable (query.Suits entry) :=
  decidable_of_iff (query.step.writtenKind? = some entry.kind ∧
      query.step.schema.fitsInto entry.schema = true)
    ⟨fun h => ⟨h.1, h.2⟩, fun h => ⟨h.kind, h.schema⟩⟩

instance (query : QueryPlan) (catalog : Catalog) : Decidable (query.HasSink catalog) :=
  decidable_of_iff (∃ entry ∈ query.sink.bind catalog.get?, query.Suits entry) (by
    simp only [Option.mem_def, Option.bind_eq_some_iff, QueryPlan.HasSink]
    exact ⟨fun ⟨entry, ⟨sink, hsink, hentry⟩, h⟩ => ⟨sink, entry, hsink, hentry, h⟩,
      fun ⟨sink, entry, hsink, hentry, h⟩ => ⟨entry, ⟨sink, hsink, hentry⟩, h⟩⟩)

/-- The kind and the schema of an entry. -/
def Catalog.shape? (catalog : Catalog) (name : SourceName) : Option (SourceKind × Schema) :=
  (catalog.get? name).map fun source => (source.kind, source.schema)

namespace Clients

variable {x : Clients} {call : ClientCall} {c : Compiled} {query : QueryPlan} {name : SourceName}

/-- The call makes a plan. -/
def Compiles (x : Clients) (call : ClientCall) (c : Compiled) : Prop :=
  (x.step call).compiled = x.compiled ++ [c]

theorem Compiles.does (h : x.Compiles call c) :
    c.engine = x.engine ∧ (x.step call).engine.catalog = x.engine.catalog := by
  have hstepped := x.stepped call
  unfold Compiles at h
  generalize x.step call = next at hstepped h
  have hmade : next.compiled ≠ x.compiled := fun heq => by simp [heq] at h
  cases hstepped with
  | planned other hengine =>
    obtain rfl : other = c := by simpa using h
    obtain ⟨number, heq⟩ := Engine.plan_engine other.engine other.config other.statement other.text
    have hsame : other.engine.catalog = x.engine.catalog := congrArg Engine.catalog hengine
    refine ⟨hengine, ?_⟩
    rw [heq]
    exact hsame
  | refused | missing | unlaunched | launched => exact absurd rfl hmade

/-! ### Entries that keep their shape -/

/-- The call changes the kind or the schema of an entry, or whether there is one. -/
def Reshapes (x : Clients) (call : ClientCall) (name : SourceName) : Prop :=
  (x.step call).engine.catalog.shape? name ≠ x.engine.catalog.shape? name

theorem shape?_after {calls : List ClientCall}
    (h : ∀ earlier call, earlier ++ [call] <+: calls → ¬(x.after earlier).Reshapes call name) :
    (x.after calls).engine.catalog.shape? name = x.engine.catalog.shape? name := by
  induction calls using List.reverseRecOn with
  | nil => rfl
  | append_singleton calls call ih =>
    have hlast := not_not.1 (h calls call (List.prefix_refl _))
    rw [after_snoc, hlast]
    exact ih fun earlier next hpart => h earlier next (hpart.trans (List.prefix_append _ _))

/-! ### Launches -/

/-- The launch of a `CREATE ... AS SELECT` leaves the sink as the query needs it, unless the sink is
there already and is not to be created then. -/
theorem Launches.creates {s : CreateAsSelect} (h : x.Launches call c)
    (hquery : c.plan.query = some query) (hstatement : c.statement = .write (.createAsSelect s))
    (hcreates : s.ifNotExists = false ∨ x.engine.catalog.contains s.name = false) :
    ∃ entry, (x.step call).engine.catalog.get? s.name = some entry ∧ query.Suits entry ∧
      entry.schema = query.step.schema := by
  obtain ⟨write, logical, hwrite, hplanned⟩ := Engine.plannedQuery c.planned hquery
  cases hstatement.symm.trans hwrite
  obtain ⟨destination, hinto, hcommand, -⟩ := hplanned.command
  obtain ⟨-, -, -, -, -, backend, applied, hcommanded⟩ := h.does
  generalize (x.step call).engine.catalog = catalog at hcommanded
  cases hcommanded with
  | without hnone => cases hcommand.symm.trans hnone
  | accepted hsome happly =>
    cases hcommand.symm.trans hsome
    have haccepted := Catalog.run_ok (Catalog.run_of_apply_ok happly)
    obtain ⟨change, hcarried⟩ := haccepted.carried_of_create (hinto ▸ hcreates)
    refine ⟨_, hinto ▸ hcarried.get?_create, ⟨hplanned.kind, ?_⟩, hplanned.schema.symm⟩
    change query.step.schema.fitsInto logical.schema = true
    rw [hplanned.schema]
    exact logical.schema.fitsInto_self

theorem Launches.catalog_eq {s : InsertInto} (h : x.Launches call c)
    (hquery : c.plan.query = some query) (hstatement : c.statement = .write (.insertInto s)) :
    (x.step call).engine.catalog = x.engine.catalog := by
  obtain ⟨write, logical, hwrite, hplanned⟩ := Engine.plannedQuery c.planned hquery
  cases hstatement.symm.trans hwrite
  obtain ⟨destination, -, hcommand, -⟩ := hplanned.command
  obtain ⟨-, -, -, -, -, backend, applied, hcommanded⟩ := h.does
  generalize (x.step call).engine.catalog = catalog at hcommanded
  cases hcommanded with
  | without => rfl
  | accepted hsome => cases hcommand.symm.trans hsome

theorem hasSink_of_shape {s : InsertInto} {catalog : Catalog} (hquery : c.plan.query = some query)
    (hstatement : c.statement = .write (.insertInto s))
    (hshape : catalog.shape? s.target = c.engine.catalog.shape? s.target) :
    query.HasSink catalog := by
  obtain ⟨write, logical, hwrite, hplanned⟩ := Engine.plannedQuery c.planned hquery
  cases hstatement.symm.trans hwrite
  obtain ⟨old, hold⟩ := Option.isSome_iff_exists.1 (hplanned.known rfl)
  have hsuits := hplanned.suits old hold
  change c.engine.catalog.get? s.target = some old at hold
  rw [Catalog.shape?, Catalog.shape?, hold, Option.map_some, Option.map_eq_some_iff] at hshape
  obtain ⟨entry, hentry, hsame⟩ := hshape
  obtain ⟨hkind, hschema⟩ := Prod.mk.inj hsame
  exact ⟨s.target, entry, hplanned.sink, hentry, hkind ▸ hsuits.kind, hschema ▸ hsuits.schema⟩

/-- **What a launch finds as its sink.** A plan is made and, after any calls of other clients,
executed, and its query is launched. If the statement is a `CREATE ... AS SELECT`, then the sink is
now an entry that suits the query and has its schema, unless the statement says `IF NOT EXISTS` and
the entry was there already. If it is an `INSERT INTO`, then the catalog is as before, and the sink
suits the query if no call has changed its kind or its schema since the plan was made. -/
theorem launch_suits {compile execute : ClientCall} {between : List ClientCall}
    (hcompiles : x.Compiles compile c) (hquery : c.plan.query = some query)
    (hlaunches : ((x.step compile).after between).Launches execute c) :
    let before := (x.step compile).after between
    let catalog := (before.step execute).engine.catalog
    (∀ s, c.statement = .write (.createAsSelect s) →
      (s.ifNotExists = false ∨ before.engine.catalog.contains s.name = false) →
        query.HasSink catalog ∧ catalog.shape? s.name = query.step.writtenKind?.map
          fun kind => (kind, query.step.schema)) ∧
    (∀ s, c.statement = .write (.insertInto s) → catalog = before.engine.catalog ∧
      ((∀ earlier call, earlier ++ [call] <+: between →
        ¬((x.step compile).after earlier).Reshapes call s.target) → query.HasSink catalog)) := by
  intro before catalog
  obtain ⟨hengine, hcatalog⟩ := hcompiles.does
  refine ⟨fun s hstatement hcreates => ?_, fun s hstatement => ?_⟩
  · obtain ⟨entry, hentry, hsuits, hschema⟩ := hlaunches.creates hquery hstatement hcreates
    refine ⟨⟨s.name, entry, Compiled.sink_eq hquery hstatement, hentry, hsuits⟩, ?_⟩
    rw [Catalog.shape?, hentry, hsuits.kind, ← hschema]
    rfl
  · have hkept := hlaunches.catalog_eq hquery hstatement
    refine ⟨hkept, fun hshapes => hasSink_of_shape hquery hstatement ?_⟩
    calc catalog.shape? s.target = before.engine.catalog.shape? s.target := by rw [← hkept]
      _ = (x.step compile).engine.catalog.shape? s.target := shape?_after hshapes
      _ = c.engine.catalog.shape? s.target := by rw [hcatalog, hengine]

end Clients

namespace Sample

/-- `INSERT INTO COPY SELECT * FROM USERS`. -/
def insertCopy : Statement := .insertInto "COPY" (.selectAll (.source users none))

/-- `CREATE TABLE COPY IF NOT EXISTS AS SELECT * FROM USERS`. -/
def copyIfMissing : Statement :=
  .write (.createAsSelect {
    CreateAsSelect.plain "COPY" .table (.selectAll (.source users none)) with
    ifNotExists := true })

/-- The clients once there are users and a table like theirs. -/
def copying : Clients :=
  (Clients.start {} localhost none []).after (inTurn createUsers 0 ++ inTurn createCopy 1)

/-- The clients once there is a plan of a query that copies the users. -/
def insertion : Clients := copying.step (.plan {} insertCopy "INSERT ...;")

end Sample

namespace Clients

/-- An `INSERT INTO` that waits while a view is created: its sink stays as it was. -/
theorem insertion_suits :
    let before := Sample.insertion.after (Sample.inTurn Sample.createView 3)
    ∃ c query, before.Launches (.execute .memory {} 2) c ∧ c.plan.query = some query ∧
      query.HasSink (before.step (.execute .memory {} 2)).engine.catalog := by
  obtain ⟨c, query, hlaunches, hquery, hcompiles, hstatement⟩ : ∃ c query,
      (Sample.insertion.after (Sample.inTurn Sample.createView 3)).Launches
        (.execute .memory {} 2) c ∧ c.plan.query = some query ∧
      Sample.copying.Compiles (.plan {} Sample.insertCopy "INSERT ...;") c ∧
      c.statement = Sample.insertCopy := ⟨_, _, rfl, rfl, rfl, rfl⟩
  refine ⟨c, query, hlaunches, hquery,
    ((launch_suits hcompiles hquery hlaunches).2 _ hstatement).2 fun earlier call hpart => ?_⟩
  rcases earlier with _ | ⟨first, _ | ⟨second, rest⟩⟩
  · obtain rfl := (List.cons_prefix_cons.1 hpart).1
    exact not_not.2 rfl
  · obtain ⟨rfl, hlast⟩ := List.cons_prefix_cons.1 hpart
    obtain rfl := (List.cons_prefix_cons.1 hlast).1
    exact not_not.2 rfl
  · have hlength := hpart.length_le
    simp [Sample.inTurn] at hlength

/-- Queries that are launched without a sink that suits them: two of an `INSERT INTO` whose sink is
dropped, or replaced by an entry with other columns, and one of a statement that says
`IF NOT EXISTS` and finds such an entry. -/
theorem unsuited_sinks :
    let unsuited (x : Clients) (call : ClientCall) := ∃ c query, x.Launches call c ∧
      c.plan.query = some query ∧ ¬query.HasSink (x.step call).engine.catalog
    let other := Statement.createSource "COPY" .table [⟨"OTHER", .utf8, true⟩]
    unsuited (Sample.insertion.after (Sample.inTurn (Sample.dropTable "COPY") 3))
        (.execute .memory {} 2) ∧
      unsuited (Sample.insertion.after (Sample.inTurn (Sample.dropTable "COPY") 3 ++
        Sample.inTurn other 4)) (.execute .memory {} 2) ∧
      unsuited ((start {} Sample.localhost none []).after (Sample.inTurn Sample.createUsers 0 ++
        [.plan {} Sample.copyIfMissing "CREATE ...;"] ++ Sample.inTurn other 2))
        (.execute .memory {} 1) := by
  intro unsuited other
  refine ⟨⟨_, _, rfl, rfl, ?_⟩, ⟨_, _, rfl, rfl, ?_⟩, ⟨_, _, rfl, rfl, ?_⟩⟩ <;> decide +kernel

end Clients

end StreamSql
