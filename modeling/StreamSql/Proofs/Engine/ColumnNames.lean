import Mathlib.Data.List.Nodup
import Mathlib.Data.List.Perm.Basic
import StreamSql.Proofs.Engine.Replacement
import StreamSql.Proofs.Query.Projection

/-!
# The column names of entries

The columns of an entry come from the declarations of a `CREATE`, from those that an `ALTER` adds,
or from the selection of a query. A selection has distinct names, as it is refused otherwise, and an
`ALTER` is refused a name that the entry has. Nobody looks for repetitions within the declarations
of one statement: the names of all entries stay distinct if and only if no statement is carried out
that repeats one (`distinct_names_iff`).
-/

namespace StreamSql

/-! ### Names of columns -/

namespace Schema

variable {s : Schema}

/-- No two columns have the same name. -/
def NamesDistinct (s : Schema) : Prop := (s.columns.map (·.name)).Nodup

instance (s : Schema) : Decidable s.NamesDistinct := inferInstanceAs (Decidable (List.Nodup _))

theorem names_foldl_add {α : Type} (name : α → String) (type : α → DataType) (isKey : α → Bool)
    (list : List α) :
    ((list.foldl (fun (schema : Schema) a => schema.add (name a) (type a) (isKey a))
      .empty).columns.map (·.name)).Perm (list.map name) := by
  have hgroups := foldl_add name type isKey list [] []
  have hnames : (list.foldl (fun (schema : Schema) a => schema.add (name a) (type a) (isKey a))
      .empty).columns.map (·.name) =
        (list.filter isKey ++ list.filter (!isKey ·)).map name := by
    refine (congrArg (·.columns.map (·.name)) hgroups).trans ?_
    simp [ofGroups, Function.comp_def]
  rw [hnames]
  exact (List.filter_append_perm isKey list).map name

theorem names_addValues (s : Schema) (extra : List (String × DataType)) :
    (s.addValues extra).columns.map (·.name) = s.columns.map (·.name) ++ extra.map Prod.fst := by
  unfold addValues
  induction extra generalizing s with
  | nil => simp
  | cons column rest ih =>
    rw [List.foldl_cons, ih]
    simp [addValue]

theorem NamesDistinct.addValues_iff (h : s.NamesDistinct) {extra : List (String × DataType)}
    (hnew : ∀ column ∈ extra, s.find? column.1 = none) :
    (s.addValues extra).NamesDistinct ↔ (extra.map Prod.fst).Nodup := by
  rw [NamesDistinct, names_addValues, List.nodup_append']
  refine ⟨fun hall => hall.2.1, fun hextra => ⟨h, hextra, fun name hold hadded => ?_⟩⟩
  obtain ⟨column, hcolumn, rfl⟩ := List.mem_map.1 hadded
  obtain ⟨old, hmem, hname⟩ := List.mem_map.1 hold
  have hnone := List.find?_eq_none.1 (hnew column hcolumn) old hmem
  exact hnone (beq_iff_eq.2 hname)

end Schema

theorem CreateSourceStatement.schema_distinct_iff (s : CreateSourceStatement) :
    s.schema.NamesDistinct ↔ (s.elements.map (·.name)).Nodup :=
  (Schema.names_foldl_add _ _ _ s.elements).nodup_iff

theorem Analysis.plan_distinct {a : Analysis} {catalog : Catalog} {config : Settings}
    {logical : LogicalPlan} (h : a.plan catalog config = .ok logical) :
    logical.schema.NamesDistinct := by
  obtain ⟨list, hsound, node, -, hschema⟩ := Analysis.plan_ok h
  rw [hschema]
  refine (Schema.names_foldl_add _ _ _ list.columns).nodup_iff.2 ?_
  exact hsound.distinct_output

theorem Query.plan_distinct {query : Query} {into : Option Sink} {catalog : Catalog}
    {config : Settings} {logical : LogicalPlan} (h : query.plan into catalog config = .ok logical) :
    logical.schema.NamesDistinct := by
  obtain ⟨analysis, -, hplan⟩ := bind_eq_ok_iff.1 h
  exact Analysis.plan_distinct hplan

/-! ### Commands -/

/-- The columns that the command brings have distinct names. -/
def CatalogCommand.NamesDistinct : CatalogCommand → Prop
  | .create c => c.schema.NamesDistinct
  | .alter c => (c.newColumns.map Prod.fst).Nodup
  | .drop _ => True

/-- The statement declares two columns of the same name. -/
def Statement.RepeatsColumn : Statement → Prop
  | .define (.create s) => ¬(s.elements.map (·.name)).Nodup
  | .define (.alter s) => ¬(s.addColumns.map (·.name)).Nodup
  | _ => False

namespace Catalog

variable {catalog next : Catalog} {command : CatalogCommand} {statement : String}
  {feeds : SortedSet SourceName} {change : Change}

/-- The columns of every entry have distinct names. -/
def NamesDistinct (catalog : Catalog) : Prop :=
  ∀ name entry, catalog.get? name = some entry → entry.schema.NamesDistinct

theorem namesDistinct_empty : empty.NamesDistinct := by
  intro name entry hentry
  have hnone : none = some entry := hentry
  cases hnone

theorem NamesDistinct.of_sources (h : catalog.NamesDistinct)
    (hsources : next.sources = catalog.sources) : next.NamesDistinct := by
  intro name entry hentry
  rw [get?, hsources] at hentry
  exact h name entry hentry

theorem Carried.namesDistinct_iff (hcarried : Carried catalog command statement feeds change next)
    (h : catalog.NamesDistinct) : next.NamesDistinct ↔ command.NamesDistinct := by
  have hothers : next.NamesDistinct ↔
      ∀ entry ∈ change.after, entry.schema.NamesDistinct := by
    constructor
    · intro hnext entry hentry
      exact hnext command.name entry ((hcarried.entries _).trans ((if_pos rfl).trans hentry))
    · intro hafter name entry hentry
      rw [hcarried.entries] at hentry
      split at hentry
      · exact hafter entry hentry
      · exact h name entry hentry
  rw [hothers, hcarried.after]
  have hadmits := hcarried.admits
  cases command with
  | create c => simp [CatalogCommand.entryAfter, CatalogCommand.NamesDistinct, CreateSource.source]
  | drop c => simp [CatalogCommand.entryAfter, CatalogCommand.NamesDistinct]
  | alter c =>
    obtain ⟨existing, hexisting, -, -, hnew⟩ := hadmits
    rw [hexisting]
    simp only [CatalogCommand.entryAfter, Option.map_some, Option.mem_some_iff, forall_eq']
    exact (h _ existing hexisting).addValues_iff hnew

end Catalog

/-! ### Plans -/

namespace Engine

variable {engine : Engine} {config : Settings} {statement : Statement} {text : String}
  {plan : Plan} {command : CatalogCommand}

theorem definition_distinct_iff {definition : DefinitionStatement}
    (h : definition.command config = .ok command) :
    command.NamesDistinct ↔ ¬(Statement.define definition).RepeatsColumn := by
  cases definition with
  | create s =>
    obtain ⟨creation, hmade, rfl⟩ := DefinitionStatement.command_create_ok h
    obtain ⟨-, hschema, -⟩ := CreateSourceStatement.command_ok hmade
    rw [CatalogCommand.NamesDistinct, hschema]
    exact s.schema_distinct_iff.trans not_not.symm
  | drop s =>
    cases h
    exact iff_of_true trivial id
  | alter s =>
    cases h
    simp [CatalogCommand.NamesDistinct, Statement.RepeatsColumn, Function.comp_def]

theorem command_cases (h : (engine.plan config statement text).1 = .ok plan)
    (hcommand : plan.command = some command) :
    (∃ definition, statement = .define definition ∧ definition.command config = .ok command) ∨
      ∃ write creation, statement = .write write ∧ command = .create creation ∧
        ((∃ name existing, engine.catalog.get? name = some existing ∧
            creation.schema = existing.schema) ∨
          ∃ logical, write.query.plan (some write.sink) engine.catalog config = .ok logical ∧
            creation.schema = logical.schema) := by
  cases statement with
  | define definition =>
    simp only [Engine.plan] at h
    obtain ⟨command, hok, rfl⟩ := planDefinition_ok (annotated_eq_ok_iff.1 h)
    cases hcommand
    exact .inl ⟨definition, rfl, hok⟩
  | write write =>
    refine .inr ⟨write, ?_⟩
    rcases plan_write h with ⟨s, existing, rfl, -, hexisting, rfl⟩ | ⟨logical, query, -, hplanned⟩
    · cases hcommand
      exact ⟨_, rfl, rfl, .inl ⟨s.name, existing, hexisting, rfl⟩⟩
    · obtain ⟨destination, -, hcreation, -⟩ := hplanned.command
      rw [hcommand] at hcreation
      split at hcreation
      · cases hcreation
        exact ⟨_, rfl, rfl, .inr ⟨logical, hplanned.logical_eq, rfl⟩⟩
      · cases hcreation
  | _ =>
    simp only [Engine.plan] at h
    cases annotated_eq_ok_iff.1 h

/-- On a catalog with distinct names, the command of a plan brings distinct names unless its
statement repeats one. -/
theorem command_distinct_iff (hdistinct : engine.catalog.NamesDistinct)
    (h : (engine.plan config statement text).1 = .ok plan)
    (hcommand : plan.command = some command) :
    command.NamesDistinct ↔ ¬statement.RepeatsColumn := by
  rcases command_cases h hcommand with ⟨definition, rfl, hok⟩ | ⟨write, creation, rfl, rfl, hschema⟩
  · exact definition_distinct_iff hok
  · refine iff_of_true ?_ id
    rcases hschema with ⟨name, existing, hexisting, heq⟩ | ⟨logical, hlogical, heq⟩
    · rw [CatalogCommand.NamesDistinct, heq]
      exact hdistinct name existing hexisting
    · rw [CatalogCommand.NamesDistinct, heq]
      exact Query.plan_distinct hlogical

/-- The execution of a plan carries the command out: it succeeds, and there is something to do. -/
def CarriesOut (engine : Engine) (config : Settings) (plan : Plan) (command : CatalogCommand) :
    Prop :=
  engine.Succeeds config plan ∧ plan.command = some command ∧
    command.isIdle (engine.catalog.get? command.name) = false

theorem Commanded.entries {applied : Option Applied} {catalog : Catalog}
    (h : Commanded engine plan (.ok applied, catalog)) :
    (∃ command change, plan.command = some command ∧
        command.isIdle (engine.catalog.get? command.name) = false ∧
        Catalog.Carried engine.catalog command plan.statement plan.sources change catalog) ∨
      catalog.sources = engine.catalog.sources ∧ ∀ command, plan.command = some command →
        command.isIdle (engine.catalog.get? command.name) = true := by
  cases h with
  | without hnone =>
    exact .inr ⟨rfl, fun command hcommand => by cases hnone.symm.trans hcommand⟩
  | accepted hsome happly =>
    cases Catalog.run_ok (Catalog.run_of_apply_ok happly) with
    | idle _ hidle =>
      refine .inr ⟨rfl, fun command hcommand => ?_⟩
      obtain rfl := Option.some.inj (hsome.symm.trans hcommand)
      exact hidle
    | carried _ hbusy hcarried => exact .inl ⟨_, _, hsome, hbusy, hcarried⟩

theorem Commanded.sources_of_error {d : Diagnostic} {catalog : Catalog}
    (hpruned : engine.catalog.Pruned) (h : Commanded engine plan (.error d, catalog)) :
    catalog.sources = engine.catalog.sources := by
  cases h with
  | refused _ happly =>
    obtain rfl : _ = catalog := congrArg Prod.snd happly
    exact (hpruned.apply_error (congrArg Prod.fst happly)).1

theorem Commanded.sources_of_revert {applied : Option Applied} {catalog : Catalog}
    (hpruned : engine.catalog.Pruned) (h : Commanded engine plan (.ok applied, catalog)) :
    (applied.elim catalog catalog.revert).sources = engine.catalog.sources := by
  cases h with
  | without => rfl
  | accepted _ happly =>
    exact ((Catalog.run_ok (Catalog.run_of_apply_ok happly)).revert hpruned).1

theorem execute_entries (hpruned : engine.catalog.Pruned) (config : Settings) (plan : Plan) :
    (∃ command change, engine.CarriesOut config plan command ∧
        Catalog.Carried engine.catalog command plan.statement plan.sources change
          (engine.execute config plan).2.catalog) ∨
      (engine.execute config plan).2.catalog.sources = engine.catalog.sources ∧
        ∀ command, ¬engine.CarriesOut config plan command := by
  obtain ⟨result, next, hexecuted, heq⟩ := execute_cases engine config plan
  have hfails : ∀ d, result = .error d → ∀ command, ¬engine.CarriesOut config plan command := by
    rintro d rfl command ⟨⟨report, hreport⟩, -⟩
    rw [heq] at hreport
    cases hreport
  have hsucceeds : ∀ report, result = .ok report → engine.Succeeds config plan := by
    rintro report rfl
    exact ⟨report, congrArg Prod.fst heq⟩
  rw [heq]
  cases hexecuted with
  | refused hcommanded => exact .inr ⟨hcommanded.sources_of_error hpruned, hfails _ rfl⟩
  | failed hcommanded => exact .inr ⟨hcommanded.sources_of_revert hpruned, hfails _ rfl⟩
  | commandOnly hcommanded | launched hcommanded =>
    rcases hcommanded.entries with ⟨command, change, hcommand, hbusy, hcarried⟩ | ⟨hsame, hidle⟩
    · exact .inl ⟨command, change, ⟨hsucceeds _ rfl, hcommand, hbusy⟩, hcarried⟩
    · refine .inr ⟨hsame, ?_⟩
      rintro command ⟨-, hcommand, hbusy⟩
      cases (hidle command hcommand).symm.trans hbusy

end Engine

/-! ### Runs -/

namespace Clients

variable {x : Clients} {c : Compiled}

/-- The call carries out the command of a plan whose statement declares two columns of the same
name. -/
def Repeats (x : Clients) (call : ClientCall) : Prop :=
  ∃ backend config place c command, call = .execute backend config place ∧
    x.compiled[place]? = some c ∧ c.statement.RepeatsColumn ∧
      { x.engine with backend }.CarriesOut config c.plan command

/-- The call executes the plan, and carries the command of it out. -/
def CarriesOut (x : Clients) (call : ClientCall) (c : Compiled) (command : CatalogCommand) : Prop :=
  ∃ backend config place, call = .execute backend config place ∧ x.compiled[place]? = some c ∧
    { x.engine with backend }.CarriesOut config c.plan command

namespace CarriesOut

variable {call : ClientCall} {command : CatalogCommand}

theorem mem (h : x.CarriesOut call c command) : c ∈ x.compiled := by
  obtain ⟨_, _, _, -, hplace, -⟩ := h
  exact List.mem_of_getElem? hplace

theorem command_eq (h : x.CarriesOut call c command) : c.plan.command = some command := by
  obtain ⟨_, _, _, -, -, -, hcommand, -⟩ := h
  exact hcommand

theorem unique {other : Compiled} {command' : CatalogCommand} (h : x.CarriesOut call c command)
    (h' : x.CarriesOut call other command') : c = other ∧ command = command' := by
  have hc : c = other := by
    obtain ⟨_, _, _, rfl, hplace, -⟩ := h
    obtain ⟨_, _, _, hcall, hplace', -⟩ := h'
    cases hcall
    exact Option.some.inj (hplace.symm.trans hplace')
  subst hc
  exact ⟨rfl, Option.some.inj (h.command_eq.symm.trans h'.command_eq)⟩

end CarriesOut

/-- **A call carries the command of one plan out, or leaves the entries alone.** -/
theorem step_entries (hrecorded : x.Recorded) (call : ClientCall) :
    (∃ c command change, x.CarriesOut call c command ∧
        Catalog.Carried x.engine.catalog command c.plan.statement c.plan.sources change
          (x.step call).engine.catalog) ∨
      (x.step call).engine.catalog.sources = x.engine.catalog.sources ∧
        ∀ c command, ¬x.CarriesOut call c command := by
  cases call with
  | plan config statement text =>
    obtain ⟨number, hplan⟩ := x.engine_step_plan config statement text
    refine .inr ⟨by rw [hplan], ?_⟩
    rintro c command ⟨_, _, _, hcall, -⟩
    cases hcall
  | execute backend config place =>
    cases hplace : x.compiled[place]? with
    | none =>
      refine .inr ⟨by simp only [step, hplace], ?_⟩
      rintro c command ⟨_, _, _, hcall, hother, -⟩
      cases hcall
      cases hplace.symm.trans hother
    | some c =>
      have hpruned : ({ x.engine with backend } : Engine).catalog.Pruned := hrecorded.pruned
      rw [engine_step_execute hplace]
      rcases Engine.execute_entries hpruned config c.plan with
        ⟨command, change, hcarries, hcarried⟩ | ⟨hsources, hnot⟩
      · exact .inl ⟨c, command, change, ⟨backend, config, place, rfl, hplace, hcarries⟩, hcarried⟩
      · refine .inr ⟨hsources, ?_⟩
        rintro other command ⟨_, _, _, hcall, hother, hcarries⟩
        cases hcall
        cases hplace.symm.trans hother
        exact hnot command hcarries

theorem mem_compiled_step {call : ClientCall} (h : c ∈ (x.step call).compiled) :
    c ∈ x.compiled ∨ c.engine = x.engine := by
  have hstepped := x.stepped call
  generalize x.step call = next at hstepped h
  cases hstepped with
  | planned other hengine =>
    refine (List.mem_append.1 h).imp_right fun hnew => ?_
    obtain rfl := List.mem_singleton.1 hnew
    exact hengine
  | refused | missing | unlaunched | launched => exact .inl h

theorem exists_earlier {calls : List ClientCall} (h : c ∈ (x.after calls).compiled) :
    c ∈ x.compiled ∨ ∃ earlier, earlier <+: calls ∧ c.engine = (x.after earlier).engine := by
  induction calls using List.reverseRecOn with
  | nil => exact .inl h
  | append_singleton calls call ih =>
    have hpart := List.prefix_append calls [call]
    rw [after_snoc] at h
    rcases mem_compiled_step h with hold | hengine
    · refine (ih hold).imp_right ?_
      rintro ⟨earlier, hearlier, heq⟩
      exact ⟨earlier, hearlier.trans hpart, heq⟩
    · exact .inr ⟨calls, hpart, hengine⟩

theorem namesDistinct_step_iff (hrecorded : x.Recorded) (h : x.engine.catalog.NamesDistinct)
    (hcompiled : ∀ c ∈ x.compiled, c.engine.catalog.NamesDistinct) (call : ClientCall) :
    (x.step call).engine.catalog.NamesDistinct ↔ ¬x.Repeats call := by
  rcases step_entries hrecorded call with
    ⟨c, command, change, hcarries, hcarried⟩ | ⟨hsources, hnot⟩
  · rw [hcarried.namesDistinct_iff h, Engine.command_distinct_iff (hcompiled c hcarries.mem)
      c.planned hcarries.command_eq, not_iff_not]
    constructor
    · intro hrepeats
      obtain ⟨backend, config, place, hcall, hplace, hdoes⟩ := hcarries
      exact ⟨backend, config, place, c, command, hcall, hplace, hrepeats, hdoes⟩
    · rintro ⟨backend, config, place, other, _, hcall, hplace, hrepeats, hdoes⟩
      obtain ⟨rfl, -⟩ := hcarries.unique ⟨backend, config, place, hcall, hplace, hdoes⟩
      exact hrepeats
  · refine iff_of_true (h.of_sources hsources) ?_
    rintro ⟨backend, config, place, c, command, hcall, hplace, -, hdoes⟩
    exact hnot c command ⟨backend, config, place, hcall, hplace, hdoes⟩

/-- **The column names of entries stay distinct** if and only if no statement is carried out that
declares two columns of the same name. -/
theorem distinct_names_iff (config : Settings) (home : Endpoint) (placement : Option Placement)
    (interceptors : List Interceptor) (calls : List ClientCall) :
    let x := start config home placement interceptors
    (∀ earlier, earlier <+: calls → (x.after earlier).engine.catalog.NamesDistinct) ↔
      ∀ earlier call, earlier ++ [call] <+: calls → ¬(x.after earlier).Repeats call := by
  intro x
  -- plans rest on the entries of the moment they were made, so all earlier moments count
  let sofar (run : List ClientCall) : Prop :=
    ∀ part, part <+: run → (x.after part).engine.catalog.NamesDistinct
  have hsofar : (∀ earlier, earlier <+: calls → sofar earlier) ↔
      ∀ earlier call, earlier ++ [call] <+: calls → ¬(x.after earlier).Repeats call := by
    refine Catalog.forall_prefix_iff ?_ (fun run call hrun => ?_) calls
    · intro part hpart
      rw [List.prefix_nil.1 hpart]
      exact Catalog.namesDistinct_empty
    have hcompiled : ∀ c ∈ (x.after run).compiled, c.engine.catalog.NamesDistinct := by
      intro c hc
      rcases exists_earlier hc with hnone | ⟨earlier, hpart, heq⟩
      · cases hnone
      · exact heq ▸ hrun earlier hpart
    rw [← namesDistinct_step_iff (recorded config home placement interceptors run)
      (hrun run List.prefix_rfl) hcompiled call, ← after_snoc]
    constructor
    · exact fun h => h _ List.prefix_rfl
    · intro h part hpart
      rcases List.prefix_concat_iff.1 hpart with rfl | hpart
      · exact h
      · exact hrun part hpart
  rw [← hsofar]
  exact ⟨fun h earlier hpart part hpart' => h part (hpart'.trans hpart),
    fun h earlier hpart => h earlier hpart earlier List.prefix_rfl⟩

/-- A statement that declares a column twice, and one that adds one twice. -/
theorem repeated_names :
    let x := start {} Sample.localhost none []
    let declared := Sample.inTurn
      (.createSource "USERS" .table [⟨"ID", .int8, true⟩, ⟨"ID", .utf8, false⟩]) 0
    let added := Sample.inTurn Sample.createUsers 0 ++ Sample.inTurn (.define (.alter
      ⟨⟨"USERS"⟩, .table, [⟨"EMAIL", .utf8, false⟩, ⟨"EMAIL", .int8, false⟩]⟩)) 1
    ¬(x.after declared).engine.catalog.NamesDistinct ∧
      ¬(x.after added).engine.catalog.NamesDistinct := by
  intro x declared added
  refine ⟨fun h => ?_, fun h => ?_⟩
  · exact absurd (h ⟨"USERS"⟩ _ rfl) (by decide)
  · exact absurd (h ⟨"USERS"⟩ _ rfl) (by decide)

end Clients

end StreamSql
