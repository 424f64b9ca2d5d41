import Mathlib.Data.List.Perm.Basic
import StreamSql.Proofs.Engine.ColumnNames

/-!
# Declared columns

A definition declares columns with a name, a type and a role. A `CREATE` stores them all as they are
declared, the keys ahead of the values. An `ALTER` keeps the columns of the entry as they are, and
adds its own behind them as values, also those that it declares as keys. So an entry consists of
what it had and of what is declared if and only if no `ALTER` declares a key
(`Clients.declared_columns_iff`), at whatever time the plan is executed. That a column stays where
it is rests on entries being put together column by column (`Clients.built`).
-/

namespace StreamSql

/-! ### Columns of schemas -/

def ColumnDeclaration.declared (e : ColumnDeclaration) : String × DataType × Bool :=
  (e.name, e.type, e.isKey)

namespace Schema

variable {s : Schema}

/-- The schema has the kept columns and the added ones, each once and as it is declared. Kept
columns stay in their order, and so do the added keys and the added values; all keys are ahead of
all values. -/
structure ConsistsOf (s : Schema) (kept added : List (String × DataType × Bool)) : Prop where
  all : s.declared.Perm (kept ++ added)
  kept_order : kept.Sublist s.declared
  added_order : ∀ isKey, (added.filter (·.2.2 == isKey)).Sublist s.declared
  keys_first : s.declared.Pairwise fun earlier later => later.2.2 = true → earlier.2.2 = true

theorem Built.keys_first (h : s.Built) :
    s.declared.Pairwise fun earlier later => later.2.2 = true → earlier.2.2 = true := by
  obtain ⟨keys, values, rfl⟩ := h.exists_groups
  rw [declared_ofGroups, List.pairwise_append]
  simp [List.pairwise_map, List.pairwise_of_forall]

theorem Built.declared_addValues (h : s.Built) (extra : List (String × DataType)) :
    (s.addValues extra).declared = s.declared ++ extra.map fun c => (c.1, c.2, false) := by
  obtain ⟨keys, values, rfl⟩ := h.exists_groups
  rw [addValues_ofGroups, declared_ofGroups, declared_ofGroups, List.map_append, List.append_assoc]

theorem Built.addValues_consistsOf_iff (h : s.Built) (elements : List ColumnDeclaration) :
    (s.addValues (elements.map fun e => (e.name, e.type))).ConsistsOf s.declared
      (elements.map (·.declared)) ↔ ∀ e ∈ elements, e.isKey = false := by
  have hstored := h.declared_addValues (elements.map fun e => (e.name, e.type))
  rw [List.map_map] at hstored
  constructor
  · intro hconsists e he
    have hperm := hconsists.all
    rw [hstored, List.perm_append_left_iff] at hperm
    obtain ⟨other, -, heq⟩ := List.mem_map.1 (hperm.mem_iff.2 (List.mem_map_of_mem he))
    exact (congrArg (·.2.2) heq).symm
  · intro hvalues
    have hdeclared : (s.addValues (elements.map fun e => (e.name, e.type))).declared =
        s.declared ++ elements.map (·.declared) := by
      rw [hstored]
      refine congrArg _ (List.map_congr_left fun e he => ?_)
      exact congrArg (fun isKey => (e.name, e.type, isKey)) (hvalues e he).symm
    refine ⟨.of_eq hdeclared, ?_, fun isKey => ?_, (h.addValues _).keys_first⟩
    · exact hdeclared ▸ List.sublist_append_left _ _
    · exact hdeclared ▸ List.filter_sublist.trans (List.sublist_append_right _ _)

end Schema

namespace CreateSourceStatement

variable (s : CreateSourceStatement)

theorem schema_eq : s.schema = Schema.ofAdditions (s.elements.map (·.declared)) :=
  (Schema.ofAdditions_map _ _ _ s.elements).symm

theorem schema_built : s.schema.Built := ⟨_, s.schema_eq⟩

theorem declared_schema : s.schema.declared =
    (s.elements.filter (·.isKey) ++ s.elements.filter (!·.isKey)).map (·.declared) := by
  rw [schema_eq, Schema.declared_ofAdditions, List.filter_map, List.filter_map, List.map_append]
  rfl

theorem schema_consistsOf : s.schema.ConsistsOf [] (s.elements.map (·.declared)) := by
  have hlaid : s.schema.LaidOut (s.elements.map (·.declared)) := Schema.laidOut_iff.2 s.schema_eq
  refine ⟨hlaid.all, List.nil_sublist _, fun isKey => ?_, s.schema_built.keys_first⟩
  exact hlaid.in_order isKey ▸ List.filter_sublist

end CreateSourceStatement

/-! ### Definitions -/

namespace DefinitionStatement

def name : DefinitionStatement → SourceName
  | create s => s.name
  | drop s => s.name
  | alter s => s.name

/-- The columns that the statement declares, unless it removes an entry. -/
def elements? : DefinitionStatement → Option (List ColumnDeclaration)
  | create s => some s.elements
  | drop _ => none
  | alter s => some s.addColumns

/-- The columns that the entry keeps. -/
def kept (catalog : Catalog) : DefinitionStatement → List (String × DataType × Bool)
  | create _ | drop _ => []
  | alter s => (catalog.get? s.name).elim [] (·.schema.declared)

/-- The columns that the entry comes to have. -/
def stored (catalog : Catalog) : DefinitionStatement → List (String × DataType × Bool)
  | create s => (s.elements.filter (·.isKey) ++ s.elements.filter (!·.isKey)).map (·.declared)
  | drop _ => []
  | alter s =>
    (alter s).kept catalog ++ s.addColumns.map fun e => (e.name, e.type, false)

/-- The statement is to add a key to an entry. -/
def AddsKey : DefinitionStatement → Prop
  | alter s => ∃ e ∈ s.addColumns, e.isKey = true
  | create _ | drop _ => False

variable {s : DefinitionStatement} {config : Settings} {command : CatalogCommand}

theorem name_command (h : s.command config = .ok command) : command.name = s.name := by
  cases s with
  | create s =>
    obtain ⟨creation, hmade, rfl⟩ := command_create_ok h
    obtain ⟨_, -, hmade⟩ := bind_eq_ok_iff.1 hmade
    obtain ⟨_, -, hmade⟩ := bind_eq_ok_iff.1 hmade
    cases hmade
    rfl
  | drop s | alter s =>
    cases h
    rfl

end DefinitionStatement

/-! ### Entries put together column by column -/

/-- The columns that the command brings are put together one by one. -/
def CatalogCommand.Built : CatalogCommand → Prop
  | .create c => c.schema.Built
  | .drop _ | .alter _ => True

namespace Catalog

variable {catalog next : Catalog} {command : CatalogCommand} {statement : String}
  {feeds : SortedSet SourceName} {change : Change}

/-- The columns of every entry are put together one by one. -/
def Built (catalog : Catalog) : Prop :=
  ∀ name entry, catalog.get? name = some entry → entry.schema.Built

theorem built_empty : empty.Built := by
  intro name entry hentry
  have hnone : none = some entry := hentry
  cases hnone

theorem Built.of_sources (h : catalog.Built) (hsources : next.sources = catalog.sources) :
    next.Built := by
  intro name entry hentry
  rw [get?, hsources] at hentry
  exact h name entry hentry

theorem Built.carried (h : catalog.Built) (hcommand : command.Built)
    (hcarried : Carried catalog command statement feeds change next) : next.Built := by
  intro name entry hentry
  rw [hcarried.entries] at hentry
  split at hentry
  case isFalse => exact h name entry hentry
  rw [hcarried.after] at hentry
  cases command with
  | create c =>
    cases hentry
    exact hcommand
  | drop c => cases hentry
  | alter c =>
    obtain ⟨existing, hexisting, rfl⟩ := Option.map_eq_some_iff.1 hentry
    exact (h _ existing hexisting).addValues _

theorem Carried.stored {s : DefinitionStatement} {config : Settings}
    {elements : List ColumnDeclaration} (h : catalog.Built)
    (hcarried : Carried catalog command statement feeds change next)
    (hcommand : s.command config = .ok command) (helements : s.elements? = some elements) :
    ∃ entry, next.get? s.name = some entry ∧ entry.schema.declared = s.stored catalog ∧
      (entry.schema.ConsistsOf (s.kept catalog) (elements.map (·.declared)) ↔ ¬s.AddsKey) := by
  have hname := DefinitionStatement.name_command hcommand
  have hadmits := hcarried.admits
  have hentry := hcarried.entries command.name
  rw [if_pos rfl, hcarried.after] at hentry
  rw [hname] at hadmits hentry
  cases s with
  | drop s => cases helements
  | create s =>
    cases helements
    obtain ⟨creation, hmade, rfl⟩ := DefinitionStatement.command_create_ok hcommand
    obtain ⟨-, hschema, -⟩ := CreateSourceStatement.command_ok hmade
    refine ⟨_, hentry, ?_, ?_⟩
    · exact (congrArg Schema.declared hschema).trans s.declared_schema
    · have hconsists := s.schema_consistsOf
      rw [← hschema] at hconsists
      exact iff_of_true hconsists id
  | alter s =>
    cases helements
    cases hcommand
    obtain ⟨existing, hexisting, -⟩ := hadmits
    have hbuilt := h _ existing hexisting
    have hkept : (DefinitionStatement.alter s).kept catalog = existing.schema.declared := by
      change catalog.get? s.name = some existing at hexisting
      rw [DefinitionStatement.kept, hexisting]
      rfl
    rw [hexisting] at hentry
    refine ⟨_, hentry, ?_, ?_⟩
    · rw [DefinitionStatement.stored, hkept, hbuilt.declared_addValues, List.map_map]
      rfl
    · rw [hkept, hbuilt.addValues_consistsOf_iff]
      simp [DefinitionStatement.AddsKey]

end Catalog

theorem Query.plan_built {query : Query} {into : Option Sink} {catalog : Catalog}
    {config : Settings} {logical : LogicalPlan} (h : query.plan into catalog config = .ok logical) :
    logical.schema.Built := by
  obtain ⟨analysis, -, hplan⟩ := bind_eq_ok_iff.1 h
  obtain ⟨list, -, node, -, hschema⟩ := Analysis.plan_ok hplan
  rw [hschema]
  exact Schema.built_foldl_add _ _ _ list.columns

theorem DefinitionStatement.command_built {s : DefinitionStatement} {config : Settings}
    {command : CatalogCommand} (h : s.command config = .ok command) : command.Built := by
  cases s with
  | create s =>
    obtain ⟨creation, hmade, rfl⟩ := command_create_ok h
    obtain ⟨-, hschema, -⟩ := CreateSourceStatement.command_ok hmade
    rw [CatalogCommand.Built, hschema]
    exact s.schema_built
  | drop s | alter s =>
    cases h
    trivial

theorem Engine.command_built {engine : Engine} {config : Settings} {statement : Statement}
    {text : String} {plan : Plan} {command : CatalogCommand} (hbuilt : engine.catalog.Built)
    (h : (engine.plan config statement text).1 = .ok plan)
    (hcommand : plan.command = some command) : command.Built := by
  rcases command_cases h hcommand with ⟨definition, rfl, hok⟩ | ⟨write, creation, rfl, rfl, hschema⟩
  · exact DefinitionStatement.command_built hok
  · rcases hschema with ⟨name, existing, hexisting, heq⟩ | ⟨logical, hlogical, heq⟩
    · rw [CatalogCommand.Built, heq]
      exact hbuilt name existing hexisting
    · rw [CatalogCommand.Built, heq]
      exact Query.plan_built hlogical

/-! ### Runs -/

/-- `ALTER TABLE USERS ADD ...`. -/
def Sample.addToUsers (e : ColumnDeclaration) : DefinitionStatement :=
  .alter ⟨⟨"USERS"⟩, .table, [e]⟩

namespace Clients

variable {x : Clients} {call : ClientCall} {c : Compiled} {command : CatalogCommand}

theorem built_step (hrecorded : x.Recorded) (h : x.engine.catalog.Built)
    (hcompiled : ∀ c ∈ x.compiled, c.engine.catalog.Built) (call : ClientCall) :
    (x.step call).engine.catalog.Built := by
  rcases step_entries hrecorded call with ⟨c, command, change, hcarries, hcarried⟩ | ⟨hsources, -⟩
  · have hcommand := Engine.command_built (hcompiled c hcarries.mem) c.planned hcarries.command_eq
    exact h.carried hcommand hcarried
  · exact h.of_sources hsources

theorem built (config : Settings) (home : Endpoint) (placement : Option Placement)
    (interceptors : List Interceptor) (calls : List ClientCall) :
    ((start config home placement interceptors).after calls).engine.catalog.Built ∧
      ∀ c ∈ ((start config home placement interceptors).after calls).compiled,
        c.engine.catalog.Built := by
  induction calls using List.reverseRecOn with
  | nil =>
    refine ⟨Catalog.built_empty, fun c hc => ?_⟩
    cases hc
  | append_singleton calls call ih =>
    have hrecorded := recorded config home placement interceptors calls
    rw [after_snoc]
    refine ⟨built_step hrecorded ih.1 ih.2 call, fun c hc => ?_⟩
    rcases mem_compiled_step hc with hold | hengine
    · exact ih.2 c hold
    · exact hengine ▸ ih.1

/-- **Columns arrive as they are declared**, together with those that the entry has, if and only if
the definition does not add a key: an `ALTER` stores the keys that it declares as values. -/
theorem declared_columns_iff {config : Settings} {home : Endpoint} {placement : Option Placement}
    {interceptors : List Interceptor} {calls : List ClientCall} {s : DefinitionStatement}
    {elements : List ColumnDeclaration}
    (hrun : (start config home placement interceptors).after calls = x)
    (hcarries : x.CarriesOut call c command) (hstatement : c.statement = .define s)
    (helements : s.elements? = some elements) :
    let next := (x.step call).engine.catalog
    ∃ entry, next.get? s.name = some entry ∧
      entry.schema.declared = s.stored x.engine.catalog ∧
        (entry.schema.ConsistsOf (s.kept x.engine.catalog) (elements.map (·.declared)) ↔
          ¬s.AddsKey) := by
  intro next
  have hbuilt : x.engine.catalog.Built :=
    hrun ▸ (built config home placement interceptors calls).1
  have hrecorded : x.Recorded := hrun ▸ recorded config home placement interceptors calls
  rcases Engine.command_cases c.planned hcarries.command_eq with
    ⟨definition, hdefinition, hok⟩ | ⟨write, _, hwrite, -⟩
  case inr => cases hstatement.symm.trans hwrite
  cases hstatement.symm.trans hdefinition
  rcases step_entries hrecorded call with ⟨other, carried, change, hdoes, hcarried⟩ | ⟨-, hnot⟩
  · obtain ⟨rfl, rfl⟩ := hcarries.unique hdoes
    exact hcarried.stored hbuilt hok helements
  · exact absurd hcarries (hnot c command)

/-- A value is added to the table of users. -/
theorem email_arrives :
    let x := (start {} Sample.localhost none []).after (Sample.inTurn Sample.createUsers 0 ++
      [.plan {} (.define (Sample.addToUsers ⟨"EMAIL", .utf8, false⟩)) "ALTER ...;"])
    ∃ entry, (x.step (.execute .memory {} 1)).engine.catalog.get? ⟨"USERS"⟩ = some entry ∧
      entry.schema.ConsistsOf (Sample.userElements.map (·.declared)) [("EMAIL", .utf8, false)] := by
  intro x
  let command : CatalogCommand := .alter ⟨⟨"USERS"⟩, .table, [("EMAIL", .utf8)]⟩
  have hdoes : { x.engine with backend := .memory }.CarriesOut {}
      (.ofCommand "ALTER ...;" command) command := ⟨⟨_, rfl⟩, rfl, rfl⟩
  have hplace : x.compiled[1]? = some _ := rfl
  obtain ⟨entry, hentry, -, hiff⟩ := declared_columns_iff rfl
    ⟨.memory, {}, 1, rfl, hplace, hdoes⟩ rfl rfl
  refine ⟨entry, hentry, hiff.2 ?_⟩
  rintro ⟨e, he, hkey⟩
  rw [List.mem_singleton.1 he] at hkey
  cases hkey

/-- A key is added to the table of users, and arrives as a value. -/
theorem tenant_arrives_as_value :
    let x := (start {} Sample.localhost none []).after (Sample.inTurn Sample.createUsers 0 ++
      Sample.inTurn (.define (Sample.addToUsers ⟨"TENANT", .int8, true⟩)) 1)
    ∃ entry, x.engine.catalog.get? ⟨"USERS"⟩ = some entry ∧
      ("TENANT", DataType.int8, false) ∈ entry.schema.declared ∧
        ¬entry.schema.ConsistsOf (Sample.userElements.map (·.declared))
          [("TENANT", .int8, true)] := by
  intro x
  refine ⟨_, rfl, by decide, fun hconsists => ?_⟩
  exact absurd hconsists.all (by decide)

end Clients

end StreamSql
