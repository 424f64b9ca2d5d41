import StreamSql.Proofs.Engine.Clients

/-!
# Entries and their names

Every entry stands under its own name (`Catalog.Named`), in whatever way the clients of an engine
have changed the catalog (`Clients.named`). So the sources of a plan, which are listed by the names
of the entries, are the names in its query (`Query.sourceNames_eq`).
-/

namespace StreamSql

namespace Catalog

variable {catalog next : Catalog} {command : CatalogCommand} {statement : String}
  {feeds : SortedSet SourceName} {change : Change} {outcome : Outcome}

/-- Every entry stands under its own name. -/
def Named (catalog : Catalog) : Prop :=
  ∀ name source, catalog.get? name = some source → source.name = name

theorem named_empty : empty.Named := by
  intro name source h
  cases h

theorem Carried.named (h : Carried catalog command statement feeds change next)
    (hnamed : catalog.Named) : next.Named := by
  intro name source hget
  rw [h.entries] at hget
  split at hget
  next hown =>
    rw [h.after] at hget
    subst hown
    cases command with
    | create c =>
      cases hget
      rfl
    | drop c => cases hget
    | alter c =>
      obtain ⟨old, hold, rfl⟩ := Option.map_eq_some_iff.1 hget
      exact hnamed _ old hold
  next => exact hnamed name source hget

theorem Accepted.named (h : Accepted catalog command statement feeds outcome)
    (hnamed : catalog.Named) : outcome.catalog.Named := by
  cases h with
  | idle => exact hnamed
  | carried _ _ hcarried => exact hcarried.named hnamed

theorem Accepted.named_revert (h : Accepted catalog command statement feeds outcome)
    (hnamed : catalog.Named) : (outcome.catalog.revert outcome.applied).Named := by
  cases h with
  | idle => exact hnamed
  | carried _ _ hcarried =>
    intro name source hget
    exact hnamed name source ((hcarried.get?_undo name).symm.trans hget)

theorem Named.apply (h : catalog.Named) (interceptors : List Interceptor)
    (command : CatalogCommand) (statement : String) (feeds : SortedSet SourceName) :
    (catalog.apply interceptors command statement feeds).2.Named := by
  rcases apply_cases catalog interceptors command statement feeds with
    ⟨e, -, happly⟩ | ⟨outcome, objection, hrun, happly⟩ | ⟨outcome, hrun, happly⟩
  · rw [happly]
    exact h
  · rw [happly]
    exact (run_ok hrun).named_revert h
  · rw [happly]
    exact (run_ok hrun).named h

end Catalog

theorem Query.sourceNames_eq {query : Query} {into : Option Sink} {catalog : Catalog}
    {config : Settings} {logical : LogicalPlan} (h : query.plan into catalog config = .ok logical)
    (hnamed : catalog.Named) : logical.sourceNames = query.relation.names := by
  have hreads : List.Forall₂ (fun name entry => name = entry.1.name) query.relation.names
      logical.root.sources := (Query.plan_reads h).imp fun name entry hentry =>
    (hnamed name entry.1 hentry).symm
  rw [← List.forall₂_map_right_iff, List.forall₂_eq_eq_eq] at hreads
  exact hreads.symm

namespace Engine

variable {engine : Engine} {config : Settings} {plan : Plan}

theorem Commanded.named {result : Except Diagnostic (Option Applied)} {catalog : Catalog}
    (h : Commanded engine plan (result, catalog)) (hnamed : engine.catalog.Named) :
    catalog.Named := by
  cases h with
  | without => exact hnamed
  | refused _ happly | accepted _ happly =>
    obtain rfl : _ = catalog := congrArg Prod.snd happly
    exact hnamed.apply _ _ _ _

theorem Executed.named {result : Except Diagnostic ExecutionReport} {next : Engine}
    (h : Executed engine config plan (result, next)) (hnamed : engine.catalog.Named) :
    next.catalog.Named := by
  cases h with
  | refused hcommanded | commandOnly hcommanded | launched hcommanded =>
    exact hcommanded.named hnamed
  | failed hcommanded =>
    cases hcommanded with
    | without => exact hnamed
    | accepted _ happly =>
      exact (Catalog.run_ok (Catalog.run_of_apply_ok happly)).named_revert hnamed

end Engine

namespace Clients

theorem named_step {x : Clients} (h : x.engine.catalog.Named) (call : ClientCall) :
    (x.step call).engine.catalog.Named := by
  have hstepped := x.stepped call
  generalize x.step call = next at hstepped
  cases hstepped with
  | planned c hengine =>
    obtain ⟨number, heq⟩ := Engine.plan_engine c.engine c.config c.statement c.text
    rw [heq, hengine]
    exact h
  | refused config statement text =>
    obtain ⟨number, heq⟩ := Engine.plan_engine x.engine config statement text
    rw [heq]
    exact h
  | missing => exact h
  | unlaunched _ hexecuted => exact hexecuted.named h
  | launched _ _ hcommanded => exact hcommanded.named h

theorem named (config : Settings) (home : Endpoint) (placement : Option Placement)
    (interceptors : List Interceptor) (calls : List ClientCall) :
    ((start config home placement interceptors).after calls).engine.catalog.Named :=
  List.foldlRecOn (motive := fun x => x.engine.catalog.Named) calls step Catalog.named_empty
    fun _ h call _ => named_step h call

end Clients

end StreamSql
