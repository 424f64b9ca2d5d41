import StreamSql.Engine.Execution
import StreamSql.Proofs.Catalog.Rejection
import StreamSql.Proofs.Engine.Planning

/-!
# What executing a plan does

`executed` lists what can come of a plan: its command is refused, the command is all there is, the
query is launched, or the launch fails and the command is taken back. An execution that ends in an
error leaves the engine as it was (`execute_error`), unless a removal loses links when it is taken
back; creations never do.
-/

namespace StreamSql

namespace Engine

variable {engine : Engine} {config : Settings} {plan : Plan} {d : Diagnostic}

/-- What can come of the command of a plan. -/
inductive Commanded (engine : Engine) (plan : Plan) :
    Except Diagnostic (Option Applied) × Catalog → Prop
  | without (hcommand : plan.command = none) : Commanded engine plan (.ok none, engine.catalog)
  | refused {command : CatalogCommand} {d : Diagnostic} {catalog : Catalog}
      (hcommand : plan.command = some command)
      (happly : engine.catalog.apply engine.interceptors command plan.statement plan.sources =
        (.error d, catalog)) :
      Commanded engine plan (.error d, catalog)
  | accepted {command : CatalogCommand} {applied : Applied} {catalog : Catalog}
      (hcommand : plan.command = some command)
      (happly : engine.catalog.apply engine.interceptors command plan.statement plan.sources =
        (.ok applied, catalog)) :
      Commanded engine plan (.ok (some applied), catalog)

theorem commanded (engine : Engine) (plan : Plan) :
    Commanded engine plan (engine.applyCommand plan) := by
  unfold applyCommand
  split
  next hcommand => exact .without hcommand
  next command hcommand =>
    cases happly : engine.catalog.apply engine.interceptors command plan.statement plan.sources with
    | mk result catalog =>
      cases result with
      | ok applied => exact .accepted hcommand happly
      | error d => exact .refused hcommand happly

/-- What can come of a plan. -/
inductive Executed (engine : Engine) (config : Settings) (plan : Plan) :
    Except Diagnostic ExecutionReport × Engine → Prop
  | refused {d : Diagnostic} {catalog : Catalog}
      (hcommanded : Commanded engine plan (.error d, catalog)) :
      Executed engine config plan (.error d, { engine with catalog })
  | commandOnly {applied : Option Applied} {catalog : Catalog}
      (hcommanded : Commanded engine plan (.ok applied, catalog)) (hquery : plan.query = none) :
      Executed engine config plan
        (.ok ⟨(applied.map (·.message)).getD "", none⟩, { engine with catalog })
  | launched {applied : Option Applied} {catalog : Catalog} {query : QueryPlan}
      {running : RunningQuery} {registry : Registry}
      (hcommanded : Commanded engine plan (.ok applied, catalog)) (hquery : plan.query = some query)
      (hlaunch : engine.launch config query plan.statement = .ok (running, registry)) :
      Executed engine config plan
        (.ok ⟨s!"Created query with ID {running.id.text}", some running⟩,
          { engine with catalog, registry })
  | failed {applied : Option Applied} {catalog : Catalog} {query : QueryPlan} {d : Diagnostic}
      (hcommanded : Commanded engine plan (.ok applied, catalog)) (hquery : plan.query = some query)
      (hlaunch : engine.launch config query plan.statement = .error d) :
      Executed engine config plan
        (.error d, { engine with catalog := applied.elim catalog catalog.revert })

theorem executed (engine : Engine) (config : Settings) (plan : Plan) :
    Executed engine config plan (engine.executePlan config plan) := by
  have hcommanded := commanded engine plan
  unfold executePlan
  split
  next d catalog heq =>
    rw [heq] at hcommanded
    exact .refused hcommanded
  next applied catalog heq =>
    rw [heq] at hcommanded
    split
    next hquery => exact .commandOnly hcommanded hquery
    next query hquery =>
      unfold launchAfter
      split
      next running registry hlaunch => exact .launched hcommanded hquery hlaunch
      next d hlaunch =>
        have hfailed : Executed engine config plan _ := .failed hcommanded hquery hlaunch
        cases applied <;> exact hfailed

theorem execute_cases (engine : Engine) (config : Settings) (plan : Plan) :
    ∃ result next, Executed engine config plan (result, next) ∧
      engine.execute config plan = (annotated plan.statement result, next) :=
  ⟨_, _, executed engine config plan, rfl⟩

theorem Executed.nextNumber_eq {result : Except Diagnostic ExecutionReport} {next : Engine}
    (h : Executed engine config plan (result, next)) : next.nextNumber = engine.nextNumber := by
  cases h <;> rfl

/-! ### Catalogs without unread feeds -/

theorem Commanded.pruned {result : Except Diagnostic (Option Applied)} {catalog : Catalog}
    (h : Commanded engine plan (result, catalog)) (hpruned : engine.catalog.Pruned) :
    catalog.Pruned := by
  cases h with
  | without => exact hpruned
  | refused _ happly | accepted _ happly =>
    obtain rfl : _ = catalog := congrArg Prod.snd happly
    exact hpruned.apply _ _ _ _

theorem Executed.pruned {result : Except Diagnostic ExecutionReport} {next : Engine}
    (h : Executed engine config plan (result, next)) (hpruned : engine.catalog.Pruned) :
    next.catalog.Pruned := by
  cases h with
  | refused hcommanded | commandOnly hcommanded | launched hcommanded =>
    exact hcommanded.pruned hpruned
  | @failed applied _ _ _ hcommanded =>
    cases applied with
    | none => exact hcommanded.pruned hpruned
    | some applied => exact (hcommanded.pruned hpruned).revert applied

/-! ### Errors -/

theorem Executed.eq_of_error {next : Engine} (h : Executed engine config plan (.error d, next))
    (hpruned : engine.catalog.Pruned)
    (hkept : ∀ command ∈ plan.command, ¬engine.catalog.RemovesStranded command) :
    next = engine := by
  cases h with
  | refused hcommanded =>
    cases hcommanded with
    | refused hcommand happly =>
      have hcatalog := (hpruned.apply_error (congrArg Prod.fst happly)).2.2 fun hlost =>
        hkept _ hcommand hlost.2
      rw [happly] at hcatalog
      exact congrArg (fun catalog => { engine with catalog }) hcatalog
  | failed hcommanded =>
    cases hcommanded with
    | without => rfl
    | accepted hcommand happly =>
      have hrevert := ((Catalog.run_ok (Catalog.run_of_apply_ok happly)).revert hpruned).2.2
        (hkept _ hcommand)
      exact congrArg (fun catalog => { engine with catalog }) hrevert

/-- **An execution that ends in an error leaves the engine as it was**, unless its command is a
removal that loses links when it is taken back. -/
theorem execute_error (hpruned : engine.catalog.Pruned)
    (hkept : ∀ command ∈ plan.command, ¬engine.catalog.RemovesStranded command)
    (h : (engine.execute config plan).1 = .error d) : (engine.execute config plan).2 = engine := by
  obtain ⟨result, next, hexecuted, heq⟩ := execute_cases engine config plan
  rw [heq] at h ⊢
  obtain ⟨cause, rfl⟩ := error_of_annotated h
  exact hexecuted.eq_of_error hpruned hkept

end Engine

end StreamSql
