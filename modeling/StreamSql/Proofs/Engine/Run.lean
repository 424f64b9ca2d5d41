import StreamSql.Proofs.Engine.Execution

/-!
# Runs of an engine

An engine changes when statements are planned and plans are executed, and through its catalog and
its registry, which others may use too: they call the catalog, take back what was reported to them,
add interceptors, register and remove queries and change what is known of them. The backend may
behave differently each time.
-/

namespace StreamSql.Engine

inductive Event where
  | plan (config : Settings) (statement : Statement) (text : String)
  | execute (config : Settings) (plan : Plan)
  | call (call : Catalog.Call)
  | revert (applied : Applied)
  | addInterceptor (interceptor : Interceptor)
  | register (plan : QueryPlan) (statement : String) (materialization : Option Materialization)
  | remove (id : QueryId)
  | setStatus (id : QueryId) (status : QueryStatus)
  | setMaterialization (id : QueryId) (materialization : Materialization)
  | setBackend (backend : Backend)

def step (engine : Engine) : Event → Engine
  | .plan config statement text => (engine.plan config statement text).2
  | .execute config plan => (engine.execute config plan).2
  | .call call => { engine with catalog := (engine.catalog.call call).2 }
  | .revert applied => { engine with catalog := engine.catalog.revert applied }
  | .addInterceptor interceptor => engine.addInterceptor interceptor
  | .register plan statement materialization =>
    match engine.registry.register plan statement materialization with
    | .ok (_, registry) => { engine with registry }
    | .error _ => engine
  | .remove id => { engine with registry := (engine.registry.remove id).2 }
  | .setStatus id status => { engine with registry := engine.registry.setStatus id status }
  | .setMaterialization id materialization =>
    { engine with registry := engine.registry.setMaterialization id materialization }
  | .setBackend backend => { engine with backend }

/-- The engine after some events. -/
def after (engine : Engine) (events : List Event) : Engine := events.foldl step engine

variable {engine : Engine}

theorem pruned_step (h : engine.catalog.Pruned) (event : Event) :
    (engine.step event).catalog.Pruned := by
  cases event with
  | plan config statement text =>
    obtain ⟨next, heq⟩ := plan_engine engine config statement text
    simp only [step, heq]
    exact h
  | execute config plan =>
    obtain ⟨result, next, hexecuted, heq⟩ := execute_cases engine config plan
    simp only [step, heq]
    exact hexecuted.pruned h
  | call call => exact h.apply call.interceptors call.command call.statement call.feeds
  | revert applied => exact h.revert applied
  | register plan statement materialization =>
    simp only [step]
    split <;> exact h
  | addInterceptor | remove | setStatus | setMaterialization | setBackend => exact h

theorem pruned_after (config : Settings) (home : Endpoint) (placement : Option Placement)
    (events : List Event) : ((Engine.new config home placement).after events).catalog.Pruned :=
  List.foldlRecOn (motive := (·.catalog.Pruned)) events step Catalog.pruned_empty
    fun _ h event _ => pruned_step h event

end StreamSql.Engine
