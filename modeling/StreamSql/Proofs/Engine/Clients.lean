import StreamSql.Sample
import StreamSql.Proofs.Engine.Execution
import StreamSql.Proofs.Engine.Registry

/-!
# Clients of an engine

Any number of clients plan statements and execute plans, a plan at any later time and as often as
they like. Calls take effect one after the other, in an order that nobody controls. The state keeps
the plans that have been made and those whose queries were launched: a registered query is found
among the latter by the number of its launch (`Recorded`). `stepped` lists what a call can do.
-/

namespace StreamSql

/-- A plan with what it was made of: the statement, and the engine and the settings of that
moment. -/
structure Compiled where
  engine : Engine
  config : Settings
  statement : Statement
  text : String
  plan : Plan
  planned : (engine.plan config statement text).1 = .ok plan

inductive ClientCall where
  | plan (config : Settings) (statement : Statement) (text : String)
  /-- Executes the plan at a place among those made so far. -/
  | execute (backend : Backend) (config : Settings) (place : Nat)

/-- An engine with the plans that have been made on it. -/
structure Clients where
  engine : Engine
  compiled : List Compiled := []
  /-- The plans whose queries were launched, in the order of the launches. -/
  launched : List Compiled := []

namespace Compiled

variable {c : Compiled} {s : CreateAsSelect} {query : QueryPlan}

theorem sink_eq (hquery : c.plan.query = some query)
    (hstatement : c.statement = .write (.createAsSelect s)) : query.sink = some s.name := by
  obtain ⟨write, logical, hwrite, hplanned⟩ := Engine.plannedQuery c.planned hquery
  cases hstatement.symm.trans hwrite
  exact hplanned.sink

theorem command_eq (hquery : c.plan.query = some query)
    (hstatement : c.statement = .write (.createAsSelect s)) :
    ∃ creation : CreateSource, c.plan.command = some (.create creation) ∧
      creation.name = s.name ∧ creation.ifNotExists = s.ifNotExists := by
  obtain ⟨write, logical, hwrite, hplanned⟩ := Engine.plannedQuery c.planned hquery
  cases hstatement.symm.trans hwrite
  obtain ⟨destination, hinto, hcommand, -⟩ := hplanned.command
  exact ⟨_, hcommand, hinto, rfl⟩

end Compiled

namespace Clients

def step (x : Clients) : ClientCall → Clients
  | .plan config statement text =>
    let engine := (x.engine.plan config statement text).2
    match h : (x.engine.plan config statement text).1 with
    | .ok plan =>
      { x with engine, compiled := x.compiled ++ [⟨x.engine, config, statement, text, plan, h⟩] }
    | .error _ => { x with engine }
  | .execute backend config place =>
    match x.compiled[place]? with
    | none => x
    | some c =>
      match { x.engine with backend }.execute config c.plan with
      | (.ok ⟨_, some _⟩, engine) => { x with engine, launched := x.launched ++ [c] }
      | (_, engine) => { x with engine }

/-- The state after some calls, in the order in which they take effect. -/
def after (x : Clients) (calls : List ClientCall) : Clients := calls.foldl step x

/-- The clients of an engine without entries and queries. -/
def start (config : Settings) (home : Endpoint) (placement : Option Placement)
    (interceptors : List Interceptor) : Clients where
  engine := { Engine.new config home placement with interceptors }

end Clients

namespace Sample

def localhost : Endpoint := ⟨"localhost", 8088⟩

/-- Plans a statement and executes the plan, which is the one at a place. -/
def inTurn (statement : Statement) (place : Nat) : List ClientCall :=
  [.plan {} statement "CREATE ...;", .execute .memory {} place]

end Sample

namespace Clients

theorem after_snoc (x : Clients) (calls : List ClientCall) (call : ClientCall) :
    x.after (calls ++ [call]) = (x.after calls).step call :=
  List.foldl_concat ..

/-! ### What a call does -/

theorem registered_of_launch {engine : Engine} {config : Settings} {query : QueryPlan}
    {text : String} {running : RunningQuery} {registry : Registry}
    (h : engine.launch config query text = .ok (running, registry)) :
    engine.registry.Registered query running registry := by
  obtain ⟨materialization, -, h⟩ := bind_eq_ok_iff.1 h
  exact Registry.register_ok (reported_eq_ok_iff.1 h)

/-- What a call does. -/
inductive Stepped (x : Clients) : ClientCall → Clients → Prop
  | planned (c : Compiled) (hengine : c.engine = x.engine) :
      Stepped x (.plan c.config c.statement c.text)
        { x with
          engine := (c.engine.plan c.config c.statement c.text).2
          compiled := x.compiled ++ [c] }
  | refused (config : Settings) (statement : Statement) (text : String) :
      Stepped x (.plan config statement text)
        { x with engine := (x.engine.plan config statement text).2 }
  | missing (backend : Backend) (config : Settings) (place : Nat) :
      Stepped x (.execute backend config place) x
  | unlaunched {backend : Backend} {config : Settings} {place : Nat} {c : Compiled}
      {result : Except Diagnostic ExecutionReport} {next : Engine}
      (hplace : x.compiled[place]? = some c)
      (hexecuted : Engine.Executed { x.engine with backend } config c.plan (result, next))
      (hregistry : next.registry = x.engine.registry) :
      Stepped x (.execute backend config place) { x with engine := next }
  | launched {backend : Backend} {config : Settings} {place : Nat} {c : Compiled}
      {applied : Option Applied} {catalog : Catalog} {query : QueryPlan} {running : RunningQuery}
      {registry : Registry} (hplace : x.compiled[place]? = some c)
      (hquery : c.plan.query = some query)
      (hcommanded : Engine.Commanded { x.engine with backend } c.plan (.ok applied, catalog))
      (hregistered : x.engine.registry.Registered query running registry) :
      Stepped x (.execute backend config place)
        { x with
          engine := { x.engine with backend, catalog, registry }
          launched := x.launched ++ [c] }

theorem stepped (x : Clients) (call : ClientCall) : Stepped x call (x.step call) := by
  cases call with
  | plan config statement text =>
    simp only [step]
    split
    next plan hplan => exact .planned ⟨x.engine, config, statement, text, plan, hplan⟩ rfl
    next => exact .refused config statement text
  | execute backend config place =>
    simp only [step]
    split
    next => exact .missing backend config place
    next c hplace =>
      obtain ⟨result, next, hexecuted, heq⟩ :=
        Engine.execute_cases { x.engine with backend } config c.plan
      rw [heq]
      cases hexecuted with
      | refused hcommanded => exact .unlaunched hplace (.refused hcommanded) rfl
      | commandOnly hcommanded hquery =>
        exact .unlaunched hplace (.commandOnly hcommanded hquery) rfl
      | launched hcommanded hquery hlaunch =>
        have hregistered := registered_of_launch hlaunch
        exact .launched hplace hquery hcommanded hregistered
      | failed hcommanded hquery hlaunch =>
        exact .unlaunched hplace (.failed hcommanded hquery hlaunch) rfl

theorem engine_step_plan (x : Clients) (config : Settings) (statement : Statement)
    (text : String) : ∃ next,
      (x.step (.plan config statement text)).engine = { x.engine with nextNumber := next } := by
  have hstep : (x.step (.plan config statement text)).engine =
      (x.engine.plan config statement text).2 := by
    simp only [step]
    split <;> rfl
  exact hstep ▸ Engine.plan_engine x.engine config statement text

theorem engine_step_execute {x : Clients} {place : Nat} {c : Compiled}
    (hplace : x.compiled[place]? = some c) (backend : Backend) (config : Settings) :
    (x.step (.execute backend config place)).engine =
      ({ x.engine with backend }.execute config c.plan).2 := by
  simp only [step, hplace]
  split
  next heq => rw [heq]
  next heq => rw [heq]

/-! ### Launches -/

/-- The call launches the query of a plan. -/
def Launches (x : Clients) (call : ClientCall) (c : Compiled) : Prop :=
  (x.step call).launched = x.launched ++ [c]

variable {x : Clients} {call : ClientCall} {c : Compiled} {s : CreateAsSelect} {query : QueryPlan}

theorem Launches.does (h : x.Launches call c) :
    c ∈ x.compiled ∧ ∃ query running, c.plan.query = some query ∧
      x.engine.registry.Registered query running (x.step call).engine.registry ∧
      ∃ backend applied, Engine.Commanded { x.engine with backend } c.plan
        (.ok applied, (x.step call).engine.catalog) := by
  have hstepped := x.stepped call
  unfold Launches at h
  generalize x.step call = next at hstepped h
  have hkept : next.launched ≠ x.launched := fun heq => by simp [heq] at h
  cases hstepped with
  | planned | refused | missing | unlaunched => exact absurd rfl hkept
  | @launched backend _ _ source applied _ query running _ hplace hquery hcommanded hregistered =>
    obtain rfl : source = c := by simpa using h
    exact ⟨List.mem_of_getElem? hplace, query, running, hquery, hregistered, backend, applied,
      hcommanded⟩

theorem registry_of_not_launches (x : Clients) (call : ClientCall) :
    (∃ c, x.Launches call c) ∨ (x.step call).launched = x.launched ∧
      (x.step call).engine.registry = x.engine.registry := by
  have hstepped := x.stepped call
  unfold Launches
  generalize x.step call = next at hstepped
  cases hstepped with
  | planned c hengine =>
    obtain ⟨number, heq⟩ := Engine.plan_engine c.engine c.config c.statement c.text
    rw [heq, hengine]
    exact .inr ⟨rfl, rfl⟩
  | refused config statement text =>
    obtain ⟨number, heq⟩ := Engine.plan_engine x.engine config statement text
    rw [heq]
    exact .inr ⟨rfl, rfl⟩
  | missing => exact .inr ⟨rfl, rfl⟩
  | unlaunched _ _ hregistry => exact .inr ⟨rfl, hregistry⟩
  | @launched _ _ _ c => exact .inl ⟨c, rfl⟩

/-! ### Plans and queries on record -/

/-- Every query that is registered comes from a plan that was made. -/
structure Recorded (x : Clients) : Prop where
  length_launched : x.launched.length = x.engine.registry.launches
  compiled : ∀ c ∈ x.launched, c ∈ x.compiled
  registered : ∀ id q, x.engine.registry.get? id = some q → q.id = id ∧
    ∃ c, x.launched[q.launch]? = some c ∧ c.plan.query = some q.plan
  pruned : x.engine.catalog.Pruned

theorem recorded_start (config : Settings) (home : Endpoint) (placement : Option Placement)
    (interceptors : List Interceptor) : (start config home placement interceptors).Recorded where
  length_launched := rfl
  compiled _ hc := absurd hc List.not_mem_nil
  registered id q hq := by
    have hnone : none = some q := hq
    cases hnone
  pruned := Catalog.pruned_empty

theorem Recorded.step {x : Clients} (h : x.Recorded) (call : ClientCall) :
    (x.step call).Recorded := by
  have hstepped := x.stepped call
  generalize x.step call = next at hstepped
  cases hstepped with
  | planned c hengine =>
    obtain ⟨number, heq⟩ := Engine.plan_engine c.engine c.config c.statement c.text
    rw [heq, hengine]
    exact ⟨h.length_launched, fun c hc => List.mem_append_left _ (h.compiled c hc), h.registered,
      h.pruned⟩
  | refused config statement text =>
    obtain ⟨number, heq⟩ := Engine.plan_engine x.engine config statement text
    rw [heq]
    exact ⟨h.length_launched, h.compiled, h.registered, h.pruned⟩
  | missing => exact h
  | unlaunched hplace hexecuted hregistry =>
    have hpruned := hexecuted.pruned h.pruned
    refine ⟨?_, h.compiled, ?_, hpruned⟩
    · exact h.length_launched.trans (congrArg Registry.launches hregistry.symm)
    · exact hregistry ▸ h.registered
  | @launched _ _ _ c _ _ query running registry hplace hquery hcommanded hregistered =>
    have hlength := h.length_launched
    refine ⟨?_, ?_, ?_, hcommanded.pruned h.pruned⟩
    · rw [List.length_append, List.length_singleton, hlength, hregistered.launches]
    · intro other hother
      rcases List.mem_append.1 hother with hold | hnew
      · exact h.compiled other hold
      · rw [List.mem_singleton.1 hnew]
        exact List.mem_of_getElem? hplace
    · intro id q hq
      rw [hregistered.get?] at hq
      split at hq
      next hid =>
        cases hq
        refine ⟨hid ▸ congrArg QueryPlan.id hregistered.plan_eq, c, ?_, ?_⟩
        · rw [hregistered.launch_eq, ← hlength, List.getElem?_concat_length]
        · rw [hquery, hregistered.plan_eq]
      next =>
        obtain ⟨hid, source, hsource, hplan⟩ := h.registered id q hq
        refine ⟨hid, source, ?_, hplan⟩
        exact List.getElem?_append_left (List.getElem?_eq_some_iff.1 hsource).1 ▸ hsource

theorem recorded (config : Settings) (home : Endpoint) (placement : Option Placement)
    (interceptors : List Interceptor) (calls : List ClientCall) :
    ((start config home placement interceptors).after calls).Recorded :=
  List.foldlRecOn (motive := Recorded) calls Clients.step
    (recorded_start config home placement interceptors) fun _ h call _ => h.step call

end Clients

end StreamSql
