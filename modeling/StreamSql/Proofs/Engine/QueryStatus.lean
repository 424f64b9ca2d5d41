import StreamSql.Proofs.Engine.Clients

/-!
# The status of a query

Queries are launched by executions, which return them, and leave the registry when another query is
launched under their id or when they are taken out. Whoever keeps a returned query finds it by the
number of its launch: it runs as long as it is the one that is registered under its id, and is
terminated ever after (`status_rules`). The registry keeps the two in step (`InStep`): what is
registered runs, what has left is terminated, and no two queries have the same number.
-/

namespace StreamSql

namespace Registry

variable {r next : Registry} {plan : QueryPlan} {query q other : RunningQuery} {id : QueryId}
  {launch : Nat}

/-! ### Registered queries and those that have left -/

/-- The query is registered, or has left the registry. -/
def Known (r : Registry) (q : RunningQuery) : Prop :=
  (∃ id, r.get? id = some q) ∨ q ∈ r.retired

/-- Registered queries run, each under its own id, those that have left are terminated, and every
query has a number of its own. -/
structure InStep (r : Registry) : Prop where
  id_eq : ∀ id q, r.get? id = some q → q.id = id
  running : ∀ id q, r.get? id = some q → q.status = .running
  terminated : ∀ q ∈ r.retired, q.status = .terminated
  launch_lt : ∀ q, r.Known q → q.launch < r.launches
  unique : ∀ q other, r.Known q → r.Known other → q.launch = other.launch → q = other

theorem not_known_empty (q : RunningQuery) : ¬empty.Known q := by
  rintro (⟨id, hq⟩ | hq)
  · have hnone : none = some q := hq
    cases hnone
  · exact absurd hq List.not_mem_nil

theorem inStep_empty : empty.InStep where
  id_eq id q hq := absurd (.inl ⟨id, hq⟩) (not_known_empty q)
  running id q hq := absurd (.inl ⟨id, hq⟩) (not_known_empty q)
  terminated q hq := absurd (.inr hq) (not_known_empty q)
  launch_lt q hq := absurd hq (not_known_empty q)
  unique q _ hq := absurd hq (not_known_empty q)

theorem InStep.launched?_eq_some_iff (h : r.InStep) :
    r.launched? launch = some q ↔ r.Known q ∧ q.launch = launch := by
  have hmem : ∀ q, q ∈ r.queries ++ r.retired ↔ r.Known q := fun q =>
    List.mem_append.trans (or_congr mem_queries_iff Iff.rfl)
  unfold launched?
  constructor
  · intro hfound
    exact ⟨(hmem q).1 (List.mem_of_find?_eq_some hfound), by simpa using List.find?_some hfound⟩
  · rintro ⟨hknown, rfl⟩
    obtain ⟨found, hfound⟩ : ∃ found,
        (r.queries ++ r.retired).find? (·.launch == q.launch) = some found :=
      Option.isSome_iff_exists.1 (List.find?_isSome.2 ⟨q, (hmem q).2 hknown, beq_self_eq_true _⟩)
    have hlaunch : found.launch = q.launch := by simpa using List.find?_some hfound
    have hother := (hmem found).1 (List.mem_of_find?_eq_some hfound)
    exact h.unique _ _ hother hknown hlaunch ▸ hfound

/-! ### Leaving the registry -/

theorem launches_retire (r : Registry) (id : QueryId) : (r.retire id).launches = r.launches := by
  unfold retire
  split <;> rfl

theorem mem_retired_retire_iff :
    q ∈ (r.retire id).retired ↔ (∃ old, r.get? id = some old ∧ q = old.terminate) ∨
      q ∈ r.retired := by
  rw [retired_retire, List.mem_append]
  refine or_congr_left ?_
  cases r.get? id <;> simp

theorem InStep.known_retire (h : r.InStep) (hq : (r.retire id).Known q) :
    ∃ old, r.Known old ∧ old.launch = q.launch ∧
      (r.get? id = some old ∧ q = old.terminate ∨ r.get? id ≠ some old ∧ q = old) := by
  rcases hq with ⟨key, hq⟩ | hq
  · rw [get?_retire] at hq
    split at hq
    next => cases hq
    next hne =>
      refine ⟨q, .inl ⟨key, hq⟩, rfl, .inr ⟨fun hsame => hne ?_, rfl⟩⟩
      rw [← h.id_eq key q hq, h.id_eq id q hsame]
  · rcases mem_retired_retire_iff.1 hq with ⟨old, hold, rfl⟩ | hq
    · exact ⟨old, .inl ⟨id, hold⟩, rfl, .inl ⟨hold, rfl⟩⟩
    · refine ⟨q, .inr hq, rfl, .inr ⟨fun hsame => ?_, rfl⟩⟩
      cases (h.running id q hsame).symm.trans (h.terminated q hq)

theorem InStep.retire (h : r.InStep) (id : QueryId) : (r.retire id).InStep where
  id_eq key q hq := by
    rw [get?_retire] at hq
    split at hq
    · cases hq
    · exact h.id_eq key q hq
  running key q hq := by
    rw [get?_retire] at hq
    split at hq
    · cases hq
    · exact h.running key q hq
  terminated q hq := by
    rcases mem_retired_retire_iff.1 hq with ⟨old, -, rfl⟩ | hq
    · rfl
    · exact h.terminated q hq
  launch_lt q hq := by
    obtain ⟨old, hold, hlaunch, -⟩ := h.known_retire hq
    rw [launches_retire, ← hlaunch]
    exact h.launch_lt old hold
  unique q other hq hother hlaunch := by
    obtain ⟨first, hfirst, hfirstLaunch, hq⟩ := h.known_retire hq
    obtain ⟨second, hsecond, hsecondLaunch, hother⟩ := h.known_retire hother
    obtain rfl := h.unique first second hfirst hsecond
      (hfirstLaunch.trans (hlaunch.trans hsecondLaunch.symm))
    rcases hq with ⟨hthere, rfl⟩ | ⟨hnot, rfl⟩ <;> rcases hother with ⟨hthere', rfl⟩ | ⟨hnot', rfl⟩
    · rfl
    · exact absurd hthere hnot'
    · exact absurd hthere' hnot
    · rfl

theorem Known.retire (h : r.Known q) (id : QueryId) :
    ∃ later, (r.retire id).Known later ∧ later.launch = q.launch ∧ later.id = q.id := by
  rcases h with ⟨key, hq⟩ | hq
  · by_cases hkey : key = id
    · refine ⟨q.terminate, .inr (mem_retired_retire_iff.2 (.inl ⟨q, ?_, rfl⟩)), rfl, rfl⟩
      exact hkey ▸ hq
    · exact ⟨q, .inl ⟨key, by rw [get?_retire, if_neg hkey, hq]⟩, rfl, rfl⟩
  · exact ⟨q, .inr (mem_retired_retire_iff.2 (.inr hq)), rfl, rfl⟩

/-! ### Registrations -/

theorem Registered.get?_eq (h : r.Registered plan query next) (key : QueryId) :
    next.get? key = if key = plan.id then some query else (r.retire plan.id).get? key := by
  rw [h.get?]
  split
  next => rfl
  next hne => rw [get?_retire, if_neg hne]

theorem Registered.known (h : r.Registered plan query next) (hq : next.Known q) :
    q = query ∨ (r.retire plan.id).Known q := by
  rcases hq with ⟨key, hq⟩ | hq
  · rw [h.get?_eq] at hq
    split at hq
    next => exact .inl (Option.some.inj hq).symm
    next => exact .inr (.inl ⟨key, hq⟩)
  · rw [h.retired, ← retired_retire] at hq
    exact .inr (.inr hq)

theorem Registered.known_of_retire (h : r.Registered plan query next)
    (hq : (r.retire plan.id).Known q) : next.Known q := by
  rcases hq with ⟨key, hq⟩ | hq
  · have hne : key ≠ plan.id := by
      rintro rfl
      rw [get?_retire, if_pos rfl] at hq
      cases hq
    exact .inl ⟨key, by rw [h.get?_eq, if_neg hne, hq]⟩
  · refine .inr ?_
    rwa [h.retired, ← retired_retire]

theorem InStep.registered (h : r.InStep) (hregistered : r.Registered plan query next)
    (hrunning : query.status = .running) : next.InStep := by
  have hrest := h.retire plan.id
  have hless : ∀ q, (r.retire plan.id).Known q → q.launch < r.launches := fun q hq =>
    launches_retire r plan.id ▸ hrest.launch_lt q hq
  have hnew := hregistered.launch_eq
  refine ⟨fun key q hq => ?_, fun key q hq => ?_, fun q hq => ?_, fun q hq => ?_,
    fun q other hq hother hlaunch => ?_⟩
  · rw [hregistered.get?_eq] at hq
    split at hq
    next heq => cases hq; exact heq ▸ congrArg QueryPlan.id hregistered.plan_eq
    next => exact hrest.id_eq key q hq
  · rw [hregistered.get?_eq] at hq
    split at hq
    next => cases hq; exact hrunning
    next => exact hrest.running key q hq
  · rw [hregistered.retired, ← retired_retire] at hq
    exact hrest.terminated q hq
  · rw [hregistered.launches]
    rcases hregistered.known hq with rfl | hold
    · omega
    · have := hless q hold
      omega
  · rcases hregistered.known hq with rfl | hold <;>
      rcases hregistered.known hother with rfl | holder
    · rfl
    · have := hless other holder
      omega
    · have := hless q hold
      omega
    · exact hrest.unique q other hold holder hlaunch

end Registry

/-! ### Runs -/

/-- An engine with the queries that its executions have returned. -/
structure Watched where
  engine : Engine
  returned : List RunningQuery := []

namespace Watched

inductive Call where
  | plan (config : Settings) (statement : Statement) (text : String)
  | execute (session : Session) (plan : Plan)
  | remove (id : QueryId)

def step (x : Watched) : Call → Watched
  | .plan config statement text => { x with engine := (x.engine.plan config statement text).2 }
  | .execute session plan =>
    match x.engine.executeIn session plan with
    | (.ok ⟨_, some query⟩, engine) => ⟨engine, x.returned ++ [query]⟩
    | (_, engine) => { x with engine }
  | .remove id =>
    { x with engine := { x.engine with registry := (x.engine.registry.remove id).2 } }

/-- The state after some calls. -/
def after (x : Watched) (calls : List Call) : Watched := calls.foldl step x

/-- An engine without entries and queries that keeps its materializations in memory. -/
def start (config : Settings) (home : Endpoint) (placement : Option Placement)
    (interceptors : List Interceptor) : Watched where
  engine := { Engine.new config home placement with interceptors }

theorem after_snoc (x : Watched) (calls : List Call) (call : Call) :
    x.after (calls ++ [call]) = (x.after calls).step call :=
  List.foldl_concat ..

theorem after_append (x : Watched) (calls later : List Call) :
    x.after (calls ++ later) = (x.after calls).after later :=
  List.foldl_append ..

/-- The status of a query, wherever it is now. -/
def status? (x : Watched) (query : RunningQuery) : Option QueryStatus :=
  (x.engine.registry.launched? query.launch).map (·.status)

/-- The query is the one that is registered under its id. -/
def Registers (x : Watched) (query : RunningQuery) : Prop :=
  ∃ q, x.engine.registry.get? query.id = some q ∧ q.launch = query.launch

/-- The call ends the query: it is taken out, or another query is launched under its id. -/
def Ends (x : Watched) (call : Call) (query : RunningQuery) : Prop :=
  call = .remove query.id ∨
    ∃ other, (x.step call).returned = x.returned ++ [other] ∧ other.id = query.id

variable {x : Watched} {call : Call} {query q : RunningQuery} {session : Session} {plan : Plan}
  {d : Diagnostic}

/-! ### What a call does -/

theorem executeIn_cases (engine : Engine) (session : Session) (plan : Plan) :
    (∃ d next, engine.executeIn session plan = (.error d, next) ∧
        next.registry = engine.registry) ∨
      (∃ message next, engine.executeIn session plan = (.ok ⟨message, none⟩, next) ∧
        plan.query = none ∧ next.registry = engine.registry) ∨
      ∃ message running query next,
        engine.executeIn session plan = (.ok ⟨message, some running⟩, next) ∧
          plan.query = some query ∧ engine.registry.Registered query running next.registry ∧
            running.status = .running := by
  unfold Engine.executeIn
  split
  next => exact .inl ⟨_, _, rfl, rfl⟩
  next config _ =>
    obtain ⟨result, next, hexecuted, heq⟩ := Engine.execute_cases engine config plan
    rw [heq]
    cases hexecuted with
    | refused | failed => exact .inl ⟨_, _, rfl, rfl⟩
    | commandOnly _ hquery => exact .inr (.inl ⟨_, _, rfl, hquery, rfl⟩)
    | launched hcommanded hquery hlaunch =>
      have hregistered := Clients.registered_of_launch hlaunch
      obtain ⟨materialization, -, hregister⟩ := bind_eq_ok_iff.1 hlaunch
      have hrunning := Registry.register_query (reported_eq_ok_iff.1 hregister)
      exact .inr (.inr ⟨_, _, _, _, rfl, hquery, hregistered, hrunning ▸ rfl⟩)

/-- What a call does to the registered queries and to those that were returned. -/
inductive Stepped (x : Watched) : Call → Watched → Prop
  | kept {call : Call} {next : Watched} (hcall : ∀ id, call ≠ .remove id)
      (hregistry : next.engine.registry = x.engine.registry)
      (hreturned : next.returned = x.returned) : Stepped x call next
  | launched {session : Session} {plan : Plan} {query : QueryPlan} {running : RunningQuery}
      {next : Watched}
      (hregistered : x.engine.registry.Registered query running next.engine.registry)
      (hrunning : running.status = .running)
      (hreturned : next.returned = x.returned ++ [running]) : Stepped x (.execute session plan) next
  | removed {id : QueryId} {next : Watched}
      (hregistry : next.engine.registry = x.engine.registry.retire id)
      (hreturned : next.returned = x.returned) : Stepped x (.remove id) next

theorem stepped (x : Watched) (call : Call) : Stepped x call (x.step call) := by
  cases call with
  | plan config statement text =>
    obtain ⟨number, heq⟩ := Engine.plan_engine x.engine config statement text
    refine .kept (fun _ h => nomatch h) ?_ rfl
    rw [step, heq]
  | execute session plan =>
    simp only [step]
    rcases executeIn_cases x.engine session plan with ⟨d, next, heq, hregistry⟩ |
      ⟨message, next, heq, -, hregistry⟩ |
      ⟨message, running, query, next, heq, -, hregistered, hrunning⟩ <;> rw [heq]
    · exact .kept (fun _ h => nomatch h) hregistry rfl
    · exact .kept (fun _ h => nomatch h) hregistry rfl
    · exact .launched hregistered hrunning rfl
  | remove id => exact .removed rfl rfl

/-! ### Queries on record -/

/-- Every query that was returned is known by its number, with its id. -/
structure Held (x : Watched) : Prop where
  inStep : x.engine.registry.InStep
  known : ∀ query ∈ x.returned, ∃ q, x.engine.registry.Known q ∧ q.launch = query.launch ∧
    q.id = query.id

theorem held_start (config : Settings) (home : Endpoint) (placement : Option Placement)
    (interceptors : List Interceptor) : (start config home placement interceptors).Held where
  inStep := Registry.inStep_empty
  known _ hquery := absurd hquery List.not_mem_nil

theorem Held.step (h : x.Held) (call : Call) : (x.step call).Held := by
  have hstepped := x.stepped call
  generalize x.step call = next at hstepped
  cases hstepped with
  | kept _ hregistry hreturned =>
    refine ⟨hregistry ▸ h.inStep, fun query hquery => ?_⟩
    rw [hregistry]
    exact h.known query (hreturned ▸ hquery)
  | @launched _ _ plan running _ hregistered hrunning hreturned =>
    refine ⟨h.inStep.registered hregistered hrunning, fun query hquery => ?_⟩
    rw [hreturned] at hquery
    rcases List.mem_append.1 hquery with hold | hnew
    · obtain ⟨q, hq, hlaunch, hid⟩ := h.known query hold
      obtain ⟨later, hlater, hsame, hkept⟩ := hq.retire plan.id
      exact ⟨later, hregistered.known_of_retire hlater, hsame.trans hlaunch, hkept.trans hid⟩
    · rw [List.mem_singleton.1 hnew]
      refine ⟨running, .inl ⟨plan.id, ?_⟩, rfl, rfl⟩
      rw [hregistered.get?, if_pos rfl]
  | @removed id _ hregistry hreturned =>
    refine ⟨hregistry ▸ h.inStep.retire id, fun query hquery => ?_⟩
    obtain ⟨q, hq, hlaunch, hid⟩ := h.known query (hreturned ▸ hquery)
    obtain ⟨later, hlater, hsame, hkept⟩ := hq.retire id
    exact ⟨later, hregistry ▸ hlater, hsame.trans hlaunch, hkept.trans hid⟩

theorem held (config : Settings) (home : Endpoint) (placement : Option Placement)
    (interceptors : List Interceptor) (calls : List Call) :
    ((start config home placement interceptors).after calls).Held :=
  List.foldlRecOn (motive := Held) calls Watched.step
    (held_start config home placement interceptors) fun _ h call _ => h.step call

theorem Held.status?_eq (h : x.Held) (hknown : x.engine.registry.Known q)
    (hlaunch : q.launch = query.launch) : x.status? query = some q.status := by
  rw [status?, h.inStep.launched?_eq_some_iff.2 ⟨hknown, hlaunch⟩]
  rfl

theorem Held.exists_retired (h : x.Held) (hquery : query ∈ x.returned)
    (hnot : ¬x.Registers query) : ∃ q ∈ x.engine.registry.retired, q.launch = query.launch := by
  obtain ⟨q, ⟨id, hq⟩ | hq, hlaunch, hid⟩ := h.known query hquery
  · rw [← h.inStep.id_eq id q hq, hid] at hq
    exact absurd ⟨q, hq, hlaunch⟩ hnot
  · exact ⟨q, hq, hlaunch⟩

/-- A returned query runs exactly while it is the one that is registered under its id. -/
theorem Held.running_iff (h : x.Held) (hquery : query ∈ x.returned) :
    x.status? query = some .running ↔ x.Registers query := by
  constructor
  · intro hrunning
    by_contra hnot
    obtain ⟨q, hq, hlaunch⟩ := h.exists_retired hquery hnot
    rw [h.status?_eq (.inr hq) hlaunch, h.inStep.terminated q hq] at hrunning
    cases hrunning
  · rintro ⟨q, hq, hlaunch⟩
    rw [h.status?_eq (.inl ⟨_, hq⟩) hlaunch, h.inStep.running _ q hq]

theorem mem_retired_step (hq : q ∈ x.engine.registry.retired) (call : Call) :
    q ∈ (x.step call).engine.registry.retired := by
  have hstepped := x.stepped call
  generalize x.step call = next at hstepped
  cases hstepped with
  | kept _ hregistry => exact hregistry ▸ hq
  | launched hregistered =>
    rw [hregistered.retired]
    exact List.mem_append_right _ hq
  | removed hregistry =>
    rw [hregistry]
    exact Registry.mem_retired_retire_iff.2 (.inr hq)

theorem mem_retired_after (hq : q ∈ x.engine.registry.retired) (calls : List Call) :
    q ∈ (x.after calls).engine.registry.retired :=
  List.foldlRecOn (motive := (q ∈ ·.engine.registry.retired)) calls step hq
    fun _ h call _ => mem_retired_step h call

theorem registers_returned (hreturned : (x.step call).returned = x.returned ++ [query]) :
    (x.step call).Registers query := by
  have hstepped := x.stepped call
  generalize x.step call = next at hstepped hreturned
  cases hstepped with
  | kept _ _ hsame | removed _ hsame => simp [hsame] at hreturned
  | @launched _ _ plan running _ hregistered _ hlaunched =>
    obtain rfl : running = query := by simpa [hlaunched] using hreturned
    have hid : running.id = plan.id := congrArg QueryPlan.id hregistered.plan_eq
    exact ⟨running, by rw [hregistered.get?, if_pos hid], rfl⟩

theorem Held.registers_step_iff (h : x.Held) (hregisters : x.Registers query) (call : Call) :
    (x.step call).Registers query ↔ ¬x.Ends call query := by
  obtain ⟨q, hq, hlaunch⟩ := hregisters
  have hstepped := x.stepped call
  unfold Ends
  generalize x.step call = next at hstepped
  cases hstepped with
  | kept hcall hregistry hreturned =>
    refine iff_of_true ⟨q, hregistry ▸ hq, hlaunch⟩ ?_
    rintro (hremove | ⟨other, hother, -⟩)
    · exact hcall _ hremove
    · simp [hreturned] at hother
  | @launched _ _ plan running _ hregistered _ hreturned =>
    have hid : running.id = plan.id := congrArg QueryPlan.id hregistered.plan_eq
    by_cases hsame : query.id = plan.id
    · refine iff_of_false ?_ fun hends => hends (.inr ⟨running, hreturned, hid.trans hsame.symm⟩)
      rintro ⟨other, hother, hnumber⟩
      rw [hregistered.get?, if_pos hsame] at hother
      cases hother
      have hless := h.inStep.launch_lt q (.inl ⟨_, hq⟩)
      rw [hlaunch, ← hnumber, hregistered.launch_eq] at hless
      exact absurd hless (Nat.lt_irrefl _)
    · refine iff_of_true ⟨q, by rw [hregistered.get?, if_neg hsame, hq], hlaunch⟩ ?_
      rintro (hremove | ⟨other, hother, hothers⟩)
      · cases hremove
      · obtain rfl : running = other := by simpa [hreturned] using hother
        exact hsame (hothers.symm.trans hid)
  | @removed id _ hregistry hreturned =>
    by_cases hsame : query.id = id
    · refine iff_of_false ?_ fun hends => hends (.inl (congrArg Call.remove hsame.symm))
      rintro ⟨other, hother, -⟩
      rw [hregistry, Registry.get?_retire, if_pos hsame] at hother
      cases hother
    · refine iff_of_true ⟨q, ?_, hlaunch⟩ ?_
      · rw [hregistry, Registry.get?_retire, if_neg hsame, hq]
      · rintro (hremove | ⟨other, hother, -⟩)
        · cases hremove
          exact hsame rfl
        · simp [hreturned] at hother

theorem registry_of_error (herror : (x.engine.executeIn session plan).1 = .error d) :
    (x.step (.execute session plan)).engine.registry = x.engine.registry := by
  simp only [step]
  rcases executeIn_cases x.engine session plan with ⟨d, next, heq, hregistry⟩ |
    ⟨message, next, heq, -⟩ | ⟨message, running, query, next, heq, -⟩ <;> rw [heq] at herror ⊢
  · exact hregistry
  · cases herror
  · cases herror

theorem execute_of_taken {query : QueryPlan} (hquery : plan.query = some query)
    (htaken : x.engine.registry.contains query.id = true) (hkeep : query.orReplace = false) :
    ∃ d, (x.engine.executeIn session plan).1 = .error d := by
  rcases executeIn_cases x.engine session plan with ⟨d, next, heq, -⟩ |
    ⟨message, next, -, hnone, -⟩ | ⟨message, running, other, next, -, hother, hregistered, -⟩
  · exact ⟨d, congrArg Prod.fst heq⟩
  · cases hnone.symm.trans hquery
  · obtain rfl : other = query := Option.some.inj (hother.symm.trans hquery)
    cases hkeep.symm.trans (hregistered.replaces htaken)

/-- How the status of queries follows the registry. -/
structure StatusRules (start : Watched) (calls : List Call) : Prop where
  /-- Queries are registered under their own ids. -/
  id_eq : ∀ id q, (start.after calls).engine.registry.get? id = some q → q.id = id
  /-- A query that was returned runs exactly while it is the one registered under its id. -/
  running_iff : ∀ query ∈ (start.after calls).returned,
    (start.after calls).status? query = some .running ↔ (start.after calls).Registers query
  /-- That is so from its launch until it is taken out, or another one is launched under its id. -/
  registers : ∀ call query, (start.after (calls ++ [call])).returned =
    (start.after calls).returned ++ [query] → (start.after (calls ++ [call])).Registers query
  registers_iff : ∀ call query, (start.after calls).Registers query →
    ((start.after (calls ++ [call])).Registers query ↔ ¬(start.after calls).Ends call query)
  /-- From then on it is terminated. -/
  terminated : ∀ query ∈ (start.after calls).returned, ¬(start.after calls).Registers query →
    ∀ later, (start.after (calls ++ later)).status? query = some .terminated
  /-- An execution that ends in an error changes no status and no registration, in particular one
  whose plan may not replace the query that has its id. -/
  failed : ∀ session plan d, ((start.after calls).engine.executeIn session plan).1 = .error d →
    (start.after (calls ++ [.execute session plan])).engine.registry =
        (start.after calls).engine.registry ∧
      ∀ query, (start.after (calls ++ [.execute session plan])).status? query =
        (start.after calls).status? query
  taken : ∀ session plan query, plan.query = some query →
    (start.after calls).engine.registry.contains query.id = true → query.orReplace = false →
      ∃ d, ((start.after calls).engine.executeIn session plan).1 = .error d

/-- **What is registered runs, and what is not is terminated.** -/
theorem status_rules (config : Settings) (home : Endpoint) (placement : Option Placement)
    (interceptors : List Interceptor) (calls : List Call) :
    StatusRules (start config home placement interceptors) calls := by
  have hheld := held config home placement interceptors
  refine ⟨(hheld calls).inStep.id_eq, fun _ => (hheld calls).running_iff, fun call query h => ?_,
    fun call query h => ?_, fun query hquery hnot later => ?_, fun session plan d herror => ?_,
    fun _ _ _ => execute_of_taken⟩
  · rw [after_snoc] at h ⊢
    exact registers_returned h
  · rw [after_snoc]
    exact (hheld calls).registers_step_iff h call
  · obtain ⟨q, hq, hlaunch⟩ := (hheld calls).exists_retired hquery hnot
    have hstays := mem_retired_after hq later
    rw [← after_append] at hstays
    rw [(hheld _).status?_eq (.inr hstays) hlaunch, (hheld _).inStep.terminated q hstays]
  · rw [after_snoc]
    have hregistry := registry_of_error herror
    exact ⟨hregistry, fun query => by rw [status?, hregistry, status?]⟩

end Watched

/-- A query of a fixed id that fills the view. -/
def Sample.refill (orReplace : Bool) : Plan :=
  .ofQuery "INSERT INTO USERS_VIEW ...;" none
    { sources := .ofList [⟨"USERS"⟩]
      sink := some view
      step := .source ⟨"Source/USERS", .empty⟩ .table ⟨"USERS"⟩ "USERS" "users" .kafka .json
      id := ⟨"REFILL"⟩
      orReplace }

/-- The second launch is refused, and the third one ends the first query. -/
example :
    let x := (Watched.start {} Sample.localhost none []).after
      [.execute {} (Sample.refill false), .execute {} (Sample.refill false),
        .execute {} (Sample.refill true)]
    x.returned.map x.status? = [some .terminated, some .running] := rfl

end StreamSql
