import Mathlib.Logic.Function.Iterate
import Mathlib.Tactic.Set
import StreamSql.Routing.Router

/-!
# Falling over from node to node

The routing of a partition goes step by step and ends (`exists_iterate_eq_run`). What it comes to is
said with `trials`: what the usable nodes answer when all of them are asked in turn. The nodes up to
the first that answers are tried, and no others (`run_dispatching`). `routePartition_fellOver` puts
this together for a whole partition, from the ranking of its replicas to the outcome.
-/

namespace StreamSql.Router

variable {σ : Type} {r : Router σ} {route : PartitionRoute} {s : RoutingState σ}

/-! ### The run of a route -/

/-- A route and the nodes, one step further. -/
def advance (r : Router σ) (x : PartitionRoute × RoutingState σ) :
    PartitionRoute × RoutingState σ :=
  r.step x.1 x.2

theorem run_of_isTerminal (h : route.state.isTerminal = true) : r.run route s = (route, s) := by
  rw [run, if_pos h]

theorem run_step (r : Router σ) (route : PartitionRoute) (s : RoutingState σ)
    (h : route.state.isTerminal = false) :
    r.run route s = r.run (r.step route s).1 (r.step route s).2 := by
  rw [run, if_neg (by simp [h])]

theorem exists_iterate_eq_run (r : Router σ) (route : PartitionRoute) (s : RoutingState σ) :
    ∃ n ≤ route.remaining, r.advance^[n] (route, s) = r.run route s ∧
      (r.run route s).1.state.isTerminal = true := by
  fun_induction Router.run r route s with
  | case1 route s hterminal => exact ⟨0, Nat.zero_le _, rfl, hterminal⟩
  | case2 route s hterminal next ih =>
    have hless := r.remaining_step_lt route s (by simpa using hterminal)
    obtain ⟨n, hn, hrun, hend⟩ := ih
    refine ⟨n + 1, Nat.succ_le_of_lt (Nat.lt_of_le_of_lt hn hless), ?_, hend⟩
    rw [Function.iterate_succ_apply]
    exact hrun

/-! ### Nodes asked in turn -/

/-- A node with what it answers. -/
structure Trial where
  endpoint : Endpoint
  answer : Except Diagnostic (List Row)

def Trial.Failed (trial : Trial) : Prop := ∃ d, trial.answer = .error d

/-- What nodes answer when all of them are asked in turn, whatever those before have answered. -/
def trials (r : Router σ) (partition : PartitionId) :
    List Endpoint → RoutingState σ → List Trial
  | [], _ => []
  | endpoint :: rest, s =>
    ⟨endpoint, (r.dispatch partition endpoint s).1⟩ ::
      r.trials partition rest (r.dispatch partition endpoint s).2

theorem map_trials (r : Router σ) (partition : PartitionId) (endpoints : List Endpoint)
    (s : RoutingState σ) : (r.trials partition endpoints s).map (·.endpoint) = endpoints := by
  induction endpoints generalizing s with
  | nil => rfl
  | cons endpoint rest ih => rw [trials, List.map_cons, ih]

/-- The nodes after some of them have been asked in turn. -/
def nodesAfter (r : Router σ) (partition : PartitionId) (endpoints : List Endpoint)
    (s : RoutingState σ) : RoutingState σ :=
  endpoints.foldl (fun s endpoint => (r.dispatch partition endpoint s).2) s

/-- The trials up to the first that succeeds. -/
def untilAnswer : List Trial → List Trial
  | [] => []
  | ⟨endpoint, .ok rows⟩ :: _ => [⟨endpoint, .ok rows⟩]
  | ⟨endpoint, .error d⟩ :: rest => ⟨endpoint, .error d⟩ :: untilAnswer rest

/-- The first trial that succeeds. -/
def firstAnswer? : List Trial → Option (Endpoint × List Row)
  | [] => none
  | ⟨endpoint, .ok rows⟩ :: _ => some (endpoint, rows)
  | ⟨_, .error _⟩ :: rest => firstAnswer? rest

theorem prefix_untilAnswer (trials : List Trial) : untilAnswer trials <+: trials := by
  fun_induction untilAnswer trials with
  | case1 => exact List.nil_prefix
  | case2 endpoint rows rest => exact ⟨rest, rfl⟩
  | case3 endpoint d rest ih => exact (List.prefix_cons_inj _).2 ih

theorem failed_of_mem_dropLast_untilAnswer {trials : List Trial} :
    ∀ trial ∈ (untilAnswer trials).dropLast, trial.Failed := by
  fun_induction untilAnswer trials with
  | case1 => simp
  | case2 endpoint rows rest => simp
  | case3 endpoint d rest ih =>
    intro trial htrial
    cases hrest : untilAnswer rest with
    | nil => simp [hrest] at htrial
    | cons next others =>
      rw [hrest] at htrial ih
      rcases List.mem_cons.1 htrial with rfl | hlater
      · exact ⟨d, rfl⟩
      · exact ih trial hlater

theorem firstAnswer?_eq_some_iff {trials : List Trial} {endpoint : Endpoint} {rows : List Row} :
    firstAnswer? trials = some (endpoint, rows) ↔
      ∃ earlier later, trials = earlier ++ ⟨endpoint, .ok rows⟩ :: later ∧
        ∀ trial ∈ earlier, trial.Failed := by
  fun_induction firstAnswer? trials with
  | case1 => simp
  | case2 other found rest =>
    constructor
    · rintro ⟨⟩
      exact ⟨[], rest, rfl, by simp⟩
    · rintro ⟨earlier, later, heq, hfailed⟩
      cases earlier with
      | nil => cases heq; rfl
      | cons first earlier =>
        obtain ⟨rfl, -⟩ := List.cons.inj heq
        obtain ⟨d, hd⟩ := hfailed _ List.mem_cons_self
        cases hd
  | case3 other d rest ih =>
    rw [ih]
    constructor
    · rintro ⟨earlier, later, rfl, hfailed⟩
      refine ⟨⟨other, .error d⟩ :: earlier, later, rfl, ?_⟩
      exact List.forall_mem_cons.2 ⟨⟨d, rfl⟩, hfailed⟩
    · rintro ⟨earlier, later, heq, hfailed⟩
      cases earlier with
      | nil => cases heq
      | cons first earlier =>
        obtain ⟨-, rfl⟩ := List.cons.inj heq
        exact ⟨earlier, later, rfl, (List.forall_mem_cons.1 hfailed).2⟩

theorem firstAnswer?_eq_none_iff {trials : List Trial} :
    firstAnswer? trials = none ↔ ∀ trial ∈ trials, trial.Failed := by
  fun_induction firstAnswer? trials with
  | case1 => simp
  | case2 endpoint rows rest => simp [Trial.Failed]
  | case3 endpoint d rest ih => simp [Trial.Failed, ih]

theorem untilAnswer_of_failed {trials : List Trial} (h : ∀ trial ∈ trials, trial.Failed) :
    untilAnswer trials = trials := by
  fun_induction untilAnswer trials with
  | case1 => rfl
  | case2 endpoint rows rest => simp [Trial.Failed] at h
  | case3 endpoint d rest ih => rw [ih (List.forall_mem_cons.1 h).2]

/-! ### From the first usable node on -/

/-- The route as trials leave it. -/
def concluded (r : Router σ) (route : PartitionRoute) (trials : List Trial) : PartitionRoute :=
  { route with
    attempts := route.attempts ++
      (untilAnswer trials).map fun trial => r.record trial.endpoint trial.answer
    state :=
      match firstAnswer? trials with
      | some (endpoint, rows) => .answered endpoint rows
      | none => .exhausted }

theorem concluded_state_eq_answered_iff {trials : List Trial} {endpoint : Endpoint}
    {rows : List Row} :
    (r.concluded route trials).state = .answered endpoint rows ↔
      firstAnswer? trials = some (endpoint, rows) := by
  rw [concluded]
  cases firstAnswer? trials with
  | none => simp
  | some answer => simp [Prod.ext_iff]

theorem concluded_state_eq_exhausted_iff {trials : List Trial} :
    (r.concluded route trials).state = .exhausted ↔ ∀ trial ∈ trials, trial.Failed := by
  rw [concluded, ← firstAnswer?_eq_none_iff]
  cases firstAnswer? trials with
  | none => simp
  | some answer => simp

theorem concluded_state_ne_localNotEligible {trials : List Trial} :
    (r.concluded route trials).state ≠ .localNotEligible := by
  rw [concluded]
  cases firstAnswer? trials with
  | none => simp
  | some answer => simp

theorem step_dispatching_none {next : Nat} (h : route.usable[next]? = none) :
    r.step { route with state := .dispatching next } s =
      ({ route with state := .exhausted }, s) := by
  simp only [step, h]
  rfl

theorem step_dispatching_some {next : Nat} {endpoint : Endpoint}
    (h : route.usable[next]? = some endpoint) :
    let answered := r.dispatch route.location.partition endpoint s
    r.step { route with state := .dispatching next } s =
      (r.noted { route with state := .dispatching next } next endpoint answered.1,
        answered.2) := by
  simp only [step, h]
  rfl

theorem run_retrying (r : Router σ) (route : PartitionRoute) (failed : Nat) (s : RoutingState σ) :
    r.run { route with state := .retrying failed } s =
      r.run { route with state := .dispatching (failed + 1) } s := by
  rw [run_step _ _ _ rfl]
  change r.run (PartitionRoute.retried { route with state := .retrying failed } failed) s = _
  unfold PartitionRoute.retried
  by_cases hmore : failed + 1 < route.usable.length
  · rw [if_pos hmore]
  · have hnone : route.usable[failed + 1]? = none :=
      List.getElem?_eq_none_iff.2 (Nat.le_of_not_lt hmore)
    rw [if_neg hmore, run_step r { route with state := .dispatching (failed + 1) } s rfl,
      step_dispatching_none hnone]

/-- A run tries the usable nodes in turn, from the one at hand up to the first that answers, and
asks no node beyond. -/
theorem run_dispatching (r : Router σ) (route : PartitionRoute) (next : Nat)
    (s : RoutingState σ) :
    let trials := r.trials route.location.partition (route.usable.drop next) s
    r.run { route with state := .dispatching next } s =
      (r.concluded route trials,
        r.nodesAfter route.location.partition ((untilAnswer trials).map (·.endpoint)) s) := by
  -- By induction on the nodes left: each failure adds an attempt and leaves one node fewer.
  induction hrest : route.usable.drop next generalizing route next s with
  | nil =>
    have hnone : route.usable[next]? = none := by
      rw [List.getElem?_eq_none_iff]
      exact List.drop_eq_nil_iff.1 hrest
    rw [run_step _ _ _ rfl, step_dispatching_none hnone, run_of_isTerminal rfl]
    simp [concluded, trials, untilAnswer, firstAnswer?, nodesAfter]
  | cons endpoint rest ih =>
    have hsome : route.usable[next]? = some endpoint := by
      rw [← List.head?_drop, hrest, List.head?_cons]
    have hafter : route.usable.drop (next + 1) = rest := by
      rw [← List.tail_drop, hrest, List.tail_cons]
    set answered := r.dispatch route.location.partition endpoint s with hanswered
    rw [run_step _ _ _ rfl, step_dispatching_some hsome, trials, ← hanswered]
    cases hanswer : answered.1 with
    | ok rows =>
      rw [run_of_isTerminal rfl]
      simp [noted, concluded, untilAnswer, firstAnswer?, nodesAfter, ← hanswered]
    | error d =>
      let tried : PartitionRoute :=
        { route with attempts := route.attempts ++ [r.record endpoint (.error d)] }
      have hretry := run_retrying r tried next answered.2
      have hnext := ih tried (next + 1) answered.2 hafter
      refine hretry.trans (hnext.trans ?_)
      simp [concluded, untilAnswer, firstAnswer?, nodesAfter, tried, ← hanswered]

/-! ### A whole partition -/

/-- What the route of a partition has come to, told by the nodes that may be tried and by what they
answer when they are asked in turn. -/
structure FellOver (r : Router σ) (location : PartitionLocation) (s : RoutingState σ)
    (usable : List Endpoint) (trials : List Trial) (route : PartitionRoute)
    (after : RoutingState σ) : Prop where
  location_eq : route.location = location
  ranked_eq : route.ranked = location.rank r.filters
  /-- The first nodes are tried, each once, and no other node is asked. -/
  tried : ∃ k, route.attempts.map (·.endpoint) = usable.take k ∧
    route.attempts = (trials.take k).map (fun trial => r.record trial.endpoint trial.answer) ∧
    after = r.nodesAfter location.partition (usable.take k) s
  failed : ∀ attempt ∈ route.attempts.dropLast,
    ∃ code message, attempt.outcome = .failed code message
  answered_iff : ∀ endpoint rows, route.state = .answered endpoint rows ↔
    ∃ earlier later, trials = earlier ++ ⟨endpoint, .ok rows⟩ :: later ∧
      ∀ trial ∈ earlier, trial.Failed
  localNotEligible_iff : route.state = .localNotEligible ↔
    r.options.skipForward = true ∧ usable = []
  exhausted_iff : route.state = .exhausted ↔
    ¬ (r.options.skipForward = true ∧ usable = []) ∧
      route.attempts.map (·.endpoint) = usable ∧ ∀ trial ∈ trials, trial.Failed

theorem run_of_localNotEligible {location : PartitionLocation}
    (hskip : r.options.skipForward = true) (hnone : r.usable (location.rank r.filters) = []) :
    r.run { location } s =
      ({ location, ranked := location.rank r.filters, state := .localNotEligible }, s) := by
  have hplanned : r.planned { location } =
      { location, ranked := location.rank r.filters, state := .localNotEligible } := by
    simp [planned, hskip, hnone]
  rw [run_step _ _ _ rfl]
  change r.run (r.planned { location }) s = _
  rw [hplanned, run_of_isTerminal rfl]

theorem run_of_eligible {location : PartitionLocation}
    (h : ¬ (r.options.skipForward = true ∧ r.usable (location.rank r.filters) = [])) :
    let usable := r.usable (location.rank r.filters)
    let trials := r.trials location.partition usable s
    r.run { location } s =
      (r.concluded { location, ranked := location.rank r.filters, usable } trials,
        r.nodesAfter location.partition ((untilAnswer trials).map (·.endpoint)) s) := by
  intro usable trials
  let ready : PartitionRoute := { location, ranked := location.rank r.filters, usable }
  have hplanned : r.planned { location } = { ready with state := .dispatching 0 } := by
    have hfalse : (r.options.skipForward && usable.isEmpty) = false := by
      simpa [usable, not_and] using h
    simp [planned, hfalse, ready, usable]
  rw [run_step _ _ _ rfl]
  change r.run (r.planned { location }) s = _
  rw [hplanned]
  exact run_dispatching r ready 0 s

theorem failed_of_record {endpoint : Endpoint} {answer : Except Diagnostic (List Row)}
    (h : Trial.Failed ⟨endpoint, answer⟩) :
    ∃ code message, (r.record endpoint answer).outcome = .failed code message := by
  obtain ⟨d, rfl⟩ := h
  exact ⟨d.code, d.message, rfl⟩

/-- **Routing falls over.** The usable nodes are tried in the order of their rank, up to the first
that answers. -/
theorem run_fellOver (r : Router σ) (location : PartitionLocation) (s : RoutingState σ) :
    let usable := r.usable (location.rank r.filters)
    FellOver r location s usable (r.trials location.partition usable s) (r.run { location } s).1
      (r.run { location } s).2 := by
  intro usable
  set trials := r.trials location.partition usable s with htrials
  have hendpoints : trials.map (·.endpoint) = usable := r.map_trials _ _ _
  by_cases hlocal : r.options.skipForward = true ∧ usable = []
  · have hnone : trials = [] := by rw [htrials, hlocal.2, Router.trials]
    rw [run_of_localNotEligible hlocal.1 hlocal.2]
    exact {
      location_eq := rfl
      ranked_eq := rfl
      tried := ⟨0, rfl, rfl, rfl⟩
      failed := by simp
      answered_iff := by simp [hnone]
      localNotEligible_iff := by simp [hlocal]
      exhausted_iff := by simp [hlocal] }
  · rw [run_of_eligible hlocal]
    obtain ⟨k, hk⟩ : ∃ k, untilAnswer trials = trials.take k :=
      ⟨_, List.prefix_iff_eq_take.1 (prefix_untilAnswer trials)⟩
    have htried : (untilAnswer trials).map (·.endpoint) = usable.take k := by
      rw [hk, List.map_take, hendpoints]
    have hattempts : ∀ ts : List Trial,
        (ts.map fun trial => r.record trial.endpoint trial.answer).map (·.endpoint) =
          ts.map (·.endpoint) := by
      intro ts
      rw [List.map_map]
      rfl
    exact {
      location_eq := rfl
      ranked_eq := rfl
      tried := ⟨k, (hattempts _).trans htried, congrArg _ hk, congrArg _ htried⟩
      failed := by
        intro attempt hattempt
        rw [concluded, List.nil_append, ← List.map_dropLast] at hattempt
        obtain ⟨trial, htrial, rfl⟩ := List.mem_map.1 hattempt
        exact failed_of_record (failed_of_mem_dropLast_untilAnswer trial htrial)
      answered_iff := fun endpoint rows =>
        concluded_state_eq_answered_iff.trans firstAnswer?_eq_some_iff
      localNotEligible_iff := iff_of_false concluded_state_ne_localNotEligible hlocal
      exhausted_iff := by
        rw [concluded_state_eq_exhausted_iff]
        refine ⟨fun hall => ⟨hlocal, ?_, hall⟩, fun h => h.2.2⟩
        refine (hattempts _).trans ?_
        rw [untilAnswer_of_failed hall, hendpoints] }

/-- **The routing of a partition.** It ends after at most three steps and two for every replica, and
the decision and the rows are those of the route it has come to. -/
theorem routePartition_fellOver (r : Router σ) (location : PartitionLocation)
    (s : RoutingState σ) :
    let usable := r.usable (location.rank r.filters)
    ∃ route after, (∃ n ≤ 2 * location.replicas.length + 3,
        r.advance^[n] ({ location }, s) = (route, after)) ∧
      route.state.isTerminal = true ∧
      FellOver r location s usable (r.trials location.partition usable s) route after ∧
      r.run { location } s = (route, after) ∧
      r.routePartition location s = (route.result, after) := by
  intro usable
  obtain ⟨n, hn, hrun, hend⟩ := r.exists_iterate_eq_run { location } s
  exact ⟨_, _, ⟨n, hn, hrun⟩, hend, r.run_fellOver location s, rfl, rfl⟩

end StreamSql.Router
