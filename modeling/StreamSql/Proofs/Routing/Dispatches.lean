import StreamSql.Proofs.Routing.Merging

/-!
# The calls that a pull query makes

A router has a partition answered by calls: to the executor on its own node, and to the transport
for other nodes. `Router.watched` is the router with a log of these calls kept where they arrive. It
takes the same course (`sideBySide_watched`), and what the log holds is known otherwise: they are
the attempts of the partitions' routes, and they are what the counters have counted.

The partitions may be routed in any turns. Routing them one after the other, as `Router.pull` does,
is one of the ways to do so (`pull_eq_pullSideBySide`).
-/

namespace StreamSql

/-- A call that a router makes to have a partition answered. -/
inductive Dispatch where
  | home (partition : PartitionId)
  | node (endpoint : Endpoint) (request : NodeRequest)

def Dispatch.isHome : Dispatch → Bool
  | home _ => true
  | node .. => false

namespace Counters

variable {c : Counters}

/-- The counters with one more call. -/
def count (c : Counters) : Dispatch → Counters
  | .home _ => c.countLocal
  | .node .. => c.countRemote

def countAll (c : Counters) (calls : List Dispatch) : Counters := calls.foldl count c

theorem countAll_append (c : Counters) (calls more : List Dispatch) :
    c.countAll (calls ++ more) = (c.countAll calls).countAll more :=
  List.foldl_append

/-- What has become of counters: so many errors and latencies more, and the calls. The counters are
words, so these are sums modulo their size. -/
structure Raised (before : Counters) (errors latencies : Nat) (calls : List Dispatch)
    (after : Counters) : Prop where
  errors : after.errors = before.errors + .ofNat errors
  latencies : after.latencies = before.latencies + .ofNat latencies
  localRequests : after.localRequests = before.localRequests + .ofNat (calls.countP (·.isHome))
  remoteRequests :
    after.remoteRequests = before.remoteRequests + .ofNat (calls.countP (!·.isHome))

theorem ofNat_succ (n : UInt64) (count : Nat) :
    n + .ofNat count + 1 = n + .ofNat (count + 1) := by
  rw [UInt64.ofNat_add, UInt64.add_assoc]
  rfl

theorem ofNat_succ_after (n : UInt64) (count : Nat) :
    n + .ofNat (count + 1) = n + 1 + .ofNat count := by
  rw [← ofNat_succ, UInt64.add_assoc, UInt64.add_assoc, UInt64.add_comm 1]

theorem raised_countAll (c : Counters) (calls : List Dispatch) :
    c.Raised 0 0 calls (c.countAll calls) := by
  have hsame : ∀ n : UInt64, n = n + .ofNat 0 := fun n => (UInt64.add_zero n).symm
  induction calls generalizing c with
  | nil => exact ⟨hsame _, hsame _, hsame _, hsame _⟩
  | cons call rest ih =>
    obtain ⟨herrors, hlatencies, hlocal, hremote⟩ := ih (c.count call)
    cases call with
    | home partition =>
      refine ⟨herrors, hlatencies, hlocal.trans ?_, hremote⟩
      rw [List.countP_cons_of_pos rfl, ofNat_succ_after]
      rfl
    | node endpoint request =>
      refine ⟨herrors, hlatencies, hlocal, hremote.trans ?_⟩
      rw [List.countP_cons_of_pos rfl, ofNat_succ_after]
      rfl

theorem Raised.countError {before after : Counters} {errors latencies : Nat}
    {calls : List Dispatch} (h : before.Raised errors latencies calls after) :
    before.Raised (errors + 1) latencies calls after.countError :=
  { h with errors := (congrArg (· + 1) h.errors).trans (ofNat_succ _ _) }

theorem Raised.recordLatency {before after : Counters} {errors latencies : Nat}
    {calls : List Dispatch} (h : before.Raised errors latencies calls after)
    (latency : Duration) :
    before.Raised errors (latencies + 1) calls (after.recordLatency latency) :=
  { h with latencies := (congrArg (· + 1) h.latencies).trans (ofNat_succ _ _) }

end Counters

namespace Router

variable {σ : Type} {r : Router σ}

/-! ### Watching the calls -/

/-- The router with a log of the calls that arrive at its executor and at its transport. -/
def watched (r : Router σ) : Router (σ × List Dispatch) where
  home := r.home
  execute partition := fun (nodes, log) =>
    let (answer, nodes) := r.execute partition nodes
    (answer, nodes, log ++ [.home partition])
  transport :=
    { forward := fun endpoint request (nodes, log) =>
        let (answer, nodes) := r.transport.forward endpoint request nodes
        (answer, nodes, log ++ [.node endpoint request])
      now := fun (nodes, _) => r.transport.now nodes }
  filters := r.filters
  options := r.options
  statement := r.statement
  queryId := r.queryId

/-- The state of a watched router. -/
def logged (s : RoutingState σ) (log : List Dispatch) : RoutingState (σ × List Dispatch) :=
  ⟨(s.nodes, log), s.counters⟩

/-- The call that asks a node for a partition. -/
def callTo (r : Router σ) (partition : PartitionId) (endpoint : Endpoint) : Dispatch :=
  if endpoint = r.home then .home partition else .node endpoint (r.request partition)

theorem dispatch_watched (r : Router σ) (partition : PartitionId) (endpoint : Endpoint)
    (s : RoutingState σ) (log : List Dispatch) :
    r.watched.dispatch partition endpoint (logged s log) =
      ((r.dispatch partition endpoint s).1,
        logged (r.dispatch partition endpoint s).2 (log ++ [r.callTo partition endpoint])) := by
  by_cases h : endpoint = r.home
  · subst h
    have hcall : r.callTo partition r.home = .home partition := if_pos rfl
    rw [hcall, dispatch_home]
    exact congrFun (dispatch_home r.watched partition) _
  · rw [callTo, if_neg h, dispatch_of_ne_home r partition h]
    exact congrFun (dispatch_of_ne_home r.watched partition h) _

theorem counters_dispatch (r : Router σ) (partition : PartitionId) (endpoint : Endpoint)
    (s : RoutingState σ) :
    (r.dispatch partition endpoint s).2.counters =
      s.counters.count (r.callTo partition endpoint) := by
  by_cases h : endpoint = r.home
  · subst h
    rw [callTo, if_pos rfl, dispatch_home]
    rfl
  · rw [callTo, if_neg h, dispatch_of_ne_home r partition h]
    rfl

/-! ### The calls of a route -/

/-- The call that an attempt on a partition is the record of. -/
def callOf (r : Router σ) (partition : PartitionId) (attempt : Attempt) : Dispatch :=
  if attempt.isLocal then .home partition else .node attempt.endpoint (r.request partition)

/-- The calls that a route has made so far. -/
def callsOf (r : Router σ) (route : PartitionRoute) : List Dispatch :=
  route.attempts.map (r.callOf route.location.partition)

theorem callOf_record (r : Router σ) (partition : PartitionId) (endpoint : Endpoint)
    (answer : Except Diagnostic (List Row)) :
    r.callOf partition (r.record endpoint answer) = r.callTo partition endpoint := by
  simp [callOf, callTo, record]

theorem isHome_callOf (r : Router σ) (partition : PartitionId) (attempt : Attempt) :
    (r.callOf partition attempt).isHome = attempt.isLocal := by
  unfold callOf
  cases attempt.isLocal <;> rfl

/-- The call of the next step: one where it tries a node, and none otherwise. -/
def stepCalls (r : Router σ) (route : PartitionRoute) : List Dispatch :=
  match route.state with
  | .dispatching next => route.usable[next]?.toList.map (r.callTo route.location.partition)
  | _ => []

theorem callsOf_noted (r : Router σ) (route : PartitionRoute) (place : Nat) (endpoint : Endpoint)
    (answer : Except Diagnostic (List Row)) :
    r.callsOf (r.noted route place endpoint answer) =
      r.callsOf route ++ [r.callTo route.location.partition endpoint] := by
  simp [callsOf, noted, callOf_record]

/-- The call of a step is logged where the step is watched, counted, and put down as an attempt. -/
theorem step_watched (r : Router σ) (route : PartitionRoute) (s : RoutingState σ)
    (log : List Dispatch) :
    r.watched.step route (logged s log) =
        ((r.step route s).1, logged (r.step route s).2 (log ++ r.stepCalls route)) ∧
      (r.step route s).2.counters = s.counters.countAll (r.stepCalls route) ∧
      r.callsOf (r.step route s).1 = r.callsOf route ++ r.stepCalls route := by
  unfold step stepCalls
  cases hstate : route.state with
  | dispatching next =>
    cases hnext : route.usable[next]? with
    | none =>
      simp only [hnext, Option.toList_none, List.map_nil, List.append_nil]
      exact ⟨rfl, rfl, rfl⟩
    | some endpoint =>
      simp only [hnext, Option.toList_some, List.map_cons, List.map_nil, bind, StateT.bind,
        dispatch_watched]
      exact ⟨rfl, r.counters_dispatch route.location.partition endpoint s,
        r.callsOf_noted route next endpoint _⟩
  | planning | retrying _ | answered _ _ | exhausted | localNotEligible =>
    simp only [List.append_nil]
    exact ⟨rfl, rfl, rfl⟩

/-! ### The calls of routes side by side -/

theorem flatMap_set_perm {α β : Type} {f : α → List β} {as : List α} {i : Nat} {a b : α}
    {more : List β} (ha : as[i]? = some a) (hb : f b = f a ++ more) :
    ((as.set i b).flatMap f).Perm (as.flatMap f ++ more) := by
  induction as generalizing i with
  | nil => cases ha
  | cons first rest ih =>
    cases i with
    | zero =>
      obtain rfl : first = a := by simpa using ha
      rw [List.set_cons_zero, List.flatMap_cons, List.flatMap_cons, hb, List.append_assoc,
        List.append_assoc]
      exact List.perm_append_comm.append_left _
    | succ i =>
      rw [List.set_cons_succ, List.flatMap_cons, List.flatMap_cons, List.append_assoc]
      exact (ih (by simpa using ha)).append_left _

theorem turn_watched (r : Router σ) (routes : List PartitionRoute) (s : RoutingState σ)
    (log : List Dispatch) (place : Nat) :
    ∃ calls, r.watched.turn (routes, logged s log) place =
        ((r.turn (routes, s) place).1, logged (r.turn (routes, s) place).2 (log ++ calls)) ∧
      (r.turn (routes, s) place).2.counters = s.counters.countAll calls ∧
      ((r.turn (routes, s) place).1.flatMap r.callsOf).Perm
        (routes.flatMap r.callsOf ++ calls) := by
  cases hplace : routes[place]? with
  | none =>
    refine ⟨[], ?_⟩
    rw [turn_of_none hplace, turn_of_none hplace, List.append_nil, List.append_nil]
    exact ⟨rfl, rfl, .refl _⟩
  | some route =>
    obtain ⟨hstep, hcounted, hcalls⟩ := r.step_watched route s log
    refine ⟨r.stepCalls route, ?_⟩
    rw [turn_of_getElem? hplace, turn_of_getElem? hplace, hstep]
    exact ⟨rfl, hcounted, flatMap_set_perm hplace hcalls⟩

/-- **A watched router takes the same course**, its log grows by the calls of the routes, and the
counters count these calls. -/
theorem sideBySide_watched (r : Router σ) (schedule : List Nat) (routes : List PartitionRoute)
    (s : RoutingState σ) (log : List Dispatch) :
    ∃ calls, r.watched.sideBySide schedule routes (logged s log) =
        ((r.sideBySide schedule routes s).1,
          logged (r.sideBySide schedule routes s).2 (log ++ calls)) ∧
      (r.sideBySide schedule routes s).2.counters = s.counters.countAll calls ∧
      ((r.sideBySide schedule routes s).1.flatMap r.callsOf).Perm
        (routes.flatMap r.callsOf ++ calls) := by
  induction schedule generalizing routes s log with
  | nil => exact ⟨[], by rw [List.append_nil]; rfl, rfl, by rw [List.append_nil]; exact .refl _⟩
  | cons place schedule ih =>
    obtain ⟨calls, hturn, hcounted, hcalls⟩ := r.turn_watched routes s log place
    obtain ⟨more, hrest, hmore, hcallsMore⟩ :=
      ih (r.turn (routes, s) place).1 (r.turn (routes, s) place).2 (log ++ calls)
    refine ⟨calls ++ more, ?_, ?_, ?_⟩
    · rw [← List.append_assoc]
      refine Eq.trans ?_ hrest
      rw [sideBySide, List.foldl_cons, hturn]
      rfl
    · rw [Counters.countAll_append, ← hcounted]
      exact hmore
    · rw [← List.append_assoc]
      exact hcallsMore.trans (hcalls.append_right more)

/-! ### A pull query side by side -/

/-- What a pull query is answered where the routing that began in `s` has ended in `s'`. -/
def conclude (r : Router σ) (s s' : RoutingState σ) (routes : List PartitionRoute) :
    Except RouteError RoutedRows × RoutingState σ :=
  let decision : RoutingDecision := ⟨routes.map (·.result.1)⟩
  match decision.failed? with
  | some failed => (.error failed.error, s')
  | none =>
    let started := (r.transport.now s.nodes).nanoseconds
    let ended := (r.transport.now s'.nodes).nanoseconds
    (.ok ⟨(routes.filterMap (·.result.2)).flatten, decision⟩,
      { s' with counters := s'.counters.recordLatency ⟨ended - started⟩ })

/-- Answers a pull query as `Router.pull` does, but for the turns that the routes of its partitions
take. -/
def pullSideBySide (r : Router σ) (schedule : List Nat) (locations : List PartitionLocation) :
    StateM (RoutingState σ) (Except RouteError RoutedRows) := fun s =>
  let (routes, s') := r.sideBySide schedule (r.fresh locations) s
  r.conclude s s' routes

/-- The turns that let routes come to their ends one after the other, from a place on. -/
def oneByOne : Nat → List PartitionRoute → List Nat
  | _, [] => []
  | place, route :: rest => List.replicate route.remaining place ++ oneByOne (place + 1) rest

theorem run_step_eq (r : Router σ) (route : PartitionRoute) (s : RoutingState σ) :
    r.run (r.step route s).1 (r.step route s).2 = r.run route s := by
  cases hterminal : route.state.isTerminal with
  | true => rw [step_of_isTerminal hterminal]
  | false => exact (r.run_step route s hterminal).symm

theorem sideBySide_replicate {n place : Nat} {routes : List PartitionRoute} {route : PartitionRoute}
    (hplace : routes[place]? = some route) (hn : route.remaining ≤ n) (s : RoutingState σ) :
    r.sideBySide (List.replicate n place) routes s =
      (routes.set place (r.run route s).1, (r.run route s).2) := by
  induction n generalizing routes route s with
  | zero =>
    have hterminal := remaining_eq_zero_iff.1 (Nat.le_zero.1 hn)
    obtain ⟨hlt, rfl⟩ := List.getElem?_eq_some_iff.1 hplace
    rw [run_of_isTerminal hterminal, List.set_getElem_self]
    rfl
  | succ n ih =>
    obtain ⟨hlt, -⟩ := List.getElem?_eq_some_iff.1 hplace
    have hstep := r.remaining_step_le route s
    have hnext : (routes.set place (r.step route s).1)[place]? = some (r.step route s).1 := by
      rw [List.getElem?_set_self hlt]
    rw [List.replicate_succ, sideBySide, List.foldl_cons, turn_of_getElem? hplace]
    refine (ih hnext (by omega) _).trans ?_
    rw [List.set_set, run_step_eq]

theorem sideBySide_append (r : Router σ) (schedule more : List Nat) (routes : List PartitionRoute)
    (s : RoutingState σ) :
    r.sideBySide (schedule ++ more) routes s =
      r.sideBySide more (r.sideBySide schedule routes s).1 (r.sideBySide schedule routes s).2 :=
  List.foldl_append

theorem sideBySide_oneByOne (r : Router σ) (done routes : List PartitionRoute)
    (s : RoutingState σ) :
    r.sideBySide (oneByOne done.length routes) (done ++ routes) s =
      (done ++ (routes.mapM r.run s).1, (routes.mapM r.run s).2) := by
  induction routes generalizing done s with
  | nil => rfl
  | cons route rest ih =>
    have hplace : (done ++ route :: rest)[done.length]? = some route := by simp
    have hset : (done ++ route :: rest).set done.length (r.run route s).1 =
        done ++ [(r.run route s).1] ++ rest := by simp
    have hrest := ih (done ++ [(r.run route s).1]) (r.run route s).2
    rw [List.length_append, List.length_singleton] at hrest
    rw [oneByOne, sideBySide_append, sideBySide_replicate hplace (Nat.le_refl _), hset, hrest,
      List.append_assoc, List.mapM_cons]
    rfl

theorem mapM_routePartition (r : Router σ) (served : List PartitionLocation)
    (s : RoutingState σ) :
    let routes := (served.map fun l => ({ location := l } : PartitionRoute)).mapM r.run s
    served.mapM r.routePartition s = (routes.1.map (·.result), routes.2) := by
  induction served generalizing s with
  | nil => rfl
  | cons l rest ih =>
    have hrest := ih (r.run { location := l } s).2
    intro routes
    rw [List.mapM_cons]
    calc (do return (← r.routePartition l) :: (← rest.mapM r.routePartition)) s
        = ((r.run { location := l } s).1.result ::
              (rest.mapM r.routePartition (r.run { location := l } s).2).1,
            (rest.mapM r.routePartition (r.run { location := l } s).2).2) := rfl
      _ = (routes.1.map (·.result), routes.2) := by
          rw [hrest]
          simp only [routes, List.map_cons, List.mapM_cons]
          rfl

theorem route_eq_mapM_run (r : Router σ) (locations : List PartitionLocation)
    (s : RoutingState σ) :
    let routes := (r.fresh locations).mapM r.run s
    r.route locations s =
      ((⟨routes.1.map (·.result.1)⟩, routes.1.filterMap (·.result.2)), routes.2) := by
  unfold route
  simp only [bind, StateT.bind, mapM_routePartition, List.map_map, List.filterMap_map]
  rfl

theorem pull_eq_pullSideBySide (r : Router σ) (locations : List PartitionLocation) :
    r.pull locations = r.pullSideBySide (oneByOne 0 (r.fresh locations)) locations := by
  funext s
  have hroutes := r.sideBySide_oneByOne [] (r.fresh locations) s
  rw [List.nil_append, List.length_nil, List.nil_append] at hroutes
  unfold pull pullSideBySide conclude
  rw [hroutes, route_eq_mapM_run]
  rfl

/-! ### What a pull query has counted -/

theorem conclude_cases (r : Router σ) (s s' : RoutingState σ) (routes : List PartitionRoute) :
    (∃ e, r.conclude s s' routes = (.error e, s') ∧
        ∀ log log', r.watched.conclude (logged s log) (logged s' log') routes =
          (.error e, logged s' log')) ∨
      ∃ rows latency,
        let answer : Except RouteError RoutedRows := .ok ⟨rows, ⟨routes.map (·.result.1)⟩⟩
        let ended := { s' with counters := s'.counters.recordLatency latency }
        r.conclude s s' routes = (answer, ended) ∧
          ∀ log log', r.watched.conclude (logged s log) (logged s' log') routes =
            (answer, logged ended log') := by
  cases hfailed : RoutingDecision.failed? ⟨routes.map (·.result.1)⟩ with
  | some failed => exact .inl ⟨failed.error, by simp only [conclude, hfailed], fun _ _ => by
      simp only [conclude, hfailed]⟩
  | none => exact .inr ⟨_, _, by simp only [conclude, hfailed]; rfl, fun _ _ => by
      simp only [conclude, hfailed]; rfl⟩

/-- The attempts on all partitions of a decision. -/
def attemptsOf (decision : RoutingDecision) : List Attempt :=
  decision.partitions.flatMap (·.attempts)

theorem countP_callsOf (r : Router σ) (routes : List PartitionRoute) (p : Bool → Bool) :
    (routes.flatMap r.callsOf).countP (fun call => p call.isHome) =
      (attemptsOf ⟨routes.map (·.result.1)⟩).countP fun attempt => p attempt.isLocal := by
  rw [attemptsOf, List.flatMap_map, List.countP_flatMap, List.countP_flatMap]
  congr 1
  refine List.map_congr_left fun route _ => ?_
  rw [Function.comp_apply, Function.comp_apply, callsOf, List.countP_map]
  simp only [Function.comp_def, isHome_callOf]
  rfl

end Router

/-! ### Accounts of pull queries -/

/-- What the counters and the answer say of the calls that a pull query has made. A failure counts
as so many errors. -/
structure Accounted {ε α : Type} (errors : Nat) (decision : α → RoutingDecision)
    (before : Counters) (calls : List Dispatch) (answer : Except ε α) (after : Counters) :
    Prop where
  raised : before.Raised (if answer.isOk then 0 else errors) (if answer.isOk then 1 else 0) calls
    after
  home_attempts : ∀ a, answer = .ok a →
    calls.countP (·.isHome) = (Router.attemptsOf (decision a)).countP (·.isLocal)
  node_attempts : ∀ a, answer = .ok a →
    calls.countP (!·.isHome) = (Router.attemptsOf (decision a)).countP (!·.isLocal)

namespace Router

variable {σ : Type}

theorem fresh_watched (r : Router σ) (locations : List PartitionLocation) :
    r.watched.fresh locations = r.fresh locations := rfl

theorem callsOf_fresh (r : Router σ) (locations : List PartitionLocation) :
    (r.fresh locations).flatMap r.callsOf = [] := by
  simp [fresh, callsOf]

/-- **A pull query accounts for its calls**, whichever turns the routes of its partitions take. -/
theorem pullSideBySide_accounted (r : Router σ) (schedule : List Nat)
    (locations : List PartitionLocation) (s : RoutingState σ) :
    ∃ calls, r.watched.pullSideBySide schedule locations (logged s []) =
        ((r.pullSideBySide schedule locations s).1,
          logged (r.pullSideBySide schedule locations s).2 calls) ∧
      Accounted 0 RoutedRows.decision s.counters calls (r.pullSideBySide schedule locations s).1
        (r.pullSideBySide schedule locations s).2.counters := by
  obtain ⟨calls, hwatched, hcounted, hperm⟩ :=
    r.sideBySide_watched schedule (r.fresh locations) s []
  rw [callsOf_fresh, List.nil_append] at hperm
  have hraised := s.counters.raised_countAll calls
  rw [← hcounted] at hraised
  have hcount : ∀ p : Bool → Bool, calls.countP (fun call => p call.isHome) = _ := fun p =>
    (hperm.countP_eq _).symm.trans (r.countP_callsOf _ p)
  refine ⟨calls, ?_⟩
  simp only [pullSideBySide, fresh_watched, hwatched, List.nil_append]
  rcases r.conclude_cases s (r.sideBySide schedule (r.fresh locations) s).2
    (r.sideBySide schedule (r.fresh locations) s).1 with
    ⟨e, hconclude, hlogged⟩ | ⟨rows, latency, hconclude, hlogged⟩
  · rw [hlogged, hconclude]
    exact ⟨rfl, hraised, nofun, nofun⟩
  · rw [hlogged, hconclude]
    refine ⟨rfl, hraised.recordLatency latency, ?_, ?_⟩
    · rintro _ ⟨⟩
      exact hcount id
    · rintro _ ⟨⟩
      exact hcount not

theorem pull_accounted (r : Router σ) (locations : List PartitionLocation) (s : RoutingState σ) :
    ∃ calls, r.watched.pull locations (logged s []) =
        ((r.pull locations s).1, logged (r.pull locations s).2 calls) ∧
      Accounted 0 RoutedRows.decision s.counters calls (r.pull locations s).1
        (r.pull locations s).2.counters := by
  rw [pull_eq_pullSideBySide, pull_eq_pullSideBySide]
  exact r.pullSideBySide_accounted _ locations s

end Router

end StreamSql
