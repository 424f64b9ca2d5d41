import StreamSql.Routing.Decision
import StreamSql.Value

/-!
# Routing pull queries

Every partition that a pull query needs is answered by the first usable replica that succeeds, in
the order of the ranking: on this node where the replica is this node, and by forwarding otherwise.
The rows of the partitions are joined in the order of the partitions, and a single partition without
an answer fails the query.

The nodes, this one included, may keep state between calls. It is of a type `σ` that the router
hands on and does not look into.
-/

namespace StreamSql

/-- A pull query on its way to another node, for the partitions it is to be answered from. -/
structure NodeRequest where
  statement : String
  queryId : QueryId
  partitions : List PartitionId
  timeout : Duration
  deriving DecidableEq

/-- The way to other nodes. -/
structure Transport (σ : Type) where
  forward : Endpoint → NodeRequest → StateM σ (Except Diagnostic (List Row))
  /-- The time that has passed. -/
  now : σ → Duration

/-- What the router keeps while it runs. -/
structure RoutingState (σ : Type) where
  nodes : σ
  counters : Counters := {}

structure Router (σ : Type) where
  /-- This node. -/
  home : Endpoint
  /-- Answers from a partition that this node holds. -/
  execute : PartitionId → StateM σ (Except Diagnostic (List Row))
  transport : Transport σ
  filters : List ReplicaFilter
  options : RoutingOptions
  statement : String
  queryId : QueryId

/-- The rows of a pull query with the routing that found them. -/
structure RoutedRows where
  rows : List Row
  decision : RoutingDecision
  deriving DecidableEq

/-! ## Routes of partitions -/

/-- How far the routing of a partition has come. -/
inductive RouteState where
  | planning
  /-- The usable node at this place is to be tried. -/
  | dispatching (next : Nat)
  /-- The usable node at this place has been tried in vain. -/
  | retrying (failed : Nat)
  | answered (endpoint : Endpoint) (rows : List Row)
  | exhausted
  | localNotEligible
  deriving DecidableEq

def RouteState.isTerminal : RouteState → Bool
  | planning | dispatching _ | retrying _ => false
  | answered .. | exhausted | localNotEligible => true

structure PartitionRoute where
  location : PartitionLocation
  ranked : List RankedReplica := []
  /-- The nodes that may be tried, in the order of the ranking. -/
  usable : List Endpoint := []
  attempts : List Attempt := []
  state : RouteState := .planning
  deriving DecidableEq

namespace PartitionRoute

/-- A bound on the number of steps to the end of a route. -/
def remaining (route : PartitionRoute) : Nat :=
  match route.state with
  | .planning => 2 * route.location.replicas.length + 3
  | .dispatching next => 2 * (route.usable.length - next) + 2
  | .retrying failed => 2 * (route.usable.length - failed) + 1
  | .answered .. | .exhausted | .localNotEligible => 0

/-- The route turned to the node after one that has failed. -/
def retried (route : PartitionRoute) (failed : Nat) : PartitionRoute :=
  { route with
    state := if failed + 1 < route.usable.length then .dispatching (failed + 1) else .exhausted }

theorem remaining_retried_le (route : PartitionRoute) (failed : Nat) :
    (route.retried failed).remaining ≤ 2 * (route.usable.length - failed) := by
  unfold retried
  by_cases hmore : failed + 1 < route.usable.length
  · simp only [hmore, if_true, remaining]
    omega
  · simp [hmore, remaining]

def outcome (route : PartitionRoute) : PartitionOutcome :=
  match route.state with
  | .answered endpoint _ => .answered endpoint
  | .localNotEligible => .localNotEligible
  | _ => .exhausted

/-- The rows of a route that has ended in an answer. -/
def rows? (route : PartitionRoute) : Option (List Row) :=
  match route.state with
  | .answered _ rows => some rows
  | _ => none

/-- What has become of a partition. -/
def result (route : PartitionRoute) : PartitionDecision × Option (List Row) :=
  (⟨route.location.partition, route.ranked, route.attempts, route.outcome⟩, route.rows?)

end PartitionRoute

namespace Router

variable {σ : Type}

/-! ## One attempt -/

def request (r : Router σ) (partition : PartitionId) : NodeRequest :=
  ⟨r.statement, r.queryId, [partition], r.options.timeout⟩

/-- Answers on this node. -/
def dispatchHome (r : Router σ) (partition : PartitionId) :
    StateM (RoutingState σ) (Except Diagnostic (List Row)) := fun s =>
  let (result, nodes) := r.execute partition s.nodes
  (result, ⟨nodes, s.counters.countLocal⟩)

/-- Has another node answer. An answer that comes too late is not used. -/
def forward (r : Router σ) (partition : PartitionId) (endpoint : Endpoint) :
    StateM (RoutingState σ) (Except Diagnostic (List Row)) := fun s =>
  let (result, nodes) := r.transport.forward endpoint (r.request partition) s.nodes
  let started := (r.transport.now s.nodes).nanoseconds
  let ended := (r.transport.now nodes).nanoseconds
  let inTime := ended - started ≤ r.options.timeout.nanoseconds
  (if inTime then result else .error (diagnostic (RouteError.timeout endpoint r.options.timeout)),
    ⟨nodes, s.counters.countRemote⟩)

/-- Has a node answer. -/
def dispatch (r : Router σ) (partition : PartitionId) (endpoint : Endpoint) :
    StateM (RoutingState σ) (Except Diagnostic (List Row)) :=
  if endpoint = r.home then r.dispatchHome partition else r.forward partition endpoint

theorem dispatch_home (r : Router σ) (partition : PartitionId) :
    r.dispatch partition r.home = r.dispatchHome partition :=
  if_pos rfl

theorem dispatch_of_ne_home (r : Router σ) (partition : PartitionId) {endpoint : Endpoint}
    (h : endpoint ≠ r.home) : r.dispatch partition endpoint = r.forward partition endpoint :=
  if_neg h

/-- The record of an attempt on a node, by what the node answered. -/
def record (r : Router σ) (endpoint : Endpoint) (answer : Except Diagnostic (List Row)) :
    Attempt where
  endpoint
  isLocal := endpoint == r.home
  outcome :=
    match answer with
    | .ok rows => .answered rows.length
    | .error d => .failed d.code d.message

/-! ## One partition -/

/-- The nodes that may be tried: eligible, and this one if the request may not go further. -/
def usable (r : Router σ) (ranked : List RankedReplica) : List Endpoint :=
  (ranked.filter fun c =>
    c.isEligible && (!r.options.skipForward || c.replica.endpoint == r.home)).map
    (·.replica.endpoint)

/-- The route with its replicas ranked. -/
def planned (r : Router σ) (route : PartitionRoute) : PartitionRoute :=
  let ranked := route.location.rank r.filters
  let usable := r.usable ranked
  let state := if r.options.skipForward && usable.isEmpty then .localNotEligible else .dispatching 0
  { route with ranked, usable, state }

/-- The route with the answer of the node at a place. -/
def noted (r : Router σ) (route : PartitionRoute) (place : Nat) (endpoint : Endpoint)
    (answer : Except Diagnostic (List Row)) : PartitionRoute :=
  { route with
    attempts := route.attempts ++ [r.record endpoint answer]
    state :=
      match answer with
      | .ok rows => .answered endpoint rows
      | .error _ => .retrying place }

/-- One step on the way to an answer of a partition. The replicas are ranked once, at the start;
then the usable nodes are tried one after the other until one answers. -/
def step (r : Router σ) (route : PartitionRoute) : StateM (RoutingState σ) PartitionRoute :=
  match route.state with
  | .planning => return r.planned route
  | .dispatching next =>
    match route.usable[next]? with
    | none => return { route with state := .exhausted }
    | some endpoint =>
      return r.noted route next endpoint (← r.dispatch route.location.partition endpoint)
  | .retrying failed => return route.retried failed
  | .answered .. | .exhausted | .localNotEligible => return route

theorem length_usable_le (r : Router σ) (location : PartitionLocation) :
    (r.usable (location.rank r.filters)).length ≤ location.replicas.length := by
  rw [usable, List.length_map, ← location.length_rank r.filters]
  exact List.length_filter_le _ _

theorem remaining_planned_le (r : Router σ) (route : PartitionRoute) :
    (r.planned route).remaining ≤ 2 * route.location.replicas.length + 2 := by
  have husable := r.length_usable_le route.location
  unfold planned
  by_cases hnone :
      (r.options.skipForward && (r.usable (route.location.rank r.filters)).isEmpty) = true
  · simp [hnone, PartitionRoute.remaining]
  · simpa [hnone, PartitionRoute.remaining] using Nat.mul_le_mul_left 2 husable

theorem remaining_noted_le (r : Router σ) (route : PartitionRoute) (place : Nat)
    (endpoint : Endpoint) (answer : Except Diagnostic (List Row)) :
    (r.noted route place endpoint answer).remaining ≤ 2 * (route.usable.length - place) + 1 := by
  cases answer with
  | ok rows => simp [noted, PartitionRoute.remaining]
  | error d => simp [noted, PartitionRoute.remaining]

theorem remaining_step_lt (r : Router σ) (route : PartitionRoute) (s : RoutingState σ)
    (h : route.state.isTerminal = false) : (r.step route s).1.remaining < route.remaining := by
  unfold step
  cases hstate : route.state with
  | planning =>
    have hplanned := r.remaining_planned_le route
    simp only [PartitionRoute.remaining, hstate]
    exact Nat.lt_succ_of_le hplanned
  | dispatching next =>
    simp only [PartitionRoute.remaining, hstate]
    cases hnext : route.usable[next]? with
    | none => exact Nat.succ_pos _
    | some endpoint => exact Nat.lt_succ_of_le (r.remaining_noted_le route next endpoint _)
  | retrying failed =>
    have hretried := route.remaining_retried_le failed
    simp only [PartitionRoute.remaining, hstate]
    exact Nat.lt_succ_of_le hretried
  | answered endpoint rows =>
    rw [hstate] at h
    cases h
  | exhausted =>
    rw [hstate] at h
    cases h
  | localNotEligible =>
    rw [hstate] at h
    cases h

/-- Takes steps until the route has ended. -/
def run (r : Router σ) (route : PartitionRoute) : StateM (RoutingState σ) PartitionRoute := fun s =>
  if route.state.isTerminal then (route, s)
  else
    let next := r.step route s
    r.run next.1 next.2
termination_by route.remaining
decreasing_by
  next hstate => exact r.remaining_step_lt route _ (by simpa using hstate)

/-- Routes one partition, and gives its rows if it was answered. -/
def routePartition (r : Router σ) (location : PartitionLocation) :
    StateM (RoutingState σ) (PartitionDecision × Option (List Row)) :=
  return (← r.run { location }).result

/-! ## All partitions -/

/-- The locations of the partitions to serve, by ascending partition. -/
def served (r : Router σ) (locations : List PartitionLocation) : List PartitionLocation :=
  (locations.filter fun l => r.options.serves l.partition).mergeSort fun a b =>
    a.partition.number ≤ b.partition.number

/-- Routes every partition, and gives the rows of those that were answered. -/
def route (r : Router σ) (locations : List PartitionLocation) :
    StateM (RoutingState σ) (RoutingDecision × List (List Row)) := do
  let results ← (r.served locations).mapM r.routePartition
  return (⟨results.map (·.1)⟩, results.filterMap (·.2))

/-- Answers a pull query, and records how long that took if it succeeds. -/
def pull (r : Router σ) (locations : List PartitionLocation) :
    StateM (RoutingState σ) (Except RouteError RoutedRows) := fun s =>
  let ((decision, rows), s') := r.route locations s
  match decision.failed? with
  | some failed => (.error failed.error, s')
  | none =>
    let started := (r.transport.now s.nodes).nanoseconds
    let ended := (r.transport.now s'.nodes).nanoseconds
    (.ok ⟨rows.flatten, decision⟩,
      { s' with counters := s'.counters.recordLatency ⟨ended - started⟩ })

end Router

end StreamSql
