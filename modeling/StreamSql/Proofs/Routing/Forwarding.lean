import StreamSql.Proofs.Routing.Merging
import StreamSql.Proofs.Sorted

/-!
# Forwarding between the nodes of a cluster

A node that does not hold a partition forwards the request to one that does. That node serves it for
the partitions asked for, by what it knows of the copies, and does not forward it again. Here the
two levels are put together: a `Cluster` is made of nodes that route in the same way, each with its
own filters and locations, and requests and answers may be lost at any time.

Whatever node answers for a partition answers the same rows (`Router.Holds`), so every route that
ends in an answer has those (`Router.Holds.step`, `Router.Holds.run`). That the transport between
nodes is of this kind goes by induction on how often a request is handed on (`Cluster.holds_node`);
a forwarded request is not handed on at all (`Router.pull_withTransport`), so nothing depends on
how often it might be (`Cluster.transport_succ`).
-/

namespace StreamSql

namespace Router

variable {σ : Type} {r : Router σ} {rows : PartitionId → List Row}
  {locations : List PartitionLocation} {s : RoutingState σ}

/-! ### The rows of the answers -/

/-- Whatever node answers for a partition, it answers the same rows. -/
def Holds (r : Router σ) (rows : PartitionId → List Row) : Prop :=
  ∀ partition endpoint s answer, (r.dispatch partition endpoint s).1 = .ok answer →
    answer = rows partition

/-- The route of a partition that has the right rows if it has any. -/
structure Faithful (rows : PartitionId → List Row) (l : PartitionLocation)
    (route : PartitionRoute) : Prop where
  location_eq : route.location = l
  rows_eq : ∀ answer, route.rows? = some answer → answer = rows l.partition

theorem faithful_fresh (rows : PartitionId → List Row) (l : PartitionLocation) :
    Faithful rows l { location := l } where
  location_eq := rfl
  rows_eq := nofun

theorem rows?_planned (r : Router σ) (route : PartitionRoute) : (r.planned route).rows? = none := by
  unfold planned
  by_cases hnone :
      (r.options.skipForward && (r.usable (route.location.rank r.filters)).isEmpty) = true
  · simp [hnone, PartitionRoute.rows?]
  · simp [hnone, PartitionRoute.rows?]

theorem rows?_retried (route : PartitionRoute) (failed : Nat) :
    (route.retried failed).rows? = none := by
  unfold PartitionRoute.retried
  by_cases hmore : failed + 1 < route.usable.length
  · simp [hmore, PartitionRoute.rows?]
  · simp [hmore, PartitionRoute.rows?]

theorem rows?_noted (r : Router σ) (route : PartitionRoute) (place : Nat) (endpoint : Endpoint)
    (answer : Except Diagnostic (List Row)) :
    (r.noted route place endpoint answer).rows? = answer.toOption := by
  cases answer <;> rfl

theorem Holds.step (h : r.Holds rows) {l : PartitionLocation} {route : PartitionRoute}
    (hroute : Faithful rows l route) (s : RoutingState σ) :
    Faithful rows l (r.step route s).1 := by
  obtain ⟨rfl, hrows⟩ := hroute
  unfold Router.step
  cases route.state with
  | planning =>
    refine ⟨rfl, fun answer hanswer => ?_⟩
    rw [show ((pure (r.planned route) : StateM _ _) s).1 = r.planned route from rfl,
      rows?_planned] at hanswer
    cases hanswer
  | dispatching next =>
    simp only
    cases route.usable[next]? with
    | none => exact ⟨rfl, nofun⟩
    | some endpoint =>
      refine ⟨rfl, fun answer hanswer => ?_⟩
      change (r.noted route next endpoint (r.dispatch _ endpoint s).1).rows? = some answer
        at hanswer
      rw [rows?_noted] at hanswer
      cases hdispatch : (r.dispatch route.location.partition endpoint s).1 with
      | ok found =>
        rw [hdispatch] at hanswer
        cases hanswer
        exact h _ _ _ _ hdispatch
      | error d =>
        rw [hdispatch] at hanswer
        cases hanswer
  | retrying failed =>
    refine ⟨rfl, fun answer hanswer => ?_⟩
    change (route.retried failed).rows? = some answer at hanswer
    rw [rows?_retried] at hanswer
    cases hanswer
  | answered _ _ | exhausted | localNotEligible => exact ⟨rfl, hrows⟩

theorem Holds.run (h : r.Holds rows) {l : PartitionLocation} {route : PartitionRoute}
    (hroute : Faithful rows l route) (s : RoutingState σ) :
    Faithful rows l (r.run route s).1 := by
  fun_induction Router.run r route s with
  | case1 route s hterminal => exact hroute
  | case2 route s hterminal next ih => exact ih (h.step hroute s)

theorem forall₂_set {α β : Type} {R : α → β → Prop} {as : List α} {bs : List β}
    (h : List.Forall₂ R as bs) {place : Nat} {b' : β}
    (hset : ∀ a b, bs[place]? = some b → R a b → R a b') :
    List.Forall₂ R as (bs.set place b') := by
  induction h generalizing place with
  | nil => exact .nil
  | cons hab hrest ih =>
    cases place with
    | zero => exact .cons (hset _ _ rfl hab) hrest
    | succ place => exact .cons hab (ih fun a b hb => hset a b hb)

theorem Holds.turn (h : r.Holds rows) {x : List PartitionRoute × RoutingState σ}
    (hx : List.Forall₂ (Faithful rows) locations x.1) (place : Nat) :
    List.Forall₂ (Faithful rows) locations (r.turn x place).1 := by
  obtain ⟨routes, now⟩ := x
  cases hplace : routes[place]? with
  | none => rwa [turn_of_none hplace]
  | some route =>
    rw [turn_of_getElem? hplace]
    refine forall₂_set hx fun l other hother hfaithful => ?_
    obtain rfl : route = other := Option.some.inj (hplace.symm.trans hother)
    exact h.step hfaithful now

theorem Holds.sideBySide (h : r.Holds rows) {routes : List PartitionRoute}
    (hroutes : List.Forall₂ (Faithful rows) locations routes) (schedule : List Nat)
    (s : RoutingState σ) :
    List.Forall₂ (Faithful rows) locations (r.sideBySide schedule routes s).1 :=
  List.foldlRecOn (motive := fun x => List.Forall₂ (Faithful rows) locations x.1) schedule r.turn
    hroutes fun _ hx place _ => h.turn hx place

theorem flatten_rows {answers : List (List Row)}
    (h : List.Forall₂ (fun l found => ∀ answer, found = some answer → answer = rows l.partition)
      locations (answers.map some)) :
    answers.flatten = locations.flatMap fun l => rows l.partition := by
  have heq : answers.map id = locations.map fun l => rows l.partition := by
    refine map_eq_map_iff_forall₂.2 ((List.forall₂_map_right_iff.1 h).flip.imp ?_)
    exact fun answer l hanswer => hanswer answer rfl
  rw [List.map_id] at heq
  rw [heq, List.flatMap_def]

theorem Holds.rows_of_pull (h : r.Holds rows) {answer : RoutedRows}
    (hpull : (r.pull locations s).1 = .ok answer) :
    answer.rows = (r.served locations).flatMap fun l => rows l.partition := by
  obtain ⟨answers, hanswers, rfl⟩ := pull_ok_iff.1 hpull
  refine flatten_rows (hanswers ▸ List.forall₂_map_right_iff.2 ?_)
  refine (r.forall₂_results locations s).imp ?_
  rintro l _ ⟨s', rfl⟩
  exact (h.run (faithful_fresh rows l) s').rows_eq

theorem Holds.rows_of_sideBySide (h : r.Holds rows) (schedule : List Nat)
    {answers : List (List Row)}
    (hanswers : (r.sideBySide schedule (r.fresh locations) s).1.map (·.rows?) =
      answers.map some) :
    answers.flatten = (r.served locations).flatMap fun l => rows l.partition := by
  have hfresh : List.Forall₂ (Faithful rows) (r.served locations) (r.fresh locations) :=
    List.forall₂_map_right_iff.2 (List.forall₂_same.2 fun l _ => faithful_fresh rows l)
  refine flatten_rows (hanswers ▸ List.forall₂_map_right_iff.2 ?_)
  exact (h.sideBySide hfresh schedule s).imp fun _ _ hroute => hroute.rows_eq

theorem forward_ok {partition : PartitionId} {endpoint : Endpoint} {answer : List Row}
    (h : (r.forward partition endpoint s).1 = .ok answer) :
    (r.transport.forward endpoint (r.request partition) s.nodes).1 = .ok answer := by
  unfold forward at h
  split at h
  next result nodes heq =>
    rw [heq]
    simp only at h
    split at h
    next => exact h
    next => cases h

/-! ### Requests that may not go further -/

/-- Only this node is tried. -/
def Homebound (r : Router σ) (route : PartitionRoute) : Prop :=
  ∀ endpoint ∈ route.usable, endpoint = r.home

theorem eq_home_of_mem_usable (hskip : r.options.skipForward = true)
    {ranked : List RankedReplica} {endpoint : Endpoint} (h : endpoint ∈ r.usable ranked) :
    endpoint = r.home := by
  obtain ⟨c, hc, rfl⟩ := List.mem_map.1 h
  have hhome := (List.mem_filter.1 hc).2
  simpa [hskip] using (Bool.and_eq_true_iff.1 hhome).2

theorem Homebound.step (hskip : r.options.skipForward = true) {route : PartitionRoute}
    (h : r.Homebound route) (s : RoutingState σ) : r.Homebound (r.step route s).1 := by
  unfold Router.step
  cases route.state with
  | planning => exact fun endpoint hendpoint => eq_home_of_mem_usable hskip hendpoint
  | dispatching next =>
    simp only
    cases route.usable[next]? <;> exact h
  | retrying failed | answered _ _ | exhausted | localNotEligible => exact h

theorem attempts_home (hskip : r.options.skipForward = true) {d : PartitionDecision}
    (hd : d ∈ (r.route locations s).1.1.partitions) :
    ∀ attempt ∈ d.attempts, attempt.endpoint = r.home ∧ attempt.isLocal = true := by
  intro attempt hattempt
  obtain ⟨result, hresult, rfl⟩ := List.mem_map.1 hd
  obtain ⟨l, -, s', rfl⟩ := exists_of_mem_right (r.forall₂_results locations s) hresult
  obtain ⟨k, hendpoints, hattempts, -⟩ := (r.run_fellOver l s').tried
  have hhome : attempt.endpoint = r.home := by
    have hmem : attempt.endpoint ∈ (r.usable (l.rank r.filters)).take k :=
      hendpoints ▸ List.mem_map_of_mem hattempt
    exact eq_home_of_mem_usable hskip (List.mem_of_mem_take hmem)
  refine ⟨hhome, ?_⟩
  change attempt ∈ (r.run { location := l } s').1.attempts at hattempt
  rw [hattempts] at hattempt
  obtain ⟨trial, -, rfl⟩ := List.mem_map.1 hattempt
  exact beq_iff_eq.2 hhome

/-- The node with another way to the others. -/
def withTransport (r : Router σ) (transport : Transport σ) : Router σ := { r with transport }

theorem Homebound.step_withTransport {route : PartitionRoute} (h : r.Homebound route)
    (transport : Transport σ) (s : RoutingState σ) :
    (r.withTransport transport).step route s = r.step route s := by
  unfold Router.step
  cases route.state with
  | dispatching next =>
    simp only
    cases hnext : route.usable[next]? with
    | none => rfl
    | some endpoint =>
      obtain rfl := h endpoint (List.mem_of_getElem? hnext)
      have hdispatch : (r.withTransport transport).dispatch route.location.partition r.home =
          r.dispatch route.location.partition r.home := by
        rw [dispatch_home]
        exact dispatch_home (r.withTransport transport) _
      simp only [hdispatch]
      rfl
  | planning | retrying _ | answered _ _ | exhausted | localNotEligible => rfl

/-- **A request that may not go further does not**: it is the same with any way to other nodes. -/
theorem pull_withTransport (hskip : r.options.skipForward = true) {transport : Transport σ}
    (hnow : transport.now = r.transport.now) :
    (r.withTransport transport).pull locations = r.pull locations := by
  have hroutePartition : (r.withTransport transport).routePartition = r.routePartition := by
    funext l s
    have hfresh : r.Homebound { location := l } := by simp [Homebound]
    have hrun : (r.withTransport transport).run { location := l } s = r.run { location := l } s :=
      run_congr r.Homebound (fun _ s h => h.step hskip s)
        (fun _ s h => h.step_withTransport transport s) hfresh s
    exact congrArg (fun x => (x.1.result, x.2)) hrun
  have hroute : (r.withTransport transport).route = r.route := by
    funext locations
    unfold route
    rw [hroutePartition]
    rfl
  unfold pull
  rw [hroute]
  simp only [withTransport, hnow]

end Router

/--
Nodes that hold copies of partitions and forward requests to each other. How they rank their
replicas, what they can reach and what fails may be different at every moment. -/
structure Cluster (σ : Type) where
  /-- The rows of a partition, the same in every copy. -/
  rows : PartitionId → List Row
  /-- Answers on a node, or fails. -/
  execute : Endpoint → PartitionId → StateM σ (Except Diagnostic (List Row))
  /-- The filters of a node that serves a forwarded request. -/
  filters : Endpoint → NodeRequest → σ → List ReplicaFilter
  /-- What a node that serves a forwarded request has set for itself. -/
  options : Endpoint → NodeRequest → σ → RoutingOptions
  /-- Where a node that serves a forwarded request takes the copies to be. -/
  locations : Endpoint → NodeRequest → σ → List PartitionLocation
  /-- Carries a request to a node, or loses it. -/
  send : Endpoint → NodeRequest → StateM σ (Except Diagnostic Unit)
  /-- Carries the answer of a node back, or loses it. -/
  reply : Endpoint → NodeRequest → StateM σ (Except Diagnostic Unit)
  /-- The time that has passed on a node. -/
  now : Endpoint → σ → Duration
  rows_of_execute : ∀ {home partition s answer},
    (execute home partition s).1 = .ok answer → answer = rows partition
  distinct : ∀ home request s, ((locations home request s).map (·.partition)).Nodup
  located : ∀ home request s, ∀ partition ∈ request.partitions,
    partition ∈ (locations home request s).map (·.partition)

namespace Cluster

variable {σ : Type}

/-- A node that routes a query of its own. -/
def node (c : Cluster σ) (transport : Transport σ) (home : Endpoint) (filters : List ReplicaFilter)
    (options : RoutingOptions) (statement : String) (queryId : QueryId) : Router σ where
  home
  execute := c.execute home
  transport
  filters
  options
  statement
  queryId

/-- A node that serves a forwarded request: for the partitions asked for, and on its own. -/
def server (c : Cluster σ) (transport : Transport σ) (home : Endpoint) (request : NodeRequest)
    (s : σ) : Router σ :=
  c.node transport home (c.filters home request s)
    { c.options home request s with
      skipForward := true
      partitions := some (.ofList request.partitions) }
    request.statement request.queryId

/-- Has a node answer a request. That node is reached at `home`, and has `transport` to reach
others. -/
def forward (c : Cluster σ) (transport : Transport σ) (home : Endpoint) (request : NodeRequest) :
    StateM σ (Except Diagnostic (List Row)) := fun s =>
  match c.send home request s with
  | (.error d, sent) => (.error d, sent)
  | (.ok _, sent) =>
    match (c.server transport home request sent).pull (c.locations home request sent)
        ⟨sent, {}⟩ with
    | (.error e, served) => (.error (diagnostic e), served.nodes)
    | (.ok answer, served) =>
      match c.reply home request served.nodes with
      | (.error d, replied) => (.error d, replied)
      | (.ok _, replied) => (.ok answer.rows, replied)

/-- The way from a node to the others, for requests that are handed on so many times at most. -/
def transport (c : Cluster σ) : Nat → Endpoint → Transport σ
  | 0, home => {
      forward := fun endpoint _ s =>
        (.error (diagnostic (RouteError.connection endpoint "out of reach")), s)
      now := c.now home }
  | hops + 1, home => {
      forward := fun endpoint => c.forward (c.transport hops endpoint) endpoint
      now := c.now home }

/-! ### The answer to a forwarded request -/

theorem forward_ok {c : Cluster σ} {transport : Transport σ} {home : Endpoint}
    {request : NodeRequest} {s : σ} {rows : List Row}
    (h : (c.forward transport home request s).1 = .ok rows) :
    ∃ sent answer, ((c.server transport home request sent).pull (c.locations home request sent)
      ⟨sent, {}⟩).1 = .ok answer ∧ rows = answer.rows := by
  unfold forward at h
  split at h
  next => cases h
  next sent _ =>
    split at h
    next => cases h
    next answer served hpull =>
      split at h
      next => cases h
      next =>
        cases h
        exact ⟨sent, answer, congrArg Prod.fst hpull, rfl⟩

theorem served_partitions (c : Cluster σ) (transport : Transport σ) (home : Endpoint)
    (request : NodeRequest) (s : σ) :
    ((c.server transport home request s).served (c.locations home request s)).map (·.partition) =
      (SortedSet.ofList request.partitions).toList := by
  set r := c.server transport home request s
  set locations := c.locations home request s
  have hascending : ((r.served locations).map (·.partition)).Pairwise fun a b =>
      compare a b = .lt :=
    List.pairwise_map.2 ((r.served_ascending (c.distinct home request s)).imp Nat.compare_eq_lt.2)
  let asked : SortedSet PartitionId := ⟨(r.served locations).map (·.partition), hascending⟩
  suffices h : asked = .ofList request.partitions from congrArg SortedSet.toList h
  refine SortedSet.ext_contains fun partition => ?_
  have hserves : ∀ l : PartitionLocation,
      r.options.serves l.partition = true ↔ l.partition ∈ request.partitions := fun l =>
    (SortedSet.contains_iff_mem _ _).trans (SortedSet.mem_ofList _ _)
  rw [SortedSet.contains_iff_mem, SortedSet.contains_iff_mem, SortedSet.mem_ofList]
  change partition ∈ (r.served locations).map (·.partition) ↔ _
  simp only [List.mem_map, (r.served_perm locations).mem_iff, List.mem_filter, hserves]
  constructor
  · rintro ⟨l, ⟨-, hasked⟩, rfl⟩
    exact hasked
  · intro hasked
    obtain ⟨l, hl, rfl⟩ := List.mem_map.1 (c.located home request s partition hasked)
    exact ⟨l, ⟨hl, hasked⟩, rfl⟩

theorem rows_of_forward {c : Cluster σ} {transport : Transport σ} {home : Endpoint}
    {request : NodeRequest} {s : σ} {rows : List Row}
    (hholds : ∀ sent, (c.server transport home request sent).Holds c.rows)
    (h : (c.forward transport home request s).1 = .ok rows) :
    rows = (SortedSet.ofList request.partitions).toList.flatMap c.rows := by
  obtain ⟨sent, answer, hpull, rfl⟩ := forward_ok h
  rw [(hholds sent).rows_of_pull hpull, ← c.served_partitions transport home request sent,
    List.flatMap_map]

theorem holds_of_forward {c : Cluster σ} {transport : Transport σ}
    (htransport : ∀ {endpoint request s rows},
      (transport.forward endpoint request s).1 = .ok rows →
        rows = (SortedSet.ofList request.partitions).toList.flatMap c.rows)
    (home : Endpoint) (filters : List ReplicaFilter) (options : RoutingOptions)
    (statement : String) (queryId : QueryId) :
    (c.node transport home filters options statement queryId).Holds c.rows := by
  intro partition endpoint s answer hanswer
  by_cases hhome : endpoint = (c.node transport home filters options statement queryId).home
  · rw [hhome, Router.dispatch_home] at hanswer
    exact c.rows_of_execute hanswer
  · rw [Router.dispatch_of_ne_home _ _ hhome] at hanswer
    have hrows := htransport (Router.forward_ok hanswer)
    change answer = (SortedSet.ofList [partition]).toList.flatMap c.rows at hrows
    rwa [show (SortedSet.ofList [partition]).toList = [partition] from rfl,
      List.flatMap_singleton] at hrows

theorem rows_of_transport (c : Cluster σ) (hops : Nat) (home : Endpoint) {endpoint : Endpoint}
    {request : NodeRequest} {s : σ} {rows : List Row}
    (h : ((c.transport hops home).forward endpoint request s).1 = .ok rows) :
    rows = (SortedSet.ofList request.partitions).toList.flatMap c.rows := by
  induction hops generalizing home endpoint request s rows with
  | zero => cases h
  | succ hops ih =>
    exact rows_of_forward (fun sent => holds_of_forward (ih endpoint) _ _ _ _ _) h

theorem holds_node (c : Cluster σ) (hops : Nat) (home : Endpoint) (filters : List ReplicaFilter)
    (options : RoutingOptions) (statement : String) (queryId : QueryId) :
    (c.node (c.transport hops home) home filters options statement queryId).Holds c.rows :=
  holds_of_forward (c.rows_of_transport hops home) home filters options statement queryId

/-! ### How far a request goes -/

theorem transport_now (c : Cluster σ) (hops : Nat) (home : Endpoint) :
    (c.transport hops home).now = c.now home := by
  cases hops <;> rfl

theorem pull_server (c : Cluster σ) {transport other : Transport σ}
    (hnow : other.now = transport.now) (home : Endpoint) (request : NodeRequest) (s : σ)
    (locations : List PartitionLocation) :
    (c.server other home request s).pull locations =
      (c.server transport home request s).pull locations :=
  Router.pull_withTransport (r := c.server transport home request s) rfl hnow

theorem forward_congr (c : Cluster σ) {transport other : Transport σ}
    (hnow : other.now = transport.now) (home : Endpoint) :
    c.forward other home = c.forward transport home := by
  funext request s
  have hpull : ∀ sent, (c.server other home request sent).pull (c.locations home request sent) =
      (c.server transport home request sent).pull (c.locations home request sent) := fun sent =>
    c.pull_server hnow home request sent _
  unfold forward
  simp only [hpull]

/-- A request that is forwarded once is not forwarded again, however often it might be. -/
theorem transport_succ (c : Cluster σ) (hops : Nat) (home : Endpoint) :
    c.transport (hops + 1) home = c.transport 1 home := by
  have hforward : ∀ endpoint, c.forward (c.transport hops endpoint) endpoint =
      c.forward (c.transport 0 endpoint) endpoint := fun endpoint =>
    c.forward_congr (c.transport_now hops endpoint) endpoint
  unfold transport
  simp only [hforward]

/-! ### The whole cluster -/

/-- What is certain about the pull queries of a cluster, whatever its nodes take each other for and
whatever fails. -/
structure Sound (c : Cluster σ) : Prop where
  /-- A query that succeeds on any node gives the rows of the partitions to serve. -/
  rows : ∀ hops home filters options statement queryId locations s answer,
    let r := c.node (c.transport hops home) home filters options statement queryId
    (r.pull locations s).1 = .ok answer →
      answer.rows = (r.served locations).flatMap fun l => c.rows l.partition
  /-- So does one whose partitions are routed side by side, in any turns. -/
  sideBySide : ∀ hops home filters options statement queryId locations s schedule
      (answers : List (List Row)),
    let r := c.node (c.transport hops home) home filters options statement queryId
    (r.sideBySide schedule (r.fresh locations) s).1.map (·.rows?) = answers.map some →
      answers.flatten = (r.served locations).flatMap fun l => c.rows l.partition
  /-- The partitions to serve are in ascending order. -/
  served : ∀ (r : Router σ) locations,
    ((r.served locations).Pairwise fun a b => a.partition.number ≤ b.partition.number) ∧
      (r.served locations).Perm (locations.filter fun l => r.options.serves l.partition)
  /-- A node serves exactly the partitions that are asked for. -/
  asked : ∀ transport home request s,
    ((c.server transport home request s).served (c.locations home request s)).map (·.partition) =
      (SortedSet.ofList request.partitions).toList
  /-- An answer that arrives has the rows of the partitions asked for. -/
  forwarded : ∀ hops home endpoint request s rows,
    ((c.transport hops home).forward endpoint request s).1 = .ok rows →
      rows = (SortedSet.ofList request.partitions).toList.flatMap c.rows
  /-- A node that serves a forwarded request makes attempts on itself only. -/
  attempts : ∀ transport home request s locations s',
    ∀ d ∈ ((c.server transport home request s).route locations s').1.1.partitions,
      ∀ attempt ∈ d.attempts, attempt.endpoint = home ∧ attempt.isLocal = true
  /-- It does the same whatever way it has to other nodes. -/
  alone : ∀ transport other home request s locations, other.now = transport.now →
    (c.server other home request s).pull locations =
      (c.server transport home request s).pull locations
  /-- No request is forwarded more than once. -/
  once : ∀ hops home, c.transport (hops + 1) home = c.transport 1 home

/-- **Forwarding is sound.** A pull query that succeeds on any node gives the rows of the partitions
to serve in ascending order, whichever nodes they come from, and a node that serves a forwarded
request never forwards it. -/
theorem forwarding_sound (c : Cluster σ) : c.Sound where
  rows hops home filters options statement queryId _ _ _ :=
    (c.holds_node hops home filters options statement queryId).rows_of_pull
  sideBySide hops home filters options statement queryId _ _ schedule _ :=
    (c.holds_node hops home filters options statement queryId).rows_of_sideBySide schedule
  served r locations := ⟨r.served_sorted locations, r.served_perm locations⟩
  asked := c.served_partitions
  forwarded hops home _ _ _ _ := c.rows_of_transport hops home
  attempts _ _ _ _ _ _ _ hd := Router.attempts_home rfl hd
  alone _ _ home request s locations hnow := c.pull_server hnow home request s locations
  once := c.transport_succ

namespace Sample

def east : Endpoint := ⟨"east", 8088⟩

def west : Endpoint := ⟨"west", 8088⟩

/-- Both nodes, in a request that asks for some partitions. -/
def onBoth (partitions : List PartitionId) : List PartitionLocation :=
  (SortedSet.ofList partitions).toList.map fun partition => ⟨partition, [.sole east, .sole west]⟩

/-- Two nodes that take each other to hold everything. In fact the partition 0 is in the east, and
the others are in the west. -/
def coasts : Cluster Unit where
  rows partition := [⟨[.int8 (.ofNat partition.number)]⟩]
  execute home partition := fun s =>
    if home = if partition.number = 0 then east else west then
      (.ok [⟨[.int8 (.ofNat partition.number)]⟩], s)
    else (.error (diagnostic (RouteError.rejected home "not here")), s)
  filters _ _ _ := ReplicaFilter.standard {} {}
  options _ _ _ := {}
  locations _ request _ := onBoth request.partitions
  send _ _ := fun s => (.ok (), s)
  reply _ _ := fun s => (.ok (), s)
  now _ _ := ⟨0⟩
  rows_of_execute := by
    intro home partition s answer h
    by_cases hhome : home = if partition.number = 0 then east else west
    · rw [if_pos hhome] at h
      cases h
      rfl
    · rw [if_neg hhome] at h
      cases h
  distinct _ request _ := by
    simpa [onBoth, Function.comp_def] using (SortedSet.ofList request.partitions).nodup_toList
  located _ request _ partition hpartition := by
    simpa [onBoth, Function.comp_def] using (SortedSet.mem_ofList _ _).2 hpartition

/-- A node in the east. -/
def eastern : Router Unit :=
  coasts.node (coasts.transport 1 east) east (ReplicaFilter.standard {} {}) {}
    "SELECT * FROM USERS_VIEW;" ⟨"query_1"⟩

end Sample

/-- A query that is answered in part by the other node, after this one has failed. -/
theorem east_asks_west :
    ∃ answer, (Sample.eastern.pull (Sample.onBoth [⟨1⟩, ⟨0⟩]) ⟨(), {}⟩).1 = .ok answer ∧
      answer.rows = [⟨[.int8 0]⟩, ⟨[.int8 1]⟩] := by
  have hserved : Sample.eastern.served (Sample.onBoth [⟨1⟩, ⟨0⟩]) = Sample.onBoth [⟨0⟩, ⟨1⟩] :=
    Sample.eastern.served_of_sorted (by decide)
  have hok : (Sample.eastern.pull (Sample.onBoth [⟨1⟩, ⟨0⟩]) ⟨(), {}⟩).1.isOk = true := by
    rw [Router.pull, Router.route, hserved]
    decide +kernel
  cases hanswer : (Sample.eastern.pull (Sample.onBoth [⟨1⟩, ⟨0⟩]) ⟨(), {}⟩).1 with
  | error e =>
    rw [hanswer] at hok
    cases hok
  | ok answer =>
    refine ⟨answer, rfl, ?_⟩
    have hrows := (forwarding_sound Sample.coasts).rows 1 _ _ _ _ _ _ _ _ hanswer
    exact hrows.trans (congrArg (·.flatMap fun l => Sample.coasts.rows l.partition) hserved)

end Cluster

end StreamSql
