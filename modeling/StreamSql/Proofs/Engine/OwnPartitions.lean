import StreamSql.Proofs.Catalog.Readers
import StreamSql.Proofs.Engine.CreateAsSelect
import StreamSql.Proofs.Engine.PointLookup
import StreamSql.Proofs.Engine.PullRows

/-!
# The partitions of a single node

An engine without a given placement places partitions on its own node, as many as its settings say.
A query keeps its rows in as many partitions as the settings of the session say that launches it. So
the node has all partitions of its queries if and only if no session launches a query with more of
them than the engine has placed (`own_partitions_iff`); that is so where sessions may not override
the number of partitions.
-/

namespace StreamSql

/-! ### The placement of a single node -/

theorem Placement.replicas_singleNode (home : Endpoint) (count : Nat) (id : PartitionId) :
    (singleNode home count).replicas id =
      if id.number < max count 1 then [.sole home] else [] := by
  have hplaced : ∀ n, ((List.range n).foldl (fun p k => p.assign ⟨k⟩ [.sole home]) empty).replicas
      id = if id.number < n then [.sole home] else [] := by
    intro n
    induction n with
    | zero => rfl
    | succ n ih =>
      rw [List.range_succ, List.foldl_concat, replicas, assign, SortedMap.lookup_insert]
      split
      next heq => rw [heq, if_pos (Nat.lt_succ_self n)]; rfl
      next hne =>
        have hother : id.number ≠ n := fun heq => hne (congrArg PartitionId.mk heq)
        refine ih.trans ?_
        simp only [Nat.lt_succ_iff_lt_or_eq, hother, or_false]
  exact hplaced (max count 1)

namespace Engine

/-- This node has a copy of the partition. -/
def Holds (engine : Engine) (partition : PartitionId) : Prop :=
  ∃ replica ∈ engine.placement.replicas partition, replica.endpoint = engine.home

/-- This node has a copy of every partition that a registered query keeps rows in. -/
def HoldsOwn (engine : Engine) : Prop :=
  ∀ id q m, engine.registry.get? id = some q → q.materialization = some m →
    ∀ partition ∈ m.partitionIds, engine.Holds partition

/-- All partitions are on this node, and there are as many as the settings say. -/
structure Single (engine : Engine) (config : Settings) (home : Endpoint) : Prop where
  config_eq : engine.config = config
  home_eq : engine.home = home
  placement_eq : engine.placement = .singleNode home config.materializationPartitions

variable {engine : Engine} {config : Settings} {home : Endpoint}

theorem Single.holds_iff (h : engine.Single config home) (partition : PartitionId) :
    engine.Holds partition ↔ partition.number < max config.materializationPartitions 1 := by
  rw [Holds, h.placement_eq, h.home_eq, Placement.replicas_singleNode]
  split
  next hlt => exact iff_of_true ⟨_, List.mem_singleton_self _, rfl⟩ hlt
  next hlarge => exact iff_of_false (fun ⟨_, hmem, _⟩ => List.not_mem_nil hmem) hlarge

theorem Single.holds_empty_iff (h : engine.Single config home) (schema : Schema) (count : Nat) :
    (∀ partition ∈ (Materialization.empty schema count).partitionIds, engine.Holds partition) ↔
      count ≤ max config.materializationPartitions 1 := by
  have hcount : (Materialization.empty schema count).partitionCount = max count 1 :=
    List.length_replicate
  simp only [h.holds_iff, Materialization.mem_partitionIds_iff, hcount]
  constructor
  · intro hall
    by_contra hlarge
    have hlast : max config.materializationPartitions 1 < max count 1 := by omega
    exact absurd (hall ⟨_⟩ hlast) (Nat.lt_irrefl _)
  · intro hle partition hlt
    omega

end Engine

/-! ### Sessions -/

theorem Setting.keeps_partitions {property : Property} {value : String} {setting : Setting}
    (h : ofText? property value = some setting) (hother : property ≠ .materializationPartitions)
    (settings : Settings) :
    (settings.set setting).materializationPartitions = settings.materializationPartitions := by
  cases property with
  | materializationPartitions => exact absurd rfl hother
  | serviceId =>
    cases h
    rfl
  | _ =>
    simp only [ofText?, Option.map_eq_some_iff] at h
    obtain ⟨_, -, rfl⟩ := h
    rfl

theorem Session.effective_partitions {session : Session} {settings : Settings}
    (himmutable : session.base.isImmutable Property.materializationPartitions.name = true)
    (h : session.effective = .ok settings) :
    settings.materializationPartitions = session.base.materializationPartitions := by
  refine invariant_of_foldlM (P := fun settings : Settings =>
    settings.materializationPartitions = session.base.materializationPartitions)
    (fun override _ before after hbefore happly => ?_) rfl h
  unfold Session.apply at happly
  split at happly
  · cases happly
  next hmutable =>
    obtain ⟨setting, hsetting, happly⟩ := bind_eq_ok_iff.1 happly
    cases happly
    unfold Setting.read at hsetting
    split at hsetting
    · cases hsetting
    next property hproperty =>
      split at hsetting
      next hread =>
        cases hsetting
        refine (Setting.keeps_partitions hread ?_ before).trans hbefore
        rintro rfl
        have hname : Property.materializationPartitions.name = override.1 := by
          simpa using List.find?_some hproperty
        exact hmutable (hname ▸ himmutable)
      · cases hsetting

/-- A call of a client in a session. -/
inductive SessionCall where
  | plan (session : Session) (statement : Statement) (text : String)
  | execute (session : Session) (place : Nat)

namespace SessionCall

def session : SessionCall → Session
  | plan session .. | execute session _ => session

/-- The call under the settings of its session, if that is accepted. Queries are launched in
memory. -/
def accepted? (call : SessionCall) : Option ClientCall :=
  call.session.effective.toOption.map fun settings =>
    match call with
    | plan _ statement text => .plan settings statement text
    | execute _ place => .execute .memory settings place

end SessionCall

namespace Clients

/-- A call in a session that is not accepted does nothing. -/
def serve (x : Clients) (call : SessionCall) : Clients :=
  match call.accepted? with
  | some accepted => x.step accepted
  | none => x

def served (x : Clients) (calls : List SessionCall) : Clients := calls.foldl serve x

theorem served_snoc (x : Clients) (calls : List SessionCall) (call : SessionCall) :
    x.served (calls ++ [call]) = (x.served calls).serve call :=
  List.foldl_concat ..

/-- The call launches a query that keeps its rows, under settings with more partitions than those of
the engine. -/
def Outgrows (x : Clients) (call : SessionCall) : Prop :=
  ∃ session place settings c query, call = .execute session place ∧
    session.effective = .ok settings ∧ x.Launches (.execute .memory settings place) c ∧
      c.plan.query = some query ∧ query.step.schema.isKeyed = true ∧
        max x.engine.config.materializationPartitions 1 < settings.materializationPartitions

variable {x : Clients} {config settings : Settings} {home : Endpoint} {place : Nat} {c : Compiled}
  {query : QueryPlan}

theorem single_step (h : x.engine.Single config home) (call : ClientCall) :
    (x.step call).engine.Single config home := by
  have hstepped := x.stepped call
  generalize x.step call = next at hstepped
  cases hstepped with
  | planned c hengine =>
    obtain ⟨number, heq⟩ := Engine.plan_engine c.engine c.config c.statement c.text
    rw [heq, hengine]
    exact ⟨h.config_eq, h.home_eq, h.placement_eq⟩
  | refused config statement text =>
    obtain ⟨number, heq⟩ := Engine.plan_engine x.engine config statement text
    rw [heq]
    exact ⟨h.config_eq, h.home_eq, h.placement_eq⟩
  | missing => exact h
  | unlaunched _ hexecuted => cases hexecuted <;> exact ⟨h.config_eq, h.home_eq, h.placement_eq⟩
  | launched => exact ⟨h.config_eq, h.home_eq, h.placement_eq⟩

theorem single_served (config : Settings) (home : Endpoint) (interceptors : List Interceptor)
    (calls : List SessionCall) :
    ((start config home none interceptors).served calls).engine.Single config home :=
  List.foldlRecOn (motive := (·.engine.Single config home)) calls serve ⟨rfl, rfl, rfl⟩
    fun x h call _ => by
      unfold serve
      split
      · exact single_step h _
      · exact h

theorem Launches.keeps (h : x.Launches (.execute .memory settings place) c)
    (hquery : c.plan.query = some query) :
    ∃ running, x.engine.registry.Registered query running
        (x.step (.execute .memory settings place)).engine.registry ∧
      running.materialization = if query.step.schema.isKeyed then
          some (.empty query.step.schema settings.materializationPartitions)
        else none := by
  cases hplace : x.compiled[place]? with
  | none => simp [Launches, step, hplace] at h
  | some other =>
    have hengine := engine_step_execute hplace .memory settings
    obtain ⟨result, next, hexecuted, heq⟩ :=
      Engine.execute_cases { x.engine with backend := .memory } settings other.plan
    rw [hengine, heq]
    simp only [Launches, step, hplace, heq] at h
    cases hexecuted with
    | refused | commandOnly | failed => simp [annotated] at h
    | launched _ hsame hlaunch =>
      obtain rfl : other = c := by simpa [annotated] using h
      cases hquery.symm.trans hsame
      obtain ⟨hregistered, -, hmaterialization⟩ := Engine.launch_memory rfl hlaunch
      obtain ⟨write, logical, -, hplanned⟩ := Engine.plannedQuery other.planned hquery
      rw [hplanned.sink, Option.isSome_some, Bool.true_and] at hmaterialization
      exact ⟨_, hregistered, hmaterialization⟩

theorem holdsOwn_of_registry (hsingle : x.engine.Single config home) (h : x.engine.HoldsOwn)
    {call : ClientCall} (hregistry : (x.step call).engine.registry = x.engine.registry) :
    (x.step call).engine.HoldsOwn := by
  intro id q m hq hm partition hpartition
  rw [hregistry] at hq
  rw [(single_step hsingle call).holds_iff, ← hsingle.holds_iff]
  exact h id q m hq hm partition hpartition

theorem Launches.holdsOwn_iff (hlaunches : x.Launches (.execute .memory settings place) c)
    (hquery : c.plan.query = some query) (hsingle : x.engine.Single config home)
    (h : x.engine.HoldsOwn) : (x.step (.execute .memory settings place)).engine.HoldsOwn ↔
      ¬(query.step.schema.isKeyed = true ∧
        max config.materializationPartitions 1 < settings.materializationPartitions) := by
  obtain ⟨running, hregistered, hkeeps⟩ := hlaunches.keeps hquery
  have hnext := single_step hsingle (.execute .memory settings place)
  generalize x.step (.execute .memory settings place) = next at hregistered hnext
  -- all other queries were registered before
  have hnew : next.engine.HoldsOwn ↔ ∀ m, running.materialization = some m →
      ∀ partition ∈ m.partitionIds, next.engine.Holds partition := by
    constructor
    · exact fun hall m => hall query.id running m ((hregistered.get? _).trans (if_pos rfl))
    · intro hown id q m hq hm partition hpartition
      rw [hregistered.get?] at hq
      split at hq
      next =>
        cases hq
        exact hown m hm partition hpartition
      next =>
        rw [hnext.holds_iff, ← hsingle.holds_iff]
        exact h id q m hq hm partition hpartition
  rw [hnew, hkeeps]
  cases query.step.schema.isKeyed with
  | true =>
    simp only [if_true, Option.some.injEq, forall_eq', hnext.holds_empty_iff, true_and,
      Nat.not_lt]
  | false => simp

theorem serve_of_rejected {call : SessionCall} {e : ConfigError}
    (h : call.session.effective = .error e) (x : Clients) : x.serve call = x := by
  simp [serve, SessionCall.accepted?, h, Except.toOption]

theorem serve_plan {session : Session} (h : session.effective = .ok settings) (x : Clients)
    (statement : Statement) (text : String) :
    x.serve (.plan session statement text) = x.step (.plan settings statement text) := by
  simp [serve, SessionCall.accepted?, SessionCall.session, h, Except.toOption]

theorem serve_execute {session : Session} (h : session.effective = .ok settings) (x : Clients)
    (place : Nat) :
    x.serve (.execute session place) = x.step (.execute .memory settings place) := by
  simp [serve, SessionCall.accepted?, SessionCall.session, h, Except.toOption]

theorem holdsOwn_serve_iff (hsingle : x.engine.Single config home) (h : x.engine.HoldsOwn)
    (call : SessionCall) : (x.serve call).engine.HoldsOwn ↔ ¬x.Outgrows call := by
  cases heffective : call.session.effective with
  | error e =>
    rw [serve_of_rejected heffective]
    refine iff_of_true h ?_
    rintro ⟨session, place, settings, c, query, rfl, hok, -⟩
    cases heffective.symm.trans hok
  | ok settings =>
    cases call with
    | plan session statement text =>
      replace heffective : session.effective = .ok settings := heffective
      obtain ⟨number, hplan⟩ := x.engine_step_plan settings statement text
      rw [serve_plan heffective]
      refine iff_of_true (holdsOwn_of_registry hsingle h (by rw [hplan])) ?_
      rintro ⟨_, _, _, _, _, hcall, -⟩
      cases hcall
    | execute session place =>
      replace heffective : session.effective = .ok settings := heffective
      have hsame : ∀ {other}, session.effective = .ok other → settings = other :=
        fun hok => Except.ok.inj (heffective.symm.trans hok)
      rw [serve_execute heffective]
      rcases x.registry_of_not_launches (.execute .memory settings place) with
        ⟨c, hlaunches⟩ | ⟨hlaunched, hregistry⟩
      · obtain ⟨-, query, -, hquery, -⟩ := hlaunches.does
        rw [hlaunches.holdsOwn_iff hquery hsingle h, not_iff_not, ← hsingle.config_eq]
        constructor
        · rintro ⟨hkeyed, hmore⟩
          exact ⟨session, place, settings, c, query, rfl, heffective, hlaunches, hquery, hkeyed,
            hmore⟩
        · rintro ⟨_, _, _, other, plan, hcall, hok, hother, hplan, hkeyed, hmore⟩
          cases hcall
          obtain rfl := hsame hok
          obtain rfl : c = other := by simpa [Launches] using hlaunches.symm.trans hother
          cases hquery.symm.trans hplan
          exact ⟨hkeyed, hmore⟩
      · refine iff_of_true (holdsOwn_of_registry hsingle h hregistry) ?_
        rintro ⟨_, _, _, c, _, hcall, hok, hlaunches, -⟩
        cases hcall
        obtain rfl := hsame hok
        simp [Launches, hlaunched] at hlaunches

theorem not_outgrows (hsingle : x.engine.Single config home)
    (himmutable : config.isImmutable Property.materializationPartitions.name = true)
    {call : SessionCall} (hbase : call.session.base = config) : ¬x.Outgrows call := by
  rintro ⟨session, place, settings, c, query, rfl, heffective, -, -, -, hmore⟩
  obtain rfl : session.base = config := hbase
  have hsame := Session.effective_partitions himmutable heffective
  rw [hsingle.config_eq, hsame] at hmore
  omega

end Clients

/-! ### Pull queries -/

theorem PullPlan.bound_to {logical : LogicalPlan} {registry : Registry} {id : QueryId}
    {plan : PullPlan} (h : PullPlan.bind logical registry id = .ok plan) :
    ∃ id q, registry.get? id = some q ∧ q.materialization = some plan.materialization := by
  unfold PullPlan.bind at h
  split at h
  · cases h
  next source _ _ _ =>
    obtain ⟨found, hfound, h⟩ := bind_eq_ok_iff.1 h
    replace hfound := reported_eq_ok_iff.1 hfound
    split at h
    · cases h
    next q =>
      split at h
      · cases h
      next materialization hm =>
        obtain ⟨lookup, -, h⟩ := bind_eq_ok_iff.1 h
        cases h
        unfold Registry.materializing? at hfound
        split at hfound
        · cases hfound
        next only hwriters =>
          cases hfound
          have hwriter : q ∈ registry.writers source.name := hwriters ▸ List.mem_singleton_self q
          obtain ⟨⟨id, hq⟩, -⟩ := Registry.mem_writers_iff.1 hwriter
          exact ⟨id, q, hq, hm⟩
        · cases hfound

theorem PullPlan.mem_partitions {plan : PullPlan} {partitions : List PartitionId}
    (h : plan.partitions = .ok partitions) :
    ∀ partition ∈ partitions, partition ∈ plan.materialization.partitionIds ∨ partition = ⟨0⟩ := by
  intro partition hpartition
  unfold PullPlan.partitions at h
  split at h
  · cases h
    exact .inl hpartition
  next keys _ =>
    obtain ⟨found, hfound, h⟩ := bind_eq_ok_iff.1 h
    cases h
    rw [SortedSet.mem_ofList] at hpartition
    obtain ⟨values, -, hvalues⟩ := exists_of_mem_mapM hfound hpartition
    obtain ⟨key, -, hhome⟩ := bind_eq_ok_iff.1 hvalues
    cases hhome
    rcases Nat.eq_zero_or_pos plan.materialization.partitionCount with hnone | hsome
    · refine .inr ?_
      simp [Materialization.home, EncodedKey.partition, EncodedKey.partitionOf, hnone]
    · exact .inl (Materialization.mem_partitionIds_iff.2 (Materialization.home_lt hsome))

theorem Engine.Single.location_home {engine : Engine} {config pulling : Settings} {home : Endpoint}
    {query : Query} {token : String} {plan : PullPlan} {locations : List PartitionLocation}
    (hsingle : engine.Single config home) (hown : engine.HoldsOwn)
    (h : engine.planPull pulling query token = .ok (plan, locations)) :
    ∀ location ∈ locations, ∃ replica ∈ location.replicas, replica.endpoint = home := by
  intro location hlocation
  obtain ⟨logical, -, hbound, ids, hids, rfl⟩ := planPull_eq_ok_iff.1 h
  obtain ⟨partition, hpartition, rfl⟩ := List.mem_map.1 hlocation
  obtain ⟨id, q, hq, hm⟩ := PullPlan.bound_to hbound
  have hholds : engine.Holds partition := by
    rcases PullPlan.mem_partitions hids partition hpartition with hmem | rfl
    · exact hown id q _ hq hm partition hmem
    · exact (hsingle.holds_iff _).2 (Nat.lt_of_lt_of_le Nat.one_pos (Nat.le_max_right _ _))
  obtain ⟨replica, hreplica, hhome⟩ := hholds
  exact ⟨replica, hreplica, hhome.trans hsingle.home_eq⟩

namespace Clients

/-- **When a single node has its own partitions.** At every moment of a run the node has a copy of
every partition that a registered query keeps rows in, if and only if no session launches a query
that keeps rows under settings with more partitions than those of the engine. This is so if no
session may override their number. And wherever the node has all these partitions, it is among the
locations of each partition that a pull query asks for. -/
theorem own_partitions_iff (config : Settings) (home : Endpoint) (interceptors : List Interceptor)
    (calls : List SessionCall) :
    let x := start config home none interceptors
    ((∀ earlier, earlier <+: calls → (x.served earlier).engine.HoldsOwn) ↔
      ∀ earlier call, earlier ++ [call] <+: calls → ¬(x.served earlier).Outgrows call) ∧
    (config.isImmutable Property.materializationPartitions.name = true →
      (∀ call ∈ calls, call.session.base = config) →
        ∀ earlier, earlier <+: calls → (x.served earlier).engine.HoldsOwn) ∧
    ((x.served calls).engine.HoldsOwn → ∀ pulling query token plan locations,
      (x.served calls).engine.planPull pulling query token = .ok (plan, locations) →
        ∀ location ∈ locations, ∃ replica ∈ location.replicas, replica.endpoint = home) := by
  intro x
  have hsingle := single_served config home interceptors
  have hiff : (∀ earlier, earlier <+: calls → (x.served earlier).engine.HoldsOwn) ↔
      ∀ earlier call, earlier ++ [call] <+: calls → ¬(x.served earlier).Outgrows call := by
    refine Catalog.forall_prefix_iff ?_ (fun earlier call h => ?_) calls
    · intro id q m hq
      have hnone : none = some q := hq
      cases hnone
    · rw [served_snoc]
      exact holdsOwn_serve_iff (hsingle earlier) h call
  refine ⟨hiff, fun himmutable hbase => hiff.2 fun earlier call hpart => ?_, ?_⟩
  · refine not_outgrows (hsingle earlier) himmutable (hbase call (hpart.subset ?_))
    exact List.mem_append_right _ (List.mem_singleton_self call)
  · exact fun hown _ _ _ _ _ => (hsingle calls).location_home hown

end Clients

namespace Sample

/-- Settings that sessions may override without exception. -/
def overridable : Settings := { immutableProperties := .empty }

/-- A session with two partitions for every query. -/
def wide : Session :=
  (Session.mk overridable .empty).override Property.materializationPartitions.name "2"

/-- Creates the table of users, and the view on them in the wide session. -/
def wideView : List SessionCall :=
  [.plan ⟨overridable, .empty⟩ createUsers "CREATE ...;", .execute ⟨overridable, .empty⟩ 0,
    .plan wide createView "CREATE ...;", .execute wide 1]

end Sample

namespace Clients

/-- A session that may override the number of partitions creates the view on the users with two of
them, and the engine has placed one. -/
theorem view_outgrows_node :
    ¬((start Sample.overridable Sample.localhost none []).served
      Sample.wideView).engine.HoldsOwn := by
  intro h
  obtain ⟨q, m, hq, hm, hcount⟩ : ∃ q m, ((start Sample.overridable Sample.localhost none []).served
      Sample.wideView).engine.registry.get? ⟨"CTAS_USERS_VIEW_0"⟩ = some q ∧
        q.materialization = some m ∧ m.partitionCount = 2 := ⟨_, _, rfl, rfl, rfl⟩
  have hsecond : ⟨1⟩ ∈ m.partitionIds :=
    Materialization.mem_partitionIds_iff.2 (hcount ▸ Nat.one_lt_two)
  obtain ⟨replica, hreplica, -⟩ := h _ q m hq hm ⟨1⟩ hsecond
  cases hreplica

end Clients

end StreamSql
