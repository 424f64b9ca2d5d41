import StreamSql.Config
import StreamSql.Routing.Replica
import StreamSql.Sorted.Set

/-!
# Ranking replicas

A chain of filters looks at every replica of a partition and annotates it. A replica is eligible if
every filter finds it so. The eligible replicas are ranked ahead of the others, and otherwise the
order of preference is kept.
-/

namespace StreamSql

/-! ## Liveness of hosts -/

/-- What is known of hosts: whether each was alive, by report, the newest report first. -/
structure HostReports where
  reports : List (Endpoint × Bool) := []
  deriving DecidableEq

namespace HostReports

instance : Inhabited HostReports := ⟨{}⟩

def mark (hosts : HostReports) (endpoint : Endpoint) (alive : Bool) : HostReports :=
  ⟨(endpoint, alive) :: hosts.reports⟩

/-- What the last report on a host says. -/
def last? (hosts : HostReports) (endpoint : Endpoint) : Option Bool :=
  hosts.reports.lookup endpoint

/-- Whether a host counts as alive. One without reports does. -/
def isAlive (hosts : HostReports) (endpoint : Endpoint) : Bool := (hosts.last? endpoint).getD true

end HostReports

/-! ## Options -/

/-- What the caller of a pull query asks of its routing. -/
structure RoutingOptions where
  /-- The request was forwarded by another node and must be answered here. -/
  skipForward : Bool := false
  /-- The partitions to serve; all, if there are none. -/
  partitions : Option (SortedSet PartitionId) := none
  /-- A standby that lags further behind is not eligible. -/
  maxOffsetLag : Option Nat := none
  /-- The time that one attempt may take. -/
  timeout : Duration := .ofSeconds 10
  deriving DecidableEq

namespace RoutingOptions

instance : Inhabited RoutingOptions := ⟨{}⟩

def serves (options : RoutingOptions) (partition : PartitionId) : Bool :=
  options.partitions.all (·.contains partition)

end RoutingOptions

/-! ## Filters -/

/-- Whether a filter finds a replica eligible, and what it notes about it. -/
structure Verdict where
  isEligible : Bool
  note : String
  deriving DecidableEq

structure ReplicaFilter where
  name : String
  verdict : Replica → Verdict

namespace ReplicaFilter

/-- Drops hosts that were last reported to be down. -/
def liveness (hosts : HostReports) : ReplicaFilter where
  name := "liveness"
  verdict r := if hosts.isAlive r.endpoint then ⟨true, "alive"⟩ else ⟨false, "host is down"⟩

/-- Drops standbys that lag more than `bound` behind. -/
def maxLag (bound : Nat) : ReplicaFilter where
  name := "max_lag"
  verdict r :=
    if r.role = .active || r.lag ≤ bound then ⟨true, s!"lag {r.lag} within {bound}"⟩
    else ⟨false, s!"lag {r.lag} exceeds {bound}"⟩

/-- Liveness always, and the bound on the lag where there is one. -/
def standard (hosts : HostReports) (options : RoutingOptions) : List ReplicaFilter :=
  liveness hosts :: (options.maxOffsetLag.map maxLag).toList

/-- What a filter writes beside a replica: its name and its note. -/
def remark (filter : ReplicaFilter) (r : Replica) : String :=
  s!"{filter.name}: {(filter.verdict r).note}"

end ReplicaFilter

/-- A replica with the annotations of every filter. -/
structure RankedReplica where
  replica : Replica
  isEligible : Bool
  annotations : List String
  deriving DecidableEq

namespace RankedReplica

/-- A replica as a chain of filters sees it. -/
def ofFilters (filters : List ReplicaFilter) (r : Replica) : RankedReplica where
  replica := r
  isEligible := filters.all fun filter => (filter.verdict r).isEligible
  annotations := filters.map (·.remark r)

end RankedReplica

/-- The replicas of a partition, the eligible ones first. -/
def PartitionLocation.rank (location : PartitionLocation) (filters : List ReplicaFilter) :
    List RankedReplica :=
  let ranked := location.replicas.map (.ofFilters filters)
  ranked.filter (·.isEligible) ++ ranked.filter (!·.isEligible)

theorem PartitionLocation.length_rank (location : PartitionLocation)
    (filters : List ReplicaFilter) : (location.rank filters).length = location.replicas.length := by
  rw [rank, List.length_append, ← List.countP_eq_length_filter, ← List.countP_eq_length_filter]
  have h := List.length_eq_countP_add_countP (RankedReplica.isEligible)
    (l := location.replicas.map (.ofFilters filters))
  simpa using h.symm

end StreamSql
