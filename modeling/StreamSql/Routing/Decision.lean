import StreamSql.Diagnostic
import StreamSql.Routing.Filter

/-!
# Routing decisions and counters

How one pull query was routed: per partition the ranking, the attempts made, and how it ended. What
is counted about all of them is kept in words.
-/

namespace StreamSql

inductive AttemptOutcome where
  | answered (rows : Nat)
  | failed (code message : String)
  deriving DecidableEq

/-- One attempt to have a partition answered. -/
structure Attempt where
  endpoint : Endpoint
  /-- Whether it was made on this node. -/
  isLocal : Bool
  outcome : AttemptOutcome
  deriving DecidableEq

inductive PartitionOutcome where
  | answered (endpoint : Endpoint)
  /-- Every usable replica failed, or there was none. -/
  | exhausted
  /-- A forwarded request found this node not eligible. -/
  | localNotEligible
  deriving DecidableEq

def PartitionOutcome.isAnswered : PartitionOutcome → Bool
  | answered _ => true
  | exhausted | localNotEligible => false

structure PartitionDecision where
  partition : PartitionId
  candidates : List RankedReplica
  attempts : List Attempt
  outcome : PartitionOutcome
  deriving DecidableEq

structure RoutingDecision where
  partitions : List PartitionDecision := []
  deriving DecidableEq

namespace RoutingDecision

instance : Inhabited RoutingDecision := ⟨{}⟩

/-- The first partition that was not answered. -/
def failed? (d : RoutingDecision) : Option PartitionDecision :=
  d.partitions.find? (!·.outcome.isAnswered)

/-- The node that answered a partition. -/
def answeredBy? (d : RoutingDecision) (partition : PartitionId) : Option Endpoint :=
  match d.partitions.find? (·.partition == partition) with
  | some { outcome := .answered endpoint, .. } => some endpoint
  | _ => none

end RoutingDecision

/-! ## Errors -/

/-- Why a pull query or one attempt of it fails. -/
inductive RouteError where
  | noAvailableReplica (partition : PartitionId) (failures : List String)
  | timeout (endpoint : Endpoint) (limit : Duration)
  | connection (endpoint : Endpoint) (reason : String)
  | rejected (endpoint : Endpoint) (reason : String)
  | localHostNotEligible (partition : PartitionId)
  deriving DecidableEq

namespace RouteError

def summary : RouteError → String
  | noAvailableReplica partition _ => s!"No available replica for partition {partition.number}"
  | timeout endpoint _ => s!"Request to {endpoint.text} timed out"
  | connection endpoint _ => s!"Could not reach {endpoint.text}"
  | rejected endpoint _ => s!"{endpoint.text} rejected the request"
  | localHostNotEligible partition =>
    s!"Local host is not eligible for partition {partition.number}"

instance : Reportable RouteError where
  diagnostic
    | noAvailableReplica partition failures =>
      { code := "ROUTE_001"
        message := "Unable to execute pull query. " ++
          s!"Exhausted all replicas for partition {partition.number}."
        help := some "Check that the hosts owning the partition are alive and caught up"
        notes := failures }
    | timeout endpoint limit =>
      { code := "ROUTE_002"
        message := s!"Request to {endpoint.text} timed out after {limit.millis} ms." }
    | connection endpoint reason =>
      { code := "ROUTE_003", message := s!"Could not reach {endpoint.text}: {reason}" }
    | rejected endpoint reason =>
      { code := "ROUTE_004", message := s!"{endpoint.text} rejected the request: {reason}" }
    | localHostNotEligible partition =>
      { code := "ROUTE_005"
        message := "Unable to execute forwarded pull query. " ++
          s!"The local host is not an eligible replica for partition {partition.number}." }

end RouteError

namespace PartitionDecision

/-- The note on one attempt, if it failed. -/
def attemptNote? (a : Attempt) : Option String :=
  match a.outcome with
  | .failed code message => some s!"{a.endpoint.text} failed with {code}: {message}"
  | .answered _ => none

/-- The note on a candidate that was not tried. -/
def candidateNote (c : RankedReplica) : String :=
  s!"{c.replica.endpoint.text} ({c.replica.role.text}): {Text.commaSeparated c.annotations}"

/-- Why the partition has no answer: the failed attempts, or why none was made. -/
def failures (d : PartitionDecision) : List String :=
  if d.attempts.isEmpty then "no eligible candidates" :: d.candidates.map candidateNote
  else d.attempts.filterMap attemptNote?

/-- The error that the partition's failure is for the query. -/
def error (d : PartitionDecision) : RouteError :=
  match d.outcome with
  | .localNotEligible => .localHostNotEligible d.partition
  | _ => .noAvailableReplica d.partition d.failures

end PartitionDecision

/-! ## Counters -/

structure Counters where
  errors : UInt64 := 0
  /-- Attempts made on this node. -/
  localRequests : UInt64 := 0
  /-- Attempts made on other nodes. -/
  remoteRequests : UInt64 := 0
  /-- Recorded latencies. -/
  latencies : UInt64 := 0
  totalMicros : UInt64 := 0
  deriving DecidableEq

namespace Counters

instance : Inhabited Counters := ⟨{}⟩

def countError (c : Counters) : Counters := { c with errors := c.errors + 1 }

def countLocal (c : Counters) : Counters := { c with localRequests := c.localRequests + 1 }

def countRemote (c : Counters) : Counters := { c with remoteRequests := c.remoteRequests + 1 }

def recordLatency (c : Counters) (latency : Duration) : Counters :=
  { c with
    latencies := c.latencies + 1
    totalMicros := c.totalMicros + .ofNat latency.micros }

def meanLatency? (c : Counters) : Option Duration :=
  if c.latencies = 0 then none else some (.ofMicros (c.totalMicros / c.latencies).toNat)

end Counters

end StreamSql
