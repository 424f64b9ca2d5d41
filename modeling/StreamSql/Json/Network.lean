import StreamSql.Json.Config
import StreamSql.Json.Diagnostic
import StreamSql.Json.Routing
import StreamSql.Json.Step
import StreamSql.Sample

/-!
# JSON forms of the network around a node

How partitions are placed, how other nodes answer and what the caller of a pull query asks for are
read; what was sent to other nodes and what was counted is written.
-/

namespace StreamSql

/-- Every member may be missing, or null. -/
def RoutingOptions.ofJson (j : Json) : Except DecodeError RoutingOptions := do
  let skipForward ← j.fieldOrNull "skip_forward" false
  let _ ← j.fieldOrNull "parallel" false
  let partitions ← j.fieldOrNull "partitions" none
  let maxOffsetLag ← j.fieldOrNull "max_offset_lag" none
  let timeout ← j.fieldOrNull "timeout_ms" 10000
  return { skipForward, partitions, maxOffsetLag, timeout := .ofMillis timeout }

/-- A chain of filters: null is the filter for liveness, a number the bound of one on the lag. -/
def ReplicaFilter.chainOfJson (hosts : HostReports) (j : Json) :
    Except DecodeError (List ReplicaFilter) :=
  j.itemsWith fun
    | .null, _ => return liveness hosts
    | bound, _ => return maxLag (← bound.readWord 64)

/-- Either one node for a number of partitions, or the replicas of every partition. -/
def Placement.ofJson : Json → Except DecodeError Placement
  | .object members => do
    let (endpoint, count) : Endpoint × Nat ← (Json.object members).field "single"
    if count < UInt32.size then return .singleNode endpoint count else throw .malformed
  | j => do
    let assignments : List (PartitionId × List Replica) ← StreamSql.ofJson j
    return assignments.foldl (fun p (partition, replicas) => p.assign partition replicas) .empty

/-- A node that is slow waits as long as the request does. -/
def NodeScript.ofJson (j : Json) : Except DecodeError NodeScript :=
  match j.variant? with
  | some (.carrying "Answer" rows _) => return .answer (← StreamSql.ofJson rows)
  | some (.carrying "Delayed" rows _) => return .delayed (← StreamSql.ofJson rows) (.ofMillis 1)
  | some (.carrying "Late" rows _) => return .late (← StreamSql.ofJson rows) (.ofMillis 20)
  | some (.carrying "Slow" rows _) => do
    let _ : List Row ← StreamSql.ofJson rows
    return .timeout
  | some (.carrying "Fail" reason _) => return .fail (← StreamSql.ofJson reason)
  | some (.carrying "Error" d _) => return .error (← StreamSql.ofJson d)
  | some (.bare "Timeout") => return .timeout
  | _ => throw .malformed

/-- Nodes with their scripts. -/
def NodeScript.listOfJson (j : Json) : Except DecodeError (List (Endpoint × NodeScript)) :=
  j.itemsWith fun
    | .array (endpoint :: script :: _), _ =>
      return (← StreamSql.ofJson endpoint, ← ofJson script)
    | _, _ => throw .malformed

/-- The requests in the order in which they were made, but sorted by their partitions. -/
def ScriptLog.toJson (log : ScriptLog) : Json :=
  let sorted := log.requests.reverse.mergeSort fun a b =>
    compare (a.2.partitions.map (·.number)) (b.2.partitions.map (·.number)) != .gt
  .array (sorted.map fun (endpoint, request) => .object
    [("endpoint", .text endpoint.text), ("statement", .text request.statement),
      ("query_id", StreamSql.toJson request.queryId),
      ("partitions", StreamSql.toJson request.partitions),
      ("timeout_ms", .integer request.timeout.millis)])

/-- The counts, and whether any latency was recorded. -/
def Counters.toJson (c : Counters) : Json := .object
  [("errors", .integer c.errors.toNat), ("local", .integer c.localRequests.toNat),
    ("remote", .integer c.remoteRequests.toNat), ("timed", .boolean c.meanLatency?.isSome)]

end StreamSql
