import StreamSql.Json.Value
import StreamSql.Routing.Decision

/-!
# JSON forms of replicas and routing decisions
-/

namespace StreamSql

/-! ## Replicas -/

instance : JsonForm Endpoint where
  toJson e := .object [("host", toJson e.host), ("port", .integer e.port)]
  ofJson j := return {
    host := ← j.fieldAt 0 "host"
    port := ← j.fieldAtWith 1 "port" none none fun m _ => m.readWord 16 }

namespace ReplicaRole

def tag : ReplicaRole → String
  | active => "Active"
  | standby => "Standby"

instance : JsonForm ReplicaRole where
  toJson role := .text role.tag
  ofJson := Json.readName tag [active, standby]

end ReplicaRole

instance : JsonForm Replica where
  toJson r := .object
    [("endpoint", toJson r.endpoint), ("role", toJson r.role), ("lag", toJson r.lag)]
  ofJson j := return {
    endpoint := ← j.fieldAt 0 "endpoint"
    role := ← j.fieldAt 1 "role"
    lag := ← j.fieldAt 2 "lag" }

instance : JsonForm PartitionLocation where
  toJson l := .object [("partition", toJson l.partition), ("candidates", toJson l.replicas)]
  ofJson j := return {
    partition := ← j.fieldAt 0 "partition"
    replicas := ← j.fieldAt 1 "candidates" }

instance : JsonForm RankedReplica where
  toJson r := .object
    [("candidate", toJson r.replica), ("eligible", toJson r.isEligible),
      ("annotations", toJson r.annotations)]
  ofJson j := return {
    replica := ← j.fieldAt 0 "candidate"
    isEligible := ← j.fieldAt 1 "eligible"
    annotations := ← j.fieldAt 2 "annotations" }

/-! ## Decisions -/

instance : JsonForm AttemptOutcome where
  toJson
    | .answered rows => .tagged "Answered" (.object [("rows", toJson rows)])
    | .failed code message =>
      .tagged "Failed" (.object [("code", toJson code), ("message", toJson message)])
  ofJson j :=
    match j.variant? with
    | some (.carrying "Answered" content _) => return .answered (← content.field "rows")
    | some (.carrying "Failed" content _) =>
      return .failed (← content.field "code") (← content.field "message")
    | _ => throw .malformed

instance : JsonForm Attempt where
  toJson a := .object
    [("endpoint", toJson a.endpoint), ("local", toJson a.isLocal), ("outcome", toJson a.outcome)]
  ofJson j := return {
    endpoint := ← j.fieldAt 0 "endpoint"
    isLocal := ← j.fieldAt 1 "local"
    outcome := ← j.fieldAt 2 "outcome" }

instance : JsonForm PartitionOutcome where
  toJson
    | .answered endpoint => .tagged "Answered" (.object [("endpoint", toJson endpoint)])
    | .exhausted => .text "Exhausted"
    | .localNotEligible => .text "LocalNotEligible"
  ofJson j :=
    match j.variant? with
    | some (.carrying "Answered" content _) => return .answered (← content.field "endpoint")
    | some (.bare "Exhausted") => return .exhausted
    | some (.bare "LocalNotEligible") => return .localNotEligible
    | _ => throw .malformed

instance : JsonForm PartitionDecision where
  toJson d := .object
    [("partition", toJson d.partition), ("candidates", toJson d.candidates),
      ("attempts", toJson d.attempts), ("outcome", toJson d.outcome)]
  ofJson j := return {
    partition := ← j.fieldAt 0 "partition"
    candidates := ← j.fieldAt 1 "candidates"
    attempts := ← j.fieldAt 2 "attempts"
    outcome := ← j.fieldAt 3 "outcome" }

instance : JsonForm RoutingDecision where
  toJson d := .object [("partitions", toJson d.partitions)]
  ofJson j := return ⟨← j.fieldAt 0 "partitions"⟩

end StreamSql
