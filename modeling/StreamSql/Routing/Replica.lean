import StreamSql.Key
import StreamSql.Sorted.Map

/-!
# Replicas

The nodes that hold copies of a partition, and the assignment of partitions to nodes.
-/

namespace StreamSql

/-- The address of a node. -/
structure Endpoint where
  host : String
  port : Nat
  deriving DecidableEq

def Endpoint.text (e : Endpoint) : String := s!"{e.host}:{e.port}"

inductive ReplicaRole where
  | active
  | standby
  deriving DecidableEq

def ReplicaRole.text : ReplicaRole → String
  | active => "active"
  | standby => "standby"

/-- A node with a copy of a partition. -/
structure Replica where
  endpoint : Endpoint
  role : ReplicaRole
  /-- The number of offsets that the copy is behind the active one. -/
  lag : Nat
  deriving DecidableEq

/-- The only copy of a partition. -/
def Replica.sole (endpoint : Endpoint) : Replica := ⟨endpoint, .active, 0⟩

/-- The copies of one partition, in order of preference. -/
structure PartitionLocation where
  partition : PartitionId
  replicas : List Replica
  deriving DecidableEq

/-- A fixed assignment of partitions to nodes. -/
structure Placement where
  assignments : SortedMap PartitionId (List Replica)
  deriving DecidableEq

namespace Placement

def empty : Placement := ⟨.empty⟩

instance : Inhabited Placement := ⟨empty⟩

/-- Assigns a partition to nodes, whatever it was assigned to before. -/
def assign (p : Placement) (partition : PartitionId) (replicas : List Replica) : Placement :=
  ⟨p.assignments.insert partition replicas⟩

/-- All of `count` partitions on one node; there is at least one. -/
def singleNode (endpoint : Endpoint) (count : Nat) : Placement :=
  (List.range (max count 1)).foldl (fun p n => p.assign ⟨n⟩ [.sole endpoint]) empty

/-- The copies of a partition; one that was not assigned has none. -/
def replicas (p : Placement) (partition : PartitionId) : List Replica :=
  (p.assignments.get? partition).getD []

def locate (p : Placement) (partitions : List PartitionId) : List PartitionLocation :=
  partitions.map fun partition => ⟨partition, p.replicas partition⟩

end Placement

end StreamSql
