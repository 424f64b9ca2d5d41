import Mathlib.Data.List.Induction
import StreamSql.Proofs.MovingToFront
import StreamSql.Routing.Filter

/-!
# The ranking of replicas

A chain of filters examines each replica, one filter after the other
(`RankedReplica.ofFilters_eq_foldl`), and the replicas are then sorted by eligibility, in a stable
way (`PartitionLocation.rank_eq_mergeSort`). So the ranking is a partition of the replicas that
keeps their order on both sides (`PartitionLocation.rank_stable`). What the standard chain finds
depends on the last report on each host (`ReplicaFilter.isEligible_standard_iff`).
-/

namespace StreamSql

/-! ### What a chain finds -/

namespace RankedReplica

/-- A replica that one more filter has examined. -/
def examined (c : RankedReplica) (filter : ReplicaFilter) : RankedReplica :=
  { c with
    isEligible := c.isEligible && (filter.verdict c.replica).isEligible
    annotations := c.annotations ++ [filter.remark c.replica] }

theorem foldl_examined (filters : List ReplicaFilter) (c : RankedReplica) :
    filters.foldl examined c =
      { c with
        isEligible := c.isEligible && filters.all fun f => (f.verdict c.replica).isEligible
        annotations := c.annotations ++ filters.map (·.remark c.replica) } := by
  induction filters generalizing c with
  | nil => simp
  | cons filter rest ih => simp [ih, examined, Bool.and_assoc]

theorem ofFilters_eq_foldl (filters : List ReplicaFilter) (r : Replica) :
    ofFilters filters r = filters.foldl examined ⟨r, true, []⟩ := by
  simp [foldl_examined, ofFilters]

theorem isEligible_ofFilters_iff {filters : List ReplicaFilter} {r : Replica} :
    (ofFilters filters r).isEligible = true ↔
      ∀ f ∈ filters, (f.verdict r).isEligible = true := List.all_eq_true

end RankedReplica

/-! ### The standard chain -/

namespace HostReports

/-- What is known of hosts after reports, in the order in which they were made. -/
def ofReports (reports : List (Endpoint × Bool)) : HostReports :=
  reports.foldl (fun hosts report => hosts.mark report.1 report.2) {}

theorem last?_mark (hosts : HostReports) (reported endpoint : Endpoint) (alive : Bool) :
    (hosts.mark reported alive).last? endpoint =
      if reported = endpoint then some alive else hosts.last? endpoint := by
  rw [last?, mark, List.lookup_cons]
  by_cases h : reported = endpoint
  · simp [h]
  · rw [if_neg h, beq_false_of_ne (Ne.symm h)]
    rfl

theorem last?_ofReports (reports : List (Endpoint × Bool)) (endpoint : Endpoint) :
    (ofReports reports).last? endpoint =
      ((reports.filter (·.1 = endpoint)).getLast?).map (·.2) := by
  induction reports using List.reverseRecOn with
  | nil => rfl
  | append_singleton earlier report ih =>
    rw [ofReports, List.foldl_concat, last?_mark, List.filter_append]
    by_cases h : report.1 = endpoint
    · simp [h]
    · simpa [h, ofReports] using ih

theorem isAlive_ofReports_iff {reports : List (Endpoint × Bool)} {endpoint : Endpoint} :
    (ofReports reports).isAlive endpoint = true ↔
      (reports.filter (·.1 = endpoint)).getLast? ≠ some (endpoint, false) := by
  rw [isAlive, last?_ofReports]
  cases hlast : (reports.filter (·.1 = endpoint)).getLast? with
  | none => simp
  | some report =>
    obtain ⟨reported, alive⟩ := report
    have hsame : reported = endpoint := by
      simpa using (List.mem_filter.1 (List.mem_of_getLast? hlast)).2
    simp [hsame]

end HostReports

namespace ReplicaFilter

variable {r : Replica}

theorem isEligible_liveness (hosts : HostReports) (r : Replica) :
    ((liveness hosts).verdict r).isEligible = hosts.isAlive r.endpoint := by
  rw [liveness]
  cases h : hosts.isAlive r.endpoint <;> simp [h]

theorem isEligible_maxLag_iff {bound : Nat} :
    ((maxLag bound).verdict r).isEligible = true ↔ r.role = .active ∨ r.lag ≤ bound := by
  rw [maxLag]
  by_cases h : r.role = .active ∨ r.lag ≤ bound <;> simp [h]

/-- A replica passes the standard chain unless its host was last reported to be down, or it is a
standby that lags too far behind. -/
theorem isEligible_standard_iff {reports : List (Endpoint × Bool)} {options : RoutingOptions} :
    (∀ f ∈ standard (.ofReports reports) options, (f.verdict r).isEligible = true) ↔
      (reports.filter (·.1 = r.endpoint)).getLast? ≠ some (r.endpoint, false) ∧
        ∀ bound ∈ options.maxOffsetLag, r.role = .active ∨ r.lag ≤ bound := by
  rw [standard, List.forall_mem_cons, isEligible_liveness, HostReports.isAlive_ofReports_iff]
  refine and_congr_right fun _ => ?_
  cases options.maxOffsetLag with
  | none => simp
  | some bound => simp [isEligible_maxLag_iff]

end ReplicaFilter

/-! ### The ranking -/

namespace PartitionLocation

variable {location : PartitionLocation} {filters : List ReplicaFilter}

/-- The replicas of a location as a chain of filters ranks them. -/
structure RankedBy (location : PartitionLocation) (filters : List ReplicaFilter)
    (ranked : List RankedReplica) : Prop where
  perm : (ranked.map (·.replica)).Perm location.replicas
  eligibleFirst : ranked.Pairwise fun before after => after.isEligible → before.isEligible
  /-- On both sides the order of preference is kept. -/
  inOrder : ∀ side : Bool, (ranked.filter (·.isEligible = side)).map (·.replica) =
    location.replicas.filter fun r =>
      (filters.all fun f => (f.verdict r).isEligible) = side
  eligible_iff : ∀ c ∈ ranked,
    (c.isEligible = true ↔ ∀ f ∈ filters, (f.verdict c.replica).isEligible = true)
  annotations : ∀ c ∈ ranked,
    c.annotations = filters.map fun f => s!"{f.name}: {(f.verdict c.replica).note}"

theorem rank_eq_mergeSort (location : PartitionLocation) (filters : List ReplicaFilter) :
    location.rank filters =
      (location.replicas.map fun r => filters.foldl .examined ⟨r, true, []⟩).mergeSort
        (mayPrecede (·.isEligible)) := by
  simp only [mergeSort_eq_filter_append_filter_not, ← RankedReplica.ofFilters_eq_foldl]
  rfl

theorem rank_perm (location : PartitionLocation) (filters : List ReplicaFilter) :
    (location.rank filters).Perm (location.replicas.map (.ofFilters filters)) :=
  List.filter_append_perm _ _

theorem rankedBy_rank (location : PartitionLocation) (filters : List ReplicaFilter) :
    location.RankedBy filters (location.rank filters) := by
  have hperm := location.rank_perm filters
  have hreplicas : (location.replicas.map (.ofFilters filters)).map RankedReplica.replica =
      location.replicas := by
    rw [List.map_map]
    exact List.map_id _
  have hmem : ∀ c ∈ location.rank filters, c = .ofFilters filters c.replica := fun c hc => by
    obtain ⟨r, -, rfl⟩ := List.mem_map.1 (hperm.mem_iff.1 hc)
    rfl
  refine ⟨hreplicas ▸ hperm.map _, pairwise_filter_append_filter_not _ _, fun side => ?_,
    fun c hc => ?_, fun c hc => ?_⟩
  · rw [rank, filter_filter_append_filter_not, List.filter_map, List.map_map]
    exact List.map_id _
  · rw [hmem c hc]
    exact RankedReplica.isEligible_ofFilters_iff
  · rw [hmem c hc]
    rfl

/-- **Ranking is a stable partition.** The replicas are examined by every filter of the chain and
sorted by eligibility: those that all filters find eligible come first, and otherwise the order of
preference is kept. The standard chain refuses the hosts that were last reported to be down and the
standbys beyond the bound. -/
theorem rank_stable (location : PartitionLocation) (filters : List ReplicaFilter) :
    location.RankedBy filters (location.rank filters) ∧
      location.rank filters =
        (location.replicas.map fun r => filters.foldl .examined ⟨r, true, []⟩).mergeSort
          (mayPrecede (·.isEligible)) ∧
      ∀ (reports : List (Endpoint × Bool)) (options : RoutingOptions),
        ∀ c ∈ location.rank (ReplicaFilter.standard (.ofReports reports) options),
        (c.isEligible = true ↔
          (reports.filter (·.1 = c.replica.endpoint)).getLast? ≠ some (c.replica.endpoint, false) ∧
            ∀ bound ∈ options.maxOffsetLag, c.replica.role = .active ∨ c.replica.lag ≤ bound) := by
  refine ⟨location.rankedBy_rank filters, location.rank_eq_mergeSort filters,
    fun reports options c hc => ?_⟩
  rw [← ReplicaFilter.isEligible_standard_iff]
  exact (location.rankedBy_rank _).eligible_iff c hc

end PartitionLocation

namespace Sample

/-- Four copies of a partition, two of them on one node. -/
def fourReplicas : PartitionLocation where
  partition := ⟨0⟩
  replicas := [⟨⟨"a", 1⟩, .active, 0⟩, ⟨⟨"b", 1⟩, .standby, 50⟩, ⟨⟨"c", 1⟩, .standby, 5⟩,
    ⟨⟨"b", 1⟩, .standby, 7⟩]

/-- The first node has gone down, and the third one has come back. -/
def hostReports : List (Endpoint × Bool) :=
  [(⟨"a", 1⟩, true), (⟨"c", 1⟩, false), (⟨"a", 1⟩, false), (⟨"c", 1⟩, true)]

end Sample

/-- The active copy is ranked behind two standbys, for its node was last reported to be down, but
ahead of the standby that lags too far. -/
theorem PartitionLocation.dead_active_ranked :
    let ranked := Sample.fourReplicas.rank
      (ReplicaFilter.standard (.ofReports Sample.hostReports) { maxOffsetLag := some 10 })
    let dead : RankedReplica := ⟨⟨⟨"a", 1⟩, .active, 0⟩, false,
      ["liveness: host is down", "max_lag: lag 0 within 10"]⟩
    ranked.map (·.replica.lag) = [5, 7, 0, 50] ∧ dead ∈ ranked ∧
      (Sample.hostReports.filter (·.1 = ⟨"a", 1⟩)).getLast? = some (⟨"a", 1⟩, false) := by
  intro ranked dead
  have hmem : dead ∈ ranked := by decide
  refine ⟨by decide, hmem, ?_⟩
  obtain ⟨-, -, hstandard⟩ := PartitionLocation.rank_stable Sample.fourReplicas []
  by_contra halive
  cases (hstandard _ _ dead hmem).2 ⟨halive, fun _ _ => .inl rfl⟩

end StreamSql
