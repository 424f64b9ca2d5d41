import StreamSql.Proofs.Results
import StreamSql.Proofs.Routing.Interleaving
import StreamSql.Sample

/-!
# Merging the partitions of a pull query

The served partitions are routed in ascending order, and what they come to is put together in that
order: the decisions of all of them, and the rows of those that were answered (`pull_ok_iff`,
`pull_error`). Where the answers of the nodes are steady, each partition comes to what it comes to
alone. It matters neither in which order the locations arrive, nor which other partitions are served
beside it, nor whether partitions are routed one after the other or side by side (`pull_merged`).
-/

namespace StreamSql

/-! ### Failed partitions -/

/-- The partition that an error is about. -/
def RouteError.partition? : RouteError → Option PartitionId
  | .noAvailableReplica partition _ | .localHostNotEligible partition => some partition
  | .timeout .. | .connection .. | .rejected .. => none

theorem PartitionDecision.partition?_error (d : PartitionDecision) :
    d.error.partition? = some d.partition := by
  unfold PartitionDecision.error
  split <;> rfl

theorem PartitionOutcome.isAnswered_iff {outcome : PartitionOutcome} :
    outcome.isAnswered = true ↔ ∃ endpoint, outcome = .answered endpoint := by
  cases outcome <;> simp [isAnswered]

theorem PartitionRoute.isAnswered_result (route : PartitionRoute) :
    route.result.1.outcome.isAnswered = route.result.2.isSome := by
  unfold result outcome rows?
  cases route.state <;> rfl

namespace RoutingDecision

theorem failed?_eq_none_iff {d : RoutingDecision} :
    d.failed? = none ↔ ∀ p ∈ d.partitions, p.outcome.isAnswered = true := by
  simp [failed?]

end RoutingDecision

/-! ### Decisions with rows -/

/-- Rows are there exactly for the answered partitions. -/
def Aligned (results : List (PartitionDecision × Option (List Row))) : Prop :=
  ∀ result ∈ results, result.1.outcome.isAnswered = result.2.isSome

theorem filterMap_of_map_some {results : List (PartitionDecision × Option (List Row))}
    {rows : List (List Row)} (h : results.map (·.2) = rows.map some) :
    results.filterMap (·.2) = rows := by
  have hfilter : results.filterMap (·.2) = (results.map (·.2)).filterMap id := by
    rw [List.filterMap_map]
    rfl
  rw [hfilter, h, List.filterMap_map]
  exact List.filterMap_some

theorem Aligned.answered_iff {results : List (PartitionDecision × Option (List Row))}
    (h : Aligned results) :
    (∀ d ∈ results.map (·.1), d.outcome.isAnswered = true) ↔
      ∃ rows : List (List Row), results.map (·.2) = rows.map some := by
  induction results with
  | nil => exact iff_of_true (by simp) ⟨[], rfl⟩
  | cons result rest ih =>
    obtain ⟨hresult, hrest⟩ := List.forall_mem_cons.1 h
    rw [List.map_cons, List.forall_mem_cons, ih hrest, hresult, Option.isSome_iff_exists]
    constructor
    · rintro ⟨⟨first, hfirst⟩, rows, hrows⟩
      exact ⟨first :: rows, by rw [List.map_cons, List.map_cons, hfirst, hrows]⟩
    · rintro ⟨rows, hrows⟩
      cases rows with
      | nil => cases hrows
      | cons first rows =>
        obtain ⟨hfirst, hrows⟩ := List.cons.inj hrows
        exact ⟨⟨first, hfirst⟩, rows, hrows⟩

/-- The decisions with their rows, where rows are listed for the answered partitions only. -/
def paired : List PartitionDecision → List (List Row) →
    List (PartitionDecision × Option (List Row))
  | [], _ => []
  | d :: rest, rows =>
    if d.outcome.isAnswered then (d, rows.head?) :: paired rest rows.tail
    else (d, none) :: paired rest rows

theorem Aligned.paired_eq {results : List (PartitionDecision × Option (List Row))}
    (h : Aligned results) :
    paired (results.map (·.1)) (results.filterMap (·.2)) = results := by
  induction results with
  | nil => rfl
  | cons result rest ih =>
    obtain ⟨hresult, hrest⟩ := List.forall_mem_cons.1 h
    obtain ⟨d, _ | rows⟩ := result
    · rw [Option.isSome_none] at hresult
      simp [paired, hresult, ih hrest]
    · rw [Option.isSome_some] at hresult
      simp [paired, hresult, ih hrest]

/-! ### Steps one after the other -/

theorem forall₂_mapM {σ α β : Type} (f : α → StateM σ β) (as : List α) (s : σ) :
    List.Forall₂ (fun a b => ∃ s', (f a s').1 = b) as (as.mapM f s).1 := by
  induction as generalizing s with
  | nil => exact .nil
  | cons a rest ih =>
    rw [List.mapM_cons]
    exact .cons ⟨s, rfl⟩ (ih (f a s).2)

namespace Router

variable {σ : Type} {r : Router σ} {locations others : List PartitionLocation}
  {s : RoutingState σ}

/-! ### The partitions to serve -/

theorem served_perm (r : Router σ) (locations : List PartitionLocation) :
    (r.served locations).Perm (locations.filter fun l => r.options.serves l.partition) :=
  List.mergeSort_perm _ _

theorem served_sorted (r : Router σ) (locations : List PartitionLocation) :
    (r.served locations).Pairwise fun a b => a.partition.number ≤ b.partition.number := by
  have hsorted : (r.served locations).Pairwise fun a b =>
      decide (a.partition.number ≤ b.partition.number) = true := by
    refine List.pairwise_mergeSort (fun a b c hab hbc => ?_) (fun a b => ?_) _
    · simp only [decide_eq_true_eq] at hab hbc ⊢
      exact Nat.le_trans hab hbc
    · simp only [Bool.or_eq_true, decide_eq_true_eq]
      exact Nat.le_total _ _
  exact hsorted.imp of_decide_eq_true

theorem served_of_sorted (r : Router σ)
    (h : locations.Pairwise fun a b => a.partition.number ≤ b.partition.number) :
    r.served locations = locations.filter fun l => r.options.serves l.partition :=
  List.mergeSort_of_pairwise ((h.filter _).imp decide_eq_true)

theorem served_ascending (r : Router σ) (hdistinct : (locations.map (·.partition)).Nodup) :
    (r.served locations).Pairwise fun a b => a.partition.number < b.partition.number := by
  have hnodup : ((r.served locations).map (·.partition)).Nodup :=
    (((r.served_perm locations).map _).nodup_iff).2
      (hdistinct.sublist (List.filter_sublist.map _))
  rw [List.Nodup, List.pairwise_map] at hnodup
  refine ((r.served_sorted locations).and hnodup).imp fun ⟨hle, hne⟩ => ?_
  refine Nat.lt_of_le_of_ne hle fun heq => hne ?_
  exact congrArg PartitionId.mk heq

theorem eq_of_perm_of_ascending
    (hperm : locations.Perm others)
    (h : locations.Pairwise fun a b => a.partition.number < b.partition.number)
    (hothers : others.Pairwise fun a b => a.partition.number < b.partition.number) :
    locations = others :=
  hperm.eq_of_pairwise (fun _ _ _ _ hab hba => absurd hab (Nat.lt_asymm hba)) h hothers

theorem served_eq_of_perm (r : Router σ) (hdistinct : (locations.map (·.partition)).Nodup)
    (hperm : locations.Perm others) : r.served locations = r.served others := by
  have hothers : (others.map (·.partition)).Nodup := (hperm.map _).nodup_iff.1 hdistinct
  refine eq_of_perm_of_ascending ?_ (r.served_ascending hdistinct) (r.served_ascending hothers)
  exact (r.served_perm _).trans ((hperm.filter _).trans (r.served_perm _).symm)

/-! ### What a pull query is answered -/

/-- What the served partitions come to, one after the other. -/
def results (r : Router σ) (locations : List PartitionLocation) (s : RoutingState σ) :
    List (PartitionDecision × Option (List Row)) :=
  ((r.served locations).mapM r.routePartition s).1

theorem route_fst (r : Router σ) (locations : List PartitionLocation) (s : RoutingState σ) :
    (r.route locations s).1 =
      (⟨(r.results locations s).map (·.1)⟩, (r.results locations s).filterMap (·.2)) :=
  rfl

theorem forall₂_results (r : Router σ) (locations : List PartitionLocation)
    (s : RoutingState σ) :
    List.Forall₂ (fun l result => ∃ s', (r.routePartition l s').1 = result) (r.served locations)
      (r.results locations s) :=
  forall₂_mapM _ _ _

theorem routePartition_partition (r : Router σ) (l : PartitionLocation) (s : RoutingState σ) :
    (r.routePartition l s).1.1.partition = l.partition :=
  congrArg PartitionLocation.partition (r.run_fellOver l s).location_eq

theorem map_partition_results (r : Router σ) (locations : List PartitionLocation)
    (s : RoutingState σ) :
    (r.results locations s).map (·.1.partition) = (r.served locations).map (·.partition) := by
  symm
  refine map_eq_map_iff_forall₂.2 ((r.forall₂_results locations s).imp ?_)
  rintro l _ ⟨s', rfl⟩
  exact (r.routePartition_partition l s').symm

theorem aligned_results (r : Router σ) (locations : List PartitionLocation)
    (s : RoutingState σ) : Aligned (r.results locations s) := by
  intro result hresult
  obtain ⟨l, -, s', rfl⟩ := exists_of_mem_right (r.forall₂_results locations s) hresult
  exact PartitionRoute.isAnswered_result _

theorem pull_fst (r : Router σ) (locations : List PartitionLocation) (s : RoutingState σ) :
    (r.pull locations s).1 =
      match (r.route locations s).1.1.failed? with
      | some d => .error d.error
      | none => .ok ⟨(r.route locations s).1.2.flatten, (r.route locations s).1.1⟩ := by
  unfold pull
  split
  next decision rows s' heq =>
    rw [heq]
    cases decision.failed? <;> rfl

theorem pull_ok_iff {answer : RoutedRows} :
    (r.pull locations s).1 = .ok answer ↔
      ∃ rows : List (List Row), (r.results locations s).map (·.2) = rows.map some ∧
        answer = ⟨rows.flatten, ⟨(r.results locations s).map (·.1)⟩⟩ := by
  have haligned := r.aligned_results locations s
  rw [pull_fst, route_fst]
  cases hfailed : RoutingDecision.failed? ⟨(r.results locations s).map (·.1)⟩ with
  | none =>
    obtain ⟨rows, hrows⟩ := haligned.answered_iff.1 (RoutingDecision.failed?_eq_none_iff.1 hfailed)
    simp only [filterMap_of_map_some hrows, Except.ok.injEq]
    constructor
    · rintro rfl
      exact ⟨rows, hrows, rfl⟩
    · rintro ⟨others, hothers, rfl⟩
      rw [← filterMap_of_map_some hrows, filterMap_of_map_some hothers]
  | some d =>
    refine iff_of_false nofun ?_
    rintro ⟨rows, hrows, -⟩
    rw [RoutingDecision.failed?_eq_none_iff.2 (haligned.answered_iff.2 ⟨rows, hrows⟩)] at hfailed
    cases hfailed

theorem decisions_sorted (r : Router σ) (locations : List PartitionLocation)
    (s : RoutingState σ) :
    (r.route locations s).1.1.partitions.Pairwise fun a b =>
      a.partition.number ≤ b.partition.number := by
  have hsorted : ((r.served locations).map (·.partition)).Pairwise fun a b =>
      a.number ≤ b.number := List.pairwise_map.2 (r.served_sorted locations)
  rw [← r.map_partition_results locations s, List.pairwise_map] at hsorted
  rw [route_fst]
  exact List.pairwise_map.2 hsorted

theorem pull_error {e : RouteError} (h : (r.pull locations s).1 = .error e) :
    ∃ d ∈ (r.route locations s).1.1.partitions, d.outcome.isAnswered = false ∧ e = d.error ∧
      ∀ other ∈ (r.route locations s).1.1.partitions, other.outcome.isAnswered = false →
        d.partition.number ≤ other.partition.number := by
  have hsorted := r.decisions_sorted locations s
  rw [pull_fst] at h
  cases hfailed : (r.route locations s).1.1.failed? with
  | none => simp [hfailed] at h
  | some d =>
    simp only [hfailed, Except.error.injEq] at h
    obtain ⟨hd, before, after, heq, hbefore⟩ := List.find?_eq_some_iff_append.1 hfailed
    rw [heq] at hsorted ⊢
    have hafter := (List.pairwise_cons.1 (List.pairwise_append.1 hsorted).2.1).1
    refine ⟨d, by simp, by simpa using hd, h.symm, fun other hother hunanswered => ?_⟩
    rcases List.mem_append.1 hother with hother | hother
    · have hanswered := hbefore other hother
      simp [hunanswered] at hanswered
    · rcases List.mem_cons.1 hother with rfl | hother
      · exact Nat.le_refl _
      · exact hafter other hother

/-! ### Some of the partitions -/

/-- The same query for some of the partitions only, or for all of them. -/
def restrictedTo (r : Router σ) (partitions : Option (SortedSet PartitionId)) : Router σ :=
  { r with options := { r.options with partitions } }

theorem run_congr {r r' : Router σ} (Kept : PartitionRoute → Prop)
    (hkept : ∀ route s, Kept route → Kept (r.step route s).1)
    (hstep : ∀ route s, Kept route → r'.step route s = r.step route s)
    {route : PartitionRoute} (hroute : Kept route) (s : RoutingState σ) :
    r'.run route s = r.run route s := by
  fun_induction Router.run r route s with
  | case1 route s hterminal => exact run_of_isTerminal hterminal
  | case2 route s hterminal next ih =>
    rw [run_step r' route s (by simpa using hterminal), hstep route s hroute]
    exact ih (hkept route s hroute)

theorem routePartition_restrictedTo (r : Router σ) (partitions : Option (SortedSet PartitionId))
    (l : PartitionLocation) (s : RoutingState σ) :
    (r.restrictedTo partitions).routePartition l s = r.routePartition l s := by
  have hrun : (r.restrictedTo partitions).run { location := l } s = r.run { location := l } s := by
    refine run_congr (fun _ => True) ?_ ?_ trivial s
    · exact fun _ _ _ => trivial
    · exact fun _ _ _ => rfl
  exact congrArg (fun x => (x.1.result, x.2)) hrun

theorem Steady.results_eq (h : r.Steady) (locations : List PartitionLocation)
    (s start : RoutingState σ) :
    r.results locations s = (r.served locations).map fun l => (r.routePartition l start).1 := by
  have hresults := (r.forall₂_results locations s).flip.imp (S := fun result l =>
    id result = (r.routePartition l start).1) fun result l ⟨s', hresult⟩ => by
      rw [← hresult]
      exact congrArg PartitionRoute.result (h.run_fst _ _ _)
  rw [← map_eq_map_iff_forall₂.2 hresults, List.map_id]

theorem Steady.restrictedTo (h : r.Steady) (partitions : Option (SortedSet PartitionId)) :
    (r.restrictedTo partitions).Steady := h

theorem served_restrictedTo (r : Router σ) (hdistinct : (locations.map (·.partition)).Nodup)
    (P : SortedSet PartitionId) :
    (r.restrictedTo (some P)).served locations =
      ((r.restrictedTo none).served locations).filter fun l => P.contains l.partition := by
  refine eq_of_perm_of_ascending ?_ (served_ascending _ hdistinct)
    ((served_ascending _ hdistinct).filter _)
  refine (served_perm _ _).trans (List.Perm.symm (((served_perm _ _).filter _).trans ?_))
  rw [List.filter_filter]
  simp [Router.restrictedTo, RoutingOptions.serves]

theorem Steady.results_restrictedTo (h : r.Steady)
    (hdistinct : (locations.map (·.partition)).Nodup) (P : SortedSet PartitionId) :
    (r.restrictedTo (some P)).results locations s =
      ((r.restrictedTo none).results locations s).filter fun result =>
        P.contains result.1.partition := by
  rw [(h.restrictedTo _).results_eq locations s s, (h.restrictedTo _).results_eq locations s s,
    r.served_restrictedTo hdistinct, List.filter_map]
  simp only [routePartition_restrictedTo, Function.comp_def, routePartition_partition]

/-! ### The whole query -/

/-- The routes of the served partitions before their first steps. -/
def fresh (r : Router σ) (locations : List PartitionLocation) : List PartitionRoute :=
  (r.served locations).map fun l => { location := l }

/-- How the answer to a pull query is put together from what its partitions come to. -/
structure Merged (r : Router σ) (locations : List PartitionLocation) (s : RoutingState σ) :
    Prop where
  served_perm :
    (r.served locations).Perm (locations.filter fun l => r.options.serves l.partition)
  served_ascending :
    (r.served locations).Pairwise fun a b => a.partition.number < b.partition.number
  /-- There is a decision on every served partition, the one that it comes to alone. -/
  decisions : (r.route locations s).1.1.partitions =
    (r.served locations).map fun l => (r.routePartition l s).1.1
  listed : (r.route locations s).1.1.partitions.map (·.partition) =
    (r.served locations).map (·.partition)
  rows : (r.route locations s).1.2 =
    (r.served locations).filterMap fun l => (r.routePartition l s).1.2
  succeeds_iff : (∃ answer, (r.pull locations s).1 = .ok answer) ↔
    ∀ d ∈ (r.route locations s).1.1.partitions, ∃ endpoint, d.outcome = .answered endpoint
  answered : ∀ answer, (r.pull locations s).1 = .ok answer →
    answer.decision = (r.route locations s).1.1 ∧
      ∃ rows : List (List Row),
        ((r.served locations).map fun l => (r.routePartition l s).1.2) = rows.map some ∧
          answer.rows = rows.flatten
  /-- The error is that of the lowest partition without an answer. -/
  failed : ∀ e, (r.pull locations s).1 = .error e →
    ∃ d ∈ (r.route locations s).1.1.partitions, d.outcome.isAnswered = false ∧ e = d.error ∧
      e.partition? = some d.partition ∧
        ∀ other ∈ (r.route locations s).1.1.partitions, other.outcome.isAnswered = false →
          d.partition.number ≤ other.partition.number
  permuted : ∀ others, locations.Perm others →
    r.route others = r.route locations ∧ r.pull others = r.pull locations
  /-- Serving some partitions gives the decisions and the rows that serving all gives for them. -/
  restricted : ∀ P : SortedSet PartitionId,
    let part := (r.restrictedTo (some P)).route locations s
    let whole := (r.restrictedTo none).route locations s
    paired part.1.1.partitions part.1.2 =
      (paired whole.1.1.partitions whole.1.2).filter fun result => P.contains result.1.partition
  /-- Routes that take their steps in any turns come to the same, once all have ended. -/
  interleaved : ∀ schedule after s', r.sideBySide schedule (r.fresh locations) s = (after, s') →
    Ended after →
      (r.route locations s).1 = (⟨after.map (·.result.1)⟩, after.filterMap (·.result.2))
  /-- They all end if each of them gets its turns. -/
  ended : ∀ schedule,
    (∀ place l, (r.served locations)[place]? = some l →
      2 * l.replicas.length + 3 ≤ schedule.count place) →
        Ended (r.sideBySide schedule (r.fresh locations) s).1

theorem pull_succeeds_iff (r : Router σ) (locations : List PartitionLocation)
    (s : RoutingState σ) :
    (∃ answer, (r.pull locations s).1 = .ok answer) ↔
      ∀ d ∈ (r.route locations s).1.1.partitions, ∃ endpoint, d.outcome = .answered endpoint := by
  simp only [← PartitionOutcome.isAnswered_iff]
  refine Iff.trans ?_ (r.aligned_results locations s).answered_iff.symm
  constructor
  · rintro ⟨answer, hanswer⟩
    obtain ⟨rows, hrows, -⟩ := pull_ok_iff.1 hanswer
    exact ⟨rows, hrows⟩
  · rintro ⟨rows, hrows⟩
    exact ⟨_, pull_ok_iff.2 ⟨rows, hrows, rfl⟩⟩

theorem Steady.route_interleaved (h : r.Steady) {schedule : List Nat}
    {after : List PartitionRoute} {s' : RoutingState σ}
    (hrun : r.sideBySide schedule (r.fresh locations) s = (after, s')) (hended : Ended after) :
    (r.route locations s).1 = (⟨after.map (·.result.1)⟩, after.filterMap (·.result.2)) := by
  have hresults : after.map (·.result) = r.results locations s := by
    rw [eq_map_run_of_ended h hrun hended s, h.results_eq locations s s, fresh, List.map_map,
      List.map_map]
    rfl
  rw [route_fst, ← hresults, List.map_map, List.filterMap_map]
  rfl

theorem ended_of_fresh (r : Router σ) (s : RoutingState σ) {schedule : List Nat}
    (h : ∀ place l, (r.served locations)[place]? = some l →
      2 * l.replicas.length + 3 ≤ schedule.count place) :
    Ended (r.sideBySide schedule (r.fresh locations) s).1 := by
  refine r.ended_of_enough s fun place route hroute => ?_
  rw [fresh, List.getElem?_map, Option.map_eq_some_iff] at hroute
  obtain ⟨l, hl, rfl⟩ := hroute
  exact h place l hl

/-- **Merging is complete, ordered, and indifferent to the order of arrival.** For locations of
different partitions and steady answers, a pull query succeeds if and only if every served partition
is answered, with their rows in ascending order; it fails with the error of the lowest partition
that is not; and neither the order of the locations, nor the other partitions served, nor the order
in which the routes take their steps makes a difference to any partition. -/
theorem pull_merged (r : Router σ) (h : r.Steady) (locations : List PartitionLocation)
    (hdistinct : (locations.map (·.partition)).Nodup) (s : RoutingState σ) :
    Merged r locations s where
  served_perm := r.served_perm locations
  served_ascending := r.served_ascending hdistinct
  decisions := by
    rw [route_fst, h.results_eq locations s s, List.map_map]
    rfl
  listed := by
    rw [route_fst, List.map_map]
    exact r.map_partition_results locations s
  rows := by
    rw [route_fst, h.results_eq locations s s, List.filterMap_map]
    rfl
  succeeds_iff := r.pull_succeeds_iff locations s
  answered := by
    intro answer hanswer
    obtain ⟨rows, hrows, rfl⟩ := pull_ok_iff.1 hanswer
    refine ⟨rfl, rows, ?_, rfl⟩
    rw [← hrows, h.results_eq locations s s, List.map_map]
    rfl
  failed := by
    intro e he
    obtain ⟨d, hmem, hd, rfl, hlowest⟩ := pull_error he
    exact ⟨d, hmem, hd, rfl, d.partition?_error, hlowest⟩
  permuted := by
    intro others hperm
    have hserved := r.served_eq_of_perm hdistinct hperm
    have hroute : r.route others = r.route locations := by
      unfold route
      rw [hserved]
    refine ⟨hroute, ?_⟩
    unfold pull
    rw [hroute]
  restricted := by
    intro P part whole
    have hpart := (aligned_results (r.restrictedTo (some P)) locations s).paired_eq
    have hwhole := (aligned_results (r.restrictedTo none) locations s).paired_eq
    exact hpart.trans ((h.results_restrictedTo hdistinct P).trans
      (congrArg (List.filter fun result => P.contains result.1.partition) hwhole.symm))
  interleaved := fun _ _ _ => h.route_interleaved
  ended := fun _ => r.ended_of_fresh s

namespace Sample

/-- A node that holds every partition and reaches no other node. -/
def lonely : Router ScriptLog where
  home := ⟨"local", 8088⟩
  execute partition := fun log => (.ok [⟨[.int8 (.ofNat partition.number)]⟩], log)
  transport := .none
  filters := ReplicaFilter.standard {} {}
  options := {}
  statement := "SELECT * FROM USERS_VIEW;"
  queryId := ⟨"query_1"⟩

theorem steady_lonely : lonely.Steady := by
  intro partition endpoint s s'
  by_cases hhome : endpoint = lonely.home
  · subst hhome
    rw [dispatch_home]
    rfl
  · rw [dispatch_of_ne_home _ _ hhome]
    simp [Router.forward, lonely, Transport.none]

/-- Two partitions out of order, the first of them with a copy out of reach. -/
def twoPartitions : List PartitionLocation :=
  [⟨⟨1⟩, [.sole ⟨"remote", 8088⟩, .sole ⟨"local", 8088⟩]⟩, ⟨⟨0⟩, [.sole ⟨"local", 8088⟩]⟩]

end Sample

/-- The partitions of a node that falls over to its own copies. -/
theorem two_partitions_merged :
    Sample.lonely.Steady ∧ (Sample.twoPartitions.map (·.partition)).Nodup ∧
      Merged Sample.lonely Sample.twoPartitions ⟨{}, {}⟩ := by
  have hdistinct : (Sample.twoPartitions.map (·.partition)).Nodup := by decide
  exact ⟨Sample.steady_lonely, hdistinct,
    pull_merged Sample.lonely Sample.steady_lonely Sample.twoPartitions hdistinct ⟨{}, {}⟩⟩

end Router

end StreamSql
