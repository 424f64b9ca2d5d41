import StreamSql.Proofs.Routing.FallOver

/-!
# Partitions routed side by side

The partitions of a pull query may be routed at the same time: then their routes take their steps in
turns, in an order that nobody controls. Where the answers of the nodes are steady, that is, where
they depend on node and partition only, every route ends as it would have ended alone
(`eq_map_run_of_ended`), and every route ends that gets enough turns (`ended_of_enough`).
-/

namespace StreamSql.Router

variable {σ : Type} {r : Router σ}

/-! ### Steady answers -/

/-- What a node answers for a partition does not depend on what was asked before. An answer that
comes too late counts as the failure that it is taken for. -/
def Steady (r : Router σ) : Prop :=
  ∀ partition endpoint s s', (r.dispatch partition endpoint s).1 =
    (r.dispatch partition endpoint s').1

theorem Steady.step_fst (h : r.Steady) (route : PartitionRoute) (s s' : RoutingState σ) :
    (r.step route s).1 = (r.step route s').1 := by
  unfold step
  cases route.state with
  | dispatching next =>
    cases hnext : route.usable[next]? with
    | none =>
      simp only [hnext]
      rfl
    | some endpoint =>
      simp only [hnext]
      exact congrArg (r.noted route next endpoint) (h _ _ _ _)
  | planning | retrying _ | answered _ _ | exhausted | localNotEligible => rfl

theorem Steady.run_fst (h : r.Steady) (route : PartitionRoute) (s s' : RoutingState σ) :
    (r.run route s).1 = (r.run route s').1 := by
  fun_induction Router.run r route s generalizing s' with
  | case1 route s hterminal => rw [run_of_isTerminal hterminal]
  | case2 route s hterminal next ih =>
    rw [ih (r.step route s').2, run_step r route s' (by simpa using hterminal),
      h.step_fst route s' s]

theorem step_of_isTerminal {route : PartitionRoute} (h : route.state.isTerminal = true)
    (s : RoutingState σ) : r.step route s = (route, s) := by
  unfold step
  cases hstate : route.state with
  | answered _ _ | exhausted | localNotEligible => rfl
  | planning | dispatching _ | retrying _ => simp [hstate, RouteState.isTerminal] at h

theorem Steady.run_step_fst (h : r.Steady) (route : PartitionRoute) (s s' : RoutingState σ) :
    (r.run (r.step route s').1 s).1 = (r.run route s).1 := by
  cases hterminal : route.state.isTerminal with
  | true => rw [step_of_isTerminal hterminal]
  | false =>
    rw [run_step r route s hterminal, h.step_fst route s' s]
    exact h.run_fst _ _ _

/-! ### Turns -/

/-- The route at a place takes a step. -/
def turn (r : Router σ) (x : List PartitionRoute × RoutingState σ) (place : Nat) :
    List PartitionRoute × RoutingState σ :=
  match x.1[place]? with
  | some route => (x.1.set place (r.step route x.2).1, (r.step route x.2).2)
  | none => x

/-- Routes take steps in the order in which their places are listed. -/
def sideBySide (r : Router σ) (schedule : List Nat) (routes : List PartitionRoute)
    (s : RoutingState σ) : List PartitionRoute × RoutingState σ :=
  schedule.foldl r.turn (routes, s)

def Ended (routes : List PartitionRoute) : Prop :=
  ∀ route ∈ routes, route.state.isTerminal = true

theorem turn_of_getElem? {routes : List PartitionRoute} {s : RoutingState σ} {place : Nat}
    {route : PartitionRoute} (h : routes[place]? = some route) :
    r.turn (routes, s) place = (routes.set place (r.step route s).1, (r.step route s).2) := by
  simp only [turn, h]

theorem turn_of_none {routes : List PartitionRoute} {s : RoutingState σ} {place : Nat}
    (h : routes[place]? = none) : r.turn (routes, s) place = (routes, s) := by
  simp only [turn, h]

/-- A turn changes for no route what it comes to. -/
theorem Steady.map_run_turn (h : r.Steady) (s : RoutingState σ)
    (x : List PartitionRoute × RoutingState σ) (place : Nat) :
    (r.turn x place).1.map (fun route => (r.run route s).1) =
      x.1.map fun route => (r.run route s).1 := by
  obtain ⟨routes, now⟩ := x
  cases hplace : routes[place]? with
  | none => rw [turn_of_none hplace]
  | some route =>
    obtain ⟨hlt, hroute⟩ := List.getElem?_eq_some_iff.1 hplace
    rw [turn_of_getElem? hplace, List.map_set, h.run_step_fst, ← hroute]
    refine List.ext_getElem (by simp) fun i _ _ => ?_
    by_cases hi : place = i
    · subst hi
      simp
    · simp [List.getElem_set_ne hi]

/-- **Routed side by side, every partition ends as it would alone**, whichever turns the routes
take. -/
theorem eq_map_run_of_ended (h : r.Steady) {schedule : List Nat}
    {routes after : List PartitionRoute} {s s' : RoutingState σ}
    (hrun : r.sideBySide schedule routes s = (after, s'))
    (hended : Ended after) (start : RoutingState σ) :
    after = routes.map fun route => (r.run route start).1 := by
  have hkept : (r.sideBySide schedule routes s).1.map (fun route => (r.run route start).1) =
      routes.map fun route => (r.run route start).1 :=
    List.foldlRecOn (motive := fun x => x.1.map (fun route => (r.run route start).1) =
        routes.map fun route => (r.run route start).1) schedule r.turn rfl
      fun x hx place _ => (h.map_run_turn start x place).trans hx
  rw [hrun] at hkept
  rw [← hkept]
  refine (List.map_congr_left fun route hroute => ?_).trans (List.map_id after) |>.symm
  rw [run_of_isTerminal (hended route hroute), id]

/-! ### Enough turns -/

theorem remaining_eq_zero_iff {route : PartitionRoute} :
    route.remaining = 0 ↔ route.state.isTerminal = true := by
  unfold PartitionRoute.remaining
  cases route.state <;> simp [RouteState.isTerminal]

theorem remaining_step_le (r : Router σ) (route : PartitionRoute) (s : RoutingState σ) :
    (r.step route s).1.remaining ≤ route.remaining - 1 := by
  cases hterminal : route.state.isTerminal with
  | true =>
    rw [step_of_isTerminal hterminal]
    exact Nat.le_trans (Nat.le_of_eq (remaining_eq_zero_iff.2 hterminal)) (Nat.zero_le _)
  | false => exact Nat.le_sub_one_of_lt (r.remaining_step_lt route s hterminal)

/-- **Every route ends** that gets as many turns as `PartitionRoute.remaining` says. -/
theorem ended_of_enough (r : Router σ) {schedule : List Nat} {routes : List PartitionRoute}
    (s : RoutingState σ)
    (h : ∀ place route, routes[place]? = some route → route.remaining ≤ schedule.count place) :
    Ended (r.sideBySide schedule routes s).1 := by
  induction schedule generalizing routes s with
  | nil =>
    intro route hroute
    obtain ⟨place, hplace⟩ := List.mem_iff_getElem?.1 hroute
    exact remaining_eq_zero_iff.1 (Nat.le_zero.1 (h place route hplace))
  | cons place rest ih =>
    rw [sideBySide, List.foldl_cons]
    cases hplace : routes[place]? with
    | none =>
      rw [turn_of_none hplace]
      refine ih s fun other route hother => ?_
      have hne : other ≠ place := fun heq => by simp [heq, hplace] at hother
      simpa [hne.symm] using h other route hother
    | some route =>
      rw [turn_of_getElem? hplace]
      refine ih _ fun other next hother => ?_
      have hlt := (List.getElem?_eq_some_iff.1 hplace).1
      rw [List.getElem?_set] at hother
      by_cases hsame : place = other
      · subst hsame
        rw [if_pos rfl, if_pos hlt, Option.some.injEq] at hother
        have hbound := h place route hplace
        rw [List.count_cons_self] at hbound
        have hstep := r.remaining_step_le route s
        rw [hother] at hstep
        omega
      · rw [if_neg hsame] at hother
        simpa [hsame] using h other next hother

end StreamSql.Router
