import RoutePlanner.Planner.Budget
import RoutePlanner.Search.Exact

/-!
# One travel time, computed three ways

The budget is measured by `travel_time_fn`: a seed cost, arc costs and a destination cost. The ETA
shown is a sum over driven shares of edge times, plus delays. The search reports a running sum. In
exact arithmetic they agree on every walk, and on what a search at lambda `0` returns, whatever its
heuristic.
-/

namespace RoutePlanner.Planner

open RoutePlanner.Lib RoutePlanner.Search

variable {E T : ℕ} {K : Type} [Field K] [LinearOrder K]
  {Departure : Type}

/-- Either engine reports the cost of the walk it returns. -/
theorem Impl.exact [IsStrictOrderedRing K] (impl : Impl E K) {q : Query E T K}
    (hcost : ∀ t, q.topo.turnAllowed t = true → 0 ≤ q.arcCost t) {fuel : ℕ}
    {r : PathResult E T K} (h : impl.shortestPath q fuel = some (some r)) :
    ∃ g adj, IsJourney q r.firstEdge g r.turnIds r.destEdge adj ∧
      q.total g r.turnIds adj = r.totalCost := by
  obtain ⟨κ, _, key, Q, hkey, heq⟩ := impl.search_eq
  rw [heq] at h
  exact search_exact hkey hcost h

variable (R : Router E T K Departure) (departure : Departure) {os ds : List (SnapCandidate E K)}
  (d : SnapCandidate E K)

/-- The budget's time of a walk between candidates is the ETA shown for it. -/
theorem travelTimeS_eq_etaS (ho : (os.map SnapCandidate.edge).Nodup)
    (hd : (ds.map SnapCandidate.edge).Nodup) {oc dc : SnapCandidate E K} (hoc : oc ∈ os)
    (hdc : dc ∈ ds) {r : PathResult E T K} (hfirst : oc.edge = r.firstEdge)
    (hdest : dc.edge = r.destEdge)
    (hw : R.pack.topo.graph.IsWalk r.firstEdge r.turnIds r.destEdge) :
    (R.planOf departure os d ds).endpoints.travelTimeS r =
      (computeMetrics R.pack (R.costsAt departure) r oc.frac dc.frac).etaS := by
  have hp := R.planOf_snapped departure d ho hd
  have hj : IsJourney ((R.planOf departure os d ds).endpoints.query
      ((R.costsAt departure).arcCost 0)) r.firstEdge _ r.turnIds r.destEdge _ := hp.isJourney
    ((byEdge_eq_some_iff ho).mpr ⟨hoc, hfirst⟩) ((byEdge_eq_some_iff hd).mpr ⟨hdc, hdest⟩) hw
  rw [hp.travelTimeS_eq hj, computeMetrics_etaS _ _ _ _ hw]
  rfl

/-- **The budget's time is the ETA shown**, for every allowed walk between two candidates; and a
search at lambda `0` ends, and reports that time for the walk it returns. -/
theorem budget_time_eq [IsStrictOrderedRing K] (ho : (os.map SnapCandidate.edge).Nodup)
    (hd : (ds.map SnapCandidate.edge).Nodup) :
    (∀ oc ∈ os, ∀ dc ∈ ds, ∀ r : PathResult E T K, oc.edge = r.firstEdge →
      dc.edge = r.destEdge → R.pack.topo.graph.IsWalk r.firstEdge r.turnIds r.destEdge →
      (R.planOf departure os d ds).endpoints.travelTimeS r =
        (computeMetrics R.pack (R.costsAt departure) r oc.frac dc.frac).etaS) ∧
    ∃ res, Yields (fun n => runOn (R.run n) (R.planOf departure os d ds).endpoints
        ((R.costsAt departure).arcCost 0)) res ∧
      ∀ r, res = some r → ∃ oc ∈ os, ∃ dc ∈ ds, oc.edge = r.firstEdge ∧ dc.edge = r.destEdge ∧
        (R.planOf departure os d ds).endpoints.travelTimeS r = r.totalCost ∧
        (computeMetrics R.pack (R.costsAt departure) r oc.frac dc.frac).etaS = r.totalCost := by
  refine ⟨fun oc hoc dc hdc r hfirst hdest hw =>
    travelTimeS_eq_etaS R departure d ho hd hoc hdc hfirst hdest hw, ?_⟩
  have hp := R.planOf_snapped departure d ho hd
  have hcost := (R.costsAt departure).arcCost_nonneg (le_refl (0 : K))
  obtain ⟨res, hres⟩ := runOn_yields R.impl (R.planOf departure os d ds).endpoints
    (noImproving_of_nonneg (q := (R.planOf departure os d ds).endpoints.query
      ((R.costsAt departure).arcCost 0)) fun t _ => hcost t)
  refine ⟨res, hres, ?_⟩
  rintro r rfl
  obtain ⟨n, hn⟩ := hres.exists_fuel
  obtain ⟨g, adj, hj, htotal⟩ := R.impl.exact (fun t _ => hcost t) hn
  obtain ⟨oc, dc, hoc, hdc, -⟩ := hp.journey hj
  obtain ⟨hoc, hfirst⟩ := (byEdge_eq_some_iff ho).mp hoc
  obtain ⟨hdc, hdest⟩ := (byEdge_eq_some_iff hd).mp hdc
  have htime : (R.planOf departure os d ds).endpoints.travelTimeS r = r.totalCost :=
    (hp.travelTimeS_eq hj).trans htotal
  refine ⟨oc, hoc, dc, hdc, hfirst, hdest, htime, ?_⟩
  rw [← htime]
  exact (travelTimeS_eq_etaS R departure d ho hd hoc hdc hfirst hdest hj.route.walk).symm

/-- `threeStreets` under a heuristic that overrates the fast street. -/
def misled : Router 5 6 ℚ Unit :=
  { threeStreets with
    astar := true
    heuristic := fun _ _ _ e => if e.val = 2 then 1000 else 0 }

/-- `budget_time_eq` on `misled`. -/
theorem budget_time_eq_misled :
    ∃ res, Yields (fun n => runOn (misled.run n)
        (misled.planOf () [midEdge 0] (midEdge 1) [midEdge 1]).endpoints
        ((misled.costsAt ()).arcCost 0)) res ∧
      ∀ r, res = some r → ∃ oc ∈ [midEdge 0], ∃ dc ∈ [midEdge 1], oc.edge = r.firstEdge ∧
        dc.edge = r.destEdge ∧
        (misled.planOf () [midEdge 0] (midEdge 1) [midEdge 1]).endpoints.travelTimeS r =
          r.totalCost ∧
        (computeMetrics misled.pack (misled.costsAt ()) r oc.frac dc.frac).etaS = r.totalCost := by
  have ho : ([midEdge (E := 5) 0].map SnapCandidate.edge).Nodup := by decide
  have hd : ([midEdge (E := 5) 1].map SnapCandidate.edge).Nodup := by decide
  exact (budget_time_eq misled () (midEdge 1) ho hd).2

end RoutePlanner.Planner
