import RoutePlanner.Planner.Budget

/-!
# Raising lambda trades time for penalty

Two searches on one set of end points, at two lambdas. Each returns a walk of least time plus lambda
times penalty, so the walk of the larger lambda has no more penalty, and the one of the smaller no
more time.

* `walkTotalS`: the time of a walk with the cheapest seed of its first edge, whatever the seeds;
  `travelTimeS` where no edge is listed twice (`walkTotalS_eq`).
* `lambda_monotone`: both inequalities, and both searches find a walk or neither does.
-/

namespace RoutePlanner.Planner

open RoutePlanner.Lib RoutePlanner.Search

variable {E T : ℕ} {K : Type} [Field K] [LinearOrder K]

namespace Endpoints

variable {pack : Pack E T K} (pl : Endpoints pack)

/-- The costs of the seeds on an edge. -/
def seedCosts (a : Fin E) : List K := (pl.seeds.filter fun s => s.1 = a).map Prod.snd

/-- The cheapest of them. -/
def startCost (a : Fin E) : K := (pl.seedCosts a).min?.getD 0

/-- The travel time of a walk, from its cheapest seed. -/
def walkTotalS (r : PathResult E T K) : K :=
  pl.startCost r.firstEdge + (r.turnIds.map (pl.qc.arcCost 0)).sum +
    (dictGet pl.dests r.destEdge).getD 0

theorem mem_seedCosts {a : Fin E} {g : K} : g ∈ pl.seedCosts a ↔ (a, g) ∈ pl.seeds := by
  unfold seedCosts
  simp

/-- The cheapest seed of an edge is one of its seeds. -/
theorem startCost_spec {a : Fin E} {g : K} (h : (a, g) ∈ pl.seeds) :
    (a, pl.startCost a) ∈ pl.seeds ∧ pl.startCost a ≤ g := by
  rw [← mem_seedCosts] at h ⊢
  obtain ⟨m, hm⟩ := Option.isSome_iff_exists.mp (List.isSome_min?_of_mem h)
  have hstart : pl.startCost a = m := by rw [startCost, hm, Option.getD_some]
  obtain ⟨hmem, hle⟩ := List.min?_eq_some_iff.mp hm
  rw [hstart]
  exact ⟨hmem, hle g h⟩

/-- Where no edge is listed twice, that is the code's travel time. -/
theorem walkTotalS_eq {r : PathResult E T K} (hnd : (pl.seeds.map Prod.fst).Nodup) {g : K}
    (h : (r.firstEdge, g) ∈ pl.seeds) : pl.walkTotalS r = pl.travelTimeS r := by
  have hstart := dictGet_of_mem hnd (pl.startCost_spec h).1
  unfold walkTotalS travelTimeS
  rw [hstart, Option.getD_some]

end Endpoints

variable [IsStrictOrderedRing K] {pack : Pack E T K} {pl : Endpoints pack}

omit [IsStrictOrderedRing K] in
/-- What serves the end points does not depend on the arc costs. -/
theorem isJourney_congr {ac ac' : Fin T → K} {a b : Fin E} {g adj : K} {ts : List (Fin T)} :
    IsJourney (pl.query ac) a g ts b adj ↔ IsJourney (pl.query ac') a g ts b adj :=
  ⟨fun h => ⟨⟨h.route.seed, h.route.walk⟩, h.dest⟩, fun h => ⟨⟨h.route.seed, h.route.walk⟩, h.dest⟩⟩

omit [IsStrictOrderedRing K] in
/-- The cost of a walk that serves the end points, from its cheapest seed. -/
theorem total_startCost (total : K) {lam : K} {a b : Fin E} {g adj : K} {ts : List (Fin T)}
    (hj : IsJourney (pl.query (pl.qc.arcCost lam)) a g ts b adj) :
    (pl.query (pl.qc.arcCost lam)).total (pl.startCost a) ts adj =
      pl.walkTotalS ⟨ts, a, b, total⟩ + lam * pl.qc.walkPenaltyS ts := by
  have hdest : dictGet pl.dests b = some adj := hj.dest
  unfold Query.total Endpoints.walkTotalS Endpoints.query QueryCosts.walkPenaltyS
  simp only
  rw [sum_arcCost, sum_arcCost, hdest, Option.getD_some]
  ring

/-- **A search at a lambda** minimizes time plus lambda times penalty. -/
theorem optimum_le {lam : K} {w : PathResult E T K}
    (ho : IsOptimum (pl.query (pl.qc.arcCost lam)) (some w)) {a b : Fin E} {g adj : K}
    {ts : List (Fin T)} (hj : IsJourney (pl.query (pl.qc.arcCost lam)) a g ts b adj) (total : K) :
    pl.walkTotalS w + lam * pl.qc.walkPenaltyS w.turnIds ≤
      pl.walkTotalS ⟨ts, a, b, total⟩ + lam * pl.qc.walkPenaltyS ts := by
  obtain ⟨gw, adjw, hjw, hw⟩ := ho.walk w rfl
  have hcheapest := pl.startCost_spec hjw.route.seed
  have hself : (pl.query (pl.qc.arcCost lam)).total (pl.startCost w.firstEdge) w.turnIds adjw ≤
      w.totalCost := by
    rw [← hw]
    exact add_le_add_left (add_le_add_left hcheapest.2 _) _
  have hother := ho.le w rfl a (pl.startCost a) ts b adj
    ⟨⟨(pl.startCost_spec hj.route.seed).1, hj.route.walk⟩, hj.dest⟩
  rw [total_startCost w.totalCost hjw] at hself
  rw [total_startCost total hj] at hother
  exact hself.trans hother

/-- Two minimizers trade monotonically. -/
theorem exchange {time time' penalty penalty' lam lam' : K} (hlam : 0 ≤ lam) (hlt : lam < lam')
    (h : time + lam * penalty ≤ time' + lam * penalty')
    (h' : time' + lam' * penalty' ≤ time + lam' * penalty) :
    time ≤ time' ∧ penalty' ≤ penalty := by
  have hpen : penalty' ≤ penalty := by
    have hgap : 0 < lam' - lam := sub_pos.mpr hlt
    refine le_of_mul_le_mul_left ?_ hgap
    linarith
  have hscaled := mul_le_mul_of_nonneg_left hpen hlam
  exact ⟨by linarith, hpen⟩

/-- A heuristic that is consistent at one lambda is consistent at any larger one. -/
theorem consistent_mono {qc : QueryCosts pack} {lam lam' : K} (hle : lam ≤ lam')
    {h : Fin E → K} (hcons : Consistent pack.topo (qc.arcCost lam) h) :
    Consistent pack.topo (qc.arcCost lam') h := fun t ht =>
  (hcons t ht).trans (add_le_add_left
    (add_le_add_right (mul_le_mul_of_nonneg_right hle (qc.penalty_nonneg t)) _) _)

/-- **Raising lambda trades monotonically.** Both searches end; both find a walk or neither does;
and the walk found at the larger lambda takes no less time and has no more penalty. -/
theorem lambda_monotone (impl : Impl E K) (pl : Endpoints pack) {lam lam' : K} (hlam : 0 ≤ lam)
    (hle : lam ≤ lam')
    (hcons : ∀ h, pl.h = some h → Consistent pack.topo (pl.qc.arcCost lam) h) :
    ∃ r r', Yields (fun n => runOn (impl.run pack n) pl (pl.qc.arcCost lam)) r ∧
      Yields (fun n => runOn (impl.run pack n) pl (pl.qc.arcCost lam')) r' ∧
      (r = none ↔ r' = none) ∧
      ∀ w w', r = some w → r' = some w' →
        pl.walkTotalS w ≤ pl.walkTotalS w' ∧
          ((pl.seeds.map Prod.fst).Nodup → pl.travelTimeS w ≤ pl.travelTimeS w') ∧
          pl.qc.walkPenaltyS w'.turnIds ≤ pl.qc.walkPenaltyS w.turnIds := by
  have hsearch : ∀ l, lam ≤ l → ∃ r, Yields (fun n => runOn (impl.run pack n) pl (pl.qc.arcCost l))
      r ∧ IsOptimum (pl.query (pl.qc.arcCost l)) r := by
    intro l hl
    have hcost := pl.qc.arcCost_nonneg (hlam.trans hl)
    obtain ⟨r, hr⟩ := runOn_yields impl pl
      (noImproving_of_nonneg (q := pl.query (pl.qc.arcCost l)) fun t _ => hcost t)
    obtain ⟨n, hn⟩ := hr.exists_fuel
    refine ⟨r, hr, (runOn_answer impl pl hn).isOptimum fun t ht => ?_⟩
    exact hAt_le (q := pl.query (pl.qc.arcCost l)) (fun t _ => hcost t)
      (fun h hh => consistent_mono hl (hcons h hh)) ht
  obtain ⟨r, hr, ho⟩ := hsearch lam le_rfl
  obtain ⟨r', hr', ho'⟩ := hsearch lam' hle
  refine ⟨r, r', hr, hr', ?_, ?_⟩
  · rw [ho.none_iff, ho'.none_iff]
    have hcongr : ∀ a b g adj ts, IsJourney (pl.query (pl.qc.arcCost lam)) a g ts b adj ↔
        IsJourney (pl.query (pl.qc.arcCost lam')) a g ts b adj :=
      fun _ _ _ _ _ => isJourney_congr
    simp only [hcongr]
  · rintro w w' rfl rfl
    obtain ⟨g, adj, hj, -⟩ := ho.walk w rfl
    obtain ⟨g', adj', hj', -⟩ := ho'.walk w' rfl
    have htrade : pl.walkTotalS w ≤ pl.walkTotalS w' ∧
        pl.qc.walkPenaltyS w'.turnIds ≤ pl.qc.walkPenaltyS w.turnIds := by
      rcases hle.lt_or_eq with hlt | rfl
      · exact exchange hlam hlt (optimum_le ho (isJourney_congr.mp hj') w'.totalCost)
          (optimum_le ho' (isJourney_congr.mp hj) w.totalCost)
      · -- one search, run twice
        obtain rfl := Option.some.inj (hr.unique hr')
        exact ⟨le_rfl, le_rfl⟩
    refine ⟨htrade.1, fun hnd => ?_, htrade.2⟩
    rw [← pl.walkTotalS_eq hnd hj.route.seed, ← pl.walkTotalS_eq hnd hj'.route.seed]
    exact htrade.1

/-- The end points on `threeStreets`, with a heuristic. -/
def threeStreetsGuided : Endpoints threeStreets.pack :=
  { (fanPlan threeStreets).endpoints with h := some fun _ => 0 }

/-- `lambda_monotone` on `threeStreets`, from lambda `0` to `3 / 2`. -/
theorem lambda_monotone_threeStreets :
    ∃ r r', Yields (fun n => runOn (threeStreets.impl.run threeStreets.pack n) threeStreetsGuided
        (threeStreetsGuided.qc.arcCost 0)) r ∧
      Yields (fun n => runOn (threeStreets.impl.run threeStreets.pack n) threeStreetsGuided
        (threeStreetsGuided.qc.arcCost (3 / 2))) r' ∧
      (r = none ↔ r' = none) ∧
      ∀ w w', r = some w → r' = some w' →
        threeStreetsGuided.walkTotalS w ≤ threeStreetsGuided.walkTotalS w' ∧
          ((threeStreetsGuided.seeds.map Prod.fst).Nodup →
            threeStreetsGuided.travelTimeS w ≤ threeStreetsGuided.travelTimeS w') ∧
          threeStreetsGuided.qc.walkPenaltyS w'.turnIds ≤
            threeStreetsGuided.qc.walkPenaltyS w.turnIds := by
  refine lambda_monotone threeStreets.impl threeStreetsGuided le_rfl (by norm_num) ?_
  rintro h hh t -
  obtain rfl := Option.some.inj hh
  exact (threeStreetsGuided.qc.arcCost_nonneg le_rfl t).trans_eq (add_zero _).symm

end RoutePlanner.Planner
