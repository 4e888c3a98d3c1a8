import RoutePlanner.Planner.Avoid

/-!
# Does a reroute keep to the detour budget?

`compute_single` has no filter on the route that it returns: a plain answer that is over the budget
goes out unless the hard avoid takes its place.

* `ceilingReached_iff`: exactly when every exact search lets `compute_single` keep to the ceiling,
  by the walks between the two points.
* `reroute_ceiling_iff`: that, and when the ceiling holds at every lambda and budget.
-/

namespace RoutePlanner.Planner

open RoutePlanner.Lib RoutePlanner.Search

variable {E T : ℕ} {K : Type} [Field K] [LinearOrder K] [IsStrictOrderedRing K] {Departure : Type}

section Walks

variable (R : Router E T K Departure) (rq : Request K Departure) (qc : QueryCosts R.pack)

/-- The route returned is affordable when the two searches return these walks: the walk of least
cost at the carried lambda is, or that of least surcharged cost is and takes its place. -/
def AffordsOne (budget : K) (oc dc : SnapCandidate E K) (ts : List (Fin T))
    (oc' dc' : SnapCandidate E K) (ts' : List (Fin T)) : Prop :=
  Affordable R rq qc budget (qc.walkTimeS oc dc ts) ∨
  0 < budget ∧ ts'.countP qc.flagged < ts.countP qc.flagged ∧
    Affordable R rq qc budget (qc.walkTimeS oc' dc' ts')

/-- Whichever walks of least cost the searches return, the route returned is affordable. -/
def CeilingReached (surchargeS lam budget : K) : Prop :=
  ∀ oc dc ts oc' dc' ts', Cheapest R rq (qc.carriedCostS lam) oc dc ts →
    Cheapest R rq (qc.surchargedCostS surchargeS lam) oc' dc' ts' →
      AffordsOne R rq qc budget oc dc ts oc' dc' ts'

end Walks

section Ceiling

variable (R : Router E T K Departure) {rq : Request K Departure} {p : Plan R.pack Departure}
  (hp : R.resolve rq = .ok p) {lam budget : K}

include hp

/-- **When a safe reroute is affordable**, by the walks its searches return. -/
theorem computeSingle_affordable (hbudget : 0 ≤ budget)
    {run : Run E T K} {w a fast : PathResult E T K} {oc dc oc' dc' : SnapCandidate E K}
    (hw : runOn run p.endpoints (p.endpoints.qc.arcCost lam) = some (some w))
    (hwtime : p.endpoints.travelTimeS w = p.endpoints.qc.walkTimeS oc dc w.turnIds)
    (ha : runOn run p.endpoints (avoidCost R.alternatives p.endpoints lam) = some (some a))
    (hatime : p.endpoints.travelTimeS a = p.endpoints.qc.walkTimeS oc' dc' a.turnIds)
    (hf : runOn run p.endpoints (p.endpoints.qc.arcCost 0) = some (some fast))
    (hof : IsOptimum (p.endpoints.query (p.endpoints.qc.arcCost 0)) (some fast)) :
    ∃ r, computeSingle run R.alternatives p.endpoints .safe lam (some budget) =
        some (some r) ∧
      (Affordable R rq p.endpoints.qc budget (p.endpoints.travelTimeS r) ↔
        AffordsOne R rq p.endpoints.qc budget oc dc w.turnIds oc' dc' a.turnIds) := by
  obtain ⟨r, hr, hiff⟩ := computeSingle_ceiling R.alternatives p.endpoints budget hw hf ha
  refine ⟨r, hr, ?_⟩
  unfold AffordsOne
  rw [affordable_iff R hp hbudget hof, affordable_iff R hp hbudget hof,
    affordable_iff R hp hbudget hof, hiff, hwtime, ← hatime]
  refine or_congr_right (and_congr_right fun _ => ?_)
  constructor
  · rintro ⟨a', ha', hacc⟩
    obtain rfl := Option.some.inj ha'
    exact ⟨hacc.1, hacc.2⟩
  · exact fun h => ⟨a, rfl, h.1, h.2⟩

/-- What three answers of a query that some walk serves come to. -/
theorem computeSingle_affordable_walks (hbudget : 0 ≤ budget)
    (hserved : ∃ oc dc ts, Serves R rq oc dc ts) {run : Run E T K}
    {rw ra rf : Option (PathResult E T K)}
    (hw : runOn run p.endpoints (p.endpoints.qc.arcCost lam) = some rw)
    (how : IsOptimum (p.endpoints.query (p.endpoints.qc.arcCost lam)) rw)
    (ha : runOn run p.endpoints (avoidCost R.alternatives p.endpoints lam) = some ra)
    (hoa : IsOptimum (p.endpoints.query (avoidCost R.alternatives p.endpoints lam)) ra)
    (hf : runOn run p.endpoints (p.endpoints.qc.arcCost 0) = some rf)
    (hof : IsOptimum (p.endpoints.query (p.endpoints.qc.arcCost 0)) rf)
    (hreach : CeilingReached R rq p.endpoints.qc R.alternatives.avoidSurchargeS lam budget) :
    ∃ r, computeSingle run R.alternatives p.endpoints .safe lam (some budget) =
        some (some r) ∧
      Affordable R rq p.endpoints.qc budget (p.endpoints.travelTimeS r) := by
  obtain ⟨w, rfl⟩ := some_of_optimum R hp how hserved
  obtain ⟨a, rfl⟩ := some_of_optimum R hp hoa hserved
  obtain ⟨fast, rfl⟩ := some_of_optimum R hp hof hserved
  obtain ⟨oc, dc, hcw, hwtime⟩ := cheapest_of_optimum R hp
    (fun oc dc ts => total_eq R p oc dc ts lam) how
  obtain ⟨oc', dc', hca, hatime⟩ := cheapest_of_optimum R hp
    (fun oc dc ts => total_surcharged R p oc dc ts lam) hoa
  obtain ⟨r, hr, hiff⟩ := computeSingle_affordable R hp hbudget hw hwtime ha hatime hf hof
  exact ⟨r, hr, hiff.mpr (hreach _ _ _ _ _ _ hcw hca)⟩

omit hp in
/-- A reroute where no walk leads from one point to the other finds nothing. -/
theorem computeSingle_unserved {run : Run E T K} (hp : R.resolve rq = .ok p)
    (hserved : ¬ ∃ oc dc ts, Serves R rq oc dc ts) {rw : Option (PathResult E T K)}
    (hw : runOn run p.endpoints (p.endpoints.qc.arcCost lam) = some rw)
    (how : IsOptimum (p.endpoints.query (p.endpoints.qc.arcCost lam)) rw) :
    computeSingle run R.alternatives p.endpoints .safe lam (some budget) = some none := by
  cases rw with
  | some w =>
    obtain ⟨oc, dc, hc, -⟩ := cheapest_of_optimum R hp (fun oc dc ts => total_eq R p oc dc ts lam)
      how
    exact absurd ⟨oc, dc, _, hc.serves⟩ hserved
  | none =>
    unfold computeSingle
    rw [hw, Option.bind_some]

/-- **Exactly when every exact search keeps to the ceiling.** -/
theorem ceilingReached_iff (hlam : 0 ≤ lam) (hbudget : 0 ≤ budget)
    (hh : ∀ h, p.endpoints.h = some h → Consistent R.pack.topo (p.endpoints.qc.arcCost 0) h) :
    (∀ run, Exact p.endpoints run → ∀ r,
      computeSingle run R.alternatives p.endpoints .safe lam (some budget) = some (some r) →
        Affordable R rq p.endpoints.qc budget (p.endpoints.travelTimeS r)) ↔
      CeilingReached R rq p.endpoints.qc R.alternatives.avoidSurchargeS lam budget := by
  constructor
  · intro h oc dc ts oc' dc' ts' hcw hca
    -- some exact search returns these two walks
    have how := optimum_of_cheapest R hp (fun oc dc ts => total_eq R p oc dc ts lam) hcw
    have hoa := optimum_of_cheapest R hp (fun oc dc ts => total_surcharged R p oc dc ts lam) hca
    obtain ⟨base, hbase⟩ := exists_exact R hh
    obtain ⟨run, hrun, hw, ha⟩ := hbase.exists_choice how hoa
    obtain ⟨rf, hf, hof⟩ := hrun _ fun t => le_rfl
    obtain ⟨fast, rfl⟩ := some_of_optimum R hp hof ⟨oc, dc, ts, hcw.serves⟩
    have hwtime := hcw.serves.travelTimeS_eq R hp (p.endpoints.qc.carriedCostS lam oc dc ts)
    have hatime := hca.serves.travelTimeS_eq R hp
      (p.endpoints.qc.surchargedCostS R.alternatives.avoidSurchargeS lam oc' dc' ts')
    by_cases hsame : avoidCost R.alternatives p.endpoints lam = p.endpoints.qc.arcCost lam
    · -- no surcharge: the hard avoid finds the same walk again, and has nothing to offer
      obtain ⟨r, hr, hiff⟩ := computeSingle_affordable R hp hbudget hw hwtime
        (hsame ▸ hw) hwtime hf hof
      rcases hiff.mp (h run hrun r hr) with haff | ⟨-, hlt, -⟩
      · exact Or.inl haff
      · exact absurd hlt (lt_irrefl _)
    · obtain ⟨r, hr, hiff⟩ := computeSingle_affordable R hp hbudget hw hwtime (ha hsame) hatime
        hf hof
      exact hiff.mp (h run hrun r hr)
  · intro hreach run hrun r hr
    obtain ⟨rw, hw, how⟩ := hrun _ (arcCost_zero_le_arcCost p.endpoints.qc hlam)
    obtain ⟨ra, ha, hoa⟩ := hrun _ (arcCost_zero_le_avoidCost R.alternatives p.endpoints hlam)
    obtain ⟨rf, hf, hof⟩ := hrun _ fun t => le_rfl
    by_cases hserved : ∃ oc dc ts, Serves R rq oc dc ts
    · obtain ⟨r', hr', haff⟩ := computeSingle_affordable_walks R hp hbudget hserved hw how ha hoa
        hf hof hreach
      obtain rfl := Option.some.inj (Option.some.inj (hr.symm.trans hr'))
      exact haff
    · exact absurd (hr.symm.trans (computeSingle_unserved R hp hserved hw how)) (by simp)

/-- The condition is enough for the engine. -/
theorem keepsCeiling_of_reached (hlam : 0 ≤ lam) (hbudget : 0 ≤ budget)
    (hh : ∀ h, p.endpoints.h = some h → Consistent R.pack.topo (p.endpoints.qc.arcCost 0) h)
    (hreach : CeilingReached R rq p.endpoints.qc R.alternatives.avoidSurchargeS lam budget) :
    KeepsCeiling R.impl R.alternatives p.endpoints lam budget := by
  intro r fast hr hfast
  obtain ⟨rw, ⟨N1, hN1⟩, how⟩ := engine_optimum R hh
    (arcCost_zero_le_arcCost p.endpoints.qc hlam)
  obtain ⟨ra, ⟨N2, hN2⟩, hoa⟩ := engine_optimum R hh
    (arcCost_zero_le_avoidCost R.alternatives p.endpoints hlam)
  have hcover : ∀ t, p.endpoints.qc.arcCost 0 t ≤ p.endpoints.qc.arcCost 0 t := fun _ => le_rfl
  obtain ⟨rf, hrf, hof⟩ := engine_optimum R hh hcover
  obtain rfl : rf = some fast := hrf.unique hfast
  obtain ⟨N3, hN3⟩ := id hrf
  obtain ⟨N4, hN4⟩ := id hr
  let n := max (max N1 N2) (max N3 N4)
  obtain ⟨oc, dc, hc, -⟩ := cheapest_of_optimum R hp (fun oc dc ts => total_eq R p oc dc ts 0) hof
  obtain ⟨r', hr', haff⟩ := computeSingle_affordable_walks R hp hbudget ⟨oc, dc, _, hc.serves⟩
    (hN1 n (le_max_of_le_left (le_max_left _ _))) how
    (hN2 n (le_max_of_le_left (le_max_right _ _))) hoa
    (hN3 n (le_max_of_le_right (le_max_left _ _))) hof hreach
  obtain rfl : r' = r := Option.some.inj (Option.some.inj
    (hr'.symm.trans (hN4 n (le_max_of_le_right (le_max_right _ _)))))
  exact (affordable_iff R hp hbudget hof _).mp haff

/-- **When a safe reroute keeps to the ceiling.** Over all lambdas and budgets: exactly when some
walk between the two points is both a fastest and a cleanest one. At one lambda and budget, for all
exact searches: exactly when each walk of least cost at that lambda is affordable, or loses to each
affordable walk of least surcharged cost on counted turns; and then the engine keeps to it. -/
theorem reroute_ceiling_iff
    (hh : ∀ h, p.endpoints.h = some h → Consistent R.pack.topo (p.endpoints.qc.arcCost 0) h) :
    ((∀ lam budget, 0 ≤ lam → 0 ≤ budget →
        KeepsCeiling R.impl R.alternatives p.endpoints lam budget) ↔
      CleanestIsFastest R rq p.endpoints.qc) ∧
    ∀ lam budget, 0 ≤ lam → 0 ≤ budget →
      ((∀ run, Exact p.endpoints run → ∀ r,
          computeSingle run R.alternatives p.endpoints .safe lam (some budget) = some (some r) →
            Affordable R rq p.endpoints.qc budget (p.endpoints.travelTimeS r)) ↔
        CeilingReached R rq p.endpoints.qc R.alternatives.avoidSurchargeS lam budget) ∧
      (CeilingReached R rq p.endpoints.qc R.alternatives.avoidSurchargeS lam budget →
        KeepsCeiling R.impl R.alternatives p.endpoints lam budget) :=
  ⟨⟨cleanest_of_keepsCeiling R hp hh, fun hclean _ _ hlam hbudget =>
      keepsCeiling_of_cleanest R hp hh hclean hlam hbudget⟩,
    fun _ _ hlam hbudget => ⟨ceilingReached_iff R hp hlam hbudget hh,
      keepsCeiling_of_reached R hp hlam hbudget hh⟩⟩

end Ceiling

/-- `reroute_ceiling_iff` on `threeStreets`, where the cleanest street is the slowest. -/
theorem reroute_ceiling_threeStreets :
    ((∀ lam budget, 0 ≤ lam → 0 ≤ budget →
        KeepsCeiling threeStreets.impl shippedCfg (fanPlan threeStreets).endpoints lam budget) ↔
      CleanestIsFastest threeStreets fanRequest (fanPlan threeStreets).endpoints.qc) ∧
    ((∀ run, Exact (fanPlan threeStreets).endpoints run → ∀ r,
        computeSingle run shippedCfg (fanPlan threeStreets).endpoints .safe (3 / 2)
          (some (1 / 4)) = some (some r) →
        Affordable threeStreets fanRequest (fanPlan threeStreets).endpoints.qc (1 / 4)
          ((fanPlan threeStreets).endpoints.travelTimeS r)) ↔
      CeilingReached threeStreets fanRequest (fanPlan threeStreets).endpoints.qc 1000000 (3 / 2)
        (1 / 4)) := by
  have hh : ∀ h, (fanPlan threeStreets).endpoints.h = some h →
      Consistent threeStreets.pack.topo ((fanPlan threeStreets).endpoints.qc.arcCost 0) h :=
    fun h hph => absurd hph (by simp [fanPlan, Router.planOf, threeStreets, fanRouter])
  have hp : threeStreets.resolve fanRequest = .ok (fanPlan threeStreets) := rfl
  obtain ⟨hall, hone⟩ := reroute_ceiling_iff threeStreets hp hh
  exact ⟨hall, (hone (3 / 2) (1 / 4) (by norm_num) (by norm_num)).1⟩

end RoutePlanner.Planner
