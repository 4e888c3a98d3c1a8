import RoutePlanner.Planner.Safety

/-!
# Does the hard avoid find an affordable clean walk?

A walk is clean when none of its turns is counted. The hard avoid asks for one walk, the cheapest
by time, penalty and surcharge, and tests the budget on that walk alone: of the clean walks it sees
the one with the least time plus `lam` times its penalty, which need not be the fastest.

* `Exact`: what a search may answer. Where several walks cost the least, it may return any of them.
* `computeSingle_clean_iff`: when the route returned is clean, by the answers of the searches.
* `avoid_finds_iff`: exactly when every exact search lets `compute_single` find an affordable clean
  walk, by the walks between the two points.
-/

namespace RoutePlanner.Planner

open RoutePlanner.Lib RoutePlanner.Search

variable {E T : ℕ} {K : Type} [Field K] [LinearOrder K] [IsStrictOrderedRing K] {Departure : Type}

/-! ## Exact searches -/

/-- A search that answers on every arc cost that covers the travel time: with a cheapest walk or,
if no walk serves the query, with nothing. -/
def Exact {pack : Pack E T K} (pl : Endpoints pack) (run : Run E T K) : Prop :=
  ∀ ac, (∀ t, pl.qc.arcCost 0 t ≤ ac t) →
    ∃ r, runOn run pl ac = some r ∧ IsOptimum (pl.query ac) r

/-- `run`, made to answer with `w` on the arc cost `ac`. -/
def Run.answering (run : Run E T K) (ac : Fin T → K) (w : PathResult E T K) : Run E T K :=
  fun c h seeds dests => if c = ac then some (some w) else run c h seeds dests

section Answering

variable {pack : Pack E T K} {pl : Endpoints pack} {run : Run E T K} {ac ac' : Fin T → K}
  {w a : PathResult E T K}

omit [IsStrictOrderedRing K]

theorem runOn_answering_self : runOn (run.answering ac w) pl ac = some (some w) := if_pos rfl

theorem runOn_answering_of_ne {c : Fin T → K} (h : c ≠ ac) :
    runOn (run.answering ac w) pl c = runOn run pl c := if_neg h

/-- A cheapest walk may be chosen. -/
theorem Exact.answering (hrun : Exact pl run) (hw : IsOptimum (pl.query ac) (some w)) :
    Exact pl (run.answering ac w) := by
  intro c hc
  by_cases h : c = ac
  · rw [h, runOn_answering_self]
    exact ⟨some w, rfl, hw⟩
  · rw [runOn_answering_of_ne h]
    exact hrun c hc

/-- An exact search may be made to choose its answers on two arc costs. -/
theorem Exact.exists_choice (hrun : Exact pl run) (hw : IsOptimum (pl.query ac) (some w))
    (ha : IsOptimum (pl.query ac') (some a)) :
    ∃ run', Exact pl run' ∧ runOn run' pl ac = some (some w) ∧
      (ac' ≠ ac → runOn run' pl ac' = some (some a)) :=
  ⟨(run.answering ac' a).answering ac w, (hrun.answering ha).answering hw, runOn_answering_self,
    fun hne => (runOn_answering_of_ne hne).trans runOn_answering_self⟩

end Answering

section Costs

variable {pack : Pack E T K} (qc : QueryCosts pack)

/-- The cost of a walk at the carried lambda. -/
def QueryCosts.carriedCostS (lam : K) (oc dc : SnapCandidate E K) (ts : List (Fin T)) : K :=
  qc.walkTimeS oc dc ts + lam * qc.walkPenaltyS ts

/-- Its cost in the hard avoid. -/
def QueryCosts.surchargedCostS (surchargeS lam : K) (oc dc : SnapCandidate E K)
    (ts : List (Fin T)) : K :=
  qc.carriedCostS lam oc dc ts + surchargeS * (ts.countP qc.flagged : K)

/-- None of the turns is counted. -/
def QueryCosts.Clean (ts : List (Fin T)) : Prop := ts.countP qc.flagged = 0

end Costs

section Walks

variable (R : Router E T K Departure) (rq : Request K Departure) (qc : QueryCosts R.pack)

/-- A time within the budget of every walk between the two points. -/
def Affordable (budget time : K) : Prop :=
  ∀ oc dc ts, Serves R rq oc dc ts → time ≤ (1 + budget) * qc.walkTimeS oc dc ts

/-- Some clean walk is affordable. -/
def CleanWithinBudget (budget : K) : Prop :=
  ∃ oc dc ts, Serves R rq oc dc ts ∧ qc.Clean ts ∧
    Affordable R rq qc budget (qc.walkTimeS oc dc ts)

/-- A walk of least cost between the two points. -/
structure Cheapest (cost : SnapCandidate E K → SnapCandidate E K → List (Fin T) → K)
    (oc dc : SnapCandidate E K) (ts : List (Fin T)) : Prop where
  serves : Serves R rq oc dc ts
  le : ∀ oc' dc' ts', Serves R rq oc' dc' ts' → cost oc dc ts ≤ cost oc' dc' ts'

/-- Every walk of least cost at the carried lambda is clean, or every walk of least surcharged cost
is clean and affordable. -/
def AvoidReaches (surchargeS lam budget : K) : Prop :=
  (∀ oc dc ts, Cheapest R rq (qc.carriedCostS lam) oc dc ts → qc.Clean ts) ∨
  ∀ oc dc ts, Cheapest R rq (qc.surchargedCostS surchargeS lam) oc dc ts →
    qc.Clean ts ∧ Affordable R rq qc budget (qc.walkTimeS oc dc ts)

end Walks

/-! ## What the searches of a safe reroute answer -/

section Answers

variable (R : Router E T K Departure) {rq : Request K Departure} {p : Plan R.pack Departure}

omit [IsStrictOrderedRing K] in
theorem total_surcharged (p : Plan R.pack Departure) (oc dc : SnapCandidate E K)
    (ts : List (Fin T)) (lam : K) :
    (p.endpoints.query (avoidCost R.alternatives p.endpoints lam)).total
      ((1 - oc.frac) * p.endpoints.qc.edgeTimeS oc.edge) ts
      ((dc.frac - 1) * p.endpoints.qc.edgeTimeS dc.edge) =
    p.endpoints.qc.surchargedCostS R.alternatives.avoidSurchargeS lam oc dc ts :=
  total_avoidCost R p oc dc ⟨ts, oc.edge, dc.edge, 0⟩ lam

theorem arcCost_zero_le_avoidCost {pack : Pack E T K} (cfg : AltCfg K) (pl : Endpoints pack)
    {lam : K} (hlam : 0 ≤ lam) (t : Fin T) : pl.qc.arcCost 0 t ≤ avoidCost cfg pl lam t := by
  rw [pl.qc.arcCost_zero]
  exact (pl.qc.turnTimeS_le_arcCost hlam t).trans (arcCost_le_avoidCost cfg pl lam t)

theorem arcCost_zero_le_arcCost {pack : Pack E T K} (qc : QueryCosts pack) {lam : K}
    (hlam : 0 ≤ lam) (t : Fin T) : qc.arcCost 0 t ≤ qc.arcCost lam t := by
  rw [qc.arcCost_zero]
  exact qc.turnTimeS_le_arcCost hlam t

/-- The time of a result that drives a walk is the walk's. -/
theorem Serves.travelTimeS_eq (hp : R.resolve rq = .ok p) {oc dc : SnapCandidate E K}
    {ts : List (Fin T)} (hs : Serves R rq oc dc ts) (cost : K) :
    p.endpoints.travelTimeS ⟨ts, oc.edge, dc.edge, cost⟩ = p.endpoints.qc.walkTimeS oc dc ts := by
  have hj : IsJourney (p.endpoints.query (p.endpoints.qc.arcCost 0)) oc.edge
      ((1 - oc.frac) * p.endpoints.qc.edgeTimeS oc.edge) ts dc.edge
      ((dc.frac - 1) * p.endpoints.qc.edgeTimeS dc.edge) := hs.isJourney R hp
  exact travelTimeS_eq_walkTimeS R hp (r := ⟨ts, oc.edge, dc.edge, cost⟩) hj

variable (hp : R.resolve rq = .ok p) {ac : Fin T → K}
  {cost : SnapCandidate E K → SnapCandidate E K → List (Fin T) → K}
  (hcost : ∀ oc dc ts, (p.endpoints.query ac).total
    ((1 - oc.frac) * p.endpoints.qc.edgeTimeS oc.edge) ts
    ((dc.frac - 1) * p.endpoints.qc.edgeTimeS dc.edge) = cost oc dc ts)

include hp hcost

/-- **An answer is a cheapest walk.** -/
theorem cheapest_of_optimum {r : PathResult E T K}
    (h : IsOptimum (p.endpoints.query ac) (some r)) :
    ∃ oc dc, Cheapest R rq cost oc dc r.turnIds ∧
      p.endpoints.travelTimeS r = p.endpoints.qc.walkTimeS oc dc r.turnIds := by
  obtain ⟨g, adj, hj, htotal⟩ := h.walk r rfl
  obtain ⟨oc, dc, hs, -, -, rfl, rfl⟩ := serves_of_journey R hp hj
  refine ⟨oc, dc, ⟨hs, fun oc' dc' ts' hs' => ?_⟩, travelTimeS_eq_walkTimeS R hp hj⟩
  rw [← hcost, ← hcost, htotal]
  exact h.le r rfl _ _ _ _ _ (hs'.isJourney R hp)

/-- A cheapest walk is an answer. -/
theorem optimum_of_cheapest {oc dc : SnapCandidate E K} {ts : List (Fin T)}
    (h : Cheapest R rq cost oc dc ts) :
    IsOptimum (p.endpoints.query ac) (some ⟨ts, oc.edge, dc.edge, cost oc dc ts⟩) := by
  have hj : IsJourney (p.endpoints.query ac) oc.edge
      ((1 - oc.frac) * p.endpoints.qc.edgeTimeS oc.edge) ts dc.edge
      ((dc.frac - 1) * p.endpoints.qc.edgeTimeS dc.edge) := h.serves.isJourney R hp
  refine ⟨⟨fun hnone => absurd hnone (by simp), fun hno => ?_⟩, ?_, ?_⟩
  · exact absurd ⟨_, _, _, _, _, hj⟩ hno
  · rintro r hr
    obtain rfl := Option.some.inj hr
    exact ⟨_, _, hj, hcost oc dc ts⟩
  · rintro r hr a g us b adj hj'
    obtain rfl := Option.some.inj hr
    obtain ⟨oc', dc', hs', -, -, rfl, rfl⟩ := serves_of_journey R hp hj'
    rw [hcost]
    exact h.le _ _ _ hs'

end Answers

omit [IsStrictOrderedRing K] in
/-- **When a safe reroute is clean**, by the answers of its searches: the plain search's is clean,
or the surcharged search's is clean and within the budget. -/
theorem computeSingle_clean_iff {pack : Pack E T K} {run : Run E T K} (cfg : AltCfg K)
    (pl : Endpoints pack) {lam budget : K} (hbudget : 0 < budget) {w fast a : PathResult E T K}
    (hw : runOn run pl (pl.qc.arcCost lam) = some (some w))
    (hfast : runOn run pl (pl.qc.arcCost 0) = some (some fast))
    (ha : runOn run pl (avoidCost cfg pl lam) = some (some a)) :
    (∃ r, computeSingle run cfg pl .safe lam (some budget) = some (some r) ∧
        pl.qc.Clean r.turnIds) ↔
      pl.qc.Clean w.turnIds ∨
        pl.qc.Clean a.turnIds ∧ pl.travelTimeS a ≤ (1 + budget) * pl.travelTimeS fast := by
  rw [computeSingle_safe cfg pl budget hw hfast ha]
  by_cases hacc : Accepted pl budget (pl.travelTimeS fast) (pl.qc.unsafeCount w) a
  · have hval : ((some a).filter fun a => decide (0 < budget ∧
        Accepted pl budget (pl.travelTimeS fast) (pl.qc.unsafeCount w) a)).getD w = a := by
      simp [Option.filter, hbudget, hacc]
    rw [hval]
    constructor
    · rintro ⟨r, hr, hclean⟩
      rw [Option.some.injEq, Option.some.injEq] at hr
      rw [← hr] at hclean
      exact Or.inr ⟨hclean, hacc.2⟩
    · rintro (hclean | ⟨hclean, -⟩)
      · -- a clean answer of the plain search is never replaced
        have hzero : pl.qc.unsafeCount w = 0 := hclean
        have hlt := hacc.1
        rw [hzero] at hlt
        exact absurd hlt (Nat.not_lt_zero _)
      · exact ⟨a, rfl, hclean⟩
  · have hval : ((some a).filter fun a => decide (0 < budget ∧
        Accepted pl budget (pl.travelTimeS fast) (pl.qc.unsafeCount w) a)).getD w = w := by
      simp [Option.filter, hacc]
    rw [hval]
    constructor
    · rintro ⟨r, hr, hclean⟩
      rw [Option.some.injEq, Option.some.injEq] at hr
      rw [← hr] at hclean
      exact Or.inl hclean
    · rintro (hclean | ⟨hclean, htime⟩)
      · exact ⟨w, rfl, hclean⟩
      · -- refused although within the budget: the plain answer has no more counted turns
        have hzero : pl.qc.unsafeCount a = 0 := hclean
        have hle : pl.qc.unsafeCount w ≤ pl.qc.unsafeCount a :=
          not_lt.mp fun hlt => hacc ⟨hlt, htime⟩
        rw [hzero] at hle
        exact ⟨w, rfl, Nat.le_zero.mp hle⟩

/-! ## In terms of walks -/

section Found

variable (R : Router E T K Departure) {rq : Request K Departure} {p : Plan R.pack Departure}
  (hp : R.resolve rq = .ok p) {lam budget : K}

include hp

/-- The budget is measured on a fastest walk. -/
theorem affordable_iff (hbudget : 0 ≤ budget) {fast : PathResult E T K}
    (hfast : IsOptimum (p.endpoints.query (p.endpoints.qc.arcCost 0)) (some fast)) (time : K) :
    Affordable R rq p.endpoints.qc budget time ↔
      time ≤ (1 + budget) * p.endpoints.travelTimeS fast := by
  obtain ⟨oc, dc, hc, htime⟩ := cheapest_of_optimum R hp (fun oc dc ts => total_eq R p oc dc ts 0)
    hfast
  constructor
  · intro h
    rw [htime]
    exact h oc dc _ hc.serves
  · intro h oc' dc' ts' hs'
    have hle := hc.le oc' dc' ts' hs'
    rw [zero_mul, zero_mul, add_zero, add_zero, ← htime] at hle
    exact h.trans (mul_le_mul_of_nonneg_left hle (add_nonneg zero_le_one hbudget))

/-- A query that some walk serves has an answer. -/
theorem some_of_optimum {ac : Fin T → K} {r : Option (PathResult E T K)}
    (h : IsOptimum (p.endpoints.query ac) r) (hserved : ∃ oc dc ts, Serves R rq oc dc ts) :
    ∃ a, r = some a := by
  obtain ⟨oc, dc, ts, hs⟩ := hserved
  cases r with
  | some a => exact ⟨a, rfl⟩
  | none => exact absurd ⟨_, _, _, _, _, hs.isJourney R hp⟩ (h.none_iff.mp rfl)

/-- **What a safe reroute finds**, by the walks its searches return. -/
theorem computeSingle_walks (hbudget : 0 < budget) (hserved : ∃ oc dc ts, Serves R rq oc dc ts)
    {run : Run E T K} {rw ra rf : Option (PathResult E T K)}
    (hw : runOn run p.endpoints (p.endpoints.qc.arcCost lam) = some rw)
    (how : IsOptimum (p.endpoints.query (p.endpoints.qc.arcCost lam)) rw)
    (ha : runOn run p.endpoints (avoidCost R.alternatives p.endpoints lam) = some ra)
    (hoa : IsOptimum (p.endpoints.query (avoidCost R.alternatives p.endpoints lam)) ra)
    (hf : runOn run p.endpoints (p.endpoints.qc.arcCost 0) = some rf)
    (hof : IsOptimum (p.endpoints.query (p.endpoints.qc.arcCost 0)) rf) :
    ∃ oc dc ts oc' dc' ts', Cheapest R rq (p.endpoints.qc.carriedCostS lam) oc dc ts ∧
      Cheapest R rq (p.endpoints.qc.surchargedCostS R.alternatives.avoidSurchargeS lam) oc' dc'
        ts' ∧
      ((∃ r, computeSingle run R.alternatives p.endpoints .safe lam (some budget) =
          some (some r) ∧ p.endpoints.qc.Clean r.turnIds) ↔
        p.endpoints.qc.Clean ts ∨ p.endpoints.qc.Clean ts' ∧
          Affordable R rq p.endpoints.qc budget (p.endpoints.qc.walkTimeS oc' dc' ts')) := by
  obtain ⟨w, rfl⟩ := some_of_optimum R hp how hserved
  obtain ⟨a, rfl⟩ := some_of_optimum R hp hoa hserved
  obtain ⟨fast, rfl⟩ := some_of_optimum R hp hof hserved
  obtain ⟨oc, dc, hc, -⟩ := cheapest_of_optimum R hp (fun oc dc ts => total_eq R p oc dc ts lam) how
  obtain ⟨oc', dc', hc', htime⟩ := cheapest_of_optimum R hp
    (fun oc dc ts => total_surcharged R p oc dc ts lam) hoa
  refine ⟨oc, dc, _, oc', dc', _, hc, hc', ?_⟩
  rw [computeSingle_clean_iff R.alternatives p.endpoints hbudget hw hf ha,
    affordable_iff R hp hbudget.le hof, htime]

omit hp in
/-- What an engine answers on arc costs that cover the travel time is a cheapest walk. -/
theorem optimum_of_run {ac : Fin T → K}
    (hh : ∀ h, p.endpoints.h = some h → Consistent R.pack.topo (p.endpoints.qc.arcCost 0) h)
    (hac : ∀ t, p.endpoints.qc.arcCost 0 t ≤ ac t) {n : ℕ} {r : Option (PathResult E T K)}
    (h : runOn (R.run n) p.endpoints ac = some r) : IsOptimum (p.endpoints.query ac) r := by
  have hnonneg : ∀ t, 0 ≤ ac t := fun t => (p.endpoints.qc.arcCost_nonneg le_rfl t).trans (hac t)
  have hcons : ∀ h, p.endpoints.h = some h → Consistent R.pack.topo ac h :=
    fun h hph t ht => (hh h hph t ht).trans (add_le_add_left (hac t) _)
  exact (runOn_answer R.impl p.endpoints h).isOptimum fun t ht =>
    hAt_le (fun t _ => hnonneg t) hcons ht

omit hp in
/-- **Either engine answers** on arc costs that cover the travel time. -/
theorem engine_optimum {ac : Fin T → K}
    (hh : ∀ h, p.endpoints.h = some h → Consistent R.pack.topo (p.endpoints.qc.arcCost 0) h)
    (hac : ∀ t, p.endpoints.qc.arcCost 0 t ≤ ac t) :
    ∃ r, Yields (fun n => runOn (R.run n) p.endpoints ac) r ∧
      IsOptimum (p.endpoints.query ac) r := by
  have hnonneg : ∀ t, 0 ≤ ac t := fun t => (p.endpoints.qc.arcCost_nonneg le_rfl t).trans (hac t)
  obtain ⟨r, hr⟩ := runOn_yields R.impl p.endpoints (noImproving_of_nonneg_cost hnonneg)
  obtain ⟨n, hn⟩ := hr.exists_fuel
  exact ⟨r, hr, optimum_of_run R hh hac hn⟩

/-- The condition is enough for any search that answers. -/
theorem clean_of_reaches (hlam : 0 ≤ lam) (hbudget : 0 < budget)
    (hclean : CleanWithinBudget R rq p.endpoints.qc budget)
    (hreach : AvoidReaches R rq p.endpoints.qc R.alternatives.avoidSurchargeS lam budget)
    {run : Run E T K} (hrun : Exact p.endpoints run) :
    ∃ r, computeSingle run R.alternatives p.endpoints .safe lam (some budget) = some (some r) ∧
      p.endpoints.qc.Clean r.turnIds := by
  obtain ⟨oc, dc, ts, hs, -⟩ := hclean
  obtain ⟨rw, hw, how⟩ := hrun _ (arcCost_zero_le_arcCost p.endpoints.qc hlam)
  obtain ⟨ra, ha, hoa⟩ := hrun _ (arcCost_zero_le_avoidCost R.alternatives p.endpoints hlam)
  obtain ⟨rf, hf, hof⟩ := hrun _ fun t => le_rfl
  obtain ⟨_, _, _, _, _, _, hcw, hca, hiff⟩ := computeSingle_walks R hp hbudget ⟨oc, dc, ts, hs⟩
    hw how ha hoa hf hof
  refine hiff.mpr ?_
  rcases hreach with hplain | havoid
  · exact Or.inl (hplain _ _ _ hcw)
  · exact Or.inr (havoid _ _ _ hca)

omit hp in
/-- Some search is exact: on each arc cost it gives what the engine ends with. -/
theorem exists_exact
    (hh : ∀ h, p.endpoints.h = some h → Consistent R.pack.topo (p.endpoints.qc.arcCost 0) h) :
    ∃ run, Exact p.endpoints run := by
  classical
  have hopt : ∀ ac : Fin T → K, ∃ r, (∀ t, p.endpoints.qc.arcCost 0 t ≤ ac t) →
      IsOptimum (p.endpoints.query ac) r := by
    intro ac
    by_cases hac : ∀ t, p.endpoints.qc.arcCost 0 t ≤ ac t
    · obtain ⟨r, -, hr⟩ := engine_optimum R hh hac
      exact ⟨r, fun _ => hr⟩
    · exact ⟨none, fun h => absurd h hac⟩
  choose answer hanswer using hopt
  exact ⟨fun ac _ _ _ => some (answer ac), fun ac hac => ⟨answer ac, rfl, hanswer ac hac⟩⟩

/-- **The condition is necessary**: where a walk of least cost at the carried lambda has a counted
turn and one of least surcharged cost is not clean or not affordable, some exact search returns
these two, and the safe reroute is not clean. -/
theorem reaches_of_clean (hbudget : 0 < budget)
    (hh : ∀ h, p.endpoints.h = some h → Consistent R.pack.topo (p.endpoints.qc.arcCost 0) h)
    (h : ∀ run, Exact p.endpoints run → ∃ r, computeSingle run R.alternatives p.endpoints .safe lam
      (some budget) = some (some r) ∧ p.endpoints.qc.Clean r.turnIds) :
    AvoidReaches R rq p.endpoints.qc R.alternatives.avoidSurchargeS lam budget := by
  by_contra hno
  unfold AvoidReaches at hno
  push Not at hno
  obtain ⟨⟨oc, dc, ts, hcw, hdirty⟩, oc', dc', ts', hca, hmiss⟩ := hno
  have how := optimum_of_cheapest R hp (fun oc dc ts => total_eq R p oc dc ts lam) hcw
  have hoa := optimum_of_cheapest R hp (fun oc dc ts => total_surcharged R p oc dc ts lam) hca
  obtain ⟨base, hbase⟩ := exists_exact R hh
  obtain ⟨run, hrun, hw, ha⟩ := hbase.exists_choice how hoa
  obtain ⟨rf, hf, hof⟩ := hrun _ fun t => le_rfl
  obtain ⟨fast, rfl⟩ := some_of_optimum R hp hof ⟨oc, dc, ts, hcw.serves⟩
  by_cases hsame : avoidCost R.alternatives p.endpoints lam = p.endpoints.qc.arcCost lam
  · -- no surcharge: the hard avoid finds the same walk again
    have ha' := hw
    rw [← hsame] at ha'
    rcases (computeSingle_clean_iff R.alternatives p.endpoints hbudget hw hf ha').mp (h run hrun)
      with hclean | ⟨hclean, -⟩
    · exact hdirty hclean
    · exact hdirty hclean
  · rcases (computeSingle_clean_iff R.alternatives p.endpoints hbudget hw hf (ha hsame)).mp
      (h run hrun) with hclean | ⟨hclean, htime⟩
    · exact hdirty hclean
    · refine hmiss hclean ?_
      rw [affordable_iff R hp hbudget.le hof]
      rw [hca.serves.travelTimeS_eq R hp] at htime
      exact htime

/-- What the engine's safe reroute comes to. -/
theorem engine_walks (hlam : 0 ≤ lam) (hbudget : 0 < budget)
    (hh : ∀ h, p.endpoints.h = some h → Consistent R.pack.topo (p.endpoints.qc.arcCost 0) h)
    (hserved : ∃ oc dc ts, Serves R rq oc dc ts) :
    ∃ oc dc ts oc' dc' ts', Cheapest R rq (p.endpoints.qc.carriedCostS lam) oc dc ts ∧
      Cheapest R rq (p.endpoints.qc.surchargedCostS R.alternatives.avoidSurchargeS lam) oc' dc'
        ts' ∧
      ((∃ r, Yields (fun n => computeSingle (R.run n) R.alternatives p.endpoints .safe lam
          (some budget)) (some r) ∧ p.endpoints.qc.Clean r.turnIds) ↔
        p.endpoints.qc.Clean ts ∨ p.endpoints.qc.Clean ts' ∧
          Affordable R rq p.endpoints.qc budget (p.endpoints.qc.walkTimeS oc' dc' ts')) := by
  obtain ⟨rw, ⟨N1, hN1⟩, how⟩ := engine_optimum R hh
    (arcCost_zero_le_arcCost p.endpoints.qc hlam)
  obtain ⟨ra, ⟨N2, hN2⟩, hoa⟩ := engine_optimum R hh
    (arcCost_zero_le_avoidCost R.alternatives p.endpoints hlam)
  have hcover : ∀ t, p.endpoints.qc.arcCost 0 t ≤ p.endpoints.qc.arcCost 0 t := fun _ => le_rfl
  obtain ⟨rf, ⟨N3, hN3⟩, hof⟩ := engine_optimum R hh hcover
  obtain ⟨out, hout⟩ := computeSingle_yields R.impl R.alternatives p.endpoints .safe
    (noImproving_of_nonneg_cost (p.endpoints.qc.arcCost_nonneg hlam)) (some budget)
  obtain ⟨N4, hN4⟩ := id hout
  let n := max (max N1 N2) (max N3 N4)
  obtain ⟨oc, dc, ts, oc', dc', ts', hcw, hca, hiff⟩ := computeSingle_walks R hp hbudget hserved
    (hN1 n (le_max_of_le_left (le_max_left _ _))) how
    (hN2 n (le_max_of_le_left (le_max_right _ _))) hoa
    (hN3 n (le_max_of_le_right (le_max_left _ _))) hof
  refine ⟨oc, dc, ts, oc', dc', ts', hcw, hca, ?_⟩
  rw [← hiff]
  constructor
  · rintro ⟨r, hr, hclean⟩
    obtain rfl : out = some r := hout.unique hr
    exact ⟨r, hN4 n (le_max_of_le_right (le_max_right _ _)), hclean⟩
  · rintro ⟨r, hr, hclean⟩
    exact ⟨r, (computeSingle_mono R.impl R.alternatives p.endpoints .safe lam
      (some budget)).yields hr, hclean⟩

/-- **When a safe reroute finds an affordable clean walk.** At a lambda from `0` on and a positive
budget, with no heuristic or a consistent one. For all exact searches: exactly when every walk of
least cost at the carried lambda is clean, or every walk of least surcharged cost is clean and
affordable. For the engine, which returns one of each: that is enough, and one such walk of one kind
is needed. -/
theorem avoid_finds_iff (hlam : 0 ≤ lam) (hbudget : 0 < budget)
    (hh : ∀ h, p.endpoints.h = some h → Consistent R.pack.topo (p.endpoints.qc.arcCost 0) h) :
    ((∀ run, Exact p.endpoints run → CleanWithinBudget R rq p.endpoints.qc budget →
        ∃ r, computeSingle run R.alternatives p.endpoints .safe lam (some budget) =
          some (some r) ∧ p.endpoints.qc.Clean r.turnIds) ↔
      (CleanWithinBudget R rq p.endpoints.qc budget →
        AvoidReaches R rq p.endpoints.qc R.alternatives.avoidSurchargeS lam budget)) ∧
    (CleanWithinBudget R rq p.endpoints.qc budget →
      (AvoidReaches R rq p.endpoints.qc R.alternatives.avoidSurchargeS lam budget →
        ∃ r, Yields (fun n => computeSingle (R.run n) R.alternatives p.endpoints .safe lam
          (some budget)) (some r) ∧ p.endpoints.qc.Clean r.turnIds) ∧
      ((∃ r, Yields (fun n => computeSingle (R.run n) R.alternatives p.endpoints .safe lam
          (some budget)) (some r) ∧ p.endpoints.qc.Clean r.turnIds) →
        (∃ oc dc ts, Cheapest R rq (p.endpoints.qc.carriedCostS lam) oc dc ts ∧
          p.endpoints.qc.Clean ts) ∨
        ∃ oc dc ts, Cheapest R rq
            (p.endpoints.qc.surchargedCostS R.alternatives.avoidSurchargeS lam) oc dc ts ∧
          p.endpoints.qc.Clean ts ∧
          Affordable R rq p.endpoints.qc budget (p.endpoints.qc.walkTimeS oc dc ts))) := by
  refine ⟨⟨fun h hclean => ?_, fun h run hrun hclean => ?_⟩, fun hclean => ?_⟩
  · exact reaches_of_clean R hp hbudget hh fun run hrun => h run hrun hclean
  · exact clean_of_reaches R hp hlam hbudget hclean (h hclean) hrun
  · obtain ⟨oc, dc, ts, hs, -⟩ := hclean
    obtain ⟨_, _, _, _, _, _, hcw, hca, hiff⟩ := engine_walks R hp hlam hbudget hh ⟨oc, dc, ts, hs⟩
    constructor
    · rintro (hplain | havoid)
      · exact hiff.mpr (Or.inl (hplain _ _ _ hcw))
      · exact hiff.mpr (Or.inr (havoid _ _ _ hca))
    · intro hfinds
      rcases hiff.mp hfinds with hplain | havoid
      · exact Or.inl ⟨_, _, _, hcw, hplain⟩
      · exact Or.inr ⟨_, _, _, hca, havoid⟩

end Found

/-! ## A clean walk missed -/

/-- Three streets: 100 s at penalty 45 with a counted left, 120 s at penalty 60, 160 s at
penalty 10. -/
def passedStreets : Router 5 6 ℚ Unit :=
  fanRouter ![90, 110, 150] (by decide) ![45, 60, 10] ![true, false, false]

theorem passedStreets_consistent : ∀ h, (fanPlan passedStreets).endpoints.h = some h →
    Consistent passedStreets.pack.topo ((fanPlan passedStreets).endpoints.qc.arcCost 0) h :=
  fun h hph => absurd hph (by simp [fanPlan, Router.planOf, passedStreets, fanRouter])

/-- On `passedStreets` the clean street of 120 s fits a budget of a quarter. The hard avoid finds
the one of 160 s, which does not, and the safe reroute keeps the counted left. -/
theorem affordable_clean_missed :
    CleanWithinBudget passedStreets fanRequest (fanPlan passedStreets).endpoints.qc (1 / 4) ∧
    ∀ r, Yields (fun n => computeSingle (passedStreets.run n) shippedCfg
      (fanPlan passedStreets).endpoints .safe (3 / 2) (some (1 / 4))) (some r) →
      ¬ (fanPlan passedStreets).endpoints.qc.Clean r.turnIds := by
  have hp : passedStreets.resolve fanRequest = .ok (fanPlan passedStreets) := rfl
  constructor
  · have ho : passedStreets.snap fanRequest.origin = [midEdge 0] := rfl
    have hd : passedStreets.snap fanRequest.dest = [midEdge 1] := rfl
    refine ⟨midEdge 0, midEdge 1, [1, 4], ⟨?_, ?_, ⟨rfl, rfl, rfl, rfl, rfl⟩⟩, ?_, ?_⟩
    · rw [ho]
      exact List.mem_cons_self
    · rw [hd]
      exact List.mem_cons_self
    · unfold QueryCosts.Clean
      decide +kernel
    · have hrun : runOn (passedStreets.impl.run passedStreets.pack 20)
          (fanPlan passedStreets).endpoints ((fanPlan passedStreets).endpoints.qc.arcCost 0) =
            some (some ⟨[0, 3], 0, 1, 100⟩) := by
        decide +kernel
      have hfast := (runOn_answer passedStreets.impl _ hrun).isOptimum fun t ht =>
        hAt_le (fun t _ => QueryCosts.arcCost_nonneg _ le_rfl t) passedStreets_consistent ht
      rw [affordable_iff passedStreets hp (by norm_num) hfast]
      decide +kernel
  · intro r hr
    have heval : Yields (fun n => computeSingle (passedStreets.run n) shippedCfg
        (fanPlan passedStreets).endpoints .safe (3 / 2) (some (1 / 4)))
          (some ⟨[0, 3], 0, 1, 335 / 2⟩) :=
      (computeSingle_mono _ _ _ _ _ _).yields (n := 20) (by decide +kernel)
    obtain rfl := Option.some.inj (heval.unique hr)
    unfold QueryCosts.Clean
    decide +kernel

/-- `avoid_finds_iff` on `passedStreets`. -/
theorem avoid_finds_passedStreets :
    (∀ run, Exact (fanPlan passedStreets).endpoints run →
        CleanWithinBudget passedStreets fanRequest (fanPlan passedStreets).endpoints.qc (1 / 4) →
        ∃ r, computeSingle run shippedCfg (fanPlan passedStreets).endpoints .safe (3 / 2)
          (some (1 / 4)) = some (some r) ∧ (fanPlan passedStreets).endpoints.qc.Clean r.turnIds) ↔
      (CleanWithinBudget passedStreets fanRequest (fanPlan passedStreets).endpoints.qc (1 / 4) →
        AvoidReaches passedStreets fanRequest (fanPlan passedStreets).endpoints.qc 1000000 (3 / 2)
          (1 / 4)) :=
  (avoid_finds_iff passedStreets (p := fanPlan passedStreets) rfl (by norm_num) (by norm_num)
    passedStreets_consistent).1

end RoutePlanner.Planner
