import Mathlib.Algebra.BigOperators.Ring.List
import Mathlib.Algebra.Field.Rat
import Mathlib.Algebra.Order.Ring.Rat
import Mathlib.Tactic.NormNum
import RoutePlanner.Planner.Router

/-!
# `compute_single`: when a reroute ends, and what it costs

`compute_single` runs up to three searches: at the carried lambda, at lambda `0` for the baseline,
and the hard avoid. The request model takes any lambda, so the arc costs may be negative.

Main results:
* `computeSingle_ends_iff`: every call ends exactly when no allowed closed walk has a negative cost
  at the carried lambda.
* `computeSingle_within_iff`: when the returned route keeps to the detour budget.
-/

namespace RoutePlanner.Planner

open RoutePlanner.Lib RoutePlanner.Search

variable {E T : ℕ} {K : Type} [Field K] [LinearOrder K] {pack : Pack E T K}

/-! ## The searches of a plan -/

section Searches

variable [IsStrictOrderedRing K] (impl : Impl E K) (cfg : AltCfg K) (pl : Endpoints pack)

theorem runOn_yields {ac : Fin T → K} (hnc : pack.topo.graph.NoImproving ac) :
    ∃ r, Yields (fun n => runOn (impl.run pack n) pl ac) r :=
  impl.yields (q := pl.query ac) hnc

omit [IsStrictOrderedRing K] in
theorem runOn_mono (ac : Fin T → K) : FuelMono fun n => runOn (impl.run pack n) pl ac :=
  impl.mono (pl.query ac)

theorem runOn_answer {ac : Fin T → K} {fuel : ℕ} {r : Option (PathResult E T K)}
    (h : runOn (impl.run pack fuel) pl ac = some r) : Answer (pl.query ac) r :=
  impl.answer (q := pl.query ac) h

theorem noImproving_of_nonneg_cost {ac : Fin T → K} (h : ∀ t, 0 ≤ ac t) :
    pack.topo.graph.NoImproving ac :=
  ArcGraph.noImproving_of_le ac fun t _ _ => le_add_of_nonneg_right (h t)

theorem arcCost_le_avoidCost (lam : K) (t : Fin T) :
    pl.qc.arcCost lam t ≤ avoidCost cfg pl lam t := by
  unfold avoidCost
  refine le_add_of_nonneg_right ?_
  split
  · exact cfg.surcharge_nonneg
  · exact le_rfl

/-- The hard avoid ends when the plain search does. -/
theorem avoid_yields {lam : K} (hnc : pack.topo.graph.NoImproving (pl.qc.arcCost lam))
    (fastTimeS budgetPct : K) (baselineUnsafe : ℕ) :
    ∃ r, Yields (fun n => avoidWithinBudget (impl.run pack n) cfg pl lam fastTimeS budgetPct
      baselineUnsafe) r := by
  unfold avoidWithinBudget
  by_cases hany : (List.finRange T).any pl.qc.flagged = false
  · simp only [if_pos hany]
    exact ⟨none, yields_pure none⟩
  · simp only [if_neg hany]
    obtain ⟨r, hr⟩ := runOn_yields impl pl
      (hnc.mono fun t _ => arcCost_le_avoidCost cfg pl lam t)
    exact ⟨_, hr.map _⟩

end Searches

/-! ## Termination -/

/-- The cost of a walk at a lambda. -/
theorem sum_arcCost (qc : QueryCosts pack) (lam : K) (ts : List (Fin T)) :
    (ts.map (qc.arcCost lam)).sum =
      (ts.map qc.turnTimeS).sum + lam * (ts.map qc.turnPenaltyS).sum := by
  unfold QueryCosts.arcCost
  rw [List.sum_map_add, List.sum_map_mul_left]

/-- The arc costs lower no label round a cycle iff no allowed closed walk has a negative cost. -/
theorem noImproving_arcCost_iff [IsStrictOrderedRing K] (qc : QueryCosts pack) (lam : K) :
    pack.topo.graph.NoImproving (qc.arcCost lam) ↔
      ∀ v ts, pack.topo.graph.IsWalk v ts v →
        0 ≤ (ts.map qc.turnTimeS).sum + lam * (ts.map qc.turnPenaltyS).sum := by
  rw [ArcGraph.noImproving_iff]
  simp only [sum_arcCost]

/-- `compute_single` ends when the arc costs lower no label round a cycle. -/
theorem computeSingle_yields [IsStrictOrderedRing K] (impl : Impl E K) (cfg : AltCfg K)
    (pl : Endpoints pack) (level : Level) {lam : K}
    (hnc : pack.topo.graph.NoImproving (pl.qc.arcCost lam)) (budget : Option K) :
    ∃ r, Yields (fun n => computeSingle (impl.run pack n) cfg pl level lam budget) r := by
  unfold computeSingle
  obtain ⟨r, hr⟩ := runOn_yields impl pl hnc
  refine hr.bind_exists ?_
  cases r with
  | none => exact ⟨none, yields_pure none⟩
  | some result =>
    by_cases hc : level = .safe ∧ 0 < budget.getD cfg.detourBudgetPct ∧
        0 < pl.qc.unsafeCount result
    · simp only [if_pos hc]
      have hnc0 : pack.topo.graph.NoImproving (pl.qc.arcCost 0) :=
        noImproving_of_nonneg_cost (pl.qc.arcCost_nonneg le_rfl)
      obtain ⟨r0, hr0⟩ := runOn_yields impl pl hnc0
      refine hr0.bind_exists ?_
      cases r0 with
      | none => exact ⟨_, yields_pure _⟩
      | some baseline =>
        obtain ⟨c, hclean⟩ := avoid_yields impl cfg pl hnc (pl.travelTimeS baseline)
          (budget.getD cfg.detourBudgetPct) (pl.qc.unsafeCount result)
        exact ⟨_, hclean.map _⟩
    · simp only [if_neg hc]
      exact ⟨_, yields_pure _⟩

/-- The carried lambda is searched first. -/
theorem computeSingle_none {run : Run E T K} (cfg : AltCfg K) (pl : Endpoints pack)
    (level : Level) {lam : K} (budget : Option K)
    (h : runOn run pl (pl.qc.arcCost lam) = none) :
    computeSingle run cfg pl level lam budget = none := by
  unfold computeSingle
  simp only
  rw [h, Option.bind_none]

/-- **Exactly when every reroute ends.** For either engine, any heuristic and any level and budget:
every call of `compute_single` at `lam` ends iff no allowed closed walk of turns has a negative
travel time plus `lam` times its penalty. -/
theorem computeSingle_ends_iff [IsStrictOrderedRing K] (impl : Impl E K) (cfg : AltCfg K)
    (qc : QueryCosts pack) (h : Option (Fin E → K)) (lam : K) :
    (∀ seeds dests level budget, ∃ r, Yields (fun n =>
      computeSingle (impl.run pack n) cfg ⟨qc, seeds, dests, h⟩ level lam budget) r) ↔
    ∀ v ts, pack.topo.graph.IsWalk v ts v →
      0 ≤ (ts.map qc.turnTimeS).sum + lam * (ts.map qc.turnPenaltyS).sum := by
  rw [← noImproving_arcCost_iff]
  constructor
  · intro hends
    rw [ArcGraph.noImproving_iff]
    by_contra hcyc
    push Not at hcyc
    obtain ⟨v, ts, hw, hneg⟩ := hcyc
    -- enter the cycle where no part of the round has a positive reduced cost
    let q0 : Query E T K := ⟨pack.topo, qc.arcCost lam, h, [], []⟩
    have hred : (ts.map q0.reducedCost).sum < 0 := by
      rw [sum_reducedCost (q := q0) hw, add_sub_cancel_right]
      exact hneg
    obtain ⟨u, us, hwu, hnegu, hpre⟩ := ArcGraph.exists_rotation hw hred
    obtain ⟨r, hr⟩ := hends [(u, 0)] [(u, 0)] .fast none
    obtain ⟨n, hn⟩ := hr.exists_fuel
    let pl : Endpoints pack := ⟨qc, [(u, 0)], [(u, 0)], h⟩
    have hnone : runOn (impl.run pack n) pl (qc.arcCost lam) = none :=
      impl.diverges (q := pl.query (qc.arcCost lam)) hwu hnegu hpre
        ⟨0, List.mem_singleton_self _⟩ (fun d hd => by rw [List.mem_singleton.mp hd]) n
    exact absurd (hn.symm.trans (computeSingle_none cfg pl .fast none hnone)) (by simp)
  · intro hnc seeds dests level budget
    exact computeSingle_yields impl cfg ⟨qc, seeds, dests, h⟩ level hnc budget

/-- A ring road of two one-way edges, with a penalty on both turns. -/
def ring : TurnTopo 2 2 where
  turnPtr := ![0, 1, 2]
  turnOutEdge := ![1, 0]
  turnInEdge := ![0, 1]
  turnAllowed := fun _ => true
  csr := by decide

def ringPack : Pack 2 2 ℚ where
  topo := ring
  edgeLengthM _ := 10
  edgeSpeedMps _ := 1
  edgeReverse _ := none
  length_nonneg _ := by norm_num
  speed_pos _ := one_pos
  reverse_pairs := by simp

/-- `[alternatives]` of the shipped configuration. -/
def shippedCfg : AltCfg ℚ where
  lambdaFast := 0
  lambdaBalanced := 1 / 2
  lambdaSafe := 3 / 2
  jaccardThreshold := 4 / 5
  penaltyFactor := 13 / 10
  maxReruns := 2
  detourBudgetPct := 1 / 4
  avoidSurchargeS := 1000000
  surcharge_nonneg := by norm_num

/-- Penalties as they are scored. -/
def plainCfg : CostCfg ℚ := ⟨1, 0, one_pos.le, le_rfl⟩

/-- The middle of an edge. -/
def midEdge {E : ℕ} (e : Fin E) : SnapCandidate E ℚ := ⟨e, 1 / 2, 0, 0, by norm_num, by norm_num⟩

/-- A router on the ring: both turns take 10 s and carry a penalty of 10 s. -/
def ringRouter : Router 2 2 ℚ Unit where
  pack := ringPack
  alternatives := shippedCfg
  astar := false
  impl := .pyref (sortedQueue pyKey)
  nearest pt := some ⟨0, if pt.1 = 0 then 3 / 4 else 1 / 4, 0, 0,
    by split <;> norm_num, by split <;> norm_num⟩
  costsAt _ := computeCosts ringPack ⟨fun _ => 1, fun _ => one_pos⟩ plainCfg
    ⟨fun _ => 10, fun _ => false, fun _ => 0, fun _ => false, fun _ => false, fun _ => le_rfl⟩
  heuristic _ _ _ _ := 0
  simProfileVersion := ""

/-- The plan of a driver at three quarters of edge `0` bound for one quarter of it. -/
def ringPlan : Plan ringPack Unit :=
  ringRouter.planOf () (ringRouter.snap (0, 0)) ⟨0, 1 / 4, 0, 0, by norm_num, by norm_num⟩
    (ringRouter.snap (1, 0))

/-- A reroute to a destination just behind the driver, carried at `lambda = -2`: the labels round
the ring improve for ever. -/
theorem reroute_diverges :
    ¬ ∃ r, Yields (fun n => ringRouter.reroute n ⟨(0, 0), (1, 0), ()⟩ .fast (-2) (1 / 4)) r := by
  rintro ⟨r, hr⟩
  obtain ⟨n, hn⟩ := hr.exists_fuel
  have hresolve : ringRouter.resolve ⟨(0, 0), (1, 0), ()⟩ = .ok ringPlan := rfl
  have hsame : ringPlan.sameEdge = none := by decide +kernel
  let q := ringPlan.endpoints.query (ringPlan.endpoints.qc.arcCost (-2))
  have hnone : runOn (ringRouter.run n) ringPlan.endpoints
      (ringPlan.endpoints.qc.arcCost (-2)) = none := by
    have hround : ∀ p ∈ ([0, 1] : List (Fin 2)).inits, (p.map q.reducedCost).sum ≤ 0 := by
      decide +kernel
    have hwalk : q.topo.graph.IsWalk 0 [0, 1] 0 := ⟨rfl, rfl, rfl, rfl, rfl⟩
    refine ringRouter.impl.diverges hwalk (by decide +kernel) (fun p r h => ?_)
      ⟨5 / 2, by decide +kernel⟩ (by decide +kernel) n
    exact hround p ((List.mem_inits _ _).mpr ⟨r, h.symm⟩)
  have hsingle := computeSingle_none shippedCfg ringPlan.endpoints .fast (some (1 / 4)) hnone
  unfold Router.reroute at hn
  simp only [hresolve] at hn
  unfold Router.reroutePlan at hn
  simp only [hsame] at hn
  obtain ⟨a, ha, -⟩ := Option.map_eq_some_iff.mp hn
  exact absurd (ha.symm.trans hsingle) (by simp)

/-- The ring at a non-negative lambda. -/
theorem computeSingle_ends_ring :
    (∀ seeds dests level budget, ∃ r, Yields (fun n =>
      computeSingle (ringRouter.impl.run ringPack n) shippedCfg
        ⟨ringRouter.costsAt (), seeds, dests, none⟩ level (3 / 2) budget) r) ↔
    ∀ v ts, ringPack.topo.graph.IsWalk v ts v →
      0 ≤ (ts.map (ringRouter.costsAt ()).turnTimeS).sum +
        3 / 2 * (ts.map (ringRouter.costsAt ()).turnPenaltyS).sum :=
  computeSingle_ends_iff ringRouter.impl shippedCfg (ringRouter.costsAt ()) none (3 / 2)

/-! ## The budget -/

section Within

variable (impl : Impl E K) (cfg : AltCfg K) (pl : Endpoints pack)

/-- A route with a counted turn shows that some turn is flagged. -/
theorem any_flagged {r : PathResult E T K} (h : 0 < pl.qc.unsafeCount r) :
    (List.finRange T).any pl.qc.flagged = true := by
  obtain ⟨t, -, ht⟩ := List.countP_pos_iff.mp h
  exact List.any_eq_true.mpr ⟨t, List.mem_finRange t, ht⟩

/-- The hard avoid's answer is taken: cleaner, and within the budget. -/
def Accepted (budget fastTimeS : K) (baselineUnsafe : ℕ) (a : PathResult E T K) : Prop :=
  pl.qc.unsafeCount a < baselineUnsafe ∧ pl.travelTimeS a ≤ (1 + budget) * fastTimeS

instance (budget fastTimeS : K) (baselineUnsafe : ℕ) (a : PathResult E T K) :
    Decidable (Accepted pl budget fastTimeS baselineUnsafe a) := by
  unfold Accepted
  infer_instance

/-- **`_avoid_within_budget` takes the surcharged search's answer, or nothing.** -/
theorem avoidWithinBudget_eq {run : Run E T K} {lam budget fastTimeS : K} {baselineUnsafe : ℕ}
    (hany : (List.finRange T).any pl.qc.flagged = true) {ra : Option (PathResult E T K)}
    (ha : runOn run pl (avoidCost cfg pl lam) = some ra) :
    avoidWithinBudget run cfg pl lam fastTimeS budget baselineUnsafe =
      some (ra.bind fun a =>
        if Accepted pl budget fastTimeS baselineUnsafe a then some (a, avoidCost cfg pl lam)
        else none) := by
  unfold avoidWithinBudget
  rw [if_neg (by rw [hany]; simp), ha, Option.map_some]
  refine congrArg some ?_
  cases ra with
  | none => rfl
  | some a =>
    simp only [Option.bind_some]
    by_cases hcount : baselineUnsafe ≤ pl.qc.unsafeCount a
    · have hno : ¬ Accepted pl budget fastTimeS baselineUnsafe a :=
        fun h => absurd h.1 (not_lt.mpr hcount)
      rw [if_pos hcount, if_neg hno]
    · rw [if_neg hcount]
      by_cases hlong : (1 + budget) * fastTimeS < pl.travelTimeS a
      · have hno : ¬ Accepted pl budget fastTimeS baselineUnsafe a :=
          fun h => absurd h.2 (not_le.mpr hlong)
        rw [if_pos hlong, if_neg hno]
      · have hyes : Accepted pl budget fastTimeS baselineUnsafe a :=
          ⟨not_le.mp hcount, not_lt.mp hlong⟩
        rw [if_neg hlong, if_pos hyes]

/-- **What `compute_single` returns at level safe**, from the answers of its searches. -/
theorem computeSingle_safe {run : Run E T K} {lam : K} (budget : K) {w fast : PathResult E T K}
    {ra : Option (PathResult E T K)} (hw : runOn run pl (pl.qc.arcCost lam) = some (some w))
    (hfast : runOn run pl (pl.qc.arcCost 0) = some (some fast))
    (ha : runOn run pl (avoidCost cfg pl lam) = some ra) :
    computeSingle run cfg pl .safe lam (some budget) =
      some (some ((ra.filter fun a => decide (0 < budget ∧
        Accepted pl budget (pl.travelTimeS fast) (pl.qc.unsafeCount w) a)).getD w)) := by
  unfold computeSingle
  rw [hw]
  simp only [Option.bind_some, Option.getD_some, true_and]
  by_cases hb : 0 < budget
  · by_cases hc : 0 < pl.qc.unsafeCount w
    · rw [if_pos ⟨hb, hc⟩, hfast, Option.bind_some]
      simp only
      rw [avoidWithinBudget_eq cfg pl (any_flagged pl hc) ha]
      cases ra with
      | none => rfl
      | some a =>
        simp only [Option.bind_some, Option.map_some, hb, true_and, Option.filter]
        by_cases hacc : Accepted pl budget (pl.travelTimeS fast) (pl.qc.unsafeCount w) a
        · simp only [hacc, decide_true, if_true, Option.getD_some]
        · simp only [hacc, decide_false, Bool.false_eq_true, if_false, Option.getD_none]
    · rw [if_neg fun h => hc h.2]
      -- nothing is cleaner than a route without a counted turn
      have hno : ∀ a, ¬ Accepted pl budget (pl.travelTimeS fast) (pl.qc.unsafeCount w) a :=
        fun a h => hc (Nat.zero_le _ |>.trans_lt h.1)
      cases ra with
      | none => rfl
      | some a => simp [Option.filter, hno a]
  · rw [if_neg fun h => hb h.1]
    cases ra with
    | none => rfl
    | some a => simp [Option.filter, hb]

/-- **When what `compute_single` returns at level safe keeps to the ceiling**, from the answers of
its searches: the plain search's does, or the hard avoid's answer is taken. -/
theorem computeSingle_ceiling {run : Run E T K} {lam : K} (budget : K) {w fast : PathResult E T K}
    {ra : Option (PathResult E T K)} (hw : runOn run pl (pl.qc.arcCost lam) = some (some w))
    (hfast : runOn run pl (pl.qc.arcCost 0) = some (some fast))
    (ha : runOn run pl (avoidCost cfg pl lam) = some ra) :
    ∃ r, computeSingle run cfg pl .safe lam (some budget) = some (some r) ∧
      (pl.travelTimeS r ≤ (1 + budget) * pl.travelTimeS fast ↔
        pl.travelTimeS w ≤ (1 + budget) * pl.travelTimeS fast ∨
        0 < budget ∧ ∃ a, ra = some a ∧
          Accepted pl budget (pl.travelTimeS fast) (pl.qc.unsafeCount w) a) := by
  refine ⟨_, computeSingle_safe cfg pl budget hw hfast ha, ?_⟩
  by_cases hacc : ∃ a, ra = some a ∧ 0 < budget ∧
      Accepted pl budget (pl.travelTimeS fast) (pl.qc.unsafeCount w) a
  · obtain ⟨a, rfl, hb, ha⟩ := hacc
    have hval : ((some a).filter fun a => decide (0 < budget ∧
        Accepted pl budget (pl.travelTimeS fast) (pl.qc.unsafeCount w) a)).getD w = a := by
      simp [Option.filter, hb, ha]
    rw [hval]
    exact ⟨fun _ => Or.inr ⟨hb, a, rfl, ha⟩, fun _ => ha.2⟩
  · have hval : (ra.filter fun a => decide (0 < budget ∧
        Accepted pl budget (pl.travelTimeS fast) (pl.qc.unsafeCount w) a)).getD w = w := by
      cases ra with
      | none => rfl
      | some a =>
        have hno : ¬ (0 < budget ∧
            Accepted pl budget (pl.travelTimeS fast) (pl.qc.unsafeCount w) a) :=
          fun h => hacc ⟨a, rfl, h⟩
        simp only [Option.filter, hno, decide_false, Bool.false_eq_true, if_false, Option.getD_none]
    rw [hval]
    refine ⟨Or.inl, fun h => h.resolve_right ?_⟩
    rintro ⟨hb, a, hya, ha⟩
    exact hacc ⟨a, hya, hb, ha⟩

end Within

theorem avoidWithinBudget_mono (impl : Impl E K) (cfg : AltCfg K) (pl : Endpoints pack)
    (lam fastTimeS budgetPct : K) (baselineUnsafe : ℕ) :
    FuelMono fun n => avoidWithinBudget (impl.run pack n) cfg pl lam fastTimeS budgetPct
      baselineUnsafe := by
  unfold avoidWithinBudget
  split
  · exact fun _ _ _ _ h => h
  · exact (runOn_mono impl pl _).map _

theorem computeSingle_mono (impl : Impl E K) (cfg : AltCfg K) (pl : Endpoints pack)
    (level : Level) (lam : K) (budget : Option K) :
    FuelMono fun n => computeSingle (impl.run pack n) cfg pl level lam budget := by
  unfold computeSingle
  refine (runOn_mono impl pl _).bind fun r => ?_
  cases r with
  | none => exact fun _ _ _ _ h => h
  | some result =>
    simp only
    split
    · refine (runOn_mono impl pl _).bind fun r0 => ?_
      cases r0 with
      | none => exact fun _ _ _ _ h => h
      | some baseline => exact (avoidWithinBudget_mono impl cfg pl _ _ _ _).map _
    · exact fun _ _ _ _ h => h

/-- **When a safe reroute keeps to the budget.** Let `w` and `fast` be the routes `shortest_path`
returns on the arc costs of the carried lambda and of lambda `0`. The route `compute_single`
returns is at most `1 + budget` times as long as `fast` iff `w` is, or the budget is positive and
the surcharged search returns a route with fewer counted turns than `w` that is. -/
theorem computeSingle_within_iff [IsStrictOrderedRing K] (impl : Impl E K) (cfg : AltCfg K)
    (pl : Endpoints pack) {lam : K} (hlam : 0 ≤ lam) (budget : K) {w fast : PathResult E T K}
    (hw : Yields (fun n => runOn (impl.run pack n) pl (pl.qc.arcCost lam)) (some w))
    (hfast : Yields (fun n => runOn (impl.run pack n) pl (pl.qc.arcCost 0)) (some fast)) :
    ∃ r, Yields (fun n => computeSingle (impl.run pack n) cfg pl .safe lam (some budget))
        (some r) ∧
      (pl.travelTimeS r ≤ (1 + budget) * pl.travelTimeS fast ↔
        pl.travelTimeS w ≤ (1 + budget) * pl.travelTimeS fast ∨
        0 < budget ∧ ∃ a,
          Yields (fun n => runOn (impl.run pack n) pl (avoidCost cfg pl lam)) (some a) ∧
          Accepted pl budget (pl.travelTimeS fast) (pl.qc.unsafeCount w) a) := by
  have hnc : pack.topo.graph.NoImproving (pl.qc.arcCost lam) :=
    noImproving_of_nonneg_cost (pl.qc.arcCost_nonneg hlam)
  obtain ⟨ra, hra⟩ := runOn_yields impl pl (hnc.mono fun t _ => arcCost_le_avoidCost cfg pl lam t)
  obtain ⟨N1, hN1⟩ := hw
  obtain ⟨N2, hN2⟩ := hfast
  obtain ⟨N3, hN3⟩ := id hra
  let n := max N1 (max N2 N3)
  obtain ⟨r, hsingle, hiff⟩ := computeSingle_ceiling cfg pl budget (hN1 n (le_max_left _ _))
    (hN2 n (le_max_of_le_right (le_max_left _ _)))
    (hN3 n (le_max_of_le_right (le_max_right _ _)))
  refine ⟨r, (computeSingle_mono impl cfg pl .safe lam (some budget)).yields hsingle, ?_⟩
  rw [hiff]
  refine or_congr_right (and_congr_right fun _ => exists_congr fun a => and_congr_left fun _ => ?_)
  constructor
  · rintro rfl
    exact hra
  · exact fun hya => hra.unique hya

/-! ### Parallel streets

`fan k` has an origin edge `0`, a destination edge `1` and `k` streets `2, …, k + 1` from the one
to the other: turn `i` enters street `i + 2`, turn `k + i` leaves it. -/

def fan (k : ℕ) : TurnTopo (k + 2) (k + k) where
  turnPtr e := if (e : ℕ) = 0 then 0 else k + ((e : ℕ) - 2)
  turnOutEdge t := if h : (t : ℕ) < k then ⟨t + 2, by omega⟩ else ⟨1, by omega⟩
  turnInEdge t := if h : (t : ℕ) < k then ⟨0, by omega⟩ else ⟨t - k + 2, by omega⟩
  turnAllowed _ := true
  csr := by
    intro t e
    have ht := t.isLt
    have he := e.isLt
    simp only [Fin.val_castSucc, Fin.val_succ]
    by_cases h : (t : ℕ) < k
    · rw [dif_pos h, Fin.ext_iff]
      simp only
      split <;> split <;> omega
    · rw [dif_neg h, Fin.ext_iff]
      simp only
      split <;> split <;> omega

/-- Streets driven in `len i` seconds at free flow, between two edges of 10 s. -/
def fanPack {k : ℕ} (len : Fin k → ℚ) (hlen : ∀ i, 0 ≤ len i) : Pack (k + 2) (k + k) ℚ where
  topo := fan k
  edgeLengthM e := if h : 2 ≤ (e : ℕ) then len ⟨e - 2, by omega⟩ else 10
  edgeSpeedMps _ := 1
  edgeReverse _ := none
  length_nonneg e := by
    split
    · exact hlen _
    · norm_num
  speed_pos _ := one_pos
  reverse_pairs := by simp

/-- A router on parallel streets: turning into street `i` has the penalty `pen i`, and counts as an
unprotected left when `left i`. Every query leads from the middle of edge `0` to the middle of
edge `1`. -/
def fanRouter {k : ℕ} (len : Fin k → ℚ) (hlen : ∀ i, 0 ≤ len i) (pen : Fin k → ℚ)
    (left : Fin k → Bool) : Router (k + 2) (k + k) ℚ Unit where
  pack := fanPack len hlen
  alternatives := shippedCfg
  astar := false
  impl := .pyref (sortedQueue pyKey)
  nearest pt := some (midEdge (if pt.1 = 0 then ⟨0, by omega⟩ else ⟨1, by omega⟩))
  costsAt _ := computeCosts (fanPack len hlen) ⟨fun _ => 1, fun _ => one_pos⟩ plainCfg
    { raw := fun t => if h : (t : ℕ) < k then pen ⟨t, h⟩ else 0
      isUturn := fun _ => false
      delay := fun _ => 0
      uncontrolledCrossing := fun _ => false
      unprotectedLeft := fun t => if h : (t : ℕ) < k then left ⟨t, h⟩ else false
      delay_nonneg := fun _ => le_rfl }
  heuristic _ _ _ _ := 0
  simProfileVersion := ""

def fanRequest : Request ℚ Unit := ⟨(0, 0), (1, 0), ()⟩

/-- The plan of `fanRequest`. -/
def fanPlan {k : ℕ} (R : Router (k + 2) (k + k) ℚ Unit) : Plan R.pack Unit :=
  R.planOf () (R.snap (0, 0)) (midEdge ⟨1, by omega⟩) (R.snap (1, 0))

/-- Three streets: 100 s at penalty 200, 120 s at penalty 100 with a counted left, 200 s at
penalty 40. -/
def threeStreets : Router 5 6 ℚ Unit :=
  fanRouter ![90, 110, 190] (by decide) ![200, 100, 40] ![false, true, false]

/-- On `threeStreets` the safe reroute takes the street of 200 s: twice the fastest time, at a
budget of a quarter. -/
theorem computeSingle_over_budget : ∃ r fast,
    Yields (fun n => computeSingle (threeStreets.run n) shippedCfg (fanPlan threeStreets).endpoints
      .safe (3 / 2) (some (1 / 4))) (some r) ∧
    Yields (fun n => runOn (threeStreets.run n) (fanPlan threeStreets).endpoints
      ((fanPlan threeStreets).endpoints.qc.arcCost 0)) (some fast) ∧
    ¬ (fanPlan threeStreets).endpoints.travelTimeS r ≤
      (1 + 1 / 4) * (fanPlan threeStreets).endpoints.travelTimeS fast := by
  refine ⟨⟨[2, 5], 0, 1, 260⟩, ⟨[0, 3], 0, 1, 100⟩, ?_, ?_, by decide +kernel⟩
  · exact (computeSingle_mono _ _ _ _ _ _).yields (n := 20) (by decide +kernel)
  · exact (runOn_mono _ _ _).yields (n := 20) (by decide +kernel)

end RoutePlanner.Planner
