import Mathlib.Algebra.Order.Field.Basic
import Mathlib.Algebra.BigOperators.Group.List.Basic
import RoutePlanner.Search.Engine
import RoutePlanner.Search.Optimal

/-!
# Packs, per-query costs and arc costs

Model of the parts of `pyref/graph.py`, `sim/snapshot.py` and `pyref/costs.py` that the planner's
searches rest on. Arithmetic is exact, over any ordered field `K`.

* `Pack` is `GraphPack` with what routing reads of it. Its fields carry what `build_pack`
  guarantees: `edge_reverse` pairs distinct edges.
* `Snapshot` is the departure-time speed of each edge; `edge_time_s = length / (speed * mult)`.
* `QueryCosts` carries the signs the searches rely on; `computeCosts` builds it from the raw scores
  and so proves them.
* `arcCost` is the only place `lambda` enters.
* `Impl` is the engine flag: both engines answer a query through one search (`Impl.search_eq`), so
  what `Search.Optimal` proves holds of either.
-/

namespace RoutePlanner.Planner

open RoutePlanner.Lib RoutePlanner.Search

variable {E T : ℕ} {K : Type}

/-! ## The pack and the snapshot -/

section Defs

variable [Field K] [LinearOrder K]

/-- `GraphPack`. -/
structure Pack (E T : ℕ) (K : Type) [Field K] [LinearOrder K] where
  topo : TurnTopo E T
  edgeLengthM : Fin E → K
  edgeSpeedMps : Fin E → K
  /-- The opposite-direction edge, `none` if one-way. -/
  edgeReverse : Fin E → Option (Fin E)
  length_nonneg : ∀ e, 0 ≤ edgeLengthM e
  speed_pos : ∀ e, 0 < edgeSpeedMps e
  reverse_pairs : ∀ e r, edgeReverse e = some r → edgeReverse r = some e ∧ r ≠ e

/-- `sim.snapshot.Snapshot`: the fraction of free-flow speed on each edge. -/
structure Snapshot (E : ℕ) (K : Type) [Field K] [LinearOrder K] where
  speedMult : Fin E → K
  mult_pos : ∀ e, 0 < speedMult e

/-- `edge_time_s = pack.edge_length_m / (pack.edge_speed_mps * mult)`. -/
def Snapshot.edgeTimeS (snap : Snapshot E K) (pack : Pack E T K) (e : Fin E) : K :=
  pack.edgeLengthM e / (pack.edgeSpeedMps e * snap.speedMult e)

/-! ## Costs of one query -/

/-- `UNSAFE_NONE`, `UNSAFE_LEFT`, `UNSAFE_CROSSING`. -/
inductive UnsafeType where
  | none
  | left
  | crossing
  deriving DecidableEq, Repr

/-- `QueryCosts`, without the fields only the map reads. -/
structure QueryCosts (pack : Pack E T K) where
  edgeTimeS : Fin E → K
  turnTimeS : Fin T → K
  turnDelayS : Fin T → K
  turnPenaltyS : Fin T → K
  turnUnsafeType : Fin T → UnsafeType
  edge_time_nonneg : ∀ e, 0 ≤ edgeTimeS e
  edge_time_eq_zero : ∀ e, edgeTimeS e = 0 ↔ pack.edgeLengthM e = 0
  turn_time : ∀ t, turnTimeS t = edgeTimeS (pack.topo.turnOutEdge t) + turnDelayS t
  delay_nonneg : ∀ t, 0 ≤ turnDelayS t
  penalty_nonneg : ∀ t, 0 ≤ turnPenaltyS t

/-- `[cost]`: the scale of the penalty and the flat extra of an allowed U-turn. -/
structure CostCfg (K : Type) [Field K] [LinearOrder K] where
  kPenaltyScaleS : K
  uturnFixedPenaltyS : K
  scale_nonneg : 0 ≤ kPenaltyScaleS
  uturn_nonneg : 0 ≤ uturnFixedPenaltyS

/-- What the safety model and the control-delay model say of each turn. -/
structure TurnScores (T : ℕ) (K : Type) [Field K] [LinearOrder K] where
  raw : Fin T → K
  isUturn : Fin T → Bool
  delay : Fin T → K
  uncontrolledCrossing : Fin T → Bool
  unprotectedLeft : Fin T → Bool
  delay_nonneg : ∀ t, 0 ≤ delay t

/-- `penalty_seconds = k * max(raw, 0)`, plus the U-turn extra. -/
def penaltyS (cc : CostCfg K) (ts : TurnScores T K) (t : Fin T) : K :=
  cc.kPenaltyScaleS * max (ts.raw t) 0 + if ts.isUturn t = true then cc.uturnFixedPenaltyS else 0

/-- `unsafe_type`: a left wins if both predicates fire. -/
def unsafeType (ts : TurnScores T K) (t : Fin T) : UnsafeType :=
  if ts.unprotectedLeft t = true then .left
  else if ts.uncontrolledCrossing t = true then .crossing
  else .none

end Defs

variable [Field K] [LinearOrder K] [IsStrictOrderedRing K] {pack : Pack E T K}

theorem Snapshot.edgeTimeS_nonneg (snap : Snapshot E K) (e : Fin E) :
    0 ≤ snap.edgeTimeS pack e :=
  div_nonneg (pack.length_nonneg e) (mul_pos (pack.speed_pos e) (snap.mult_pos e)).le

theorem Snapshot.edgeTimeS_eq_zero (snap : Snapshot E K) (e : Fin E) :
    snap.edgeTimeS pack e = 0 ↔ pack.edgeLengthM e = 0 := by
  unfold edgeTimeS
  rw [div_eq_zero_iff]
  exact or_iff_left (mul_pos (pack.speed_pos e) (snap.mult_pos e)).ne'

theorem penaltyS_nonneg (cc : CostCfg K) (ts : TurnScores T K) (t : Fin T) :
    0 ≤ penaltyS cc ts t := by
  unfold penaltyS
  refine add_nonneg (mul_nonneg cc.scale_nonneg (le_max_right _ _)) ?_
  split
  · exact cc.uturn_nonneg
  · exact le_rfl

/-- **`compute_costs`**, from the scores on. -/
def computeCosts (pack : Pack E T K) (snap : Snapshot E K) (cc : CostCfg K)
    (ts : TurnScores T K) : QueryCosts pack where
  edgeTimeS := snap.edgeTimeS pack
  turnTimeS t := snap.edgeTimeS pack (pack.topo.turnOutEdge t) + ts.delay t
  turnDelayS := ts.delay
  turnPenaltyS := penaltyS cc ts
  turnUnsafeType := unsafeType ts
  edge_time_nonneg := snap.edgeTimeS_nonneg
  edge_time_eq_zero := snap.edgeTimeS_eq_zero
  turn_time _ := rfl
  delay_nonneg := ts.delay_nonneg
  penalty_nonneg := penaltyS_nonneg cc ts

namespace QueryCosts

variable (qc : QueryCosts pack)

theorem turn_time_nonneg (t : Fin T) : 0 ≤ qc.turnTimeS t := by
  rw [qc.turn_time]
  exact add_nonneg (qc.edge_time_nonneg _) (qc.delay_nonneg t)

/-- **`arc_cost`.** -/
def arcCost (lam : K) (t : Fin T) : K := qc.turnTimeS t + lam * qc.turnPenaltyS t

omit [IsStrictOrderedRing K] in
theorem arcCost_zero (t : Fin T) : qc.arcCost 0 t = qc.turnTimeS t := by
  unfold arcCost
  rw [zero_mul, add_zero]

theorem turnTimeS_le_arcCost {lam : K} (hlam : 0 ≤ lam) (t : Fin T) :
    qc.turnTimeS t ≤ qc.arcCost lam t :=
  le_add_of_nonneg_right (mul_nonneg hlam (qc.penalty_nonneg t))

theorem arcCost_nonneg {lam : K} (hlam : 0 ≤ lam) (t : Fin T) : 0 ≤ qc.arcCost lam t :=
  (qc.turn_time_nonneg t).trans (qc.turnTimeS_le_arcCost hlam t)

/-- Whether a turn is counted. -/
def flagged (t : Fin T) : Bool := qc.turnUnsafeType t ≠ .none

/-- `np.count_nonzero(qc.turn_unsafe_type[result.turn_ids])`. -/
def unsafeCount (r : PathResult E T K) : ℕ := r.turnIds.countP qc.flagged

end QueryCosts

/-! ## The engine flag -/

/-- `[engine] impl`, with the heap of the chosen engine. -/
inductive Impl (E : ℕ) (K : Type) [Field K] [LinearOrder K] where
  | pyref (Q : MinQueue (Entry E K) pyKey)
  | cpp (Q : MinQueue (Entry E K) Engine.fEdge)

/-- `Router._shortest_path`. -/
def Impl.shortestPath (impl : Impl E K) (q : Query E T K) (fuel : ℕ) :
    Option (Option (PathResult E T K)) :=
  match impl with
  | .pyref Q => Search.shortestPath Q ⊤ q fuel
  | .cpp Q => Engine.shortestPath Q ⊤ q fuel

omit [IsStrictOrderedRing K] in
/-- **Both engines run the search of `Search.Basic`** over a heap ordered by `f` first. -/
theorem Impl.search_eq (impl : Impl E K) : ∃ (κ : Type) (_ : LinearOrder κ) (key : Entry E K → κ)
    (Q : MinQueue (Entry E K) key), (∀ x y, key x ≤ key y → x.f ≤ y.f) ∧
      ∀ (q : Query E T K) (fuel : ℕ), impl.shortestPath q fuel =
        searchWith Q ⊤ q q.destAdjust q.slack (initSt Q ⊤ q) fuel := by
  cases impl with
  | pyref Q => exact ⟨_, inferInstance, pyKey, Q, f_le_of_pyKey_le, fun _ _ => rfl⟩
  | cpp Q =>
    exact ⟨_, inferInstance, Engine.fEdge, Q, Engine.f_le_of_fEdge_le, fun q fuel =>
      Engine.engine_eq_searchWith Q ⊤ q (fun _ _ => WithTop.coe_ne_top) fuel⟩

namespace Impl

variable (impl : Impl E K) {q : Query E T K}

omit [IsStrictOrderedRing K] in
theorem mono (q : Query E T K) : FuelMono fun n => impl.shortestPath q n := by
  obtain ⟨κ, _, key, Q, -, heq⟩ := impl.search_eq
  intro n m r hnm h
  exact (heq q m).trans (searchWith_mono _ n m r hnm ((heq q n).symm.trans h))

theorem answer {fuel : ℕ} {r : Option (PathResult E T K)}
    (h : impl.shortestPath q fuel = some r) : Answer q r := by
  obtain ⟨κ, _, key, Q, hkey, heq⟩ := impl.search_eq
  rw [heq] at h
  exact search_answer hkey h

theorem yields (hnc : q.topo.graph.NoImproving q.arcCost) :
    ∃ r, Yields (fun n => impl.shortestPath q n) r := by
  obtain ⟨κ, _, key, Q, -, heq⟩ := impl.search_eq
  obtain ⟨r, hr⟩ := searchWith_yields Q ⊤ q.destAdjust q.slack hnc
  exact ⟨r, hr.congr fun n => (heq q n).symm⟩

/-- Towards the edge it starts from, on a negative cycle, no engine ever answers. -/
theorem diverges {u : Fin E} {us : List (Fin T)} (hw : q.topo.graph.IsWalk u us u)
    (hneg : (us.map q.reducedCost).sum < 0)
    (hpre : ∀ p r, us = p ++ r → (p.map q.reducedCost).sum ≤ 0)
    (hseeds : ∃ g, (u, g) ∈ q.seeds) (hdests : ∀ d ∈ q.dests, d.1 = u) (fuel : ℕ) :
    impl.shortestPath q fuel = none := by
  obtain ⟨κ, _, key, Q, hkey, heq⟩ := impl.search_eq
  exact (heq q fuel).trans (search_diverges hkey hw hneg hpre hseeds hdests fuel)

end Impl

end RoutePlanner.Planner
