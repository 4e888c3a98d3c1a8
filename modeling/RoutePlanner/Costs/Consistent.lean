import RoutePlanner.Costs.Query

/-!
# The heuristic is consistent

Model of `arc_cost` and `heuristic`, with the surcharge of the hard avoid and the inflations of the
penalty method. The distance is any metric (`IsMetric`); an edge is no shorter than the distance of
its ends, and congestion only slows it.

* `le_arcCost`, `le_inflated`: what a turn costs at least.
* `heuristic_consistent`: along no turn does the heuristic drop by more than the turn costs.
* `guided_search_optimum`: a search with the heuristic ends with an optimum.
* `computeCosts_planner`: the costs are those the planner's model starts from.
-/

namespace RoutePlanner.Costs

open RoutePlanner.Lib RoutePlanner.Search

variable {N E T : ℕ} {K : Type} {P : Type*}

section Defs

variable [Field K]

/-- **`arc_cost`.** -/
def arcCost (qc : QueryCosts E T K) (lam : K) (t : Fin T) : K :=
  qc.turnTimeS t + lam * qc.turnPenaltyS t

/-- The arc costs of the hard avoid. -/
def avoidArcCost (qc : QueryCosts E T K) (lam surchargeS : K) (t : Fin T) : K :=
  arcCost qc lam t + if qc.turnUnsafeType t ≠ .none then surchargeS else 0

/-- `ac[mask] *= factor`. -/
def inflateBy (ac : Fin T → K) (rerun : (Fin T → Bool) × K) (t : Fin T) : K :=
  if rerun.1 t = true then ac t * rerun.2 else ac t

/-- **`heuristic`**: the straight line to the destination, at the largest free-flow speed. -/
def heuristic (dist : P → P → K) (pack : Pack N E T K) (nodePos : Fin N → P)
    (qc : QueryCosts E T K) (dest : P) (e : Fin E) : K :=
  dist (nodePos (pack.edgeHead e)) dest / qc.vMaxMps

end Defs

/-- A metric, but for points at no distance. -/
structure IsMetric [Field K] [LinearOrder K] (dist : P → P → K) : Prop where
  self : ∀ x, dist x x = 0
  comm : ∀ x y, dist x y = dist y x
  triangle : ∀ x y z, dist x z ≤ dist x y + dist y z

section Speeds

variable [Field K] [LinearOrder K] {pack : Pack N E T K}

theorem le_vMaxMps (pack : Pack N E T K) (e : Fin E) : pack.edgeSpeedMps e ≤ vMaxMps pack := by
  have hmem : pack.edgeSpeedMps e ∈ (List.finRange E).map pack.edgeSpeedMps :=
    List.mem_map_of_mem (List.mem_finRange e)
  unfold vMaxMps
  cases hspeeds : (List.finRange E).map pack.edgeSpeedMps with
  | nil => exact absurd (hspeeds ▸ hmem) List.not_mem_nil
  | cons v vs => exact le_foldl_max (hspeeds ▸ hmem)

variable [IsStrictOrderedRing K]

theorem IsMetric.nonneg {dist : P → P → K} (hd : IsMetric dist) (x y : P) : 0 ≤ dist x y := by
  have hround := hd.triangle x y x
  rw [hd.self, hd.comm y x, ← two_mul] at hround
  exact nonneg_of_mul_nonneg_right hround two_pos

/-- An edge takes no less than the straight line at the largest speed. -/
theorem div_vMax_le_time {d : K} {e : Fin E} {mult : Fin E → K} (volume : Fin E → K) (hd : 0 ≤ d)
    (hlen : d ≤ pack.edgeLengthM e) (hspeed : ∀ e, 0 < pack.edgeSpeedMps e)
    (hmult : ∀ e, 0 < mult e ∧ mult e ≤ 1) :
    d / vMaxMps pack ≤ (snapshotOf pack mult volume).edgeTimeS e := by
  have hslow : pack.edgeSpeedMps e * mult e ≤ vMaxMps pack :=
    (mul_le_of_le_one_right (hspeed e).le (hmult e).2).trans (le_vMaxMps pack e)
  have hpos : 0 < pack.edgeSpeedMps e * mult e := mul_pos (hspeed e) (hmult e).1
  exact div_le_div₀ (hd.trans hlen) hlen hpos hslow

end Speeds

section Results

variable [Field K] [LinearOrder K] [IsStrictOrderedRing K] [FloorRing K] {pack : Pack N E T K}
  {cfg : Config K} {st : PackStatics E T K} {mult volume : Fin E → K} {snap : Snapshot E K}

/-- **No control delay is negative.** -/
theorem controlDelayS_nonneg (h : buildPackStatics pack cfg = .ok st) (t : Fin T) :
    0 ≤ controlDelayS st volume t := by
  rw [controlDelayS_eq_add h volume t]
  refine add_nonneg ?_ ?_
  · unfold fixedWait
    split
    · exact le_rfl
    · split
      · exact cfg.controlDelay.all_way_stop_nonneg
      · split
        · exact cfg.controlDelay.signal_major_nonneg
        · exact cfg.controlDelay.signal_minor_nonneg
      · exact le_rfl
  · unfold gapWait
    split
    · exact le_rfl
    · exact adamsDelayS_nonneg _ _ cfg.controlDelay.cap_nonneg

omit [FloorRing K] in
/-- **No penalty is negative**, however low the raw score. -/
theorem penaltyOf_nonneg (t : Fin T) : 0 ≤ penaltyOf pack snap cfg st t := by
  have hscaled : 0 ≤ cfg.cost.kPenaltyScaleS * max (rawScore pack snap cfg st t) 0 :=
    mul_nonneg cfg.cost.scale_nonneg (le_max_right _ _)
  unfold penaltyOf
  simp only
  split
  · exact add_nonneg hscaled cfg.cost.uturn_nonneg
  · exact hscaled

/-- A turn costs no less than its out-edge takes. -/
theorem le_arcCost (snap : Snapshot E K) {lam : K} (hlam : 0 ≤ lam)
    (h : buildPackStatics pack cfg = .ok st) (t : Fin T) :
    snap.edgeTimeS (pack.out t) ≤ arcCost (computeCosts pack snap cfg st) lam t := by
  have htime : snap.edgeTimeS (pack.out t) ≤ (computeCosts pack snap cfg st).turnTimeS t :=
    le_add_of_nonneg_right (controlDelayS_nonneg h t)
  exact htime.trans (le_add_of_nonneg_right (mul_nonneg hlam (penaltyOf_nonneg t)))

omit [FloorRing K] in
theorem le_avoidArcCost {lam surchargeS : K} (hsur : 0 ≤ surchargeS) (qc : QueryCosts E T K)
    (t : Fin T) : arcCost qc lam t ≤ avoidArcCost qc lam surchargeS t := by
  refine le_add_of_nonneg_right ?_
  split
  · exact hsur
  · exact le_rfl

omit [FloorRing K] in
/-- **Inflating lowers no cost**, however often and whichever turns. -/
theorem le_inflated {ac : Fin T → K} {t : Fin T} {c : K} (hc : 0 ≤ c) (hle : c ≤ ac t)
    {reruns : List ((Fin T → Bool) × K)} (hfactor : ∀ x ∈ reruns, 1 ≤ x.2) :
    c ≤ reruns.foldl inflateBy ac t := by
  induction reruns generalizing ac with
  | nil => exact hle
  | cons x reruns ih =>
    refine ih ?_ fun y hy => hfactor y (List.mem_cons_of_mem x hy)
    unfold inflateBy
    split
    · exact hle.trans (le_mul_of_one_le_right (hc.trans hle) (hfactor x List.mem_cons_self))
    · exact hle

/-- The heuristic falls by no more than the out-edge takes. -/
theorem heuristic_le {dist : P → P → K} (hd : IsMetric dist) {nodePos : Fin N → P}
    (hlen : ∀ e, dist (nodePos (pack.edgeTail e)) (nodePos (pack.edgeHead e)) ≤ pack.edgeLengthM e)
    (hspeed : ∀ e, 0 < pack.edgeSpeedMps e) (hmult : ∀ e, 0 < mult e ∧ mult e ≤ 1)
    (h : buildPackStatics pack cfg = .ok st) (dest : P) (t : Fin T) :
    heuristic dist pack nodePos (computeCosts pack (snapshotOf pack mult volume) cfg st) dest
        (pack.inn t) ≤
      (snapshotOf pack mult volume).edgeTimeS (pack.out t) +
        heuristic dist pack nodePos (computeCosts pack (snapshotOf pack mult volume) cfg st) dest
          (pack.out t) := by
  obtain ⟨crossBusy, crossMajor, rfl⟩ := exists_packStatics h
  have hvmax : 0 < vMaxMps pack := (hspeed (pack.out t)).trans_le (le_vMaxMps pack _)
  have hstep : dist (nodePos (pack.edgeHead (pack.inn t))) dest ≤
      dist (nodePos (pack.edgeTail (pack.out t))) (nodePos (pack.edgeHead (pack.out t))) +
        dist (nodePos (pack.edgeHead (pack.out t))) dest := by
    have hadj : pack.edgeHead (pack.inn t) = pack.edgeTail (pack.out t) :=
      (pack.turn_adjacent t).symm
    rw [hadj]
    exact hd.triangle _ _ _
  have htime := div_vMax_le_time volume (hd.nonneg _ _) (hlen (pack.out t)) hspeed hmult
  calc _ ≤ _ := div_le_div_of_nonneg_right hstep hvmax.le
    _ = _ := add_div _ _ _
    _ ≤ _ := add_le_add_left htime _

/-- The costs that the planner searches with at `lam`: plain, and with the surcharge. -/
def IsSearched (qc : QueryCosts E T K) (lam surchargeS : K) (ac : Fin T → K) : Prop :=
  ac = arcCost qc lam ∨ ac = avoidArcCost qc lam surchargeS

/-- Whatever a turn costs, it costs no less than its out-edge takes. -/
theorem time_le_inflated (hlen : ∀ e, 0 ≤ pack.edgeLengthM e)
    (hspeed : ∀ e, 0 < pack.edgeSpeedMps e) (hmult : ∀ e, 0 < mult e ∧ mult e ≤ 1)
    (h : buildPackStatics pack cfg = .ok st) {lam surchargeS : K} (hlam : 0 ≤ lam)
    (hsur : 0 ≤ surchargeS) {reruns : List ((Fin T → Bool) × K)}
    (hfactor : ∀ x ∈ reruns, 1 ≤ x.2) (t : Fin T) {ac : Fin T → K}
    (hac : IsSearched (computeCosts pack (snapshotOf pack mult volume) cfg st) lam surchargeS ac) :
    0 ≤ (snapshotOf pack mult volume).edgeTimeS (pack.out t) ∧
      (snapshotOf pack mult volume).edgeTimeS (pack.out t) ≤ reruns.foldl inflateBy ac t := by
  have htime : 0 ≤ (snapshotOf pack mult volume).edgeTimeS (pack.out t) :=
    div_nonneg (hlen _) (mul_pos (hspeed _) (hmult _).1).le
  have hbase : (snapshotOf pack mult volume).edgeTimeS (pack.out t) ≤ ac t := by
    have harc := le_arcCost (snapshotOf pack mult volume) hlam h t
    rcases hac with rfl | rfl
    · exact harc
    · exact harc.trans (le_avoidArcCost hsur _ t)
  exact ⟨htime, le_inflated htime hbase hfactor⟩

/-- Along a turn the heuristic falls by no more than the turn costs, plain or with the surcharge,
after any inflations. -/
theorem heuristic_le_inflated {dist : P → P → K} (hd : IsMetric dist) {nodePos : Fin N → P}
    (hlen : ∀ e, dist (nodePos (pack.edgeTail e)) (nodePos (pack.edgeHead e)) ≤ pack.edgeLengthM e)
    (hspeed : ∀ e, 0 < pack.edgeSpeedMps e) (hmult : ∀ e, 0 < mult e ∧ mult e ≤ 1)
    (h : buildPackStatics pack cfg = .ok st) {lam surchargeS : K} (hlam : 0 ≤ lam)
    (hsur : 0 ≤ surchargeS) {reruns : List ((Fin T → Bool) × K)}
    (hfactor : ∀ x ∈ reruns, 1 ≤ x.2) (dest : P) (t : Fin T) {ac : Fin T → K}
    (hac : IsSearched (computeCosts pack (snapshotOf pack mult volume) cfg st) lam surchargeS ac) :
    heuristic dist pack nodePos (computeCosts pack (snapshotOf pack mult volume) cfg st) dest
        (pack.inn t) ≤
      reruns.foldl inflateBy ac t +
        heuristic dist pack nodePos (computeCosts pack (snapshotOf pack mult volume) cfg st) dest
          (pack.out t) := by
  have hcost := time_le_inflated (fun e => (hd.nonneg _ _).trans (hlen e)) hspeed hmult h hlam hsur
    hfactor t hac
  exact (heuristic_le hd hlen hspeed hmult h dest t).trans (add_le_add_left hcost.2 _)

/-- **A search with the heuristic ends with an optimum**, for each of these costs, between any
seeds and destinations. -/
theorem guided_search_optimum (Q : MinQueue (Entry E K) pyKey) {dist : P → P → K}
    (hd : IsMetric dist) {nodePos : Fin N → P}
    (hlen : ∀ e, dist (nodePos (pack.edgeTail e)) (nodePos (pack.edgeHead e)) ≤ pack.edgeLengthM e)
    (hspeed : ∀ e, 0 < pack.edgeSpeedMps e) (hmult : ∀ e, 0 < mult e ∧ mult e ≤ 1)
    (h : buildPackStatics pack cfg = .ok st) {lam surchargeS : K} (hlam : 0 ≤ lam)
    (hsur : 0 ≤ surchargeS) {reruns : List ((Fin T → Bool) × K)}
    (hfactor : ∀ x ∈ reruns, 1 ≤ x.2) (dest : P) {ac : Fin T → K}
    (hac : IsSearched (computeCosts pack (snapshotOf pack mult volume) cfg st) lam surchargeS ac)
    (seeds dests : List (Fin E × K)) :
    let q : Query E T K :=
      { topo := pack.topo
        arcCost := reruns.foldl inflateBy ac
        h := some (heuristic dist pack nodePos
          (computeCosts pack (snapshotOf pack mult volume) cfg st) dest)
        seeds := seeds
        dests := dests }
    ∃ r, Yields (fun n => shortestPath Q ⊤ q n) r ∧ IsOptimum q r := by
  refine exists_optimum Q (fun t _ => ?_) fun t _ => ?_
  · have hcost := time_le_inflated (fun e => (hd.nonneg _ _).trans (hlen e)) hspeed hmult h hlam
      hsur hfactor t hac
    exact hcost.1.trans hcost.2
  · exact heuristic_le_inflated hd hlen hspeed hmult h hlam hsur hfactor dest t hac

/-- **The heuristic is consistent** for every cost the planner searches with: plain, with the
surcharge of the hard avoid, and after any inflations. -/
theorem heuristic_consistent {dist : P → P → K} (hd : IsMetric dist) {nodePos : Fin N → P}
    (hlen : ∀ e, dist (nodePos (pack.edgeTail e)) (nodePos (pack.edgeHead e)) ≤ pack.edgeLengthM e)
    (hspeed : ∀ e, 0 < pack.edgeSpeedMps e) (hmult : ∀ e, 0 < mult e ∧ mult e ≤ 1)
    (h : buildPackStatics pack cfg = .ok st) {lam surchargeS : K} (hlam : 0 ≤ lam)
    (hsur : 0 ≤ surchargeS) {reruns : List ((Fin T → Bool) × K)}
    (hfactor : ∀ x ∈ reruns, 1 ≤ x.2) (volume : Fin E → K) (dest : P) (t : Fin T) :
    let qc := computeCosts pack (snapshotOf pack mult volume) cfg st
    0 ≤ qc.turnDelayS t ∧ 0 ≤ qc.turnPenaltyS t ∧
      ∀ ac, ac = arcCost qc lam ∨ ac = avoidArcCost qc lam surchargeS →
        heuristic dist pack nodePos qc dest (pack.inn t) ≤
          reruns.foldl inflateBy ac t + heuristic dist pack nodePos qc dest (pack.out t) := by
  exact ⟨controlDelayS_nonneg h t, penaltyOf_nonneg t, fun ac hac =>
    heuristic_le_inflated hd hlen hspeed hmult h hlam hsur hfactor dest t hac⟩

/-- Where the nodes of `crossTown` are, in metres. -/
def crossTownPos : Fin 5 → ℚ × ℚ := ![(0, 0), (500, 0), (0, 500), (0, -500), (-500, 0)]

/-- The distance along two axes. -/
def taxicab (x y : ℚ × ℚ) : ℚ := |x.1 - y.1| + |x.2 - y.2|

theorem taxicab_isMetric : IsMetric taxicab where
  self x := by simp [taxicab]
  comm x y := by rw [taxicab, taxicab, abs_sub_comm x.1, abs_sub_comm x.2]
  triangle x y z := by
    have h₁ := abs_sub_le x.1 y.1 z.1
    have h₂ := abs_sub_le x.2 y.2 z.2
    unfold taxicab
    linarith

/-- In `crossTown` at half the free-flow speed, on the stop-controlled straight. -/
theorem crossTown_consistent :
    ∃ st, buildPackStatics crossTown shippedConfig = .ok st ∧
      let qc := computeCosts crossTown (snapshotOf crossTown (fun _ => 1 / 2) fun _ => 600)
        shippedConfig st
      heuristic taxicab crossTown crossTownPos qc (0, 500) (crossTown.inn 6) ≤
        [((fun _ => true), 13 / 10)].foldl inflateBy (arcCost qc 1) 6 +
          heuristic taxicab crossTown crossTownPos qc (0, 500) (crossTown.out 6) := by
  obtain ⟨st, hst⟩ := (buildPackStatics_ok_iff crossTown shippedConfig).mpr (by decide)
  have hlen : ∀ e, taxicab (crossTownPos (crossTown.edgeTail e))
      (crossTownPos (crossTown.edgeHead e)) ≤ crossTown.edgeLengthM e := by decide +kernel
  have hspeed : ∀ e, 0 < crossTown.edgeSpeedMps e := by decide +kernel
  have hmult : ∀ e : Fin 6, 0 < (fun _ => 1 / 2 : Fin 6 → ℚ) e ∧ (fun _ => 1 / 2) e ≤ (1 : ℚ) := by
    decide +kernel
  have hfactor : ∀ x ∈ [((fun _ => true : Fin 11 → Bool), (13 / 10 : ℚ))], 1 ≤ x.2 := by
    intro x hx
    rw [List.mem_singleton.mp hx]
    norm_num
  have hconsistent := heuristic_consistent taxicab_isMetric hlen hspeed hmult hst
    (zero_le_one' ℚ) (zero_le_one' ℚ) hfactor (fun _ => 600) (0, 500) 6
  exact ⟨st, hst, hconsistent.2.2 _ (Or.inl rfl)⟩

end Results

/-! ## The planner's costs -/

section Planner

variable [Field K] [LinearOrder K]

/-- The pack as the planner's model has it, when `edge_reverse` pairs distinct edges. -/
def Pack.toPlanner (pack : Pack N E T K) (hlen : ∀ e, 0 ≤ pack.edgeLengthM e)
    (hspeed : ∀ e, 0 < pack.edgeSpeedMps e)
    (hpairs : ∀ e r, pack.edgeReverse e = some r → pack.edgeReverse r = some e ∧ r ≠ e) :
    Planner.Pack E T K where
  topo := pack.topo
  edgeLengthM := pack.edgeLengthM
  edgeSpeedMps := pack.edgeSpeedMps
  edgeReverse := pack.edgeReverse
  length_nonneg := hlen
  speed_pos := hspeed
  reverse_pairs := hpairs

variable [FloorRing K] [IsStrictOrderedRing K] {pack : Pack N E T K} {cfg : Config K}
  {st : PackStatics E T K}

/-- What the planner's model takes from the scores. -/
def turnScores (snap : Snapshot E K) (h : buildPackStatics pack cfg = .ok st) :
    Planner.TurnScores T K where
  raw := rawScore pack snap cfg st
  isUturn := st.isUturn
  delay := controlDelayS st snap.volumeVphLane
  uncontrolledCrossing := crossingFlag pack snap cfg st
  unprotectedLeft := unprotectedLeft pack snap cfg st
  delay_nonneg := controlDelayS_nonneg h

/-- **The planner's costs are these.** -/
theorem computeCosts_planner {hlen : ∀ e, 0 ≤ pack.edgeLengthM e}
    {hspeed : ∀ e, 0 < pack.edgeSpeedMps e}
    {hpairs : ∀ e r, pack.edgeReverse e = some r → pack.edgeReverse r = some e ∧ r ≠ e}
    (mult : Planner.Snapshot E K) (volume : Fin E → K) (h : buildPackStatics pack cfg = .ok st) :
    let snap := snapshotOf pack mult.speedMult volume
    let qc := computeCosts pack snap cfg st
    let pqc := Planner.computeCosts (pack.toPlanner hlen hspeed hpairs) mult
      cfg.cost.toCostCfg (turnScores snap h)
    pqc.edgeTimeS = qc.edgeTimeS ∧ pqc.turnTimeS = qc.turnTimeS ∧
      pqc.turnDelayS = qc.turnDelayS ∧ pqc.turnPenaltyS = qc.turnPenaltyS ∧
      pqc.turnUnsafeType = qc.turnUnsafeType := by
  refine ⟨rfl, rfl, rfl, funext fun t => ?_, rfl⟩
  change Planner.penaltyS _ _ t = penaltyOf _ _ _ _ t
  unfold Planner.penaltyS penaltyOf turnScores
  simp only
  split
  · rfl
  · exact add_zero _

end Planner

end RoutePlanner.Costs
