import RoutePlanner.Ingestion.Costed
import RoutePlanner.Sim.Profiles

/-!
# From the street graph to the costs of a request

A pack that `build_pack` leaves is one that the cost model takes, at any departure: its reverse map
is an involution, no straight goes back along it, and speeds and lanes are positive.

* `straightReversal_eq_false`, `reverseValid`, `speed_pos`, `lanes_pos`: the preconditions of the
  cost model.
* `ingested_optimum`: the guided search over what was built ends with an optimum.
-/

namespace RoutePlanner.Ingestion

open RoutePlanner.Lib
open RoutePlanner.Costs (IsMetric IsSearched buildPackStatics computeCosts heuristic inflateBy
  straightReversal)

variable {K : Type} [Field K] [LinearOrder K] [FloorRing K]
  {G : TaggedGraph K} {u : Unicode} {d : Defaults K} {observed : Assoc (ℤ × ℤ) ApproachControl}
  {p : CostedPack K}

/-- The pack as the cost model has it. -/
def Ingested.costs (h : Ingested G u d observed p) :
    Costs.Pack p.numNodes p.numEdges p.numTurns K where
  topo := h.represents.topo
  edgeTail e := ⟨p.edgeTail.getD e 0, h.tail_lt e.isLt⟩
  edgeHead e := ⟨p.edgeHead.getD e 0, h.head_lt e.isLt⟩
  edgeLengthM e := p.edgeLengthM.getD e 0
  edgeSpeedMps e := p.edgeSpeedMps.getD e 0
  edgeLanes e := p.edgeLanes.getD e 0
  edgeMedian e := p.edgeMedian.getD e false
  edgeRoadClass e := p.edgeRoadClass.getD e .motorway
  edgeReverse e := (p.edgeReverse.getD e none).bind fun r =>
    if hr : r < p.numEdges then some ⟨r, hr⟩ else none
  edgeApproachControl e := (p.edgeApproach.getD e ⟨.none, false, .inferred⟩).control
  edgeMustStop e := (p.edgeApproach.getD e ⟨.none, false, .inferred⟩).mustStop
  edgeControlConfidence e := (p.edgeApproach.getD e ⟨.none, false, .inferred⟩).confidence
  turnManeuver t := p.turnManeuver.getD t .straight
  turn_adjacent t := by
    obtain ⟨e, e2, n, hin, hout, hhead, htail⟩ := h.represents.turns_sound t t.isLt
    rw [h.represents.turnInEdge_eq_some t.isLt] at hin
    rw [Represents.turnOutEdge_eq_some t.isLt] at hout
    refine Fin.ext ?_
    simp only [Represents.topo]
    rw [hin, hout, List.getD_eq_getElem?_getD, htail, List.getD_eq_getElem?_getD, hhead]

namespace Ingested

variable (h : Ingested G u d observed p)

/-! ## What the cost model asks of a pack -/

theorem edgeReverse_eq_some {e r : Fin p.numEdges} :
    h.costs.edgeReverse e = some r ↔ p.edgeReverse.getD e none = some (r : ℕ) := by
  unfold costs
  simp only
  cases hrev : p.edgeReverse.getD e none with
  | none => simp
  | some s =>
    rw [Option.bind_some, dif_pos (h.reverse_lt hrev), Option.some.injEq, Option.some.injEq,
      Fin.ext_iff]

/-- The reverse map is a partial involution. -/
theorem reverseValid : h.costs.ReverseValid := by
  intro e r hr
  rw [edgeReverse_eq_some] at hr
  have hopposite := h.represents.reverse.opposite _ _ hr
  exact ⟨h.edgeReverse_eq_some.mpr (h.represents.reverse.symm _ _ hr), Fin.ext hopposite.tail,
    Fin.ext hopposite.head⟩

/-- **No straight goes back.** -/
theorem straightReversal_eq_false (t : Fin p.numTurns) : straightReversal h.costs t = false := by
  obtain ⟨e, e2, delta, hin, hout, hman⟩ := h.turn_at t.isLt
  rw [h.represents.turnInEdge_eq_some t.isLt] at hin
  rw [Represents.turnOutEdge_eq_some t.isLt] at hout
  have hmaneuver : h.costs.turnManeuver t =
      classifyManeuver delta (decide (p.edgeReverse.getD e none = some e2)) := by
    show p.turnManeuver.getD t .straight = _
    rw [List.getD_eq_getElem?_getD, hman, Option.getD_some]
  unfold straightReversal Costs.Pack.isStraight
  rw [← Bool.not_eq_true, Bool.and_eq_true, decide_eq_true_eq, decide_eq_true_eq, hmaneuver]
  rintro ⟨hstraight, hback⟩
  have hforth : p.edgeReverse.getD (h.costs.inn t) none = some (h.costs.out t : ℕ) :=
    h.represents.reverse.symm _ _ (h.edgeReverse_eq_some.mp hback)
  have hinn : (h.costs.inn t : ℕ) = e := hin
  have hout' : (h.costs.out t : ℕ) = e2 := hout
  rw [hinn, hout'] at hforth
  rw [classifyManeuver, if_pos (Or.inl (decide_eq_true hforth))] at hstraight
  exact nomatch hstraight

/-- **The approach of an edge** is what is written at the node it leads to. -/
theorem approach_eq (e : Fin p.numEdges) :
    p.edgeApproach.getD e ⟨.none, false, .inferred⟩ =
      approachAt G observed p.edgeTail p.edgeHead p.edgeRoadClass (h.costs.edgeHead e) e := by
  have hhead : p.edgeHead.getD e 0 < (nodeIds G.toMultiDiGraph).length :=
    h.built.numNodes ▸ h.head_lt e.isLt
  rw [h.approach, List.getD_eq_getElem?_getD, List.getElem?_map, List.getElem?_range e.isLt]
  exact approaches_eq e.isLt hhead

variable [IsStrictOrderedRing K]

theorem speed_pos (e : Fin p.numEdges) : 0 < h.costs.edgeSpeedMps e := by
  obtain ⟨r, rc, hr, hrc⟩ := h.exists_classed e.isLt
  show 0 < p.edgeSpeedMps.getD e 0
  rw [h.speeds, List.getD_eq_getElem?_getD, List.getElem?_zipWith, hr, hrc]
  exact mul_pos (effectiveSpeedKph_pos _ _ _ _) (by unfold kphToMps; positivity)

omit [IsStrictOrderedRing K] in
theorem lanes_pos (e : Fin p.numEdges) : 0 < h.costs.edgeLanes e := by
  obtain ⟨r, rc, hr, hrc⟩ := h.exists_classed e.isLt
  show 0 < p.edgeLanes.getD e 0
  rw [h.lanes, List.getD_eq_getElem?_getD, List.getElem?_zipWith, hr, hrc]
  exact effectiveLanes_pos _ _ _ _ _

omit [IsStrictOrderedRing K] in
/-- A length is the length that the graph gives. -/
theorem exists_edge (e : Fin p.numEdges) : ∃ edge ∈ G.edges,
    h.costs.edgeLengthM e = edge.data.length ∧ osmidOf G (h.costs.edgeTail e) = edge.u ∧
      osmidOf G (h.costs.edgeHead e) = edge.v := by
  obtain ⟨r, hr, htail, hhead⟩ := h.exists_row e.isLt
  obtain ⟨edge, hedge, rfl⟩ := (mem_rawEdges _).mp (List.mem_of_getElem? hr)
  refine ⟨edge, hedge, ?_, ?_, ?_⟩
  · show p.edgeLengthM.getD e 0 = _
    rw [h.lengths, List.getD_eq_getElem?_getD, List.getElem?_map, hr]
    rfl
  · show osmidOf G (p.edgeTail.getD e 0) = _
    rw [← htail]
    exact getD_nodeIndex _ (G.u_mem edge hedge)
  · show osmidOf G (p.edgeHead.getD e 0) = _
    rw [← hhead]
    exact getD_nodeIndex _ (G.v_mem edge hedge)

end Ingested

/-! ## The costs of a request -/

/-- Where a node of the pack is. -/
def nodePlace {P : Type*} {N : ℕ} (G : TaggedGraph K) (place : ℤ → P) (n : Fin N) : P :=
  place (osmidOf G n)

section Costs

variable [IsStrictOrderedRing K] {initialBearingDeg : K × K → K × K → K} {P : Type*}
  {dist : P → P → K}

/-- **From the street graph to an optimum**: a graph that fits the arrays is ingested. Its pack has
an involution for a reverse map, and positive speeds and lanes; over it, at any departure, no cost
is negative, the heuristic is consistent and the guided search ends with an optimum. -/
theorem ingested_optimum (hfits : Fits G.toMultiDiGraph) (hnodes : G.nodes.length < 2 ^ 31)
    (hclassed : Classed G) (hedges : G.edges ≠ []) (hd : IsMetric dist) {place : ℤ → P}
    (hlen : ∀ e ∈ G.edges, dist (place e.u) (place e.v) ≤ e.data.length) {sim : Sim.SimCfg K}
    (hsim : ∀ group, ∀ v ∈ (sim.profile group).speedMult.entries, 0 < v ∧ v ≤ 1)
    (departure : Sim.ClockTime) (cfg : Costs.Config K) {lam surchargeS : K} (hlam : 0 ≤ lam)
    (hsur : 0 ≤ surchargeS) (dest : P) :
    ∃ (p : CostedPack K) (hok : buildCostedPack initialBearingDeg G u d observed = .ok p),
      let pack := (ingested_of_ok hnodes hok).costs
      pack.ReverseValid ∧ (∀ e, 0 < pack.edgeSpeedMps e ∧ 0 < pack.edgeLanes e) ∧
      ∃ st, buildPackStatics pack cfg = .ok st ∧
        let qc := computeCosts pack (Sim.snapshotAt pack sim departure) cfg st
        let toDest := heuristic dist pack (nodePlace G place) qc dest
        0 < qc.vMaxMps ∧ (∀ t, 0 ≤ qc.turnDelayS t ∧ 0 ≤ qc.turnPenaltyS t) ∧
        ∀ (ac : Fin p.numTurns → K) (reruns : List ((Fin p.numTurns → Bool) × K)),
          IsSearched qc lam surchargeS ac → (∀ x ∈ reruns, 1 ≤ x.2) →
          (∀ t, toDest (pack.inn t) ≤ reruns.foldl inflateBy ac t + toDest (pack.out t)) ∧
          ∀ (Q : MinQueue (Search.Entry p.numEdges K) Search.pyKey)
            (seeds dests : List (Fin p.numEdges × K)),
            let q : Search.Query p.numEdges p.numTurns K :=
              ⟨pack.topo, reruns.foldl inflateBy ac, some toDest, seeds, dests⟩
            ∃ r, Yields (fun n => Search.shortestPath Q ⊤ q n) r ∧
              Search.IsOptimum q r := by
  obtain ⟨p, hok⟩ := exists_costed initialBearingDeg u d observed hfits hclassed hnodes
  refine ⟨p, hok, ?_⟩
  have h := ingested_of_ok hnodes hok
  obtain ⟨st, hst⟩ := (Costs.buildPackStatics_ok_iff h.costs cfg).mpr h.straightReversal_eq_false
  have hmult : ∀ e, 0 < (Sim.multipliersAt sim departure).1 (h.costs.edgeRoadClass e) ∧
      (Sim.multipliersAt sim departure).1 (h.costs.edgeRoadClass e) ≤ 1 := fun e =>
    Sim.speedMult_mem (hsim _) departure
  have hedge : ∀ e, dist (nodePlace G place (h.costs.edgeTail e))
      (nodePlace G place (h.costs.edgeHead e)) ≤ h.costs.edgeLengthM e := by
    intro e
    obtain ⟨edge, hmem, hlength, htail, hhead⟩ := h.exists_edge e
    rw [nodePlace, nodePlace, hlength, htail, hhead]
    exact hlen edge hmem
  have hone : 0 < p.numEdges := by
    rw [GraphPack.numEdges, h.built.heads, List.length_map,
      (rawEdges_perm G.toMultiDiGraph).length_eq, List.length_map]
    exact List.length_pos_iff.mpr hedges
  refine ⟨h.reverseValid, fun e => ⟨h.speed_pos e, h.lanes_pos e⟩, st, hst, ?_, fun t => ?_,
    fun ac reruns hac hfactor => ⟨fun t => ?_, ?_⟩⟩
  · obtain ⟨crossBusy, crossMajor, rfl⟩ := Costs.exists_packStatics hst
    exact (h.speed_pos ⟨0, hone⟩).trans_le (Costs.le_vMaxMps h.costs _)
  · exact ⟨Costs.controlDelayS_nonneg hst t, Costs.penaltyOf_nonneg t⟩
  · exact Costs.heuristic_le_inflated hd hedge h.speed_pos hmult hst hlam hsur hfactor dest t hac
  · intro Q seeds dests
    exact Costs.guided_search_optimum Q hd hedge h.speed_pos hmult hst hlam hsur hfactor dest hac
      seeds dests

end Costs

/-! ## A lane across an avenue -/

/-- The bearing of a point along the equator or a meridian. -/
def compass (a b : ℚ × ℚ) : ℚ :=
  if a.1 < b.1 then 0 else if a.2 < b.2 then 90 else if b.1 < a.1 then 180 else 270

/-- Tags of one value each. -/
def tagged (tags : List (String × String)) : Tags := fun key =>
  (tags.lookup key).map fun value => .one (.text value)

def avenueTags : Tags := tagged [("highway", "primary"), ("lanes", "4"), ("name", "Avenue")]

def laneTags : Tags := tagged [("highway", "residential"), ("oneway", "yes"), ("name", "Lane")]

def stopLaneLat (node : ℤ) : ℚ :=
  if node = 3 then 1 / 1000 else if node = 4 then -1 / 1000 else if node = 9 then -1 / 10000 else 0

def stopLaneLon (node : ℤ) : ℚ := if node = 2 then 1 / 1000 else if node = 5 then -1 / 1000 else 0

/-- A one-way lane northwards from `4` by `1` to `3`, across a two-way avenue. Node `9`, just before
`1`, is part of the line of an edge. -/
def stopLaneGraph : TaggedGraph ℚ where
  nodes := [1, 2, 3, 4, 5]
  y := stopLaneLat
  x := stopLaneLon
  edges := [⟨1, 2, 0, .way 70, 111195 / 1000, none⟩, ⟨1, 3, 0, .way 80, 111195 / 1000, none⟩,
    ⟨1, 5, 0, .way 70, 111195 / 1000, none⟩, ⟨2, 1, 0, .way 70, 111195 / 1000, none⟩,
    ⟨4, 1, 0, .ways 80 [81], 111195 / 1000,
      some ⟨[(0, -1 / 1000), (0, -1 / 10000), (0, 0)], by decide⟩⟩,
    ⟨5, 1, 0, .way 70, 111195 / 1000, none⟩]
  nodes_nodup := by decide
  u_mem := by decide
  v_mem := by decide
  node _ := ⟨none, tagged []⟩
  tags u v _ := if u = 4 ∨ v = 3 then laneTags else avenueTags

theorem nodeIds_stopLane : nodeIds stopLaneGraph.toMultiDiGraph = [1, 2, 3, 4, 5] :=
  List.mergeSort_of_pairwise (by decide)

theorem stopLane_fits : Fits stopLaneGraph.toMultiDiGraph where
  ids := by decide
  indices := by
    unfold nodeIndex
    rw [nodeIds_stopLane]
    decide
  ways := by decide
  points := by decide +kernel
  turns := by decide

/-- Where the nodes are, in metres. -/
def stopLanePlace (node : ℤ) : ℚ × ℚ := (111195 * stopLaneLat node, 111195 * stopLaneLon node)

/-- Half past eight. -/
def rushHour : Sim.ClockTime := ⟨8, 30, 0, by decide, by decide, by decide⟩

theorem ingested_optimum_stop_lane :
    ∃ (p : CostedPack ℚ) (hok : buildCostedPack compass stopLaneGraph asciiText shippedDefaults
        Assoc.empty = .ok p),
      let pack := (ingested_of_ok (by decide) hok).costs
      ∃ st, buildPackStatics pack Costs.shippedConfig = .ok st ∧
        let qc := computeCosts pack (Sim.snapshotAt pack Sim.shippedSim rushHour)
          Costs.shippedConfig st
        let toDest := heuristic Costs.taxicab pack (nodePlace stopLaneGraph stopLanePlace) qc
          (stopLanePlace 3)
        ∀ (Q : MinQueue (Search.Entry p.numEdges ℚ) Search.pyKey)
          (seeds dests : List (Fin p.numEdges × ℚ)),
          let q : Search.Query p.numEdges p.numTurns ℚ :=
            ⟨pack.topo, Costs.arcCost qc 1, some toDest, seeds, dests⟩
          ∃ r, Yields (fun n => Search.shortestPath Q ⊤ q n) r ∧ Search.IsOptimum q r := by
  have hlen : ∀ e ∈ stopLaneGraph.edges,
      Costs.taxicab (stopLanePlace e.u) (stopLanePlace e.v) ≤ e.data.length := by
    decide +kernel
  have hclassed : Classed stopLaneGraph := by
    unfold Classed
    decide
  obtain ⟨p, hok, -, -, st, hst, -, -, hsearch⟩ := ingested_optimum (u := asciiText)
    (d := shippedDefaults) stopLane_fits (by decide) hclassed (by decide)
    Costs.taxicab_isMetric hlen Sim.shippedSim_speedMult rushHour Costs.shippedConfig
    (zero_le_one' ℚ) (zero_le_one' ℚ) (stopLanePlace 3)
  exact ⟨p, hok, st, hst, fun Q seeds dests =>
    (hsearch _ [] (Or.inl rfl) (fun x hx => absurd hx List.not_mem_nil)).2 Q seeds dests⟩

end RoutePlanner.Ingestion
