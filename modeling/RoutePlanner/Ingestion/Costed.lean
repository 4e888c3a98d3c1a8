import RoutePlanner.Costs.Consistent
import RoutePlanner.Ingestion.Controls
import RoutePlanner.Ingestion.Enrich
import RoutePlanner.Ingestion.Invariant

/-!
# `ingestion/pack.py`: what hangs off the edges

Model of the rest of `build_pack`: the columns that are read off the tags of an edge, and the loop
over the nodes that gives each approach its control.

* `approaches_eq`: every approach is written once, at the node it leads to.
* `exists_costed`, `ingested_of_ok`: every graph that fits gets a pack, and what is known of it.
* `turn_at`: the maneuver of a turn is what its bearings say, and a U-turn along the reverse of the
  in-edge.
-/

namespace RoutePlanner.Ingestion

open RoutePlanner.Lib
open RoutePlanner.Costs (RoadClass roadClassRank)

/-! ## The code -/

/-- `nx.MultiDiGraph` with its tags: of a node, and of the edge `(u, v, key)`. -/
structure TaggedGraph (K : Type) extends MultiDiGraph K where
  node : ℤ → NodeData
  tags : ℤ → ℤ → ℕ → Tags

/-- `GraphPack`. `edgeApproach` is `edge_approach_control`, `edge_must_stop` and
`edge_control_confidence`. -/
structure CostedPack (K : Type) extends GraphPack K where
  nodeControl : List Control
  edgeSpeedMps : List K
  edgeLanes : List K
  edgeMedian : List Bool
  edgeRoadClass : List RoadClass
  edgeApproach : List ApproachControl
  deriving DecidableEq

section Columns

variable {K : Type} (G : TaggedGraph K)

/-- The OSM id of node `i`. -/
def osmidOf (i : ℕ) : ℤ := (nodeIds G.toMultiDiGraph).getD i 0

/-- The tags of a row of `raw_edges`. -/
def rowTags (r : RawEdge K) : Tags := G.tags (osmidOf G r.tail) (osmidOf G r.head) r.key

/-- The class of a row. -/
def rowClass (r : RawEdge K) : Except ValueError RoadClass :=
  roadClassFromHighway ((rowTags G r "highway").getD (.one (.text "unclassified")))

def rowOneway (r : RawEdge K) : Bool := isOneway (rowTags G r "oneway")

def rowMedian (r : RawEdge K) (rc : RoadClass) : Bool := inferMedian rc (rowOneway G r)

variable [Field K] [LinearOrder K] (u : Unicode) (d : Defaults K)

/-- `KPH_TO_MPS`. -/
def kphToMps : K := 1 / (((36 : ℕ) : K) / ((10 : ℕ) : K))

def rowSpeedMps (r : RawEdge K) (rc : RoadClass) : K :=
  effectiveSpeedKph u d (rowTags G r) rc * kphToMps

def rowLanes (r : RawEdge K) (rc : RoadClass) : K :=
  effectiveLanes u d (rowTags G r) rc (rowOneway G r)

end Columns

section Approaches

variable {K : Type} (G : TaggedGraph K) (observed : Assoc (ℤ × ℤ) ApproachControl)
  (tails heads : List ℕ) (classes : List RoadClass)

/-- `in_edges_by_node[i]`. -/
def inEdges (i : ℕ) : List ℕ :=
  (List.range heads.length).filter fun e => decide (heads.getD e 0 = i)

/-- `ROAD_CLASS_RANK` of edge `e`. -/
def edgeRankOf (e : ℕ) : ℕ := roadClassRank (classes.getD e .motorway)

/-- `approach_ranks`. -/
def approachRanks (i : ℕ) : List ℕ := (inEdges heads i).map (edgeRankOf classes)

/-- The edges into a node, and the edges out of it. -/
def incidentEdges (osmid : ℤ) : List (Edge K) :=
  (G.edges.filter fun e => decide (e.v = osmid)) ++ G.edges.filter fun e => decide (e.u = osmid)

/-- `incident_data`. -/
def incidentData (osmid : ℤ) : List Tags :=
  (incidentEdges G osmid).map fun e => G.tags e.u e.v e.key

/-- `num_legs`: the neighbours, the node itself not among them. -/
def numLegs (osmid : ℤ) : ℕ :=
  (((incidentEdges G osmid).flatMap fun e => [e.u, e.v]).toFinset.erase osmid).card

/-- `ctrl, ctrl_conf` of node `i`. -/
def nodeClass (i : ℕ) : Control × ControlConfidence :=
  classifyNodeControl (G.node (osmidOf G i)) (incidentData G (osmidOf G i))
    (numLegs G (osmidOf G i)) (approachRanks heads classes i)

/-- `observed_here`, for edge `e` into node `i`. -/
def observedHere (i e : ℕ) : Option ApproachControl :=
  -- the walk along an arm cannot see a roundabout that is tagged on the ways
  if (nodeClass G heads classes i).1 = .roundabout then none
  else observed.get (osmidOf G i, osmidOf G (tails.getD e 0))

/-- What is written for edge `e` at node `i`. -/
def approachAt (i e : ℕ) : ApproachControl :=
  match observedHere G observed tails heads classes i e with
  | some approach => approach
  | none =>
    let node := nodeClass G heads classes i
    let resolved := resolveApproach node.1 (edgeRankOf classes e) (approachRanks heads classes i)
    ⟨resolved.1, resolved.2, node.2⟩

/-- `node_control[i]`: the control that all observed approaches agree on, or else the node's. -/
def nodeControlAt (i : ℕ) : Control :=
  let seen := (inEdges heads i).filterMap (observedHere G observed tails heads classes i)
  match (seen.map ApproachControl.control).dedup with
  | [control] => control
  | _ => (nodeClass G heads classes i).1

/-- The loop over the nodes. -/
def approaches : ℕ → ApproachControl :=
  (List.range (nodeIds G.toMultiDiGraph).length).foldl
    (fun out i => assignAt out (inEdges heads i)
      ((inEdges heads i).map (approachAt G observed tails heads classes i)))
    fun _ => ⟨.none, false, .inferred⟩

end Approaches

section Build

variable {K : Type} [Field K] [LinearOrder K] [FloorRing K]
  (initialBearingDeg : K × K → K × K → K) (G : TaggedGraph K) (u : Unicode) (d : Defaults K)
  (observed : Assoc (ℤ × ℤ) ApproachControl)

/-- What `build_pack` raises. -/
inductive BuildError where
  | overflow (e : OverflowError)
  | value (e : ValueError)
  deriving DecidableEq

/-- **`build_pack`**, all of it. Where an array overflows and an edge has no class, the source
raises the one that it comes to first. -/
def buildCostedPack : Except BuildError (CostedPack K) := do
  let p ← (buildPack initialBearingDeg G.toMultiDiGraph).mapError .overflow
  let raw := rawEdges G.toMultiDiGraph
  let classes ← (raw.mapM (rowClass G)).mapError .value
  return {
    toGraphPack := p
    nodeControl := (List.range p.numNodes).map
      (nodeControlAt G observed p.edgeTail p.edgeHead classes)
    edgeSpeedMps := List.zipWith (rowSpeedMps G u d) raw classes
    edgeLanes := List.zipWith (rowLanes G u d) raw classes
    edgeMedian := List.zipWith (rowMedian G) raw classes
    edgeRoadClass := classes
    edgeApproach := (List.range p.numEdges).map
      (approaches G observed p.edgeTail p.edgeHead classes) }

end Build

/-! ## What is built -/

section Approaches

variable {K : Type} {G : TaggedGraph K} {observed : Assoc (ℤ × ℤ) ApproachControl}
  {tails heads : List ℕ} {classes : List RoadClass}

theorem mem_inEdges {i e : ℕ} : e ∈ inEdges heads i ↔ e < heads.length ∧ heads.getD e 0 = i := by
  rw [inEdges, List.mem_filter, List.mem_range, decide_eq_true_eq]

/-- **Every approach is written once**, at the node it leads to. -/
theorem approaches_eq {e : ℕ} (he : e < heads.length)
    (hhead : heads.getD e 0 < (nodeIds G.toMultiDiGraph).length) :
    approaches G observed tails heads classes e =
      approachAt G observed tails heads classes (heads.getD e 0) e := by
  unfold approaches
  rw [foldl_assignAt (fun e => heads.getD e 0) fun i e h => (mem_inEdges.mp h).2]
  exact if_pos ⟨List.mem_range.mpr hhead, mem_inEdges.mpr ⟨he, rfl⟩⟩

end Approaches

/-- A pack that was built of a graph with tags. -/
structure Ingested {K : Type} [Field K] [LinearOrder K] [FloorRing K] (G : TaggedGraph K)
    (u : Unicode) (d : Defaults K) (observed : Assoc (ℤ × ℤ) ApproachControl)
    (p : CostedPack K) : Prop where
  built : Built G.toMultiDiGraph p.toGraphPack
  represents : Represents G.toMultiDiGraph p.toGraphPack
  lengths : p.edgeLengthM = (rawEdges G.toMultiDiGraph).map fun r => r.data.length
  maneuvers : p.turnManeuver = p.turnTable.flatten.map Turn.maneuver
  classes : List.Forall₂ (fun r rc => rowClass G r = .ok rc) (rawEdges G.toMultiDiGraph)
    p.edgeRoadClass
  speeds : p.edgeSpeedMps =
    List.zipWith (rowSpeedMps G u d) (rawEdges G.toMultiDiGraph) p.edgeRoadClass
  lanes : p.edgeLanes = List.zipWith (rowLanes G u d) (rawEdges G.toMultiDiGraph) p.edgeRoadClass
  approach : p.edgeApproach = (List.range p.numEdges).map
    (approaches G observed p.edgeTail p.edgeHead p.edgeRoadClass)

section Ingested

variable {K : Type} [Field K] [LinearOrder K] [FloorRing K]
  {initialBearingDeg : K × K → K × K → K} {G : TaggedGraph K} {u : Unicode} {d : Defaults K}
  {observed : Assoc (ℤ × ℤ) ApproachControl} {p : CostedPack K}

/-- The maneuver in an entry of a row. -/
theorem exists_maneuver {heads outPtr : List ℕ} (rev : List (Option ℕ))
    (bearingIn bearingOut : List K) {e n i : ℕ} (he : heads[e]? = some n)
    (hi : i < outPtr.getD (succIndex outPtr.length n) 0 - outPtr.getD n 0) :
    ∃ delta : K, (turnsOf heads rev outPtr bearingIn bearingOut e)[i]?.map Turn.maneuver =
      some (classifyManeuver delta (decide (rev.getD e none = some (outPtr.getD n 0 + i)))) := by
  have hhead : heads.getD e 0 = n := by
    rw [List.getD_eq_getElem?_getD, he, Option.getD_some]
  refine ⟨wrapDeltaDeg (bearingIn.getD (outPtr.getD n 0 + i) 0 - bearingOut.getD e 0), ?_⟩
  simp only [turnsOf, hhead, List.getElem?_map, List.getElem?_range' hi, Option.map_some,
    Nat.one_mul]

/-- No `highway` tag of an edge is a list without values. -/
def Classed (G : TaggedGraph K) : Prop :=
  ∀ e ∈ G.edges, G.tags e.u e.v e.key "highway" ≠ some (.many [])

/-- The columns of a pack that was built. -/
theorem columns_of_ok {G : MultiDiGraph K} {p : GraphPack K}
    (h : buildPack initialBearingDeg G = .ok p) :
    p.edgeLengthM = ((rawEdges G).map fun r => r.data.length) ∧
      p.turnManeuver = p.turnTable.flatten.map Turn.maneuver := by
  unfold buildPack at h
  obtain ⟨_, -, h⟩ := bind_ok h
  obtain ⟨_, -, h⟩ := bind_ok h
  obtain ⟨_, -, h⟩ := bind_ok h
  obtain ⟨_, -, h⟩ := bind_ok h
  obtain ⟨_, -, h⟩ := bind_ok h
  obtain ⟨_, -, h⟩ := bind_ok h
  rw [← Except.ok.inj h]
  exact ⟨rfl, congrArg (List.map Turn.maneuver) (congrArg Prod.fst (buildTurnTable_eq _ _ _ _ _))⟩

/-- **A graph of fewer than `2 ^ 31` nodes** is represented by its pack. -/
theorem ingested_of_ok (hnodes : G.nodes.length < 2 ^ 31)
    (h : buildCostedPack initialBearingDeg G u d observed = .ok p) :
    Ingested G u d observed p := by
  unfold buildCostedPack at h
  obtain ⟨q, hq, h⟩ := bind_ok h
  obtain ⟨classes, hclasses, h⟩ := bind_ok h
  have hq := mapError_eq_ok.mp hq
  have hbuilt := built_of_ok hq
  have hcolumns := columns_of_ok hq
  have hfit : TailsFit (nodeIds G.toMultiDiGraph).length q.edgeTail := by
    intro t ht
    have hlt := hbuilt.tail_lt_numNodes ht
    rw [hbuilt.numNodes, nodeIds, List.length_mergeSort] at hlt
    exact succIndex_eq _ (by omega)
  rw [← Except.ok.inj h]
  exact ⟨hbuilt, hbuilt.represents hfit, hcolumns.1, hcolumns.2,
    mapM_eq_ok.mp (mapError_eq_ok.mp hclasses), rfl, rfl, rfl⟩

omit [Field K] [LinearOrder K] [FloorRing K] in
/-- An edge whose tags are in order has a class. -/
theorem exists_rowClass (hclassed : Classed G) {r : RawEdge K}
    (hr : r ∈ rawEdges G.toMultiDiGraph) : ∃ rc, rowClass G r = .ok rc := by
  obtain ⟨e, he, rfl⟩ := (mem_rawEdges _).mp hr
  have htags : rowTags G (rawEdge G.toMultiDiGraph e) = G.tags e.u e.v e.key := by
    unfold rowTags
    rw [show osmidOf G (rawEdge G.toMultiDiGraph e).tail = e.u from
        getD_nodeIndex _ (G.u_mem e he),
      show osmidOf G (rawEdge G.toMultiDiGraph e).head = e.v from getD_nodeIndex _ (G.v_mem e he)]
    rfl
  refine exists_roadClass fun hnone => ?_
  rw [htags] at hnone
  cases htag : G.tags e.u e.v e.key "highway" with
  | none =>
    rw [htag] at hnone
    exact nomatch hnone
  | some value =>
    rw [htag, Option.getD_some] at hnone
    exact hclassed e he (hnone ▸ htag)

variable (initialBearingDeg u d observed) in
/-- **A graph that fits the arrays is ingested**, if every edge has a class. -/
theorem exists_costed (hfits : Fits G.toMultiDiGraph) (hclassed : Classed G)
    (hnodes : G.nodes.length < 2 ^ 31) :
    ∃ p, buildCostedPack initialBearingDeg G u d observed = .ok p := by
  have hindex : ∀ id ∈ G.nodes, nodeIndex G.toMultiDiGraph id < G.nodes.length := fun id hid =>
    (nodeIndex_lt _ hid).trans_eq (List.length_mergeSort _)
  have hfit := (tailsFit_iff fun e he => (hfits.indices e he).1).mpr
    (Or.inl fun e he hmax => by have := hindex _ (G.u_mem e he); omega)
  have hraw : ∀ r ∈ rawEdges G.toMultiDiGraph, r.tail < 2 ^ 31 ∧ r.head < 2 ^ 31 := by
    intro r hr
    obtain ⟨e, he, rfl⟩ := (mem_rawEdges _).mp hr
    exact hfits.indices e he
  have hturns : (packTurns initialBearingDeg G.toMultiDiGraph).flatten.length < 2 ^ 31 := by
    unfold packTurns
    rw [length_turns _ _ _ hfit (List.forall_mem_map.mpr fun r hr => (hraw r hr).1)
      (List.forall_mem_map.mpr fun r hr => ⟨(rawEdge_lt _ hr).2, (hraw r hr).2⟩), sum_pairs]
    exact hfits.turns
  obtain ⟨q, hq⟩ :=
    exists_ok initialBearingDeg hfits.ids hfits.indices hfits.ways hfits.points hturns
  obtain ⟨classes, hclasses⟩ : ∃ classes, (rawEdges G.toMultiDiGraph).mapM (rowClass G) =
      .ok classes := exists_mapM fun r hr => exists_rowClass hclassed hr
  unfold buildCostedPack
  simp only [hq, hclasses]
  exact ⟨_, rfl⟩

namespace Ingested

variable (h : Ingested G u d observed p)

include h

theorem tail_lt {e : ℕ} (he : e < p.numEdges) : p.edgeTail.getD e 0 < p.numNodes := by
  have hlt : e < p.edgeTail.length := h.built.length_tails ▸ he
  rw [List.getD_eq_getElem?_getD, List.getElem?_eq_getElem hlt, Option.getD_some]
  exact h.built.tail_lt_numNodes (List.getElem_mem hlt)

theorem head_lt {e : ℕ} (he : e < p.numEdges) : p.edgeHead.getD e 0 < p.numNodes := by
  refine h.built.head_lt_numNodes (e := e) ?_
  rw [List.getD_eq_getElem?_getD, List.getElem?_eq_getElem he, Option.getD_some]

theorem reverse_lt {e r : ℕ} (hr : p.edgeReverse.getD e none = some r) : r < p.numEdges :=
  (h.represents.reverse.opposite e r hr).snd_lt

/-- The row of an edge. -/
theorem exists_row {e : ℕ} (he : e < p.numEdges) :
    ∃ r, (rawEdges G.toMultiDiGraph)[e]? = some r ∧ r.tail = p.edgeTail.getD e 0 ∧
      r.head = p.edgeHead.getD e 0 := by
  rw [GraphPack.numEdges, h.built.heads, List.length_map] at he
  refine ⟨_, List.getElem?_eq_getElem he, ?_, ?_⟩
  · rw [h.built.tails, List.getD_eq_getElem?_getD, List.getElem?_map, List.getElem?_eq_getElem he]
    rfl
  · rw [h.built.heads, List.getD_eq_getElem?_getD, List.getElem?_map, List.getElem?_eq_getElem he]
    rfl

/-- The row of an edge, and its class. -/
theorem exists_classed {e : ℕ} (he : e < p.numEdges) :
    ∃ r rc, (rawEdges G.toMultiDiGraph)[e]? = some r ∧ p.edgeRoadClass[e]? = some rc := by
  obtain ⟨r, hr, -⟩ := h.exists_row he
  have hlt : e < p.edgeRoadClass.length :=
    h.classes.length_eq ▸ (List.getElem?_eq_some_iff.mp hr).1
  exact ⟨r, _, hr, List.getElem?_eq_getElem hlt⟩

/-- **The maneuver of a turn.** -/
theorem turn_at {t : ℕ} (ht : t < p.numTurns) : ∃ (e e2 : ℕ) (delta : K),
    p.turnInEdge[t]? = some e ∧ p.turnOutEdge[t]? = some e2 ∧ p.turnManeuver[t]? =
      some (classifyManeuver delta (decide (p.edgeReverse.getD e none = some e2))) := by
  rw [h.built.numTurns] at ht
  obtain ⟨e, n, i, he, hi, ht⟩ := turn_cases _ _ _ _ _ ht
  obtain ⟨hin, hout⟩ := h.built.getElem?_turn he hi
  obtain ⟨delta, hmaneuver⟩ := exists_maneuver p.edgeReverse p.edgeBearingIn p.edgeBearingOut he hi
  have hrow : p.turnTable.getD e [] = _ :=
    getD_turnRows _ _ _ _ _ (List.getElem?_eq_some_iff.mp he).1
  have hlen : i < (p.turnTable.getD e []).length := by
    by_contra hge
    rw [← hrow, List.getElem?_eq_none (Nat.le_of_not_lt hge)] at hmaneuver
    exact nomatch hmaneuver
  have hplace : t = offset p.turnTable e + i := ht
  rw [← hrow, ← getElem?_flatten_offset hlen, ← List.getElem?_map, ← h.maneuvers,
    ← hplace] at hmaneuver
  rw [← hplace] at hin hout
  exact ⟨e, _, delta, hin, hout, hmaneuver⟩

end Ingested

end Ingested

end RoutePlanner.Ingestion
