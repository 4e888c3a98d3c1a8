import Mathlib.Data.Prod.Lex
import Mathlib.Order.Lattice
import RoutePlanner.Ingestion.Turns

/-!
# `ingestion/pack.py`: from a street graph to a pack

Model of `build_pack` and of `GraphPack.validate`, for the arrays that make up the graph: nodes,
directed edges sorted by `(tail, head, way, key)`, the node pointers, the geometry pool, the reverse
map and the turn table. Lanes, speeds, medians, road classes and controls hang off the same edges
and are left out; so is `meta`.

Every array has a fixed width. Building one from a Python integer that does not fit raises
`OverflowError` (`asI32`, `asI64`); arithmetic on one wraps round.
-/

namespace RoutePlanner.Ingestion

open RoutePlanner.Lib

/-! ## The street graph -/

/-- A line of two points or more, each `(lon, lat)`. -/
structure LineString (K : Type) where
  coords : List (K × K)
  two_le : 2 ≤ coords.length

/-- `data["osmid"]`: absent, one way, or the ways merged into the edge. -/
inductive OsmId where
  | absent
  | way (id : ℤ)
  | ways (first : ℤ) (rest : List ℤ)
  deriving DecidableEq, Repr

/-- The data of an edge. -/
structure EdgeData (K : Type) where
  osmid : OsmId
  length : K
  geometry : Option (LineString K)

/-- A directed edge `(u, v, key)`. -/
structure Edge (K : Type) where
  u : ℤ
  v : ℤ
  key : ℕ
  data : EdgeData K

/-- `nx.MultiDiGraph`, with coordinates: any number of edges between two nodes, or from a node to
itself. -/
structure MultiDiGraph (K : Type) where
  nodes : List ℤ
  y : ℤ → K
  x : ℤ → K
  edges : List (Edge K)
  nodes_nodup : nodes.Nodup
  u_mem : ∀ e ∈ edges, e.u ∈ nodes
  v_mem : ∀ e ∈ edges, e.v ∈ nodes

/-- `way_id`. -/
def wayId (o : OsmId) : ℤ :=
  match o with
  | .absent => 0
  | .way id => id
  | .ways first rest => rest.foldl min first

/-! ## The pack -/

/-- `GraphPack`, the arrays of the graph. `none` in `edgeReverse` is `-1`. -/
structure GraphPack (K : Type) where
  nodeLat : List K
  nodeLon : List K
  nodeOsmid : List ℤ
  nodeOutPtr : List ℕ
  edgeTail : List ℕ
  edgeHead : List ℕ
  edgeLengthM : List K
  edgeReverse : List (Option ℕ)
  edgeBearingIn : List K
  edgeBearingOut : List K
  edgeOsmWay : List ℤ
  edgeGeomPtr : List ℕ
  geomLat : List K
  geomLon : List K
  turnPtr : List ℕ
  turnOutEdge : List ℕ
  turnManeuver : List Maneuver
  turnAngleDeg : List K
  turnAllowed : List Bool
  deriving DecidableEq

namespace GraphPack

variable {K : Type} (p : GraphPack K)

def numNodes : ℕ := p.nodeLat.length

def numEdges : ℕ := p.edgeHead.length

def numTurns : ℕ := p.turnOutEdge.length

/-- `turn_in_edge`. -/
def turnInEdge : List ℕ := expand p.turnPtr

/-- **`validate`**, but for the widths of the arrays, which their types fix. -/
def validate : Bool := decide (
  p.nodeOutPtr.length = p.numNodes + 1 ∧
  p.turnPtr.length = p.numEdges + 1 ∧
  p.edgeGeomPtr.length = p.numEdges + 1 ∧
  p.nodeOutPtr.getLast? = some p.numEdges ∧
  p.turnPtr.getLast? = some p.numTurns ∧
  p.edgeGeomPtr.getLast? = some p.geomLat.length ∧
  p.geomLat.length = p.geomLon.length ∧
  p.numEdges < 2 ^ 31 ∧ p.numTurns < 2 ^ 31 ∧
  (∀ e ∈ p.turnOutEdge, e < p.numEdges) ∧
  -- every turn leaves from the head of its in-edge
  p.turnOutEdge.map (p.edgeTail[·]?) = p.turnInEdge.map (p.edgeHead[·]?))

end GraphPack

/-- `OverflowError`. -/
inductive OverflowError where
  | mk
  deriving DecidableEq, Repr

/-- `np.array(l, dtype=np.int32)`, of numbers from `0` on. -/
def asI32 (l : List ℕ) : Except OverflowError (List ℕ) :=
  if ∀ x ∈ l, x < 2 ^ 31 then .ok l else .error .mk

/-- `np.array(l, dtype=np.int64)`. -/
def asI64 (l : List ℤ) : Except OverflowError (List ℤ) :=
  if ∀ x ∈ l, -2 ^ 63 ≤ x ∧ x < 2 ^ 63 then .ok l else .error .mk

/-! ## Nodes and edges -/

/-- A row of `raw_edges`. -/
structure RawEdge (K : Type) where
  tail : ℕ
  head : ℕ
  way : ℤ
  key : ℕ
  data : EdgeData K

/-- What the edges are sorted by. -/
def RawEdge.sortKey {K : Type} (r : RawEdge K) : ℕ ×ₗ ℕ ×ₗ ℤ ×ₗ ℕ :=
  toLex (r.tail, toLex (r.head, toLex (r.way, r.key)))

section Rows

variable {K : Type} (G : MultiDiGraph K)

/-- `node_ids`. -/
def nodeIds : List ℤ := G.nodes.mergeSort fun a b => decide (a ≤ b)

/-- `node_index[osmid]`. -/
def nodeIndex (osmid : ℤ) : ℕ := (nodeIds G).idxOf osmid

/-- `raw_edges`. -/
def rawEdges : List (RawEdge K) :=
  (G.edges.map fun e => ⟨nodeIndex G e.u, nodeIndex G e.v, wayId e.data.osmid, e.key, e.data⟩)
    |>.mergeSort fun a b => decide (a.sortKey ≤ b.sortKey)

/-- The points of an edge, `(lat, lon)`: its line, or else its two ends. -/
def edgePoints (r : RawEdge K) : List (K × K) :=
  match r.data.geometry with
  | some line => line.coords.map Prod.swap
  | none =>
    let point := fun i => (G.y ((nodeIds G).getD i 0), G.x ((nodeIds G).getD i 0))
    [point r.tail, point r.head]

end Rows

/-- `node_out_ptr`: the out-degrees, each counted one entry up, summed. -/
def nodeOutPtr (numNodes : ℕ) (edgeTail : List ℕ) : List ℕ :=
  cumsum 0 (histogram (numNodes + 1) (edgeTail.map (succIndex (numNodes + 1))))

/-! ## The reverse map -/

section Reverse

variable (edgeTail edgeHead : List ℕ) (edgeOsmWay : List ℤ)

/-- The key of an edge in `by_endpoints`. -/
def endpoints (e : ℕ) : ℕ × ℕ × ℤ :=
  (edgeTail.getD e 0, edgeHead.getD e 0, edgeOsmWay.getD e 0)

/-- `by_endpoints[(head, tail, way)]`, in ascending order. -/
def reverseCands (e : ℕ) : List ℕ :=
  (List.range edgeHead.length).filter fun e2 => decide (endpoints edgeTail edgeHead edgeOsmWay e2 =
    (edgeHead.getD e 0, edgeTail.getD e 0, edgeOsmWay.getD e 0))

/-- One turn of the loop: the first candidate that is free takes the edge, and the edge it. -/
def matchReverse (rev : List (Option ℕ)) (e : ℕ) : List (Option ℕ) :=
  if rev.getD e none ≠ none then rev
  else
    match (reverseCands edgeTail edgeHead edgeOsmWay e).find? fun e2 =>
      decide (e2 ≠ e ∧ rev.getD e2 none = none) with
    | none => rev
    | some e2 => (rev.set e (some e2)).set e2 (some e)

/-- `edge_reverse`. -/
def edgeReverse : List (Option ℕ) :=
  (List.range edgeHead.length).foldl (matchReverse edgeTail edgeHead edgeOsmWay)
    (List.replicate edgeHead.length none)

end Reverse

/-! ## `build_pack` -/

section Build

variable {K : Type} [Field K] [LinearOrder K] [FloorRing K]
  (initialBearingDeg : K × K → K × K → K) (G : MultiDiGraph K)

/-- **`build_pack`.** -/
def buildPack : Except OverflowError (GraphPack K) := do
  let nodeOsmid ← asI64 (nodeIds G)
  let raw := rawEdges G
  let edgeTail ← asI32 (raw.map RawEdge.tail)
  let edgeHead ← asI32 (raw.map RawEdge.head)
  let edgeOsmWay ← asI64 (raw.map RawEdge.way)
  let geom := appendRows (raw.map (edgePoints G))
  let edgeGeomPtr ← asI32 geom.2
  let outPtr := nodeOutPtr nodeOsmid.length edgeTail
  let reverse := edgeReverse edgeTail edgeHead edgeOsmWay
  let bearings := edgeBearings initialBearingDeg geom.1 edgeGeomPtr
  let turns := buildTurnTable edgeHead reverse outPtr bearings.1 bearings.2
  let turnPtr ← asI32 turns.2
  return {
    nodeLat := nodeOsmid.map G.y
    nodeLon := nodeOsmid.map G.x
    nodeOsmid := nodeOsmid
    nodeOutPtr := outPtr
    edgeTail := edgeTail
    edgeHead := edgeHead
    edgeLengthM := raw.map fun r => r.data.length
    edgeReverse := reverse
    edgeBearingIn := bearings.1
    edgeBearingOut := bearings.2
    edgeOsmWay := edgeOsmWay
    edgeGeomPtr := edgeGeomPtr
    geomLat := geom.1.map Prod.fst
    geomLon := geom.1.map Prod.snd
    turnPtr := turnPtr
    turnOutEdge := turns.1.map Turn.outEdge
    turnManeuver := turns.1.map Turn.maneuver
    turnAngleDeg := turns.1.map Turn.angleDeg
    turnAllowed := turns.1.map Turn.allowed }

end Build

end RoutePlanner.Ingestion
