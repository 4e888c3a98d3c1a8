import Mathlib.Algebra.Order.Field.Rat
import Mathlib.Data.Fin.VecNotation
import Mathlib.Data.Fintype.Basic
import RoutePlanner.Ingestion.ApproachControls
import RoutePlanner.Ingestion.Turns
import RoutePlanner.Lib.Padded
import RoutePlanner.Search.Basic

/-!
# What the cost model reads of a pack

Model of the parts of `pyref/graph.py` that `pyref/costs.py` rests on, and of the masks over turns
that it starts from. The control of a turn is the one that its in-edge meets.

* `mem_nodeIn`: the incoming edges of a node, as `_group_padded` lists them.
* `mem_feeders`: the straight feeders of an edge.
-/

namespace RoutePlanner.Costs

open RoutePlanner.Lib RoutePlanner.Search
open RoutePlanner.Ingestion (Control ControlConfidence Maneuver)

variable {N E T : ℕ} {K : Type}

/-! ## The pack -/

/-- `RoadClass`. -/
inductive RoadClass where
  | motorway
  | trunk
  | primary
  | secondary
  | tertiary
  | residential
  | unclassified
  | service
  | livingStreet
  | motorwayLink
  | trunkLink
  | primaryLink
  | secondaryLink
  | tertiaryLink
  deriving DecidableEq, Repr

/-- `ROAD_CLASS_RANK`: lower is more major, links share their parent's. -/
def roadClassRank (rc : RoadClass) : ℕ :=
  match rc with
  | .motorway | .motorwayLink => 0
  | .trunk | .trunkLink => 1
  | .primary | .primaryLink => 2
  | .secondary | .secondaryLink => 3
  | .tertiary | .tertiaryLink => 4
  | .unclassified => 5
  | .residential => 6
  | .livingStreet => 7
  | .service => 8

/-- `GraphPack`, the arrays that the cost model reads; `none` in `edgeReverse` is `-1`. -/
structure Pack (N E T : ℕ) (K : Type) where
  topo : TurnTopo E T
  edgeTail : Fin E → Fin N
  edgeHead : Fin E → Fin N
  edgeLengthM : Fin E → K
  edgeSpeedMps : Fin E → K
  edgeLanes : Fin E → K
  edgeMedian : Fin E → Bool
  edgeRoadClass : Fin E → RoadClass
  edgeReverse : Fin E → Option (Fin E)
  edgeApproachControl : Fin E → Control
  edgeMustStop : Fin E → Bool
  edgeControlConfidence : Fin E → ControlConfidence
  turnManeuver : Fin T → Maneuver
  /-- `validate` checks it. -/
  turn_adjacent : ∀ t, edgeTail (topo.turnOutEdge t) = edgeHead (topo.turnInEdge t)

namespace Pack

variable (pack : Pack N E T K)

/-- `inn[t]`. -/
def inn (t : Fin T) : Fin E := pack.topo.turnInEdge t

/-- `out[t]`. -/
def out (t : Fin T) : Fin E := pack.topo.turnOutEdge t

/-- `rev[out[t]]`. -/
def revOut (t : Fin T) : Option (Fin E) := pack.edgeReverse (pack.out t)

/-- `ctrl[t]`. -/
def ctrl (t : Fin T) : Control := pack.edgeApproachControl (pack.inn t)

/-- `must_stop[t]`. -/
def mustStop (t : Fin T) : Bool := pack.edgeMustStop (pack.inn t)

def observed (t : Fin T) : Bool := pack.edgeControlConfidence (pack.inn t) = .observed

def isStraight (t : Fin T) : Bool := pack.turnManeuver t = .straight

def isLeft (t : Fin T) : Bool := pack.turnManeuver t = .left

def isRight (t : Fin T) : Bool := pack.turnManeuver t = .right

def isUturn (t : Fin T) : Bool := pack.turnManeuver t = .uturn

def ctrlNone (t : Fin T) : Bool := pack.ctrl t = .none

def yielding (t : Fin T) : Bool := pack.ctrl t = .yield

/-- `STOP_2WAY` or `YIELD`. -/
def twoWay (t : Fin T) : Bool := pack.ctrl t = .stop2way || pack.yielding t

/-- The approach holds a stop or give-way line. -/
def unprotectedApproach (t : Fin T) : Bool := pack.twoWay t && pack.mustStop t

/-- `edge_reverse` is a partial involution that turns an edge round. -/
def ReverseValid : Prop :=
  ∀ e r, pack.edgeReverse e = some r →
    pack.edgeReverse r = some e ∧ pack.edgeTail r = pack.edgeHead e ∧
      pack.edgeHead r = pack.edgeTail e

/-! ## Grouped edges -/

/-- `node_in`: the incoming edges of each node, padded. -/
def nodeIn : List (List (Option (Fin E))) :=
  groupPadded ((List.finRange E).map fun e => (pack.edgeHead e : ℕ)) (List.finRange E) N

theorem mem_nodeIn {n : ℕ} {e : Fin E} :
    some e ∈ pack.nodeIn.getD n [] ↔ (pack.edgeHead e : ℕ) = n := by
  have hmem : some e ∈ (groupPadded ((List.finRange E).map fun e => (pack.edgeHead e : ℕ))
      ((List.finRange E).map id) N).getD n [] ↔ _ :=
    mem_groupPadded fun e _ => (pack.edgeHead e).isLt
  rw [List.map_id] at hmem
  refine hmem.trans ⟨?_, fun h => ⟨e, List.mem_finRange e, h, rfl⟩⟩
  rintro ⟨x, -, hkey, rfl⟩
  exact hkey

/-- The straight turns, in order. -/
def straightTurns : List (Fin T) := (List.finRange T).filter pack.isStraight

theorem mem_finRange_filter {n : ℕ} {p : Fin n → Bool} {i : Fin n} :
    i ∈ (List.finRange n).filter p ↔ p i = true := by
  rw [List.mem_filter]
  exact and_iff_right (List.mem_finRange i)

theorem mem_straightTurns {t : Fin T} :
    t ∈ pack.straightTurns ↔ pack.turnManeuver t = .straight :=
  mem_finRange_filter.trans decide_eq_true_iff

/-- `feeders`: the edges whose straight turn leaves along each edge, padded. -/
def feeders : List (List (Option (Fin E))) :=
  groupPadded (pack.straightTurns.map fun t => (pack.out t : ℕ)) (pack.straightTurns.map pack.inn) E

/-- Edge `f` feeds edge `o` straight on. -/
def Feeds (f o : Fin E) : Prop :=
  ∃ t, pack.turnManeuver t = .straight ∧ pack.inn t = f ∧ pack.out t = o

instance (f o : Fin E) : Decidable (pack.Feeds f o) :=
  inferInstanceAs (Decidable (∃ t, pack.turnManeuver t = .straight ∧ pack.inn t = f ∧
    pack.out t = o))

theorem mem_feeders {o f : Fin E} :
    some f ∈ pack.feeders.getD o [] ↔ pack.Feeds f o := by
  refine (mem_groupPadded fun _ _ => Fin.isLt _).trans ?_
  constructor
  · rintro ⟨t, ht, hout, hinn⟩
    exact ⟨t, pack.mem_straightTurns.mp ht, hinn, Fin.ext hout⟩
  · rintro ⟨t, hst, hinn, hout⟩
    exact ⟨t, pack.mem_straightTurns.mpr hst, congrArg Fin.val hout, hinn⟩

end Pack

local instance neZeroFive : NeZero 5 := ⟨by decide⟩

local instance neZeroSix : NeZero 6 := ⟨by decide⟩

/-- A one-way street northwards across a two-way arterial, with stop signs on the street. The nodes
are the centre, east, north, south and west; the edges are sorted by tail. -/
def crossTown : Pack 5 6 11 ℚ where
  topo :=
    { turnPtr := ![0, 1, 1, 2, 5, 8, 11]
      turnInEdge := ![0, 2, 3, 3, 3, 4, 4, 4, 5, 5, 5]
      turnOutEdge := ![3, 5, 0, 1, 2, 0, 1, 2, 0, 1, 2]
      turnAllowed := ![true, true, false, true, true, true, true, true, true, true, false]
      csr := by decide }
  edgeTail := ![0, 0, 0, 1, 3, 4]
  edgeHead := ![1, 2, 4, 0, 0, 0]
  edgeLengthM := fun _ => 500
  edgeSpeedMps := ![15, 10, 15, 15, 10, 15]
  edgeLanes := ![2, 1, 2, 2, 1, 2]
  edgeMedian := fun _ => false
  edgeRoadClass := ![.primary, .residential, .primary, .primary, .residential, .primary]
  edgeReverse := ![some 3, none, some 5, some 0, none, some 2]
  edgeApproachControl := ![.none, .none, .none, .stop2way, .stop2way, .stop2way]
  edgeMustStop := ![false, false, false, false, true, false]
  edgeControlConfidence := ![.unknown, .unknown, .unknown, .observed, .observed, .observed]
  turnManeuver := ![.uturn, .uturn, .uturn, .right, .straight, .right, .straight, .left, .straight,
    .left, .uturn]
  turn_adjacent := by decide

theorem crossTown_reverseValid : crossTown.ReverseValid := by
  unfold Pack.ReverseValid
  decide

end RoutePlanner.Costs
