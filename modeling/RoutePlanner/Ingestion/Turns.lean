import Mathlib.Algebra.Field.Defs
import Mathlib.Algebra.Order.Floor.Defs
import Mathlib.Algebra.Order.Group.Unbundled.Abs
import RoutePlanner.Lib.Csr

/-!
# `ingestion/turns.py`: the turn table

Model of `edge_bearings`, `wrap_delta_deg`, `classify_maneuver` and `build_turn_table`. The bearing
between two points is a parameter; what is done with it is not.

Edges are numbers below `E`, in the order of the pack. Pointer arrays are `int32`: an index that is
one too large for it wraps round, and a negative index counts from the end (`succIndex`).
-/

namespace RoutePlanner.Ingestion

open RoutePlanner.Lib

/-! ## `int32` indices -/

/-- The `int32` of a number. -/
def wrapI32 (z : ℤ) : ℤ := z.bmod (2 ^ 32)

/-- Where `a[i]` looks, in an array of `len` entries. -/
def npIndex (len : ℕ) (i : ℤ) : ℕ := (if i < 0 then i + len else i).toNat

/-- Where `a[i + 1]` looks, for an `int32` index `i`. -/
def succIndex (len i : ℕ) : ℕ := npIndex len (wrapI32 (i + 1))

/-- Below the largest `int32`, that is the next entry. -/
theorem succIndex_eq (len : ℕ) {i : ℕ} (hi : i + 1 < 2 ^ 31) : succIndex len i = i + 1 := by
  have hj : wrapI32 (i + 1) = i + 1 := Int.bmod_eq_of_le (by omega) (by omega)
  rw [succIndex, hj, npIndex, if_neg (by omega)]
  omega

/-- The largest `int32` has the smallest as its successor. -/
theorem succIndex_max {len i : ℕ} (hi : i + 1 = 2 ^ 31) (hlen : 2 ^ 31 ≤ len) :
    succIndex len i = len - 2 ^ 31 := by
  have hj : wrapI32 (i + 1) = -2 ^ 31 := by
    have hcast : (i : ℤ) + 1 = 2 ^ 31 := by exact_mod_cast hi
    rw [hcast]
    decide
  rw [succIndex, hj, npIndex, if_pos (by omega)]
  omega

/-! ## Bearings -/

variable {K : Type}

section Bearings

variable [DecidableEq K] [Zero K] (initialBearingDeg : K × K → K × K → K)

/-- The first point other than `p`, or the last point. -/
def firstDistinct (p : K × K) : List (K × K) → K × K
  | [] => p
  | [q] => q
  | q :: r :: rest => if q = p then firstDistinct p (r :: rest) else q

/-- `bearing_in` of a polyline. -/
def bearingIn : List (K × K) → K
  | [] => 0
  | p :: rest => initialBearingDeg p (firstDistinct p rest)

/-- `bearing_out` of a polyline. -/
def bearingOut (pts : List (K × K)) : K :=
  match pts.reverse with
  | [] => 0
  | p :: rest => initialBearingDeg (firstDistinct p rest) p

/-- `pool[ptr[e]:ptr[e + 1]]`. -/
def polyline (pool : List (K × K)) (ptr : List ℕ) (e : ℕ) : List (K × K) :=
  (pool.drop (ptr.getD e 0)).take (ptr.getD (e + 1) 0 - ptr.getD e 0)

/-- `edge_bearings`. -/
def edgeBearings (pool : List (K × K)) (ptr : List ℕ) : List K × List K :=
  let lines := (List.range (ptr.length - 1)).map (polyline pool ptr)
  (lines.map (bearingIn initialBearingDeg), lines.map (bearingOut initialBearingDeg))

end Bearings

/-! ## Maneuvers -/

/-- `Maneuver`. -/
inductive Maneuver where
  | straight
  | left
  | right
  | uturn
  deriving DecidableEq, Repr

/-- One row of the turn table. -/
structure Turn (K : Type) where
  outEdge : ℕ
  maneuver : Maneuver
  angleDeg : K
  allowed : Bool
  deriving DecidableEq, Repr

section Maneuvers

variable [Field K] [LinearOrder K] [FloorRing K]

/-- `STRAIGHT_MAX_DEG`. -/
def straightMaxDeg : K := ((30 : ℕ) : K)

/-- `UTURN_MIN_DEG`. -/
def uturnMinDeg : K := ((150 : ℕ) : K)

/-- Python's `x % m` for a positive `m`. -/
def pyMod (x m : K) : K := x - m * (⌊x / m⌋ : ℤ)

/-- `wrap_delta_deg`. -/
def wrapDeltaDeg (delta : K) : K :=
  let d := pyMod (delta + ((180 : ℕ) : K)) ((360 : ℕ) : K) - ((180 : ℕ) : K)
  if d = -((180 : ℕ) : K) then ((180 : ℕ) : K) else d

/-- `classify_maneuver`. -/
def classifyManeuver (deltaDeg : K) (isReversePair : Bool) : Maneuver :=
  if isReversePair = true ∨ uturnMinDeg < |deltaDeg| then .uturn
  else if |deltaDeg| < straightMaxDeg then .straight
  else if 0 < deltaDeg then .right
  else .left

section Table

variable (edgeHead : List ℕ) (edgeReverse : List (Option ℕ)) (nodeOutPtr : List ℕ)
  (bearingIn bearingOut : List K)

/-- The turns out of edge `e`: one for each edge that leaves its head. -/
def turnsOf (e : ℕ) : List (Turn K) :=
  let head := edgeHead.getD e 0
  let lo := nodeOutPtr.getD head 0
  let hi := nodeOutPtr.getD (succIndex nodeOutPtr.length head) 0
  (List.range' lo (hi - lo)).map fun e2 =>
    let delta := wrapDeltaDeg (bearingIn.getD e2 0 - bearingOut.getD e 0)
    let man := classifyManeuver delta (decide (edgeReverse.getD e none = some e2))
    -- a U-turn is allowed at a dead end only
    ⟨e2, man, delta, decide (¬ (man = .uturn ∧ 1 < hi - lo))⟩

/-- `build_turn_table`: the rows, and `turn_ptr`. -/
def buildTurnTable : List (Turn K) × List ℕ :=
  appendRows ((List.range edgeHead.length).map
    (turnsOf edgeHead edgeReverse nodeOutPtr bearingIn bearingOut))

end Table

end Maneuvers

end RoutePlanner.Ingestion
