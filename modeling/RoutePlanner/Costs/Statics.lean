import Mathlib.Data.Rat.Floor
import Mathlib.Tactic.NormNum
import RoutePlanner.Costs.Gap
import RoutePlanner.Costs.Movements
import RoutePlanner.Planner.Costs

/-!
# `build_pack_statics`

Model of the half of the cost model that a departure time cannot change: norms, the leading terms of
the raw score, the control override as two multipliers, the crossing legs and the movement table.

* `control_masks_disjoint`: no turn takes two of the five override factors, so the code's check
  always passes.
* `buildPackStatics_ok_iff`: the only way to fail is a straight that reverses its in-edge.
-/

namespace RoutePlanner.Costs

open RoutePlanner.Lib
open RoutePlanner.Ingestion (Control ControlConfidence Maneuver)

variable {N E T : ℕ} {K : Type}

/-! ## Configuration -/

section Config

variable (K) [Field K] [LinearOrder K]

/-- `[cost]`. -/
structure CostCfg extends Planner.CostCfg K where
  wMan : K
  wSpeed : K
  wLanes : K
  wVol : K
  wMed : K
  speedNormMaxMps : K
  lanesNormMax : K
  volNormMaxVph : K
  severity : Maneuver → K
  stop4wayFactor : K
  yieldRowFactor : K
  yieldFactor : K
  rightOfWayFactor : K
  signalLeftFactor : K
  inferredConfidenceFactor : K

/-- `[busy]`. A class without a floor has `none`. -/
structure BusyCfg where
  aSpeed : K
  aLanes : K
  aVol : K
  busyThreshold : K
  majorLanesMin : K
  majorClassMax : RoadClass
  busyFloorByClass : RoadClass → Option K

/-- `[tiers]`. -/
structure TiersCfg where
  tauUnsafe : K
  tauCaution : K

/-- `Config`, the tables that the cost model reads. -/
structure Config where
  cost : CostCfg K
  busy : BusyCfg K
  tiers : TiersCfg K
  controlDelay : ControlDelayCfg K

end Config

/-- The tables of `config.toml`. -/
def shippedConfig : Config ℚ where
  cost :=
    { kPenaltyScaleS := 45
      uturnFixedPenaltyS := 30
      scale_nonneg := by norm_num
      uturn_nonneg := by norm_num
      wMan := 1
      wSpeed := 1 / 2
      wLanes := 3 / 10
      wVol := 3 / 5
      wMed := 2 / 5
      speedNormMaxMps := 139 / 5
      lanesNormMax := 3
      volNormMaxVph := 800
      severity := fun man => match man with
        | .straight => 3 / 5
        | .left => 1
        | .right => 3 / 20
        | .uturn => 6 / 5
      stop4wayFactor := 1 / 4
      yieldRowFactor := 7 / 20
      yieldFactor := 3 / 5
      rightOfWayFactor := 1 / 5
      signalLeftFactor := 7 / 20
      inferredConfidenceFactor := 1 / 2 }
  busy :=
    { aSpeed := 2 / 5
      aLanes := 3 / 10
      aVol := 3 / 10
      busyThreshold := 9 / 20
      majorLanesMin := 2
      majorClassMax := .secondary
      busyFloorByClass := fun rc => match rc with
        | .motorway | .trunk | .primary => some (1 / 2)
        | _ => none }
  tiers := { tauUnsafe := 4 / 5, tauCaution := 1 / 2 }
  controlDelay :=
    { tCCrossingS := 13 / 2
      tCLeftS := 71 / 10
      tCLeftWideS := 15 / 2
      leftWideLanesMin := 4
      tCRightS := 31 / 5
      tCPriorityLeftS := 41 / 10
      capS := 120
      signalMajorS := 8
      signalMinorS := 22
      allWayStopS := 6
      cap_nonneg := by norm_num
      signal_major_nonneg := by norm_num
      signal_minor_nonneg := by norm_num
      all_way_stop_nonneg := by norm_num }

/-! ## The statics -/

/-- `PackStatics`. -/
structure PackStatics (E T : ℕ) (K : Type) where
  spdN : Fin E → K
  lanesN : Fin E → K
  busyBase : Fin E → K
  busyFloor : Fin E → K
  edgeBig : Fin E → Bool
  vMaxMps : K
  rawBase : Fin T → K
  medTerm : Fin T → K
  isProtected : Fin T → Bool
  controlMult : Fin T → K
  guessedMult : Fin T → K
  isUturn : Fin T → Bool
  isLeft : Fin T → Bool
  isStraight : Fin T → Bool
  observed : Fin T → Bool
  ctrlNone : Fin T → Bool
  unprotectedApproach : Fin T → Bool
  crossBusyTurns : List (Fin T)
  crossBusyLegs : List (List (Option (Fin E)))
  crossMajorTurns : List (Fin T)
  crossMajorLegs : List (List (Option (Fin E)))
  delayFixedS : Fin T → K
  edgeLanes : Fin E → K
  gap : GapTable K
  delayCapS : K

section Masks

variable (pack : Pack N E T K)

def stop4 (t : Fin T) : Bool := pack.ctrl t = .stop4way

def straightOrRight (t : Fin T) : Bool := pack.isStraight t || pack.isRight t

def yieldRow (t : Fin T) : Bool := pack.yielding t && straightOrRight pack t

def yieldConflict (t : Fin T) : Bool := pack.yielding t && !straightOrRight pack t

/-- Cross traffic is held. -/
def hasRow (t : Fin T) : Bool :=
  signal pack t || (decide (pack.ctrl t = .stop2way) && !pack.mustStop t)

def rowReduce (t : Fin T) : Bool := hasRow pack t && straightOrRight pack t

def signalLeft (t : Fin T) : Bool := signal pack t && pack.isLeft t

/-- The masks that `control_mult` folds into one array. -/
def controlMasks : List (Fin T → Bool) :=
  [stop4 pack, yieldRow pack, yieldConflict pack, rowReduce pack, signalLeft pack]

/-- `_assert_disjoint`. -/
def disjointMasks (masks : List (Fin T → Bool)) : Bool :=
  (List.finRange T).all fun t => decide (masks.countP (fun m => m t) ≤ 1)

/-- A guess that makes the maneuver expensive. -/
def guessed (t : Fin T) : Bool :=
  (pack.ctrlNone t || pack.unprotectedApproach t) && !pack.observed t

/-- The gate of `cross_busy_turns`. -/
def busyGate (t : Fin T) : Bool := pack.isStraight t && pack.observed t && pack.ctrlNone t

/-- The gate of `cross_major_turns`. -/
def majorGate (t : Fin T) : Bool :=
  pack.isStraight t && pack.observed t && pack.unprotectedApproach t

end Masks

section Statics

variable [Field K] [LinearOrder K] (pack : Pack N E T K) (cfg : Config K)

/-- `_norm`. -/
def norm (x cap : K) : K := min (max (x / cap) 0) 1

/-- `pack.edge_speed_mps.max()`; of no edges at all `numpy` takes no maximum. -/
def vMaxMps : K :=
  match (List.finRange E).map pack.edgeSpeedMps with
  | [] => 0
  | v :: vs => vs.foldl max v

/-- `edge_big`. -/
def edgeBig (e : Fin E) : Bool :=
  decide (cfg.busy.majorLanesMin ≤ pack.edgeLanes e) ||
    decide (edgeRank pack e ≤ roadClassRank cfg.busy.majorClassMax)

/-- `raw_base`: severity, speed and lanes of the target edge. -/
def rawBase (t : Fin T) : K :=
  cfg.cost.wMan * cfg.cost.severity (pack.turnManeuver t) +
    cfg.cost.wSpeed * norm (pack.edgeSpeedMps (pack.out t)) cfg.cost.speedNormMaxMps +
    cfg.cost.wLanes * norm (pack.edgeLanes (pack.out t)) cfg.cost.lanesNormMax

/-- `control_mult`: of five assignments the last one wins. -/
def controlMult (t : Fin T) : K :=
  if signalLeft pack t = true then cfg.cost.signalLeftFactor
  else if rowReduce pack t = true then cfg.cost.rightOfWayFactor
  else if yieldConflict pack t = true then cfg.cost.yieldFactor
  else if yieldRow pack t = true then cfg.cost.yieldRowFactor
  else if stop4 pack t = true then cfg.cost.stop4wayFactor
  else 1

/-- The record that `build_pack_statics` returns. -/
def packStatics (crossBusy crossMajor : List (Fin T) × List (List (Option (Fin E)))) :
    PackStatics E T K where
  spdN e := norm (pack.edgeSpeedMps e) cfg.cost.speedNormMaxMps
  lanesN e := norm (pack.edgeLanes e) cfg.cost.lanesNormMax
  busyBase e :=
    cfg.busy.aSpeed * norm (pack.edgeSpeedMps e) cfg.cost.speedNormMaxMps +
      cfg.busy.aLanes * norm (pack.edgeLanes e) cfg.cost.lanesNormMax
  busyFloor e := (cfg.busy.busyFloorByClass (pack.edgeRoadClass e)).getD 0
  edgeBig := edgeBig pack cfg
  vMaxMps := vMaxMps pack
  rawBase := rawBase pack cfg
  medTerm t := cfg.cost.wMed * if pack.edgeMedian (pack.out t) = true then 1 else 0
  isProtected t := decide (pack.ctrl t = .signalProtected) || decide (pack.ctrl t = .roundabout)
  controlMult := controlMult pack cfg
  guessedMult t := if guessed pack t = true then cfg.cost.inferredConfidenceFactor else 1
  isUturn := pack.isUturn
  isLeft := pack.isLeft
  isStraight := pack.isStraight
  observed := pack.observed
  ctrlNone := pack.ctrlNone
  unprotectedApproach := pack.unprotectedApproach
  crossBusyTurns := crossBusy.1
  crossBusyLegs := crossBusy.2
  crossMajorTurns := crossMajor.1
  crossMajorLegs := crossMajor.2
  delayFixedS := delayFixedS pack cfg.controlDelay
  edgeLanes := pack.edgeLanes
  gap := gapTable pack cfg.controlDelay
  delayCapS := cfg.controlDelay.capS

/-- **`build_pack_statics`.** -/
def buildPackStatics : Except String (PackStatics E T K) := do
  if disjointMasks (controlMasks pack) = false then
    throw ("control-override masks overlap; they can no longer be folded into a " ++
      "single multiplier without changing results bitwise")
  let crossBusy ← crossingLegs pack (busyGate pack)
  let crossMajor ← crossingLegs pack (majorGate pack)
  return packStatics pack cfg crossBusy crossMajor

end Statics

/-! ## When it is built -/

section Built

variable {pack : Pack N E T K}

/-- **The override ladder**: no turn takes two of its factors. -/
theorem control_masks_disjoint (pack : Pack N E T K) :
    disjointMasks (controlMasks pack) = true := by
  unfold disjointMasks
  rw [List.all_eq_true]
  intro t _
  rw [decide_eq_true_eq]
  unfold controlMasks stop4 yieldRow yieldConflict rowReduce signalLeft hasRow signal
    straightOrRight Pack.yielding Pack.isStraight Pack.isRight Pack.isLeft
  -- each stage keys off another control, the two of a signal off another maneuver
  cases hctrl : pack.ctrl t <;> cases hman : pack.turnManeuver t <;>
    cases hstop : pack.mustStop t <;> simp [hctrl, hman, hstop]

variable [Field K] [LinearOrder K] {cfg : Config K} {st : PackStatics E T K}

theorem buildPackStatics_eq (pack : Pack N E T K) (cfg : Config K) :
    buildPackStatics pack cfg =
      (crossingLegs pack (busyGate pack)).bind fun crossBusy =>
        (crossingLegs pack (majorGate pack)).bind fun crossMajor =>
          .ok (packStatics pack cfg crossBusy crossMajor) := by
  unfold buildPackStatics
  rw [control_masks_disjoint, if_neg (by decide)]
  rfl

/-- **When the statics are built**: no straight leaves along the reverse of its in-edge. -/
theorem buildPackStatics_ok_iff (pack : Pack N E T K) (cfg : Config K) :
    (∃ st, buildPackStatics pack cfg = .ok st) ↔ ∀ t, straightReversal pack t = false := by
  rw [buildPackStatics_eq]
  constructor
  · rintro ⟨st, hst⟩ t
    by_contra ht
    have hany : (List.finRange T).any (straightReversal pack) = true :=
      List.any_eq_true.mpr ⟨t, List.mem_finRange t, by simpa using ht⟩
    unfold crossingLegs at hst
    rw [if_pos hany] at hst
    exact nomatch hst
  · intro h
    obtain ⟨busyTurns, busyRow, hbusy, -⟩ := crossingLegs_ok h (busyGate pack)
    obtain ⟨majorTurns, majorRow, hmajor, -⟩ := crossingLegs_ok h (majorGate pack)
    rw [hbusy, hmajor]
    exact ⟨_, rfl⟩

/-- What is built is the record. -/
theorem exists_packStatics (h : buildPackStatics pack cfg = .ok st) :
    ∃ crossBusy crossMajor, st = packStatics pack cfg crossBusy crossMajor := by
  rw [buildPackStatics_eq] at h
  cases hb : crossingLegs pack (busyGate pack) with
  | error e =>
    rw [hb] at h
    exact nomatch h
  | ok crossBusy =>
    cases hm : crossingLegs pack (majorGate pack) with
    | error e =>
      rw [hb, hm] at h
      exact nomatch h
    | ok crossMajor =>
      rw [hb, hm] at h
      exact ⟨crossBusy, crossMajor, (Except.ok.inj h).symm⟩

end Built

end RoutePlanner.Costs
