import RoutePlanner.Planner.Alternatives

/-!
# `pyref/engine.py`, `pyref/snap.py`, `pyref/metrics.py`: the router

Model of `Router.route` and `Router.reroute`: snap both endpoints, build the search inputs
(`resolve`), search, and describe the routes (`describe`, `computeMetrics`).

Two parts of the code are parameters of `Router`: `nearest` is the nearest point on the polylines
that `SnapIndex.snap` looks for (the twin candidate it adds is modelled in `snap`), and `heuristic`
is the straight-line bound of `costs.heuristic`. `costsAt` is `compute_costs` at the snapshot of a
departure time. `fuel` bounds the iterations of each search.
-/

namespace RoutePlanner.Planner

open RoutePlanner.Lib RoutePlanner.Search

variable {E T : ℕ} {K : Type} [Field K] [LinearOrder K] {Departure : Type}

/-- `SnapCandidate`: a point on a directed edge, at a fraction of its length. -/
structure SnapCandidate (E : ℕ) (K : Type) [Field K] [LinearOrder K] where
  edge : Fin E
  frac : K
  lat : K
  lon : K
  frac_nonneg : 0 ≤ frac
  frac_le_one : frac ≤ 1

/-- `RoutingError`. -/
inductive RoutingError where
  | originTooFar
  | destTooFar
  | noRoute
  deriving DecidableEq, Repr

/-- A response is checked by computing it. -/
instance decidableOk {α ε : Type} (o : Option (Except ε α)) (P : α → Prop) [DecidablePred P] :
    Decidable (∃ a, o = some (.ok a) ∧ P a) :=
  match o with
  | some (.ok a) => decidable_of_iff (P a) (by simp)
  | some (.error err) => isFalse (by simp)
  | none => isFalse (by simp)

/-- The text the user sees. -/
def RoutingError.text : RoutingError → String
  | .originTooFar => "origin is too far from any drivable road"
  | .destTooFar => "destination is too far from any drivable road"
  | .noRoute => "no route found between these points"

/-- `TrafficBasis`: the snapshot's account of what it was built from. -/
structure TrafficBasis (Departure : Type) where
  source : String
  asOf : Departure
  profileVersion : String
  deriving DecidableEq, Repr

/-- `Router`. -/
structure Router (E T : ℕ) (K : Type) [Field K] [LinearOrder K] (Departure : Type) where
  pack : Pack E T K
  alternatives : AltCfg K
  /-- `cfg["search"]["algo"] == "astar"`. -/
  astar : Bool
  impl : Impl E K
  nearest : K × K → Option (SnapCandidate E K)
  costsAt : Departure → QueryCosts pack
  heuristic : QueryCosts pack → K → K → Fin E → K
  /-- `cfg.sim_profile_version`. -/
  simProfileVersion : String

/-- The inputs shared by `route` and `reroute`. -/
structure Request (K : Type) (Departure : Type) where
  origin : K × K
  dest : K × K
  departure : Departure

/-- `_Plan`. -/
structure Plan (pack : Pack E T K) (Departure : Type) where
  endpoints : Endpoints pack
  oByEdge : Fin E → Option (SnapCandidate E K)
  dByEdge : Fin E → Option (SnapCandidate E K)
  sameEdge : Option (PathResult E T K)
  basis : TrafficBasis Departure

/-- The artifact's `preference`. -/
structure Preference (K : Type) (Departure : Type) where
  level : Level
  lam : K
  detourBudgetPct : K
  departureTime : Departure
  trafficBasis : TrafficBasis Departure

/-- `ROUTE_SCHEMA_VERSION`. -/
def routeSchemaVersion : ℕ := 2

/-- `RouteOut`. Geometry, segments, maneuvers and unsafe points are drawn from `result` between the
two fractions, which stand for them here. -/
structure RouteOut (E T : ℕ) (K : Type) (Departure : Type) where
  kind : Level
  result : PathResult E T K
  fracOrigin : K
  fracDest : K
  distanceM : K
  etaS : K
  controlDelayS : K
  unprotectedLeft : ℕ
  uncontrolledCrossing : ℕ
  preference : Preference K Departure
  detourPct : K
  schemaVersion : ℕ

/-- `unsafe["total"]`. -/
def RouteOut.unsafeTotal (r : RouteOut E T K Departure) : ℕ :=
  r.unprotectedLeft + r.uncontrolledCrossing

/-! ## Metrics -/

/-- The share of each edge of a route that is driven. -/
def share (n : ℕ) (fracOrigin fracDest : K) : List K :=
  ((List.replicate n 1).modifyHead (· - fracOrigin)).modifyLast (· - (1 - fracDest))

/-- `np.sum(w * share)` over the edges of a route. -/
def shareSum (w : Fin E → K) (edges : List (Fin E)) (fracOrigin fracDest : K) : K :=
  (List.zipWith (fun e s => w e * s) edges (share edges.length fracOrigin fracDest)).sum

/-- `RouteMetrics`. -/
structure RouteMetrics (K : Type) where
  distanceM : K
  etaS : K
  unprotectedLeft : ℕ
  uncontrolledCrossing : ℕ
  controlDelayS : K

/-- `compute_metrics`. -/
def computeMetrics (pack : Pack E T K) (qc : QueryCosts pack) (r : PathResult E T K)
    (fracOrigin fracDest : K) : RouteMetrics K where
  distanceM := shareSum pack.edgeLengthM (r.edges pack.topo.turnOutEdge) fracOrigin fracDest
  etaS := shareSum qc.edgeTimeS (r.edges pack.topo.turnOutEdge) fracOrigin fracDest +
    (r.turnIds.map qc.turnDelayS).sum
  unprotectedLeft := r.turnIds.countP fun t => qc.turnUnsafeType t = .left
  uncontrolledCrossing := r.turnIds.countP fun t => qc.turnUnsafeType t = .crossing
  controlDelayS := (r.turnIds.map qc.turnDelayS).sum

/-- `_with_detour_pct`: extra time relative to the fastest route of the response. -/
def withDetourPct (routes : List (RouteOut E T K Departure)) : List (RouteOut E T K Departure) :=
  let fastest := ((routes.map RouteOut.etaS).min?).getD 0
  if 0 < fastest then
    routes.map fun r => { r with detourPct := (r.etaS - fastest) / fastest }
  else routes

variable [IsStrictOrderedRing K]

/-- The reverse-direction twin: the same point, at the mirrored fraction. -/
def SnapCandidate.twin (c : SnapCandidate E K) (rev : Fin E) : SnapCandidate E K where
  edge := rev
  frac := 1 - c.frac
  lat := c.lat
  lon := c.lon
  frac_nonneg := sub_nonneg.mpr c.frac_le_one
  frac_le_one := sub_le_self 1 c.frac_nonneg

namespace Router

variable (R : Router E T K Departure)

/-- `SnapIndex.snap`. -/
def snap (pt : K × K) : List (SnapCandidate E K) :=
  match R.nearest pt with
  | none => []
  | some best =>
    best :: match R.pack.edgeReverse best.edge with
      | none => []
      | some rev => [best.twin rev]

/-- `{c.edge: c for c in cands}`. -/
def byEdge (cands : List (SnapCandidate E K)) (e : Fin E) : Option (SnapCandidate E K) :=
  dictGet (cands.map fun c => (c.edge, c)) e

/-- The same-edge short-circuit: the first origin candidate whose edge is also a destination
candidate's, at or past it. -/
def sameEdge (qc : QueryCosts R.pack) (oCands dCands : List (SnapCandidate E K)) :
    Option (PathResult E T K) :=
  oCands.findSome? fun oc =>
    match byEdge dCands oc.edge with
    | none => none
    | some dc =>
      if oc.frac ≤ dc.frac then
        some ⟨[], oc.edge, oc.edge, (dc.frac - oc.frac) * qc.edgeTimeS oc.edge⟩
      else none

/-- The search inputs for two lists of candidates. -/
def planOf (departure : Departure) (oCands : List (SnapCandidate E K))
    (d : SnapCandidate E K) (dCands : List (SnapCandidate E K)) : Plan R.pack Departure where
  endpoints :=
    let qc := R.costsAt departure
    { qc := qc
      seeds := oCands.map fun c => (c.edge, (1 - c.frac) * qc.edgeTimeS c.edge)
      dests := dCands.map fun c => (c.edge, (c.frac - 1) * qc.edgeTimeS c.edge)
      h := if R.astar = true then some (R.heuristic qc d.lat d.lon) else none }
  oByEdge := byEdge oCands
  dByEdge := byEdge dCands
  sameEdge := R.sameEdge (R.costsAt departure) oCands dCands
  basis := ⟨"synthetic", departure, R.simProfileVersion⟩

/-- `_resolve`. -/
def resolve (rq : Request K Departure) : Except RoutingError (Plan R.pack Departure) :=
  match R.snap rq.origin, R.snap rq.dest with
  | [], _ => .error .originTooFar
  | _ :: _, [] => .error .destTooFar
  | o :: os, d :: ds => .ok (R.planOf rq.departure (o :: os) d (d :: ds))

/-- `_shortest_path`, as the `run` of the planner. -/
def run (fuel : ℕ) : Run E T K := R.impl.run R.pack fuel

/-- `_describe`. The result's ends are candidate edges, so both lookups succeed. -/
def describe (p : Plan R.pack Departure) (kind : Level) (r : PathResult E T K) (lam budget : K)
    (departure : Departure) : RouteOut E T K Departure :=
  let fo := ((p.oByEdge r.firstEdge).map SnapCandidate.frac).getD 0
  let fd := ((p.dByEdge r.destEdge).map SnapCandidate.frac).getD 0
  let m := computeMetrics R.pack p.endpoints.qc r fo fd
  { kind := kind
    result := r
    fracOrigin := fo
    fracDest := fd
    distanceM := m.distanceM
    etaS := m.etaS
    controlDelayS := m.controlDelayS
    unprotectedLeft := m.unprotectedLeft
    uncontrolledCrossing := m.uncontrolledCrossing
    preference := ⟨kind, lam, budget, departure, p.basis⟩
    detourPct := 0
    schemaVersion := routeSchemaVersion }

/-- `lam_by_kind`. -/
def lamByKind (kind : Level) : K :=
  match kind with
  | .fast => R.alternatives.lambdaFast
  | .balanced => R.alternatives.lambdaBalanced
  | _ => R.alternatives.lambdaSafe

/-- `route`, from the plan on. -/
def routePlan (fuel : ℕ) (p : Plan R.pack Departure) (departure : Departure) (safetyEnabled : Bool)
    (detourBudgetPct : Option K) : Option (Except RoutingError (List (RouteOut E T K Departure))) :=
  let budget := detourBudgetPct.getD R.alternatives.detourBudgetPct
  match p.sameEdge with
  | some res =>
    some (.ok [R.describe p .fast res (R.lamByKind .fast) budget departure])
  | none =>
    (computeAlternatives (R.run fuel) R.alternatives p.endpoints safetyEnabled
      detourBudgetPct).map fun alts =>
        if alts.isEmpty = true then .error .noRoute
        else .ok (withDetourPct (alts.map fun a =>
          R.describe p a.kind a.result (R.lamByKind a.kind) budget departure))

/-- **`Router.route`.** -/
def route (fuel : ℕ) (rq : Request K Departure) (safetyEnabled : Bool)
    (detourBudgetPct : Option K) :
    Option (Except RoutingError (List (RouteOut E T K Departure))) :=
  match R.resolve rq with
  | .error err => some (.error err)
  | .ok p => R.routePlan fuel p rq.departure safetyEnabled detourBudgetPct

/-- `reroute`, from the plan on. -/
def reroutePlan (fuel : ℕ) (p : Plan R.pack Departure) (departure : Departure) (level : Level)
    (lam detourBudgetPct : K) : Option (Except RoutingError (RouteOut E T K Departure)) :=
  match p.sameEdge with
  | some res => some (.ok (R.describe p level res lam detourBudgetPct departure))
  | none =>
    (computeSingle (R.run fuel) R.alternatives p.endpoints level lam (some detourBudgetPct)).map
      fun
        | none => .error .noRoute
        | some res => .ok (R.describe p level res lam detourBudgetPct departure)

/-- **`Router.reroute`.** -/
def reroute (fuel : ℕ) (rq : Request K Departure) (level : Level) (lam detourBudgetPct : K) :
    Option (Except RoutingError (RouteOut E T K Departure)) :=
  match R.resolve rq with
  | .error err => some (.error err)
  | .ok p => R.reroutePlan fuel p rq.departure level lam detourBudgetPct

end Router

end RoutePlanner.Planner
