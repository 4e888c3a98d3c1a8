import RoutePlanner.Planner.Sweep

/-!
# Does every route drive forward?

A route drives forward when it leads from the origin's point to the destination's in travel order,
with a non-negative ETA and distance (`Drives`).

* `drives_of_journey`: every walk that takes a turn does.
* `drives_iff`: all routes and reroutes of a query do, unless origin and destination share an edge
  of positive length with the destination upstream and the same-edge short-circuit does not apply.
  There the negative destination adjustment pays for a route that never leaves the edge.
-/

namespace RoutePlanner.Planner

open RoutePlanner.Lib RoutePlanner.Search

variable {E T : ℕ} {K : Type} [Field K] [LinearOrder K] [IsStrictOrderedRing K] {Departure : Type}

/-- The budgets `RouteRequest` accepts: `Field(default=None, ge=0.0, le=2.0)`. -/
def AcceptedBudget (budget : Option K) : Prop := ∀ b ∈ budget, 0 ≤ b ∧ b ≤ (2 : ℕ)

/-- A route from the origin's snapped point to the destination's, in travel order. -/
structure Drives (R : Router E T K Departure) (rq : Request K Departure)
    (r : RouteOut E T K Departure) : Prop where
  eta_nonneg : 0 ≤ r.etaS
  distance_nonneg : 0 ≤ r.distanceM
  walk : R.pack.topo.graph.IsWalk r.result.firstEdge r.result.turnIds r.result.destEdge
  ends : ∃ oc ∈ R.snap rq.origin, ∃ dc ∈ R.snap rq.dest,
    oc.edge = r.result.firstEdge ∧ dc.edge = r.result.destEdge ∧
    r.fracOrigin = oc.frac ∧ r.fracDest = dc.frac ∧
    (r.result.turnIds = [] →
      oc.frac * R.pack.edgeLengthM oc.edge ≤ dc.frac * R.pack.edgeLengthM dc.edge)

/-- Origin and destination share an edge, and the short-circuit applies to it. -/
def Router.Downstream (R : Router E T K Departure) (rq : Request K Departure) : Prop :=
  ∃ oc ∈ R.snap rq.origin, ∃ dc ∈ R.snap rq.dest, oc.edge = dc.edge ∧ oc.frac ≤ dc.frac

/-- Origin and destination share an edge of positive length, the destination upstream. -/
def Router.Upstream (R : Router E T K Departure) (rq : Request K Departure) : Prop :=
  ∃ oc ∈ R.snap rq.origin, ∃ dc ∈ R.snap rq.dest, oc.edge = dc.edge ∧ dc.frac < oc.frac ∧
    0 < R.pack.edgeLengthM oc.edge

section Drives

variable (R : Router E T K Departure) {rq : Request K Departure} {p : Plan R.pack Departure}

/-- The fractions and the ends of a described walk. -/
theorem describe_ends (hp : R.resolve rq = .ok p) {r : PathResult E T K} {oc dc : SnapCandidate E K}
    (ho : p.oByEdge r.firstEdge = some oc) (hd : p.dByEdge r.destEdge = some dc) (kind : Level)
    (lam budget : K) (departure : Departure) :
    (R.describe p kind r lam budget departure).fracOrigin = oc.frac ∧
      (R.describe p kind r lam budget departure).fracDest = dc.frac ∧
      (oc ∈ R.snap rq.origin ∧ oc.edge = r.firstEdge) ∧
      (dc ∈ R.snap rq.dest ∧ dc.edge = r.destEdge) := by
  obtain ⟨-, hoBy, hdBy, -⟩ := R.resolve_ok hp
  rw [hoBy] at ho
  rw [hdBy] at hd
  refine ⟨?_, ?_, (byEdge_eq_some_iff (R.snap_nodup _)).mp ho,
    (byEdge_eq_some_iff (R.snap_nodup _)).mp hd⟩
  · unfold Router.describe
    simp only [hoBy, ho, Option.map_some, Option.getD_some]
  · unfold Router.describe
    simp only [hdBy, hd, Option.map_some, Option.getD_some]

/-- **A walk that takes a turn drives forward.** -/
theorem drives_of_journey (hp : R.resolve rq = .ok p) {ac : Fin T → K} {r : PathResult E T K}
    {g adj : K} (hj : IsJourney (p.endpoints.query ac) r.firstEdge g r.turnIds r.destEdge adj)
    (hne : r.turnIds ≠ []) (kind : Level) (lam budget : K) (departure : Departure) :
    Drives R rq (R.describe p kind r lam budget departure) := by
  obtain ⟨hsnap, -⟩ := R.resolve_ok hp
  obtain ⟨oc, dc, ho, hd, -, -, hw⟩ := hsnap.journey hj
  obtain ⟨hfo, hfd, hoc, hdc⟩ := describe_ends R hp ho hd kind lam budget departure
  refine ⟨?_, ?_, hw, oc, hoc.1, dc, hdc.1, hoc.2, hdc.2, hfo, hfd, fun h => absurd h hne⟩
  · rw [describe_etaS R hsnap hj, hsnap.travelTimeS_eq hj]
    exact hsnap.time_nonneg hj hne
  · have hdist := computeMetrics_distanceM_nonneg p.endpoints.qc r hw hne oc.frac_le_one
      dc.frac_nonneg
    rw [← hfo, ← hfd] at hdist
    exact hdist

omit [IsStrictOrderedRing K] in
/-- The metrics of a route that stays on one edge. -/
theorem describe_nil {e : Fin E} (cost : K)
    {oc dc : SnapCandidate E K} (ho : p.oByEdge e = some oc) (hd : p.dByEdge e = some dc)
    (kind : Level) (lam budget : K) (departure : Departure) :
    (R.describe p kind ⟨[], e, e, cost⟩ lam budget departure).etaS =
        (dc.frac - oc.frac) * p.endpoints.qc.edgeTimeS e ∧
      (R.describe p kind ⟨[], e, e, cost⟩ lam budget departure).distanceM =
        (dc.frac - oc.frac) * R.pack.edgeLengthM e := by
  have hsum : ∀ w : Fin E → K, shareSum w [e] oc.frac dc.frac = (dc.frac - oc.frac) * w e := by
    intro w
    rw [shareSum_eq w [] e e rfl, List.map_nil, List.sum_nil]
    ring
  unfold Router.describe computeMetrics PathResult.edges
  simp only [ho, hd, Option.map_some, Option.getD_some, List.map_nil, List.sum_nil, add_zero, hsum,
    and_self]

/-- A route that stays on one edge drives forward if the destination is downstream, or the edge has
no length. -/
theorem drives_nil (hp : R.resolve rq = .ok p) {e : Fin E} {cost : K} {oc dc : SnapCandidate E K}
    (ho : p.oByEdge e = some oc) (hd : p.dByEdge e = some dc)
    (hle : oc.frac ≤ dc.frac ∨ R.pack.edgeLengthM e = 0) (kind : Level) (lam budget : K)
    (departure : Departure) :
    Drives R rq (R.describe p kind ⟨[], e, e, cost⟩ lam budget departure) := by
  obtain ⟨heta, hdist⟩ := describe_nil R cost ho hd kind lam budget departure
  obtain ⟨hfo, hfd, ⟨hoc, hoe⟩, hdc, hde⟩ :=
    describe_ends R hp (r := ⟨[], e, e, cost⟩) ho hd kind lam budget departure
  have hforward : 0 ≤ (dc.frac - oc.frac) * R.pack.edgeLengthM e := by
    rcases hle with hle | hlen
    · exact mul_nonneg (sub_nonneg.mpr hle) (R.pack.length_nonneg e)
    · rw [hlen, mul_zero]
  have htime : 0 ≤ (dc.frac - oc.frac) * p.endpoints.qc.edgeTimeS e := by
    rcases hle with hle | hlen
    · exact mul_nonneg (sub_nonneg.mpr hle) (p.endpoints.qc.edge_time_nonneg e)
    · rw [(p.endpoints.qc.edge_time_eq_zero e).mpr hlen, mul_zero]
  refine ⟨heta.symm ▸ htime, hdist.symm ▸ hforward, rfl, oc, hoc, dc, hdc, hoe, hde, hfo, hfd,
    fun _ => ?_⟩
  have hoe' : oc.edge = e := hoe
  have hde' : dc.edge = e := hde
  rw [hoe', hde']
  exact sub_nonneg.mp (by rwa [← sub_mul])

/-- **Every answer of a plan drives forward**, when the condition holds. -/
theorem drives_answer (hp : R.resolve rq = .ok p) (hsame : p.sameEdge = none)
    (hup : ¬ R.Upstream rq) {ac : Fin T → K} {r : PathResult E T K}
    (hA : Answer (p.endpoints.query ac) (some r)) (kind : Level) (lam budget : K)
    (departure : Departure) :
    Drives R rq (R.describe p kind r lam budget departure) := by
  obtain ⟨hsnap, hoBy, hdBy, -⟩ := R.resolve_ok hp
  obtain ⟨g, adj, hj, -⟩ := hA.sound r rfl
  by_cases hne : r.turnIds = []
  · obtain ⟨ts, a, b, cost⟩ := r
    obtain rfl : ts = [] := hne
    obtain ⟨oc, dc, ho, hd, -, -, hw⟩ := hsnap.journey hj
    obtain rfl : a = b := hw
    -- the short-circuit did not apply, so the destination is upstream on this edge
    have hlt := hsnap.same_none hsame a oc dc ho hd
    have hlen : R.pack.edgeLengthM a = 0 := by
      obtain ⟨hoc, hoe⟩ := (byEdge_eq_some_iff (R.snap_nodup _)).mp (hoBy ▸ ho)
      obtain ⟨hdc, hde⟩ := (byEdge_eq_some_iff (R.snap_nodup _)).mp (hdBy ▸ hd)
      by_contra hlen
      refine hup ⟨oc, hoc, dc, hdc, hoe.trans hde.symm, hlt, ?_⟩
      rw [hoe]
      exact lt_of_le_of_ne (R.pack.length_nonneg a) (Ne.symm hlen)
    exact drives_nil R hp ho hd (Or.inr hlen) kind lam budget departure
  · exact drives_of_journey R hp hj hne kind lam budget departure

end Drives

/-! ## Exactly when -/

/-- Both endpoints snapped: the query has a plan. -/
theorem Router.resolve_of_mem (R : Router E T K Departure) {rq : Request K Departure}
    {oc dc : SnapCandidate E K} (ho : oc ∈ R.snap rq.origin) (hd : dc ∈ R.snap rq.dest) :
    ∃ p, R.resolve rq = .ok p := by
  unfold resolve
  cases hos : R.snap rq.origin with
  | nil => exact absurd (hos ▸ ho) List.not_mem_nil
  | cons o os =>
    cases hds : R.snap rq.dest with
    | nil => exact absurd (hds ▸ hd) List.not_mem_nil
    | cons d ds => exact ⟨_, rfl⟩

/-- **The short-circuit applies exactly to the downstream queries.** -/
theorem Router.sameEdge_isSome_iff (R : Router E T K Departure) {rq : Request K Departure}
    {p : Plan R.pack Departure} (hp : R.resolve rq = .ok p) :
    (∃ r, p.sameEdge = some r) ↔ R.Downstream rq := by
  obtain ⟨hsnap, hoBy, hdBy, -⟩ := R.resolve_ok hp
  constructor
  · rintro ⟨r, hr⟩
    obtain ⟨e, oc, dc, ho, hd, hle, -⟩ := hsnap.same_some r hr
    obtain ⟨hoc, hoe⟩ := (byEdge_eq_some_iff (R.snap_nodup _)).mp (hoBy ▸ ho)
    obtain ⟨hdc, hde⟩ := (byEdge_eq_some_iff (R.snap_nodup _)).mp (hdBy ▸ hd)
    exact ⟨oc, hoc, dc, hdc, hoe.trans hde.symm, hle⟩
  · rintro ⟨oc, hoc, dc, hdc, heq, hle⟩
    cases hs : p.sameEdge with
    | some r => exact ⟨r, rfl⟩
    | none =>
      have ho : p.oByEdge oc.edge = some oc :=
        hoBy ▸ (byEdge_eq_some_iff (R.snap_nodup _)).mpr ⟨hoc, rfl⟩
      have hd : p.dByEdge oc.edge = some dc :=
        hdBy ▸ (byEdge_eq_some_iff (R.snap_nodup _)).mpr ⟨hdc, heq.symm⟩
      exact absurd (hsnap.same_none hs _ oc dc ho hd) (not_lt.mpr hle)

omit [IsStrictOrderedRing K] in
/-- `_with_detour_pct` fills in one field. -/
theorem mem_withDetourPct {routes : List (RouteOut E T K Departure)}
    {r : RouteOut E T K Departure} (h : r ∈ withDetourPct routes) :
    ∃ r' ∈ routes, r = { r' with detourPct := r.detourPct } := by
  unfold withDetourPct at h
  simp only at h
  split at h
  · obtain ⟨r', hr', rfl⟩ := List.mem_map.mp h
    exact ⟨r', hr', rfl⟩
  · exact ⟨r, h, rfl⟩

/-- **What `route` answers**: the short-circuit, or the described alternatives. -/
theorem Router.route_cases (R : Router E T K Departure) {fuel : ℕ} {rq : Request K Departure}
    {safetyEnabled : Bool} {budget : Option K} {routes : List (RouteOut E T K Departure)}
    (h : R.route fuel rq safetyEnabled budget = some (.ok routes)) :
    ∃ p, R.resolve rq = .ok p ∧
      ((∃ res, p.sameEdge = some res ∧ routes = [R.describe p .fast res (R.lamByKind .fast)
          (budget.getD R.alternatives.detourBudgetPct) rq.departure]) ∨
        (p.sameEdge = none ∧ ∃ alts, computeAlternatives (R.run fuel) R.alternatives p.endpoints
            safetyEnabled budget = some alts ∧ alts ≠ [] ∧
          routes = withDetourPct (alts.map fun a => R.describe p a.kind a.result
            (R.lamByKind a.kind) (budget.getD R.alternatives.detourBudgetPct) rq.departure))) := by
  unfold route at h
  cases hp : R.resolve rq with
  | error err =>
    rw [hp] at h
    exact absurd h (by simp)
  | ok p =>
    rw [hp] at h
    simp only at h
    unfold routePlan at h
    refine ⟨p, rfl, ?_⟩
    cases hsame : p.sameEdge with
    | some res =>
      rw [hsame] at h
      simp only [Option.some.injEq, Except.ok.injEq] at h
      exact Or.inl ⟨res, rfl, h.symm⟩
    | none =>
      rw [hsame] at h
      obtain ⟨alts, halts, h⟩ := Option.map_eq_some_iff.mp h
      by_cases hempty : alts.isEmpty = true
      · rw [if_pos hempty] at h
        exact absurd h (by simp)
      · rw [if_neg hempty, Except.ok.injEq] at h
        exact Or.inr ⟨rfl, alts, halts, fun hnil => hempty (by rw [hnil]; rfl), h.symm⟩

/-- What `reroute` answers. -/
theorem Router.reroute_cases (R : Router E T K Departure) {fuel : ℕ} {rq : Request K Departure}
    {level : Level} {lam budget : K} {r : RouteOut E T K Departure}
    (h : R.reroute fuel rq level lam budget = some (.ok r)) :
    ∃ p, R.resolve rq = .ok p ∧
      ((∃ res, p.sameEdge = some res ∧ r = R.describe p level res lam budget rq.departure) ∨
        (p.sameEdge = none ∧ ∃ res, computeSingle (R.run fuel) R.alternatives p.endpoints level lam
            (some budget) = some (some res) ∧
          r = R.describe p level res lam budget rq.departure)) := by
  unfold reroute at h
  cases hp : R.resolve rq with
  | error err =>
    rw [hp] at h
    exact absurd h (by simp)
  | ok p =>
    rw [hp] at h
    simp only at h
    unfold reroutePlan at h
    refine ⟨p, rfl, ?_⟩
    cases hsame : p.sameEdge with
    | some res =>
      rw [hsame] at h
      simp only [Option.some.injEq, Except.ok.injEq] at h
      exact Or.inl ⟨res, rfl, h.symm⟩
    | none =>
      rw [hsame] at h
      obtain ⟨o, ho, h⟩ := Option.map_eq_some_iff.mp h
      cases o with
      | none => exact absurd h (by simp)
      | some res => exact Or.inr ⟨rfl, res, ho, (Except.ok.inj h).symm⟩

/-- All routes and reroutes of a query drive forward. -/
def Router.DrivesForward (R : Router E T K Departure) (rq : Request K Departure) : Prop :=
  (∀ fuel safetyEnabled budget routes, AcceptedBudget budget →
    R.route fuel rq safetyEnabled budget = some (.ok routes) → ∀ r ∈ routes, Drives R rq r) ∧
  ∀ fuel level lam budget r, R.reroute fuel rq level lam budget = some (.ok r) → Drives R rq r

section Forward

variable (R : Router E T K Departure) {rq : Request K Departure} {p : Plan R.pack Departure}

theorem drives_sameEdge (hp : R.resolve rq = .ok p) {r : PathResult E T K}
    (hr : p.sameEdge = some r) (kind : Level) (lam budget : K) (departure : Departure) :
    Drives R rq (R.describe p kind r lam budget departure) := by
  obtain ⟨e, oc, dc, ho, hd, hle, rfl⟩ := (R.resolve_ok hp).1.same_some r hr
  exact drives_nil R hp ho hd (Or.inl hle) kind lam budget departure

theorem drives_found (hp : R.resolve rq = .ok p) (hsame : p.sameEdge = none)
    (hup : ¬ R.Upstream rq) {fuel : ℕ} {r : PathResult E T K}
    (hfound : Found (R.run fuel) p.endpoints r) (kind : Level) (lam budget : K)
    (departure : Departure) : Drives R rq (R.describe p kind r lam budget departure) := by
  obtain ⟨ac, hac⟩ := hfound
  exact drives_answer R hp hsame hup (runOn_answer R.impl p.endpoints hac) kind lam budget departure

/-- The condition is enough. -/
theorem drivesForward_of (hcond : R.Downstream rq ∨ ¬ R.Upstream rq) : R.DrivesForward rq := by
  have hup : ∀ p, R.resolve rq = .ok p → p.sameEdge = none → ¬ R.Upstream rq := by
    intro p hp hsame
    refine hcond.resolve_left fun hdown => ?_
    obtain ⟨r, hr⟩ := (R.sameEdge_isSome_iff hp).mpr hdown
    exact absurd (hr.symm.trans hsame) (by simp)
  constructor
  · intro fuel safetyEnabled budget routes _ h r hr
    obtain ⟨p, hp, ⟨res, hsame, rfl⟩ | ⟨hsame, alts, halts, -, rfl⟩⟩ := R.route_cases h
    · rw [List.mem_singleton.mp hr]
      exact drives_sameEdge R hp hsame _ _ _ _
    · obtain ⟨r', hr', heq⟩ := mem_withDetourPct hr
      obtain ⟨a, ha, rfl⟩ := List.mem_map.mp hr'
      obtain ⟨h1, h2, h3, h4⟩ := drives_found R hp hsame (hup p hp hsame)
        (found_of_mem halts a ha) a.kind (R.lamByKind a.kind)
        (budget.getD R.alternatives.detourBudgetPct) rq.departure
      rw [heq]
      exact ⟨h1, h2, h3, h4⟩
  · intro fuel level lam budget r h
    obtain ⟨p, hp, ⟨res, hsame, rfl⟩ | ⟨hsame, res, hres, rfl⟩⟩ := R.reroute_cases h
    · exact drives_sameEdge R hp hsame _ _ _ _
    · exact drives_found R hp hsame (hup p hp hsame) (computeSingle_found hres) _ _ _ _

/-- **A destination upstream on a shared edge is reached in negative time**, by the reroute at
lambda `0`. -/
theorem reroute_eta_neg (hdown : ¬ R.Downstream rq) (hup : R.Upstream rq) (budget : K) :
    ∃ fuel r, R.reroute fuel rq .fast 0 budget = some (.ok r) ∧ r.etaS < 0 := by
  obtain ⟨oc, hoc, dc, hdc, heq, hlt, hlen⟩ := hup
  obtain ⟨p, hp⟩ := R.resolve_of_mem hoc hdc
  obtain ⟨hsnap, hoBy, hdBy, hqc⟩ := R.resolve_ok hp
  have hsame : p.sameEdge = none := by
    cases hs : p.sameEdge with
    | none => rfl
    | some r => exact absurd ((R.sameEdge_isSome_iff hp).mp ⟨r, hs⟩) hdown
  have ho : p.oByEdge oc.edge = some oc :=
    hoBy ▸ (byEdge_eq_some_iff (R.snap_nodup _)).mpr ⟨hoc, rfl⟩
  have hd : p.dByEdge oc.edge = some dc :=
    hdBy ▸ (byEdge_eq_some_iff (R.snap_nodup _)).mpr ⟨hdc, heq.symm⟩
  -- staying on the edge serves the query, in negative time
  have hnil : IsJourney (p.endpoints.query (p.endpoints.qc.arcCost 0)) oc.edge
      ((1 - oc.frac) * p.endpoints.qc.edgeTimeS oc.edge) [] oc.edge
      ((dc.frac - 1) * p.endpoints.qc.edgeTimeS oc.edge) := hsnap.isJourney ho hd rfl
  have hneg : (p.endpoints.query (p.endpoints.qc.arcCost 0)).total
      ((1 - oc.frac) * p.endpoints.qc.edgeTimeS oc.edge) []
      ((dc.frac - 1) * p.endpoints.qc.edgeTimeS oc.edge) < 0 := by
    have htime : 0 < p.endpoints.qc.edgeTimeS oc.edge :=
      lt_of_le_of_ne (p.endpoints.qc.edge_time_nonneg _)
        fun h => hlen.ne' ((p.endpoints.qc.edge_time_eq_zero _).mp h.symm)
    have hprod := mul_pos (sub_pos.mpr hlt) htime
    unfold Query.total
    rw [List.map_nil, List.sum_nil]
    linarith
  obtain ⟨ans, hans⟩ := runOn_yields R.impl p.endpoints
    (noImproving_of_nonneg_cost (p.endpoints.qc.arcCost_nonneg le_rfl))
  obtain ⟨n, hn⟩ := hans.exists_fuel
  have hA := runOn_answer R.impl p.endpoints hn
  obtain ⟨r, rfl⟩ := hA.complete _ _ _ _ _ hnil
  refine ⟨n, R.describe p .fast r 0 budget rq.departure, ?_, ?_⟩
  · have hsingle : computeSingle (R.run n) R.alternatives p.endpoints .fast 0 (some budget) =
        some (some r) := by
      unfold computeSingle Router.run
      rw [hn, Option.bind_some]
      exact if_neg fun h => absurd h.1 (by simp)
    unfold Router.reroute
    simp only [hp]
    unfold Router.reroutePlan
    simp only [hsame, hsingle, Option.map_some]
  · obtain ⟨g, adj, hj, hle⟩ := hA.sound r rfl
    rw [describe_etaS R hsnap hj, hsnap.travelTimeS_eq hj]
    exact (hle.trans (hA.nil_le r _ _ _ rfl hnil)).trans_lt hneg

end Forward

/-- **Exactly when every route drives forward.** -/
theorem drives_iff (R : Router E T K Departure) (rq : Request K Departure) :
    R.DrivesForward rq ↔ R.Downstream rq ∨ ¬ R.Upstream rq := by
  refine ⟨fun h => ?_, drivesForward_of R⟩
  by_contra hcond
  push Not at hcond
  obtain ⟨fuel, r, hr, hneg⟩ := reroute_eta_neg R hcond.1 hcond.2 0
  exact absurd (h.2 fuel .fast 0 0 r hr).eta_nonneg (not_le.mpr hneg)

/-- A router on a single one-way edge of 10 m, driven at 1 m/s. The origin snaps to four fifths of
it, the destination to one fifth. -/
def oneWayRouter : Router 1 0 ℚ Unit where
  pack :=
    { topo := ⟨fun _ => 0, Fin.elim0, Fin.elim0, Fin.elim0, fun t => t.elim0⟩
      edgeLengthM := fun _ => 10
      edgeSpeedMps := fun _ => 1
      edgeReverse := fun _ => none
      length_nonneg := fun _ => by norm_num
      speed_pos := fun _ => one_pos
      reverse_pairs := by simp }
  alternatives := shippedCfg
  astar := false
  impl := .pyref (sortedQueue pyKey)
  nearest pt := some ⟨0, if pt.1 = 0 then 4 / 5 else 1 / 5, 0, 0,
    by split <;> norm_num, by split <;> norm_num⟩
  costsAt _ := computeCosts _ ⟨fun _ => 1, fun _ => one_pos⟩ plainCfg
    ⟨fun _ => 0, fun _ => false, fun _ => 0, fun _ => false, fun _ => false, fun _ => le_rfl⟩
  heuristic _ _ _ _ := 0
  simProfileVersion := ""

/-- On the one-way edge the destination is upstream, and `route` answers with -6 s and -6 m. -/
theorem route_backward : ∃ routes, oneWayRouter.route 10 ⟨(0, 0), (1, 0), ()⟩ true none =
    some (.ok routes) ∧ ∃ r ∈ routes, r.etaS < 0 ∧ r.distanceM < 0 ∧
      ¬ Drives oneWayRouter ⟨(0, 0), (1, 0), ()⟩ r := by
  have heval : ∃ routes, oneWayRouter.route 10 ⟨(0, 0), (1, 0), ()⟩ true none =
      some (.ok routes) ∧ ∃ r ∈ routes, r.etaS < 0 ∧ r.distanceM < 0 := by
    decide +kernel
  obtain ⟨routes, hroutes, r, hr, heta, hdist⟩ := heval
  exact ⟨routes, hroutes, r, hr, heta, hdist, fun h => absurd h.eta_nonneg (not_le.mpr heta)⟩

/-- `drives_iff` on the one-way edge: from upstream to downstream every route drives forward. -/
theorem drives_iff_oneWay :
    (oneWayRouter.DrivesForward ⟨(0, 0), (1, 0), ()⟩ ↔
      oneWayRouter.Downstream ⟨(0, 0), (1, 0), ()⟩ ∨
        ¬ oneWayRouter.Upstream ⟨(0, 0), (1, 0), ()⟩) ∧
    oneWayRouter.DrivesForward ⟨(1, 0), (0, 0), ()⟩ ∧
      ∃ routes, oneWayRouter.route 10 ⟨(1, 0), (0, 0), ()⟩ true none = some (.ok routes) ∧
        routes.map RouteOut.etaS = [6] := by
  have hdownstream : oneWayRouter.Downstream ⟨(1, 0), (0, 0), ()⟩ := by
    unfold Router.Downstream
    decide +kernel
  exact ⟨drives_iff oneWayRouter ⟨(0, 0), (1, 0), ()⟩,
    (drives_iff oneWayRouter ⟨(1, 0), (0, 0), ()⟩).mpr (Or.inl hdownstream), by decide +kernel⟩

end RoutePlanner.Planner
