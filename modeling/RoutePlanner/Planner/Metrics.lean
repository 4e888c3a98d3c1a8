import Mathlib.Data.List.ModifyLast
import Mathlib.Tactic.Linarith
import Mathlib.Tactic.Ring
import RoutePlanner.Planner.Reroute

/-!
# Snapped plans and the time of a walk

What `_resolve` guarantees of its plan (`Snapped`), and what the metrics of a route add up to.

* `shareSum_eq`: a sum over the driven shares of a route's edges is the plain sum, less the undriven
  parts of the first and the last edge.
* `describe_etaS`: the ETA shown is the travel time the budget is measured on.
* `travelTimeS_eq`, `le_time`: that time, split into the parts of a walk, and its lower bound.
-/

namespace RoutePlanner.Planner

open RoutePlanner.Lib RoutePlanner.Search

variable {E T : ℕ} {K : Type} [Field K] [LinearOrder K]
  {Departure : Type} {pack : Pack E T K}

/-! ## Shares -/

omit [LinearOrder K] in
theorem zipWith_replicate_one (w : Fin E → K) (l : List (Fin E)) :
    (List.zipWith (fun e s => w e * s) l (List.replicate l.length 1)).sum = (l.map w).sum := by
  induction l with
  | nil => rfl
  | cons e l ih =>
    rw [List.length_cons, List.replicate_succ, List.zipWith_cons_cons, List.sum_cons, ih,
      mul_one, List.map_cons, List.sum_cons]

omit [LinearOrder K] in
/-- **A sum over driven shares**: the whole edges, less the part of the first before the origin and
the part of the last after the destination. -/
theorem shareSum_eq (w : Fin E → K) (l : List (Fin E)) (e b : Fin E)
    (hb : (e :: l).getLast (List.cons_ne_nil e l) = b) (fo fd : K) :
    shareSum w (e :: l) fo fd =
      w e + (l.map w).sum - fo * w e - (1 - fd) * w b := by
  unfold shareSum share
  rcases List.eq_nil_or_concat l with rfl | ⟨m, x, rfl⟩
  · obtain rfl : e = b := hb
    simp only [List.length_cons, List.length_nil, List.replicate, List.modifyHead_cons]
    have hlast : [1 - fo].modifyLast (· - (1 - fd)) = [1 - fo - (1 - fd)] :=
      List.modifyLast_concat _ _ []
    rw [hlast]
    simp only [List.zipWith_cons_cons, List.zipWith_nil_left, List.sum_cons, List.sum_nil,
      List.map_nil]
    ring
  · rw [List.concat_eq_append] at hb ⊢
    obtain rfl : x = b := by simpa using hb
    have hones : (List.replicate (e :: (m ++ [x])).length (1 : K)).modifyHead (· - fo) =
        ((1 - fo) :: List.replicate m.length 1) ++ [1] := by
      rw [List.length_cons, List.length_append, List.length_singleton, List.replicate_succ,
        List.modifyHead_cons, List.replicate_succ', List.cons_append]
    rw [hones, List.modifyLast_concat]
    simp only [List.cons_append, List.zipWith_cons_cons, List.sum_cons]
    rw [List.zipWith_append (by simp), List.sum_append, zipWith_replicate_one]
    simp only [List.zipWith_cons_cons, List.zipWith_nil_left, List.sum_cons, List.sum_nil,
      List.map_append, List.map_cons, List.map_nil, List.sum_append]
    ring

/-- The last edge of a walk's edge list is where the walk ends. -/
theorem getLast_edges {topo : TurnTopo E T} {a b : Fin E} {ts : List (Fin T)}
    (hw : topo.graph.IsWalk a ts b) :
    (a :: ts.map topo.turnOutEdge).getLast (List.cons_ne_nil _ _) = b := by
  induction ts generalizing a with
  | nil => exact hw
  | cons t ts ih =>
    rw [List.map_cons, List.getLast_cons (List.cons_ne_nil _ _)]
    exact ih hw.2.2

/-- A walk that takes a turn drives its last edge. -/
theorem le_sum_of_walk [IsStrictOrderedRing K] {topo : TurnTopo E T} {w : Fin E → K}
    (hw0 : ∀ e, 0 ≤ w e) {a b : Fin E} {ts : List (Fin T)} (hw : topo.graph.IsWalk a ts b)
    (hne : ts ≠ []) : w b ≤ ((ts.map topo.turnOutEdge).map w).sum := by
  obtain ⟨us, t, rfl⟩ := (List.eq_nil_or_concat ts).resolve_left hne
  rw [List.concat_eq_append] at hw ⊢
  obtain ⟨-, -, rfl⟩ := ArcGraph.isWalk_concat.mp hw
  simp only [List.map_append, List.map_cons, List.map_nil, List.sum_append, List.sum_cons,
    List.sum_nil, add_zero]
  refine le_add_of_nonneg_left (List.sum_nonneg fun x hx => ?_)
  obtain ⟨e, -, rfl⟩ := List.mem_map.mp hx
  exact hw0 e

/-! ## The time of a walk -/

/-- The time of the turns of a walk: the edges they enter, and the delays. -/
theorem sum_arcCost_zero (qc : QueryCosts pack) (ts : List (Fin T)) :
    (ts.map (qc.arcCost 0)).sum =
      ((ts.map pack.topo.turnOutEdge).map qc.edgeTimeS).sum + (ts.map qc.turnDelayS).sum := by
  rw [List.map_map, ← List.sum_map_add]
  refine congrArg List.sum (List.map_congr_left fun t _ => ?_)
  rw [qc.arcCost_zero, qc.turn_time, Function.comp_apply]

/-- **The ETA of a walk** is the seed share of its first edge, its turns, and the refund of its
last edge. -/
theorem computeMetrics_etaS (qc : QueryCosts pack) (r : PathResult E T K) (fo fd : K)
    (hw : pack.topo.graph.IsWalk r.firstEdge r.turnIds r.destEdge) :
    (computeMetrics pack qc r fo fd).etaS =
      (1 - fo) * qc.edgeTimeS r.firstEdge + (r.turnIds.map (qc.arcCost 0)).sum +
        (fd - 1) * qc.edgeTimeS r.destEdge := by
  unfold computeMetrics PathResult.edges
  simp only
  rw [shareSum_eq _ _ _ _ (getLast_edges hw), sum_arcCost_zero]
  ring

theorem computeMetrics_distanceM_nonneg [IsStrictOrderedRing K] (qc : QueryCosts pack)
    (r : PathResult E T K) {fo fd : K}
    (hw : pack.topo.graph.IsWalk r.firstEdge r.turnIds r.destEdge) (hne : r.turnIds ≠ [])
    (hfo : fo ≤ 1) (hfd : 0 ≤ fd) : 0 ≤ (computeMetrics pack qc r fo fd).distanceM := by
  unfold computeMetrics PathResult.edges
  simp only
  rw [shareSum_eq _ _ _ _ (getLast_edges hw)]
  have hlast := le_sum_of_walk pack.length_nonneg hw hne
  have hfirst := mul_nonneg (sub_nonneg.mpr hfo) (pack.length_nonneg r.firstEdge)
  have hdest := mul_nonneg hfd (pack.length_nonneg r.destEdge)
  linarith

/-! ## What `_resolve` guarantees -/

/-- A plan whose seeds and destinations come from candidates on distinct edges. -/
structure Snapped (p : Plan pack Departure) : Prop where
  seed : ∀ a g, (a, g) ∈ p.endpoints.seeds ↔
    ∃ c, p.oByEdge a = some c ∧ g = (1 - c.frac) * p.endpoints.qc.edgeTimeS a
  dest : ∀ b adj, (b, adj) ∈ p.endpoints.dests ↔
    ∃ c, p.dByEdge b = some c ∧ adj = (c.frac - 1) * p.endpoints.qc.edgeTimeS b
  seeds_nodup : (p.endpoints.seeds.map Prod.fst).Nodup
  dests_nodup : (p.endpoints.dests.map Prod.fst).Nodup
  /-- The short-circuit finds a shared edge with the destination at or past the origin... -/
  same_some : ∀ r, p.sameEdge = some r → ∃ e oc dc, p.oByEdge e = some oc ∧
    p.dByEdge e = some dc ∧ oc.frac ≤ dc.frac ∧
    r = ⟨[], e, e, (dc.frac - oc.frac) * p.endpoints.qc.edgeTimeS e⟩
  /-- ...or there is none. -/
  same_none : p.sameEdge = none → ∀ e oc dc, p.oByEdge e = some oc → p.dByEdge e = some dc →
    dc.frac < oc.frac

theorem byEdge_eq_some_iff {cands : List (SnapCandidate E K)}
    (hnd : (cands.map SnapCandidate.edge).Nodup) {e : Fin E} {c : SnapCandidate E K} :
    Router.byEdge cands e = some c ↔ c ∈ cands ∧ c.edge = e := by
  unfold Router.byEdge
  have hkeys : ((cands.map fun c => (c.edge, c)).map Prod.fst).Nodup := by
    rw [List.map_map]
    exact hnd
  constructor
  · intro h
    obtain ⟨c', hc', heq⟩ := List.mem_map.mp (mem_of_dictGet h)
    obtain ⟨rfl, rfl⟩ := Prod.mk.inj heq
    exact ⟨hc', rfl⟩
  · rintro ⟨hc, rfl⟩
    exact dictGet_of_mem hkeys (List.mem_map.mpr ⟨c, hc, rfl⟩)

namespace Router

variable (R : Router E T K Departure)

/-- The candidates of a point lie on distinct edges. -/
theorem snap_nodup [IsStrictOrderedRing K] (pt : K × K) :
    ((R.snap pt).map SnapCandidate.edge).Nodup := by
  unfold snap
  cases R.nearest pt with
  | none => exact List.nodup_nil
  | some best =>
    simp only
    cases hr : R.pack.edgeReverse best.edge with
    | none => exact List.nodup_singleton _
    | some rev =>
      have hne := (R.pack.reverse_pairs _ _ hr).2
      simpa [SnapCandidate.twin] using Ne.symm hne

/-- **Every plan built from candidates on distinct edges is `Snapped`.** -/
theorem planOf_snapped (departure : Departure) {os ds : List (SnapCandidate E K)}
    (d : SnapCandidate E K) (ho : (os.map SnapCandidate.edge).Nodup)
    (hd : (ds.map SnapCandidate.edge).Nodup) : Snapped (R.planOf departure os d ds) := by
  refine ⟨?_, ?_, ?_, ?_, ?_, ?_⟩
  · intro a g
    constructor
    · intro h
      obtain ⟨c, hc, heq⟩ := List.mem_map.mp h
      obtain ⟨rfl, rfl⟩ := Prod.mk.inj heq
      exact ⟨c, (byEdge_eq_some_iff ho).mpr ⟨hc, rfl⟩, rfl⟩
    · rintro ⟨c, hc, rfl⟩
      obtain ⟨hmem, rfl⟩ := (byEdge_eq_some_iff ho).mp hc
      exact List.mem_map.mpr ⟨c, hmem, rfl⟩
  · intro b adj
    constructor
    · intro h
      obtain ⟨c, hc, heq⟩ := List.mem_map.mp h
      obtain ⟨rfl, rfl⟩ := Prod.mk.inj heq
      exact ⟨c, (byEdge_eq_some_iff hd).mpr ⟨hc, rfl⟩, rfl⟩
    · rintro ⟨c, hc, rfl⟩
      obtain ⟨hmem, rfl⟩ := (byEdge_eq_some_iff hd).mp hc
      exact List.mem_map.mpr ⟨c, hmem, rfl⟩
  · simp only [planOf, List.map_map]
    exact ho
  · simp only [planOf, List.map_map]
    exact hd
  · intro r h
    obtain ⟨oc, hoc, h⟩ := List.exists_of_findSome?_eq_some h
    cases hdc : byEdge ds oc.edge with
    | none =>
      rw [hdc] at h
      exact absurd h (by simp)
    | some dc =>
      rw [hdc] at h
      simp only at h
      split at h
      · rename_i hle
        exact ⟨oc.edge, oc, dc, (byEdge_eq_some_iff ho).mpr ⟨hoc, rfl⟩, hdc, hle,
          (Option.some.inj h).symm⟩
      · exact absurd h (by simp)
  · intro h e oc dc hoc hdc
    obtain ⟨hmem, rfl⟩ := (byEdge_eq_some_iff ho).mp hoc
    have hnone := List.findSome?_eq_none_iff.mp h oc hmem
    have hdc' : byEdge ds oc.edge = some dc := hdc
    rw [hdc'] at hnone
    simp only at hnone
    split at hnone
    · exact absurd hnone (by simp)
    · rename_i hlt
      exact not_le.mp hlt

/-- What `_resolve` returns. -/
theorem resolve_ok [IsStrictOrderedRing K] {rq : Request K Departure} {p : Plan R.pack Departure}
    (h : R.resolve rq = .ok p) : Snapped p ∧ p.oByEdge = byEdge (R.snap rq.origin) ∧
      p.dByEdge = byEdge (R.snap rq.dest) ∧ p.endpoints.qc = R.costsAt rq.departure := by
  unfold resolve at h
  have ho := R.snap_nodup rq.origin
  have hd := R.snap_nodup rq.dest
  cases hos : R.snap rq.origin with
  | nil =>
    rw [hos] at h
    exact absurd h (by simp)
  | cons o os =>
    cases hds : R.snap rq.dest with
    | nil =>
      rw [hos, hds] at h
      exact absurd h (by simp)
    | cons d ds =>
      rw [hos, hds] at h
      simp only [Except.ok.injEq] at h
      rw [hos] at ho
      rw [hds] at hd
      subst h
      exact ⟨R.planOf_snapped rq.departure d ho hd, rfl, rfl, rfl⟩

end Router

/-! ## Walks of a snapped plan -/

namespace Snapped

variable {p : Plan pack Departure} (hp : Snapped p) {ac : Fin T → K} {a b : Fin E} {g adj : K}
  {ts : List (Fin T)}

include hp

/-- A walk that serves the plan leads from an origin candidate to a destination candidate. -/
theorem journey (hj : IsJourney (p.endpoints.query ac) a g ts b adj) :
    ∃ oc dc, p.oByEdge a = some oc ∧ p.dByEdge b = some dc ∧
      g = (1 - oc.frac) * p.endpoints.qc.edgeTimeS a ∧
      adj = (dc.frac - 1) * p.endpoints.qc.edgeTimeS b ∧ pack.topo.graph.IsWalk a ts b := by
  obtain ⟨oc, hoc, rfl⟩ := (hp.seed a g).mp hj.route.seed
  obtain ⟨dc, hdc, rfl⟩ := (hp.dest b adj).mp (mem_of_dictGet hj.dest)
  exact ⟨oc, dc, hoc, hdc, rfl, rfl, hj.route.walk⟩

/-- A walk between candidates serves the plan. -/
theorem isJourney {oc dc : SnapCandidate E K} (ho : p.oByEdge a = some oc)
    (hd : p.dByEdge b = some dc) (hw : pack.topo.graph.IsWalk a ts b) :
    IsJourney (p.endpoints.query ac) a ((1 - oc.frac) * p.endpoints.qc.edgeTimeS a) ts b
      ((dc.frac - 1) * p.endpoints.qc.edgeTimeS b) :=
  ⟨⟨(hp.seed _ _).mpr ⟨oc, ho, rfl⟩, hw⟩,
    dictGet_of_mem hp.dests_nodup ((hp.dest _ _).mpr ⟨dc, hd, rfl⟩)⟩

/-- **The travel time of a walk** is its cost at lambda `0`. -/
theorem travelTimeS_eq {r : PathResult E T K}
    (hj : IsJourney (p.endpoints.query ac) r.firstEdge g r.turnIds r.destEdge adj) :
    p.endpoints.travelTimeS r = g + (r.turnIds.map (p.endpoints.qc.arcCost 0)).sum + adj := by
  have hd : dictGet p.endpoints.dests r.destEdge = some adj := hj.dest
  unfold Endpoints.travelTimeS
  rw [dictGet_of_mem hp.seeds_nodup hj.route.seed, hd]
  rfl

/-- **A walk that takes a turn is driven forward**: its time is at least the tail of its first
edge. -/
theorem le_time [IsStrictOrderedRing K] {oc : SnapCandidate E K} (ho : p.oByEdge a = some oc)
    (hj : IsJourney (p.endpoints.query ac) a g ts b adj) (hne : ts ≠ []) :
    (1 - oc.frac) * p.endpoints.qc.edgeTimeS a ≤
      g + (ts.map (p.endpoints.qc.arcCost 0)).sum + adj := by
  obtain ⟨oc', dc, ho', hd, rfl, rfl, hw⟩ := hp.journey hj
  obtain rfl : oc = oc' := Option.some.inj (ho.symm.trans ho')
  have hlast := le_sum_of_walk p.endpoints.qc.edge_time_nonneg hw hne
  have hdelay : 0 ≤ (ts.map p.endpoints.qc.turnDelayS).sum := by
    refine List.sum_nonneg fun x hx => ?_
    obtain ⟨t, -, rfl⟩ := List.mem_map.mp hx
    exact p.endpoints.qc.delay_nonneg t
  have hrefund := mul_nonneg dc.frac_nonneg (p.endpoints.qc.edge_time_nonneg b)
  rw [sum_arcCost_zero]
  linarith

theorem time_nonneg [IsStrictOrderedRing K] (hj : IsJourney (p.endpoints.query ac) a g ts b adj)
    (hne : ts ≠ []) : 0 ≤ g + (ts.map (p.endpoints.qc.arcCost 0)).sum + adj := by
  obtain ⟨oc, dc, ho, -⟩ := hp.journey hj
  exact (mul_nonneg (sub_nonneg.mpr oc.frac_le_one)
    (p.endpoints.qc.edge_time_nonneg a)).trans (hp.le_time ho hj hne)

end Snapped

/-- **The ETA shown is the travel time the budget is measured on.** -/
theorem describe_etaS (R : Router E T K Departure) {p : Plan R.pack Departure} (hp : Snapped p)
    {ac : Fin T → K} {r : PathResult E T K} {g adj : K}
    (hj : IsJourney (p.endpoints.query ac) r.firstEdge g r.turnIds r.destEdge adj) (kind : Level)
    (lam budget : K) (departure : Departure) :
    (R.describe p kind r lam budget departure).etaS = p.endpoints.travelTimeS r := by
  obtain ⟨oc, dc, ho, hd, hg, hadj, hw⟩ := hp.journey hj
  unfold Router.describe
  simp only [ho, hd, Option.map_some, Option.getD_some]
  rw [computeMetrics_etaS _ _ _ _ hw, hp.travelTimeS_eq hj, hg, hadj]

end RoutePlanner.Planner
