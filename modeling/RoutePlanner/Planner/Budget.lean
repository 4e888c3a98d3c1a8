import RoutePlanner.Planner.Forward

/-!
# The detour budget

The sweep measures every route against the answer of its first slot, which at lambda `0` is a
fastest walk. `compute_single` has no such filter.

* `answer_serves`: what a search at a lambda finds, in terms of the walks between the two points.
* `route_within_budget`: `route` keeps to the budget.
* `keepsCeiling_iff`, `cleanest_of_keepsCeiling`: when `compute_single` does.
-/

namespace RoutePlanner.Planner

open RoutePlanner.Lib RoutePlanner.Search

variable {E T : ℕ} {K : Type} [Field K] [LinearOrder K] [IsStrictOrderedRing K] {Departure : Type}

/-! ## Walks between two points -/

/-- An allowed walk from a candidate of the origin to a candidate of the destination. -/
structure Serves (R : Router E T K Departure) (rq : Request K Departure)
    (oc dc : SnapCandidate E K) (ts : List (Fin T)) : Prop where
  origin : oc ∈ R.snap rq.origin
  dest : dc ∈ R.snap rq.dest
  walk : R.pack.topo.graph.IsWalk oc.edge ts dc.edge

section Walks

variable {pack : Pack E T K} (qc : QueryCosts pack)

/-- The travel time of a walk: what is left of its first edge, its turns, and less what is not
driven of its last edge. -/
def QueryCosts.walkTimeS (oc dc : SnapCandidate E K) (ts : List (Fin T)) : K :=
  (1 - oc.frac) * qc.edgeTimeS oc.edge + (ts.map qc.turnTimeS).sum +
    (dc.frac - 1) * qc.edgeTimeS dc.edge

/-- The penalty of a walk. -/
def QueryCosts.walkPenaltyS (ts : List (Fin T)) : K := (ts.map qc.turnPenaltyS).sum

end Walks

section Serves

variable (R : Router E T K Departure) {rq : Request K Departure} {p : Plan R.pack Departure}
  (hp : R.resolve rq = .ok p) {oc dc : SnapCandidate E K} {ts : List (Fin T)} {ac : Fin T → K}

include hp

theorem Serves.isJourney (h : Serves R rq oc dc ts) :
    IsJourney (p.endpoints.query ac) oc.edge ((1 - oc.frac) * p.endpoints.qc.edgeTimeS oc.edge) ts
      dc.edge ((dc.frac - 1) * p.endpoints.qc.edgeTimeS dc.edge) := by
  obtain ⟨hsnap, hoBy, hdBy, -⟩ := R.resolve_ok hp
  refine hsnap.isJourney ?_ ?_ h.walk
  · rw [hoBy]
    exact (byEdge_eq_some_iff (R.snap_nodup _)).mpr ⟨h.origin, rfl⟩
  · rw [hdBy]
    exact (byEdge_eq_some_iff (R.snap_nodup _)).mpr ⟨h.dest, rfl⟩

theorem serves_of_journey {a b : Fin E} {g adj : K}
    (hj : IsJourney (p.endpoints.query ac) a g ts b adj) :
    ∃ oc dc, Serves R rq oc dc ts ∧ oc.edge = a ∧ dc.edge = b ∧
      g = (1 - oc.frac) * p.endpoints.qc.edgeTimeS oc.edge ∧
      adj = (dc.frac - 1) * p.endpoints.qc.edgeTimeS dc.edge := by
  obtain ⟨hsnap, hoBy, hdBy, -⟩ := R.resolve_ok hp
  obtain ⟨oc, dc, ho, hd, hg, hadj, hw⟩ := hsnap.journey hj
  rw [hoBy] at ho
  rw [hdBy] at hd
  obtain ⟨hoc, rfl⟩ := (byEdge_eq_some_iff (R.snap_nodup _)).mp ho
  obtain ⟨hdc, rfl⟩ := (byEdge_eq_some_iff (R.snap_nodup _)).mp hd
  exact ⟨oc, dc, ⟨hoc, hdc, hw⟩, rfl, rfl, hg, hadj⟩

omit hp [IsStrictOrderedRing K] in
/-- The cost of a walk at a lambda. -/
theorem total_eq (p : Plan R.pack Departure) (oc dc : SnapCandidate E K) (ts : List (Fin T))
    (lam : K) :
    (p.endpoints.query (p.endpoints.qc.arcCost lam)).total
      ((1 - oc.frac) * p.endpoints.qc.edgeTimeS oc.edge) ts
      ((dc.frac - 1) * p.endpoints.qc.edgeTimeS dc.edge) =
    p.endpoints.qc.walkTimeS oc dc ts + lam * p.endpoints.qc.walkPenaltyS ts := by
  unfold Query.total QueryCosts.walkTimeS QueryCosts.walkPenaltyS Endpoints.query
  simp only
  rw [sum_arcCost]
  ring

/-- The travel time of a walk between two candidates. -/
theorem travelTimeS_eq_walkTimeS {r : PathResult E T K}
    (hj : IsJourney (p.endpoints.query ac) r.firstEdge
      ((1 - oc.frac) * p.endpoints.qc.edgeTimeS oc.edge) r.turnIds r.destEdge
      ((dc.frac - 1) * p.endpoints.qc.edgeTimeS dc.edge)) :
    p.endpoints.travelTimeS r = p.endpoints.qc.walkTimeS oc dc r.turnIds := by
  obtain ⟨hsnap, -⟩ := R.resolve_ok hp
  have htotal := total_eq R p oc dc r.turnIds 0
  unfold Query.total Endpoints.query at htotal
  rw [hsnap.travelTimeS_eq hj, htotal, zero_mul, add_zero]

/-- **Any answer is a walk between the two points**, and its travel time is that walk's. -/
theorem answer_serves {r : PathResult E T K} (hA : Answer (p.endpoints.query ac) (some r)) :
    ∃ oc dc, Serves R rq oc dc r.turnIds ∧ oc.edge = r.firstEdge ∧ dc.edge = r.destEdge ∧
      p.endpoints.travelTimeS r = p.endpoints.qc.walkTimeS oc dc r.turnIds := by
  obtain ⟨g, adj, hj, -⟩ := hA.sound r rfl
  obtain ⟨oc, dc, hs, hoe, hde, rfl, rfl⟩ := serves_of_journey R hp hj
  exact ⟨oc, dc, hs, hoe, hde, travelTimeS_eq_walkTimeS R hp hj⟩

/-- **An answer is a cheapest walk**, for costs that cover the time and a heuristic that is
consistent in time. -/
theorem answer_total_le (hcost : ∀ t, p.endpoints.qc.arcCost 0 t ≤ ac t)
    (hh : ∀ h, p.endpoints.h = some h → Consistent R.pack.topo (p.endpoints.qc.arcCost 0) h)
    {r : PathResult E T K} (hA : Answer (p.endpoints.query ac) (some r))
    (hs : Serves R rq oc dc ts) :
    ∃ oc' dc', Serves R rq oc' dc' r.turnIds ∧
      p.endpoints.travelTimeS r = p.endpoints.qc.walkTimeS oc' dc' r.turnIds ∧
      (p.endpoints.query ac).total ((1 - oc'.frac) * p.endpoints.qc.edgeTimeS oc'.edge) r.turnIds
          ((dc'.frac - 1) * p.endpoints.qc.edgeTimeS dc'.edge) ≤
        (p.endpoints.query ac).total ((1 - oc.frac) * p.endpoints.qc.edgeTimeS oc.edge) ts
          ((dc.frac - 1) * p.endpoints.qc.edgeTimeS dc.edge) := by
  have hcons : ∀ h, p.endpoints.h = some h → Consistent R.pack.topo ac h :=
    fun h hph t ht => (hh h hph t ht).trans (add_le_add_left (hcost t) _)
  have hle := hA.le (fun t ht => hAt_le (fun t _ =>
    (p.endpoints.qc.arcCost_nonneg le_rfl t).trans (hcost t)) hcons ht)
    r _ _ _ _ _ rfl (hs.isJourney R hp)
  obtain ⟨g, adj, hj, hsound⟩ := hA.sound r rfl
  obtain ⟨oc', dc', hs', -, -, rfl, rfl⟩ := serves_of_journey R hp hj
  exact ⟨oc', dc', hs', travelTimeS_eq_walkTimeS R hp hj, hsound.trans hle⟩

/-- An answer at a lambda. -/
theorem answer_le {lam : K} (hlam : 0 ≤ lam)
    (hh : ∀ h, p.endpoints.h = some h → Consistent R.pack.topo (p.endpoints.qc.arcCost 0) h)
    {r : PathResult E T K}
    (hA : Answer (p.endpoints.query (p.endpoints.qc.arcCost lam)) (some r))
    (hs : Serves R rq oc dc ts) :
    p.endpoints.travelTimeS r + lam * p.endpoints.qc.walkPenaltyS r.turnIds ≤
      p.endpoints.qc.walkTimeS oc dc ts + lam * p.endpoints.qc.walkPenaltyS ts := by
  have hcost : ∀ t, p.endpoints.qc.arcCost 0 t ≤ p.endpoints.qc.arcCost lam t := by
    intro t
    rw [p.endpoints.qc.arcCost_zero]
    exact p.endpoints.qc.turnTimeS_le_arcCost hlam t
  obtain ⟨oc', dc', -, htime, hle⟩ := answer_total_le R hp hcost hh hA hs
  rwa [total_eq R, total_eq R, ← htime] at hle

/-- Some walk serves the query iff a search finds one. -/
theorem answer_none_iff {r : Option (PathResult E T K)} (hA : Answer (p.endpoints.query ac) r) :
    r = none ↔ ¬ ∃ oc dc ts, Serves R rq oc dc ts := by
  rw [hA.none_iff]
  constructor
  · rintro hno ⟨oc, dc, ts, hs⟩
    exact hno ⟨_, _, _, _, _, hs.isJourney R hp⟩
  · rintro hno ⟨a, g, ts, b, adj, hj⟩
    obtain ⟨oc, dc, hs, -⟩ := serves_of_journey R hp hj
    exact hno ⟨oc, dc, ts, hs⟩

/-- If one search finds a walk, so does every other. -/
theorem answer_of_answer {ac' : Fin T → K} {f : PathResult E T K} {r : Option (PathResult E T K)}
    (hF : Answer (p.endpoints.query ac) (some f)) (hA : Answer (p.endpoints.query ac') r) :
    ∃ a, r = some a := by
  obtain ⟨oc, dc, hs, -⟩ := answer_serves R hp hF
  exact hA.complete _ _ _ _ _ (hs.isJourney R hp)

/-- The time of a walk that takes a turn covers the tail of its first edge. -/
theorem Serves.le_walkTimeS (h : Serves R rq oc dc ts) (hne : ts ≠ []) :
    (1 - oc.frac) * p.endpoints.qc.edgeTimeS oc.edge ≤ p.endpoints.qc.walkTimeS oc dc ts := by
  obtain ⟨hsnap, hoBy, -⟩ := R.resolve_ok hp
  have ho : p.oByEdge oc.edge = some oc :=
    hoBy ▸ (byEdge_eq_some_iff (R.snap_nodup _)).mpr ⟨h.origin, rfl⟩
  have hj : IsJourney (p.endpoints.query (p.endpoints.qc.arcCost 0)) oc.edge
      ((1 - oc.frac) * p.endpoints.qc.edgeTimeS oc.edge) ts dc.edge
      ((dc.frac - 1) * p.endpoints.qc.edgeTimeS dc.edge) := h.isJourney R hp
  have hle := hsnap.le_time ho hj hne
  have htime := total_eq R p oc dc ts 0
  unfold Query.total Endpoints.query at htime
  rwa [htime, zero_mul, add_zero] at hle

end Serves

omit [IsStrictOrderedRing K] in
/-- What is driven of an edge that is never left. -/
theorem walkTimeS_nil {pack : Pack E T K} (qc : QueryCosts pack) {oc dc : SnapCandidate E K}
    (h : oc.edge = dc.edge) :
    qc.walkTimeS oc dc [] = (dc.frac - oc.frac) * qc.edgeTimeS dc.edge := by
  unfold QueryCosts.walkTimeS
  rw [List.map_nil, List.sum_nil, h]
  ring

/-! ## Twins -/

section Twins

variable (R : Router E T K Departure) {pt : K × K} {c c' : SnapCandidate E K}

/-- Two candidates of a point are the same or each other's twin. -/
theorem Router.eq_or_reverse_of_mem_snap (hc : c ∈ R.snap pt) (hc' : c' ∈ R.snap pt) :
    c' = c ∨ ∃ rev, R.pack.edgeReverse c.edge = some rev := by
  unfold snap at hc hc'
  cases hbest : R.nearest pt with
  | none =>
    rw [hbest] at hc
    exact absurd hc List.not_mem_nil
  | some best =>
    rw [hbest] at hc hc'
    cases hrev : R.pack.edgeReverse best.edge with
    | none =>
      simp only [hrev, List.mem_singleton] at hc hc'
      exact Or.inl (hc'.trans hc.symm)
    | some rev =>
      simp only [hrev, List.mem_cons, List.not_mem_nil, or_false] at hc
      rcases hc with rfl | rfl
      · exact Or.inr ⟨rev, hrev⟩
      · exact Or.inr ⟨best.edge, (R.pack.reverse_pairs _ _ hrev).1⟩

/-- A candidate on a two-way edge has a twin. -/
theorem Router.exists_twin (hc : c ∈ R.snap pt) {rev : Fin E}
    (hrev : R.pack.edgeReverse c.edge = some rev) :
    ∃ t ∈ R.snap pt, t.edge = rev ∧ t.frac = 1 - c.frac := by
  unfold snap at hc ⊢
  cases hbest : R.nearest pt with
  | none =>
    rw [hbest] at hc
    exact absurd hc List.not_mem_nil
  | some best =>
    simp only [hbest] at hc ⊢
    cases hr : R.pack.edgeReverse best.edge with
    | none =>
      rw [hr, List.mem_singleton] at hc
      rw [hc, hr] at hrev
      exact absurd hrev (by simp)
    | some rev' =>
      simp only [hr, List.mem_cons, List.not_mem_nil, or_false] at hc
      rcases hc with rfl | rfl
      · obtain rfl : rev' = rev := Option.some.inj (hr.symm.trans hrev)
        exact ⟨_, List.mem_cons_of_mem _ (List.mem_singleton_self _), rfl, rfl⟩
      · have hback : R.pack.edgeReverse rev' = some best.edge := (R.pack.reverse_pairs _ _ hr).1
        obtain rfl : best.edge = rev := Option.some.inj (hback.symm.trans hrev)
        exact ⟨best, List.mem_cons_self, rfl, (sub_sub_cancel 1 best.frac).symm⟩

/-- **The short-circuit is a fastest walk**, when no shared edge has the destination upstream: on a
two-way edge both ends are then at one point. -/
theorem sameEdge_le {rq : Request K Departure} {p : Plan R.pack Departure}
    (hp : R.resolve rq = .ok p) (hshared : ∀ oc ∈ R.snap rq.origin, ∀ dc ∈ R.snap rq.dest,
      oc.edge = dc.edge → oc.frac ≤ dc.frac)
    {oc dc oc' dc' : SnapCandidate E K} {ts : List (Fin T)} (hs : Serves R rq oc dc [])
    (hs' : Serves R rq oc' dc' ts) :
    p.endpoints.qc.walkTimeS oc dc [] ≤ p.endpoints.qc.walkTimeS oc' dc' ts := by
  have hedge : oc.edge = dc.edge := hs.walk
  rw [walkTimeS_nil _ hedge]
  by_cases hrev : ∃ rev, R.pack.edgeReverse oc.edge = some rev
  · obtain ⟨rev, hrev⟩ := hrev
    obtain ⟨ot, hot, hoe, hof⟩ := R.exists_twin hs.origin hrev
    obtain ⟨dt, hdt, hde, hdf⟩ := R.exists_twin hs.dest (hedge ▸ hrev)
    have hle := hshared oc hs.origin dc hs.dest hedge
    have htwin := hshared ot hot dt hdt (hoe.trans hde.symm)
    have heq : dc.frac - oc.frac = 0 := by linarith
    rw [heq, zero_mul]
    by_cases hne : ts = []
    · subst hne
      have hedge' : oc'.edge = dc'.edge := hs'.walk
      rw [walkTimeS_nil _ hedge']
      exact mul_nonneg (sub_nonneg.mpr (hshared oc' hs'.origin dc' hs'.dest hedge'))
        (p.endpoints.qc.edge_time_nonneg _)
    · exact (mul_nonneg (sub_nonneg.mpr oc'.frac_le_one)
        (p.endpoints.qc.edge_time_nonneg _)).trans (hs'.le_walkTimeS R hp hne)
  · -- a one-way edge: every walk leads from the one candidate to the other
    obtain rfl := (R.eq_or_reverse_of_mem_snap hs.origin hs'.origin).resolve_right hrev
    obtain rfl := (R.eq_or_reverse_of_mem_snap hs.dest hs'.dest).resolve_right
      (by rwa [← hedge])
    by_cases hne : ts = []
    · subst hne
      rw [walkTimeS_nil _ hedge]
    · refine le_trans ?_ (hs'.le_walkTimeS R hp hne)
      rw [hedge]
      refine mul_le_mul_of_nonneg_right ?_ (p.endpoints.qc.edge_time_nonneg _)
      exact sub_le_sub_right dc'.frac_le_one _

end Twins

/-! ## The sweep -/

/-- A route that is a fastest walk between the two points. -/
structure Fastest (R : Router E T K Departure) (rq : Request K Departure)
    (r : RouteOut E T K Departure) : Prop where
  walk : ∃ oc dc, Serves R rq oc dc r.result.turnIds ∧ oc.edge = r.result.firstEdge ∧
    dc.edge = r.result.destEdge ∧
    r.etaS = (R.costsAt rq.departure).walkTimeS oc dc r.result.turnIds
  le : ∀ oc dc ts, Serves R rq oc dc ts → r.etaS ≤ (R.costsAt rq.departure).walkTimeS oc dc ts

omit [IsStrictOrderedRing K] in
/-- The first route stays first. -/
theorem withDetourPct_cons (first : RouteOut E T K Departure)
    (rest : List (RouteOut E T K Departure)) :
    ∃ d rest', withDetourPct (first :: rest) = { first with detourPct := d } :: rest' := by
  unfold withDetourPct
  simp only
  split
  · exact ⟨_, _, rfl⟩
  · exact ⟨first.detourPct, rest, rfl⟩

/-- `detour_pct` of routes that are slower than the first by at most `b` of its time. -/
theorem withDetourPct_bounds {b : K} (hb : 0 ≤ b) (first : RouteOut E T K Departure)
    (rest : List (RouteOut E T K Departure)) (hzero : ∀ r ∈ first :: rest, r.detourPct = 0)
    (hle : ∀ r ∈ rest, first.etaS ≤ r.etaS) (hbudget : ∀ r ∈ rest, r.etaS ≤ (1 + b) * first.etaS) :
    ∀ r ∈ withDetourPct (first :: rest), 0 ≤ r.detourPct ∧ r.detourPct ≤ b := by
  have hmin : (((first :: rest).map RouteOut.etaS).min?).getD 0 = first.etaS := by
    have hsome : ((first :: rest).map RouteOut.etaS).min? = some first.etaS := by
      rw [List.min?_eq_some_iff]
      refine ⟨List.mem_map_of_mem List.mem_cons_self, fun x hx => ?_⟩
      obtain ⟨r, hr, rfl⟩ := List.mem_map.mp hx
      rcases List.mem_cons.mp hr with rfl | hr
      · exact le_rfl
      · exact hle r hr
    rw [hsome, Option.getD_some]
  unfold withDetourPct
  simp only [hmin]
  by_cases hpos : 0 < first.etaS
  · rw [if_pos hpos]
    intro r hr
    obtain ⟨r', hr', rfl⟩ := List.mem_map.mp hr
    have hfast : first.etaS ≤ r'.etaS ∧ r'.etaS ≤ (1 + b) * first.etaS := by
      rcases List.mem_cons.mp hr' with rfl | hr'
      · exact ⟨le_rfl, le_mul_of_one_le_left hpos.le (le_add_of_nonneg_right hb)⟩
      · exact ⟨hle r' hr', hbudget r' hr'⟩
    refine ⟨div_nonneg (sub_nonneg.mpr hfast.1) hpos.le, ?_⟩
    rw [div_le_iff₀ hpos]
    linarith [hfast.2]
  · rw [if_neg hpos]
    intro r hr
    rw [hzero r hr]
    exact ⟨le_rfl, hb⟩

section Route

variable (R : Router E T K Departure) {rq : Request K Departure} {p : Plan R.pack Departure}

theorem describe_eta (hp : R.resolve rq = .ok p) {ac : Fin T → K} {r : PathResult E T K}
    (hA : Answer (p.endpoints.query ac) (some r)) (kind : Level) (lam budget : K)
    (departure : Departure) :
    (R.describe p kind r lam budget departure).etaS = p.endpoints.travelTimeS r := by
  obtain ⟨g, adj, hj, -⟩ := hA.sound r rfl
  exact describe_etaS R (R.resolve_ok hp).1 hj kind lam budget departure

/-- The answer at lambda `0`, described, is a fastest walk. -/
theorem fastest_of_answer (hp : R.resolve rq = .ok p)
    (hh : ∀ h, p.endpoints.h = some h → Consistent R.pack.topo (p.endpoints.qc.arcCost 0) h)
    {r : PathResult E T K}
    (hA : Answer (p.endpoints.query (p.endpoints.qc.arcCost 0)) (some r)) (kind : Level)
    (lam budget : K) (departure : Departure) :
    Fastest R rq (R.describe p kind r lam budget departure) := by
  obtain ⟨-, -, -, hqc⟩ := R.resolve_ok hp
  obtain ⟨oc, dc, hs, hoe, hde, htime⟩ := answer_serves R hp hA
  refine ⟨⟨oc, dc, hs, hoe, hde, ?_⟩, fun oc' dc' ts' hs' => ?_⟩
  · rw [describe_eta R hp hA, htime, hqc]
    rfl
  · have hle := answer_le R hp le_rfl hh hA hs'
    rw [zero_mul, zero_mul, add_zero, add_zero, hqc] at hle
    rw [describe_eta R hp hA]
    exact hle

/-- No answer is faster. -/
theorem Fastest.le_describe {first : RouteOut E T K Departure} (hF : Fastest R rq first)
    (hp : R.resolve rq = .ok p) {ac : Fin T → K} {r : PathResult E T K}
    (hA : Answer (p.endpoints.query ac) (some r)) (kind : Level) (lam budget : K) :
    first.etaS ≤ (R.describe p kind r lam budget rq.departure).etaS := by
  obtain ⟨oc, dc, hs, -, -, htime⟩ := answer_serves R hp hA
  obtain ⟨-, -, -, hqc⟩ := R.resolve_ok hp
  rw [describe_eta R hp hA, htime, hqc]
  exact hF.le oc dc _ hs

theorem fastest_of_sameEdge (hp : R.resolve rq = .ok p)
    (hshared : ∀ oc ∈ R.snap rq.origin, ∀ dc ∈ R.snap rq.dest,
      oc.edge = dc.edge → oc.frac ≤ dc.frac)
    {r : PathResult E T K} (hr : p.sameEdge = some r) (kind : Level) (lam budget : K) :
    Fastest R rq (R.describe p kind r lam budget rq.departure) := by
  obtain ⟨hsnap, hoBy, hdBy, hqc⟩ := R.resolve_ok hp
  obtain ⟨e, oc, dc, ho, hd, -, rfl⟩ := hsnap.same_some r hr
  obtain ⟨hoc, hoe⟩ := (byEdge_eq_some_iff (R.snap_nodup _)).mp (hoBy ▸ ho)
  obtain ⟨hdc, hde⟩ := (byEdge_eq_some_iff (R.snap_nodup _)).mp (hdBy ▸ hd)
  have hs : Serves R rq oc dc [] := ⟨hoc, hdc, hoe.trans hde.symm⟩
  have heta : (R.describe p kind ⟨[], e, e, (dc.frac - oc.frac) * p.endpoints.qc.edgeTimeS e⟩ lam
      budget rq.departure).etaS = p.endpoints.qc.walkTimeS oc dc [] := by
    rw [(describe_nil R _ ho hd kind lam budget rq.departure).1,
      walkTimeS_nil _ (hoe.trans hde.symm), hde]
  refine ⟨⟨oc, dc, hs, hoe, hde, ?_⟩, fun oc' dc' ts' hs' => ?_⟩
  · rw [← hqc]
    exact heta
  · rw [← hqc, heta]
    exact sameEdge_le R hp hshared hs hs'

/-- **The sweep keeps to the budget.** -/
theorem describe_bounds (hp : R.resolve rq = .ok p)
    (hfast : R.alternatives.lambdaFast = 0)
    (hh : ∀ h, p.endpoints.h = some h → Consistent R.pack.topo (p.endpoints.qc.arcCost 0) h)
    {safetyEnabled : Bool} {budget : Option K}
    (hbudget : 0 ≤ budget.getD R.alternatives.detourBudgetPct) {fuel : ℕ}
    {alts : List (Alternative E T K)}
    (halts : computeAlternatives (R.run fuel) R.alternatives p.endpoints safetyEnabled budget =
      some alts) (hne : alts ≠ []) {routes : List (RouteOut E T K Departure)}
    (hroutes : routes = withDetourPct (alts.map fun a => R.describe p a.kind a.result
      (R.lamByKind a.kind) (budget.getD R.alternatives.detourBudgetPct) rq.departure)) :
    ∃ first rest, routes = first :: rest ∧ Fastest R rq first ∧
      ∀ r ∈ routes, 0 ≤ r.detourPct ∧
        r.detourPct ≤ budget.getD R.alternatives.detourBudgetPct := by
  obtain ⟨o, ho⟩ := computeAlternatives_fast halts
  have hA := runOn_answer R.impl p.endpoints ho
  cases o with
  | none =>
    -- no walk serves the query, so no search found a route
    have hno := (answer_none_iff R hp hA).mp rfl
    exact absurd (computeAlternatives_nil (fun ac r hr =>
      (answer_none_iff R hp (runOn_answer R.impl p.endpoints hr)).mpr hno) halts) hne
  | some first =>
    obtain ⟨rest, hrest, hle⟩ := computeAlternatives_led ho halts
    have hfound := found_of_mem halts
    rw [hfast] at hA
    let describe := fun a : Alternative E T K => R.describe p a.kind a.result (R.lamByKind a.kind)
      (budget.getD R.alternatives.detourBudgetPct) rq.departure
    have heta : ∀ a ∈ alts, (describe a).etaS = p.endpoints.travelTimeS a.result := by
      intro a ha
      obtain ⟨ac, hac⟩ := hfound a ha
      exact describe_eta R hp (runOn_answer R.impl p.endpoints hac) _ _ _ _
    have hfastest : Fastest R rq (describe ⟨.fast, R.alternatives.lambdaFast, first⟩) :=
      fastest_of_answer R hp hh hA _ _ _ _
    subst hrest
    have hbounds := withDetourPct_bounds hbudget
      (describe ⟨.fast, R.alternatives.lambdaFast, first⟩) (rest.map describe)
      (fun r hr => by
        rw [← List.map_cons (f := describe)] at hr
        obtain ⟨a, -, rfl⟩ := List.mem_map.mp hr
        rfl)
      (fun r hr => by
        obtain ⟨a, ha, rfl⟩ := List.mem_map.mp hr
        obtain ⟨ac, hac⟩ := hfound a (List.mem_cons_of_mem _ ha)
        exact hfastest.le_describe R hp (runOn_answer R.impl p.endpoints hac) _ _ _)
      (fun r hr => by
        obtain ⟨a, ha, rfl⟩ := List.mem_map.mp hr
        rw [heta a (List.mem_cons_of_mem _ ha), heta _ List.mem_cons_self]
        exact hle a ha)
    obtain ⟨d, rest', hcons⟩ := withDetourPct_cons
      (describe ⟨.fast, R.alternatives.lambdaFast, first⟩) (rest.map describe)
    have hdescribed : routes = withDetourPct
        (describe ⟨.fast, R.alternatives.lambdaFast, first⟩ :: rest.map describe) := hroutes
    refine ⟨_, rest', hdescribed.trans hcons, ⟨hfastest.walk, hfastest.le⟩, ?_⟩
    rw [hdescribed]
    exact hbounds

/-- **`route` ends**, on non-negative arc costs. -/
theorem route_yields (R : Router E T K Departure) (rq : Request K Departure) (safetyEnabled : Bool)
    (budget : Option K) (hcost : ∀ slot ∈ slots R.alternatives safetyEnabled, ∀ t,
      0 ≤ (R.costsAt rq.departure).arcCost slot.2 t)
    (hfactor : 1 ≤ R.alternatives.penaltyFactor) :
    ∃ out, Yields (fun n => R.route n rq safetyEnabled budget) out := by
  unfold Router.route
  cases hp : R.resolve rq with
  | error err => exact ⟨_, yields_pure _⟩
  | ok p =>
    simp only
    unfold Router.routePlan
    cases hsame : p.sameEdge with
    | some res => exact ⟨_, yields_pure _⟩
    | none =>
      have hlam : ∀ slot ∈ slots R.alternatives safetyEnabled, ∀ t,
          0 ≤ p.endpoints.qc.arcCost slot.2 t := by
        rw [(R.resolve_ok hp).2.2.2]
        exact hcost
      obtain ⟨alts, halts⟩ := computeAlternatives_yields R.impl
        (zero_le_one.trans hfactor) safetyEnabled hlam budget
      exact ⟨_, halts.map _⟩

/-- **A query that some walk serves is answered**: both points snap, and the fast slot's search
finds a walk. -/
theorem route_of_served (R : Router E T K Departure) {rq : Request K Departure}
    (hserved : ∃ oc dc ts, Serves R rq oc dc ts) {fuel : ℕ} {safetyEnabled : Bool}
    {budget : Option K} {out : Except RoutingError (List (RouteOut E T K Departure))}
    (h : R.route fuel rq safetyEnabled budget = some out) : ∃ routes, out = .ok routes := by
  obtain ⟨oc, dc, ts, hs⟩ := hserved
  unfold Router.route at h
  cases hp : R.resolve rq with
  | error err =>
    unfold Router.resolve at hp
    cases ho : R.snap rq.origin with
    | nil => exact absurd hs.origin (by rw [ho]; exact List.not_mem_nil)
    | cons o os =>
      cases hd : R.snap rq.dest with
      | nil => exact absurd hs.dest (by rw [hd]; exact List.not_mem_nil)
      | cons d ds =>
        rw [ho, hd] at hp
        exact absurd hp (by simp)
  | ok p =>
    simp only [hp] at h
    unfold Router.routePlan at h
    cases hsame : p.sameEdge with
    | some res =>
      simp only [hsame] at h
      exact ⟨_, (Option.some.inj h).symm⟩
    | none =>
      simp only [hsame] at h
      obtain ⟨alts, halts, h⟩ := Option.map_eq_some_iff.mp h
      obtain ⟨o, ho⟩ := computeAlternatives_fast halts
      cases o with
      | none =>
        have hA := runOn_answer R.impl p.endpoints ho
        exact absurd ⟨oc, dc, ts, hs⟩ ((answer_none_iff R hp hA).mp rfl)
      | some first =>
        obtain ⟨rest, rfl, -⟩ := computeAlternatives_led ho halts
        rw [List.isEmpty_cons, if_neg Bool.false_ne_true] at h
        exact ⟨_, h.symm⟩

/-- **`route` honours the detour budget.** At `lambda_fast = 0`, on non-negative arc costs, with a
penalty factor of at least `1`, no heuristic or a consistent one, and no shared edge with the
destination upstream: `route` ends, with routes wherever a walk leads from one point to the other;
its first route is a fastest such walk, and no route is slower than that by more than the resolved
budget. -/
theorem route_within_budget (R : Router E T K Departure) (rq : Request K Departure)
    (safetyEnabled : Bool) (budget : Option K) (hfast : R.alternatives.lambdaFast = 0)
    (hcost : ∀ slot ∈ slots R.alternatives safetyEnabled, ∀ t,
      0 ≤ (R.costsAt rq.departure).arcCost slot.2 t)
    (hfactor : 1 ≤ R.alternatives.penaltyFactor)
    (hh : ∀ p h, R.resolve rq = .ok p → p.endpoints.h = some h →
      Consistent R.pack.topo ((R.costsAt rq.departure).arcCost 0) h)
    (hbudget : 0 ≤ budget.getD R.alternatives.detourBudgetPct)
    (hshared : ∀ oc ∈ R.snap rq.origin, ∀ dc ∈ R.snap rq.dest,
      oc.edge = dc.edge → oc.frac ≤ dc.frac) :
    ∃ out, Yields (fun n => R.route n rq safetyEnabled budget) out ∧
      ((∃ oc dc ts, Serves R rq oc dc ts) → ∃ routes, out = .ok routes) ∧
      ∀ routes, out = .ok routes → ∃ first rest, routes = first :: rest ∧ Fastest R rq first ∧
        ∀ r ∈ routes, 0 ≤ r.detourPct ∧
          r.detourPct ≤ budget.getD R.alternatives.detourBudgetPct := by
  obtain ⟨out, hout⟩ := route_yields R rq safetyEnabled budget hcost hfactor
  obtain ⟨n, hn⟩ := hout.exists_fuel
  refine ⟨out, hout, fun hserved => route_of_served R hserved hn, fun routes hroutes => ?_⟩
  rw [hroutes] at hn
  obtain ⟨p, hp, ⟨res, hsame, rfl⟩ | ⟨hsame, alts, halts, hne, heq⟩⟩ := R.route_cases hn
  · refine ⟨_, [], rfl, fastest_of_sameEdge R hp hshared hsame _ _ _, fun r hr => ?_⟩
    rw [List.mem_singleton.mp hr]
    exact ⟨le_rfl, hbudget⟩
  · have hh' : ∀ h, p.endpoints.h = some h →
        Consistent R.pack.topo (p.endpoints.qc.arcCost 0) h := by
      rw [(R.resolve_ok hp).2.2.2]
      exact fun h => hh p h hp
    exact describe_bounds R hp hfast hh' hbudget halts hne heq

/-- `route_within_budget` on `threeStreets`, where three walks lead to the destination. -/
theorem route_within_budget_threeStreets :
    ∃ routes, Yields (fun n => threeStreets.route n fanRequest true none) (.ok routes) ∧
      ∃ first rest, routes = first :: rest ∧ Fastest threeStreets fanRequest first ∧
        ∀ r ∈ routes, 0 ≤ r.detourPct ∧ r.detourPct ≤ 1 / 4 := by
  have hresolve : threeStreets.resolve fanRequest = .ok (fanPlan threeStreets) := rfl
  have hserved : ∃ oc dc ts, Serves threeStreets fanRequest oc dc ts := by
    have ho : threeStreets.snap fanRequest.origin = [midEdge 0] := rfl
    have hd : threeStreets.snap fanRequest.dest = [midEdge 1] := rfl
    refine ⟨midEdge 0, midEdge 1, [0, 3], ?_, ?_, rfl, rfl, rfl, rfl, rfl⟩
    · rw [ho]
      exact List.mem_cons_self
    · rw [hd]
      exact List.mem_cons_self
  obtain ⟨out, hout, hok, hbounds⟩ := route_within_budget threeStreets fanRequest true none rfl
    (by decide +kernel) (by decide +kernel) (fun p h hp hph => by
      obtain rfl : fanPlan threeStreets = p := Except.ok.inj (hresolve.symm.trans hp)
      exact absurd hph (by simp [fanPlan, Router.planOf, threeStreets, fanRouter]))
    (by decide +kernel) (by decide +kernel)
  obtain ⟨routes, rfl⟩ := hok hserved
  exact ⟨routes, hout, hbounds routes rfl⟩

end Route

/-! ## The single route -/

/-- The route `compute_single` returns at level safe keeps to the ceiling. -/
def KeepsCeiling (impl : Impl E K) {pack : Pack E T K} (cfg : AltCfg K) (pl : Endpoints pack)
    (lam budget : K) : Prop :=
  ∀ r fast, Yields (fun n => computeSingle (impl.run pack n) cfg pl .safe lam (some budget))
      (some r) →
    Yields (fun n => runOn (impl.run pack n) pl (pl.qc.arcCost 0)) (some fast) →
    pl.travelTimeS r ≤ (1 + budget) * pl.travelTimeS fast

/-- Between the two points, if a walk leads from one to the other at all, some walk takes the least
time, which is not negative, and the least penalty. -/
def CleanestIsFastest (R : Router E T K Departure) (rq : Request K Departure)
    (qc : QueryCosts R.pack) : Prop :=
  (∃ oc dc ts, Serves R rq oc dc ts) → ∃ oc dc ts, Serves R rq oc dc ts ∧
    0 ≤ qc.walkTimeS oc dc ts ∧ ∀ oc' dc' ts', Serves R rq oc' dc' ts' →
      qc.walkTimeS oc dc ts ≤ qc.walkTimeS oc' dc' ts' ∧ qc.walkPenaltyS ts ≤ qc.walkPenaltyS ts'

section Ceiling

variable (R : Router E T K Departure) {rq : Request K Departure} {p : Plan R.pack Departure}

/-- The ceiling, in terms of the searches. -/
theorem keepsCeiling_iff (impl : Impl E K) {pack : Pack E T K} (cfg : AltCfg K)
    (pl : Endpoints pack) {lam : K} (hlam : 0 ≤ lam) (budget : K) {w fast : PathResult E T K}
    (hw : Yields (fun n => runOn (impl.run pack n) pl (pl.qc.arcCost lam)) (some w))
    (hfast : Yields (fun n => runOn (impl.run pack n) pl (pl.qc.arcCost 0)) (some fast)) :
    KeepsCeiling impl cfg pl lam budget ↔
      pl.travelTimeS w ≤ (1 + budget) * pl.travelTimeS fast ∨
      0 < budget ∧ ∃ a,
        Yields (fun n => runOn (impl.run pack n) pl (avoidCost cfg pl lam)) (some a) ∧
        Accepted pl budget (pl.travelTimeS fast) (pl.qc.unsafeCount w) a := by
  obtain ⟨r, hr, hiff⟩ := computeSingle_within_iff impl cfg pl hlam budget hw hfast
  rw [← hiff]
  constructor
  · intro h
    exact h r fast hr hfast
  · intro h r' fast' hr' hfast'
    obtain rfl : r = r' := Option.some.inj (hr.unique hr')
    obtain rfl : fast = fast' := Option.some.inj (hfast.unique hfast')
    exact h

/-- A query that some walk serves is answered at every lambda from `0` on. -/
theorem exists_answer (hp : R.resolve rq = .ok p) {lam : K} (hlam : 0 ≤ lam)
    (hserved : ∃ oc dc ts, Serves R rq oc dc ts) :
    ∃ w, Yields (fun n => runOn (R.run n) p.endpoints (p.endpoints.qc.arcCost lam)) (some w) ∧
      Answer (p.endpoints.query (p.endpoints.qc.arcCost lam)) (some w) := by
  obtain ⟨o, ho⟩ := runOn_yields R.impl p.endpoints
    (noImproving_of_nonneg_cost (p.endpoints.qc.arcCost_nonneg hlam))
  obtain ⟨n, hn⟩ := ho.exists_fuel
  have hA := runOn_answer R.impl p.endpoints hn
  cases o with
  | none => exact absurd hserved ((answer_none_iff R hp hA).mp rfl)
  | some w => exact ⟨w, ho, hA⟩

/-- Where the cleanest walk is a fastest one, every lambda finds a fastest walk. -/
theorem keepsCeiling_of_cleanest (hp : R.resolve rq = .ok p)
    (hh : ∀ h, p.endpoints.h = some h → Consistent R.pack.topo (p.endpoints.qc.arcCost 0) h)
    (hclean : CleanestIsFastest R rq p.endpoints.qc) {lam budget : K} (hlam : 0 ≤ lam)
    (hbudget : 0 ≤ budget) : KeepsCeiling R.impl R.alternatives p.endpoints lam budget := by
  by_cases hserved : ∃ oc dc ts, Serves R rq oc dc ts
  · obtain ⟨oc, dc, ts, hs, hnonneg, hleast⟩ := hclean hserved
    obtain ⟨w, hw, hAw⟩ := exists_answer R hp hlam hserved
    obtain ⟨fast, hfast, hAf⟩ := exists_answer R hp le_rfl hserved
    refine (keepsCeiling_iff R.impl R.alternatives p.endpoints hlam budget hw hfast).mpr (Or.inl ?_)
    obtain ⟨ocw, dcw, hsw, -⟩ := answer_serves R hp hAw
    obtain ⟨ocf, dcf, hsf, -, -, hfastTime⟩ := answer_serves R hp hAf
    have hpen := mul_le_mul_of_nonneg_left (hleast _ _ _ hsw).2 hlam
    have hwle := answer_le R hp hlam hh hAw hs
    have hfle := (hleast _ _ _ hsf).1
    rw [← hfastTime] at hfle
    have hmore := mul_nonneg hbudget (hnonneg.trans hfle)
    linarith
  · intro r fast _ hfast
    obtain ⟨n, hn⟩ := hfast.exists_fuel
    have hA := runOn_answer R.impl p.endpoints hn
    exact absurd ((answer_none_iff R hp hA).mpr hserved) (by simp)

/-- Without a budget the reroute is the plain search, so the ceiling makes that a fastest walk. -/
theorem time_eq_of_keepsCeiling {impl : Impl E K} {pack : Pack E T K} {cfg : AltCfg K}
    {pl : Endpoints pack} {lam : K} (hlam : 0 ≤ lam) (hkeeps : KeepsCeiling impl cfg pl lam 0)
    {w fast : PathResult E T K}
    (hw : Yields (fun n => runOn (impl.run pack n) pl (pl.qc.arcCost lam)) (some w))
    (hfast : Yields (fun n => runOn (impl.run pack n) pl (pl.qc.arcCost 0)) (some fast)) :
    pl.travelTimeS w ≤ pl.travelTimeS fast := by
  rcases (keepsCeiling_iff impl cfg pl hlam 0 hw hfast).mp hkeeps with h | ⟨h, -⟩
  · linarith
  · exact absurd h (lt_irrefl 0)

/-- What is no dearer at any weight of the penalty has no more penalty. -/
theorem penalty_le_of_scaled {time time' penalty penalty' : K} (htime : time ≤ time')
    (h : ∀ lam, 0 ≤ lam → time + lam * penalty ≤ time' + lam * penalty') : penalty ≤ penalty' := by
  by_contra hlt
  push Not at hlt
  -- the weight at which the penalty saved outweighs the time lost
  have hgap : 0 < penalty - penalty' := sub_pos.mpr hlt
  have hle := h ((time' - time) / (penalty - penalty') + 1)
    (add_nonneg (div_nonneg (sub_nonneg.mpr htime) hgap.le) zero_le_one)
  have hexpand : ((time' - time) / (penalty - penalty') + 1) * (penalty - penalty') =
      time' - time + (penalty - penalty') := by
    rw [add_mul, one_mul, div_mul_cancel₀ _ hgap.ne']
  rw [mul_sub] at hexpand
  linarith

/-- Where every reroute keeps to the ceiling, the walk found at lambda `1` is cleanest too: a
cleaner one would be found at a large enough lambda, and be no slower. -/
theorem cleanest_of_keepsCeiling (hp : R.resolve rq = .ok p)
    (hh : ∀ h, p.endpoints.h = some h → Consistent R.pack.topo (p.endpoints.qc.arcCost 0) h)
    (hkeeps : ∀ lam budget, 0 ≤ lam → 0 ≤ budget →
      KeepsCeiling R.impl R.alternatives p.endpoints lam budget) :
    CleanestIsFastest R rq p.endpoints.qc := by
  intro hserved
  obtain ⟨fast, hfast, hAf⟩ := exists_answer R hp le_rfl hserved
  have htime : ∀ oc dc ts, Serves R rq oc dc ts →
      p.endpoints.travelTimeS fast ≤ p.endpoints.qc.walkTimeS oc dc ts := by
    intro oc dc ts hs
    have hle := answer_le R hp le_rfl hh hAf hs
    linarith
  have hnonneg : 0 ≤ p.endpoints.travelTimeS fast := by
    obtain ⟨r, hr, hiff⟩ := computeSingle_within_iff R.impl R.alternatives p.endpoints le_rfl 1
      hfast hfast
    have hle := hkeeps 0 1 le_rfl zero_le_one r fast hr hfast
    obtain ⟨n, hn⟩ := hr.exists_fuel
    obtain ⟨ac, hac⟩ := computeSingle_found hn
    obtain ⟨oc, dc, hs, -, -, heq⟩ := answer_serves R hp (runOn_answer R.impl p.endpoints hac)
    have hge := htime _ _ _ hs
    rw [← heq] at hge
    linarith
  have hsame : ∀ lam, 0 ≤ lam → ∀ w,
      Yields (fun n => runOn (R.run n) p.endpoints (p.endpoints.qc.arcCost lam)) (some w) →
      p.endpoints.travelTimeS w ≤ p.endpoints.travelTimeS fast := fun lam hlam w hw =>
    time_eq_of_keepsCeiling hlam (hkeeps lam 0 hlam le_rfl) hw hfast
  obtain ⟨w, hw, hAw⟩ := exists_answer R hp zero_le_one hserved
  obtain ⟨oc, dc, hs, -, -, hwtime⟩ := answer_serves R hp hAw
  refine ⟨oc, dc, w.turnIds, hs, ?_, fun oc' dc' ts' hs' => ⟨?_, ?_⟩⟩
  · exact hnonneg.trans (htime _ _ _ hs)
  · rw [← hwtime]
    exact (hsame 1 zero_le_one w hw).trans (htime _ _ _ hs')
  · refine penalty_le_of_scaled (htime _ _ _ hs') fun lam hlam => ?_
    -- the walk found at `lam` is a fastest one, so `w` has no more penalty
    obtain ⟨v, hv, hAv⟩ := exists_answer R hp hlam hserved
    obtain ⟨ocv, dcv, hsv, -, -, hvtime⟩ := answer_serves R hp hAv
    have hv1 := hsame lam hlam v hv
    have hv2 := answer_le R hp hlam hh hAv hs'
    have hv3 := htime _ _ _ hsv
    have hw1 := answer_le R hp zero_le_one hh hAw hsv
    have hw2 := htime _ _ _ hs
    rw [← hvtime] at hv3 hw1
    rw [← hwtime] at hw2
    have hpen : p.endpoints.qc.walkPenaltyS w.turnIds ≤ p.endpoints.qc.walkPenaltyS v.turnIds := by
      linarith
    have hscaled := mul_le_mul_of_nonneg_left hpen hlam
    linarith

end Ceiling

end RoutePlanner.Planner
