import RoutePlanner.Costs.Query
import RoutePlanner.Lib.Join

/-!
# `pyref/geometry.py`: what an artifact draws

Model of the lines, pieces, maneuvers and unsafe points that are made of a search result. A
coordinate is `(lon, lat)`. `haversine_m` is a parameter; what the results use of it is that no
distance is negative.

* `clipLine_ne_nil`: an edge always draws something.
* `clipLine_head?`, `clipLine_getLast?`: an edge that is not cut at an end is drawn up to it.
* `foldl_edge`: the loop over the edges that measures while it joins.
-/

namespace RoutePlanner.Artifact

open RoutePlanner.Lib RoutePlanner.Search
open RoutePlanner.Costs (QueryCosts Tier)
open RoutePlanner.Ingestion (Maneuver)

variable {N E T : ℕ} {K : Type}

/-! ## The pack -/

/-- `GraphPack`, with the arrays that are drawn from. -/
structure Pack (N E T : ℕ) (K : Type) extends Costs.Pack N E T K where
  nodeLat : Fin N → K
  nodeLon : Fin N → K
  turnAngleDeg : Fin T → K
  edgeGeomPtr : Fin (E + 1) → ℕ
  geomLat : List K
  geomLon : List K
  /-- `validate` checks it. -/
  geom_length : geomLat.length = geomLon.length
  /-- Every edge has a polyline, as it is built. -/
  geom_ptr : ∀ e : Fin E,
    edgeGeomPtr e.castSucc < edgeGeomPtr e.succ ∧ edgeGeomPtr e.succ ≤ geomLat.length

/-- The polyline of an edge: `geom_lon[s:t]` and `geom_lat[s:t]`. -/
def Pack.polyline (pack : Pack N E T K) (e : Fin E) : List (K × K) :=
  let s := pack.edgeGeomPtr e.castSucc
  let t := pack.edgeGeomPtr e.succ
  ((pack.geomLon.drop s).take (t - s)).zip ((pack.geomLat.drop s).take (t - s))

/-- The polylines of consecutive edges share the coordinate of the junction. -/
def Pack.JunctionsShared (pack : Pack N E T K) : Prop :=
  ∀ t, (pack.polyline (pack.inn t)).getLast? = (pack.polyline (pack.out t)).head?

theorem Pack.polyline_ne_nil (pack : Pack N E T K) (e : Fin E) : pack.polyline e ≠ [] := by
  obtain ⟨hlt, hle⟩ := pack.geom_ptr e
  have hlen := pack.geom_length
  refine List.ne_nil_of_length_pos ?_
  simp only [polyline, List.length_zip, List.length_take, List.length_drop]
  omega

/-! ## `_edge_coords` -/

section

variable [Field K] [LinearOrder K] (haversineM : K → K → K → K → K)

/-- `haversine_m`, of two coordinates. -/
def legM (p q : K × K) : K := haversineM p.2 p.1 q.2 q.1

/-- `seg`: the legs of a line. -/
def legs (pts : List (K × K)) : List K := List.zipWith (legM haversineM) pts pts.tail

/-- `point_at`, on a line with its legs and their running sums. `np.searchsorted` of a sorted array
counts what is not above. -/
def pointAt (pts : List (K × K)) (seg cum : List K) (dist : K) : K × K :=
  let i := min (cum.countP (fun c => c ≤ dist) - 1) (seg.length - 1)
  let span := seg.getD i 0
  let u := if span ≤ 0 then 0 else (dist - cum.getD i 0) / span
  let p := pts.getD i (0, 0)
  let q := pts.getD (i + 1) (0, 0)
  (p.1 + u * (q.1 - p.1), p.2 + u * (q.2 - p.2))

/-- `_edge_coords`, of a polyline. -/
def clipLine (pts : List (K × K)) (fracStart fracEnd : K) : List (K × K) :=
  if fracStart ≤ 0 ∧ 1 ≤ fracEnd then pts
  else
    let seg := legs haversineM pts
    let cum := seg.scanl (· + ·) 0
    let total := cum.getLast?.getD 0
    if total ≤ 0 then [pts.head?.getD (0, 0), pts.getLast?.getD (0, 0)]
    else
      let d0 := fracStart * total
      let d1 := fracEnd * total
      let inner := ((pts.zip cum).filter fun v => d0 < v.2 ∧ v.2 < d1).map Prod.fst
      [pointAt pts seg cum d0] ++ inner ++ [pointAt pts seg cum d1]

variable (pack : Pack N E T K)

/-- **`_edge_coords`.** -/
def edgeCoords (e : Fin E) (fracStart fracEnd : K) : List (K × K) :=
  clipLine haversineM (pack.polyline e) fracStart fracEnd

/-! ## The route -/

/-- `fs` and `fe`, of edge `i` of `n`. -/
def fracs (fracOrigin fracDest : K) (n i : ℕ) : K × K :=
  (if i = 0 then fracOrigin else 0, if i = n - 1 then fracDest else 1)

/-- `fs` and `fe`, where a single edge is looked at once more. -/
def fracsSingle (fracOrigin fracDest : K) (n i : ℕ) : K × K :=
  if i = 0 ∧ n = 1 then (fracOrigin, fracDest) else fracs fracOrigin fracDest n i

/-- **`route_geometry`.** -/
def routeGeometry (r : PathResult E T K) (fracOrigin fracDest : K) : List (K × K) :=
  let edges := r.edges pack.topo.turnOutEdge
  edges.zipIdx.foldl (fun coords e =>
    let f := fracsSingle fracOrigin fracDest edges.length e.2
    coords ++ newPoints coords (edgeCoords haversineM pack e.1 f.1 f.2)) []

/-- A piece of the route. -/
structure Segment (K : Type) where
  coordinates : List (K × K)
  tier : String

/-- `names`. -/
def tierName : Tier → String
  | .tierSafe => "safe"
  | .tierCaution => "caution"
  | .tierUnsafe => "unsafe"

/-- **`route_segments`.** -/
def routeSegments (qc : QueryCosts E T K) (r : PathResult E T K) (fracOrigin fracDest : K) :
    List (Segment K) :=
  let edges := r.edges pack.topo.turnOutEdge
  let tiers := .tierSafe :: r.turnIds.map qc.turnTier
  (edges.zip tiers).zipIdx.map fun e =>
    let f := fracs fracOrigin fracDest edges.length e.2
    ⟨edgeCoords haversineM pack e.1.1 f.1 f.2, tierName e.1.2⟩

/-- The loop of `route_maneuvers`. -/
structure Trace (K : Type) where
  coords : List (K × K)
  cum : K
  edgeEndCum : List K

/-- One point more. -/
def Trace.point (tr : Trace K) (p : K × K) : Trace K :=
  { tr with
    coords := tr.coords ++ [p]
    cum := match tr.coords.getLast? with
      | none => tr.cum
      | some prev => tr.cum + legM haversineM prev p }

/-- One edge more. -/
def Trace.edge (tr : Trace K) (pts : List (K × K)) : Trace K :=
  let tr := (newPoints tr.coords pts).foldl (Trace.point haversineM) tr
  { tr with edgeEndCum := tr.edgeEndCum ++ [tr.cum] }

/-- A maneuver of the artifact. -/
structure ManeuverOut (K : Type) where
  type : String
  angleDeg : K
  offsetM : K
  lon : K
  lat : K

/-- `man.name.lower()`. -/
def maneuverName : Maneuver → String
  | .straight => "straight"
  | .left => "left"
  | .right => "right"
  | .uturn => "uturn"

/-- The maneuver of a turn. -/
def maneuverOut (t : Fin T) (offsetM : K) : ManeuverOut K :=
  let node := pack.edgeHead (pack.inn t)
  ⟨maneuverName (pack.turnManeuver t), pack.turnAngleDeg t, offsetM, pack.nodeLon node,
    pack.nodeLat node⟩

/-- **`route_maneuvers`.** -/
def routeManeuvers (r : PathResult E T K) (fracOrigin fracDest : K) : List (ManeuverOut K) :=
  let edges := r.edges pack.topo.turnOutEdge
  let tr := edges.zipIdx.foldl (fun tr e =>
    let f := fracsSingle fracOrigin fracDest edges.length e.2
    tr.edge haversineM (edgeCoords haversineM pack e.1 f.1 f.2)) (⟨[], 0, []⟩ : Trace K)
  (r.turnIds.zipIdx.filter fun t => pack.turnManeuver t.1 ≠ .straight).map fun t =>
    maneuverOut pack t.1 (tr.edgeEndCum.getD t.2 0)

/-- An unsafe point of the artifact. -/
structure UnsafePoint (K : Type) where
  lon : K
  lat : K
  type : String
  expectedWaitS : K

/-- **`unsafe_points`.** -/
def unsafePoints (qc : QueryCosts E T K) (r : PathResult E T K) : List (UnsafePoint K) :=
  (r.turnIds.filter fun t => qc.turnUnsafeType t ≠ .none).map fun t =>
    let node := pack.edgeHead (pack.inn t)
    ⟨pack.nodeLon node, pack.nodeLat node,
      if qc.turnUnsafeType t = .left then "unprotected_left" else "uncontrolled_crossing",
      qc.turnDelayS t⟩

/-! ## Running sums -/

omit [Field K] in
/-- What `np.searchsorted` counts comes first. -/
theorem getElem_le_of_lt_countP {l : List K} {d : K} (hsorted : l.Pairwise (· ≤ ·)) {i : ℕ}
    (hi : i < l.countP fun c => c ≤ d) : ∃ h : i < l.length, l[i] ≤ d := by
  induction l generalizing i with
  | nil => exact absurd hi (Nat.not_lt_zero i)
  | cons a l ih =>
    obtain ⟨hhead, htail⟩ := List.pairwise_cons.mp hsorted
    by_cases ha : a ≤ d
    · cases i with
      | zero => exact ⟨Nat.succ_pos _, ha⟩
      | succ i =>
        rw [List.countP_cons_of_pos (p := fun c => decide (c ≤ d)) (decide_eq_true ha)] at hi
        obtain ⟨h, hle⟩ := ih htail (Nat.lt_of_succ_lt_succ hi)
        exact ⟨Nat.succ_lt_succ h, hle⟩
    · have hnone : (a :: l).countP (fun c => c ≤ d) = 0 := by
        rw [List.countP_eq_zero]
        intro c hc hle
        rcases List.mem_cons.mp hc with rfl | hc
        · exact ha (of_decide_eq_true hle)
        · exact ha ((hhead c hc).trans (of_decide_eq_true hle))
      rw [hnone] at hi
      exact absurd hi (Nat.not_lt_zero i)

omit [Field K] in
/-- Nothing in a sorted list is above its last. -/
theorem countP_le_of_getLast? {l : List K} (hsorted : l.Pairwise (· ≤ ·)) {last : K}
    (hlast : l.getLast? = some last) : l.countP (fun c => c ≤ last) = l.length := by
  refine List.countP_eq_length.mpr fun c hc => decide_eq_true ?_
  obtain ⟨init, rfl⟩ := List.getLast?_eq_some_iff.mp hlast
  rcases List.mem_append.mp hc with hc | hc
  · exact (List.pairwise_append.mp hsorted).2.2 c hc last List.mem_cons_self
  · exact (List.mem_singleton.mp hc).le

/-- The running sums of what is not negative. -/
theorem scanl_bounds [IsStrictOrderedRing K] {seg : List K} (hseg : ∀ x ∈ seg, 0 ≤ x) (s : K) :
    (∀ c ∈ seg.scanl (· + ·) s, s ≤ c) ∧ (seg.scanl (· + ·) s).Pairwise (· ≤ ·) := by
  induction seg generalizing s with
  | nil => simp
  | cons x seg ih =>
    obtain ⟨hle, hsorted⟩ := ih (fun y hy => hseg y (List.mem_cons_of_mem x hy)) (s + x)
    have hx : s ≤ s + x := le_add_of_nonneg_right (hseg x List.mem_cons_self)
    rw [List.scanl_cons]
    refine ⟨fun c hc => ?_, List.pairwise_cons.mpr ⟨fun c hc => hx.trans (hle c hc), hsorted⟩⟩
    rcases List.mem_cons.mp hc with rfl | hc
    · exact le_refl c
    · exact hx.trans (hle c hc)

/-! ## The ends of an edge -/

variable {haversineM} {pts : List (K × K)}

omit [Field K] [LinearOrder K] in
theorem length_legs (haversineM : K → K → K → K → K) (hne : pts ≠ []) :
    (legs haversineM pts).length + 1 = pts.length := by
  have hpos := List.length_pos_iff.mpr hne
  rw [legs, List.length_zipWith, List.length_tail]
  omega

omit [Field K] [LinearOrder K] in
theorem legs_getElem {i : ℕ} (h : i < (legs haversineM pts).length) (h0 : i < pts.length)
    (h1 : i + 1 < pts.length) : (legs haversineM pts)[i] = legM haversineM pts[i] pts[i + 1] := by
  simp [legs]

/-- A line of some length has a leg. -/
theorem legs_pos_of_total {total : K}
    (htotal : ((legs haversineM pts).scanl (· + ·) 0).getLast? = some total) (hpos : 0 < total) :
    0 < (legs haversineM pts).length := by
  refine List.length_pos_iff.mpr fun hnil => ?_
  rw [hnil] at htotal
  obtain rfl : 0 = total := Option.some.inj htotal
  exact lt_irrefl 0 hpos

/-- A leg without length leads nowhere. -/
def NoFlatLegs (haversineM : K → K → K → K → K) (pts : List (K × K)) : Prop :=
  pts.IsChain fun p q => legM haversineM p q ≤ 0 → p = q

section

variable [IsStrictOrderedRing K] (hnonneg : ∀ a b c d, 0 ≤ haversineM a b c d)

include hnonneg

omit [IsStrictOrderedRing K] in
theorem legs_nonneg (pts : List (K × K)) : ∀ x ∈ legs haversineM pts, 0 ≤ x := by
  intro x hx
  obtain ⟨i, hi, rfl⟩ := List.getElem_of_mem hx
  simp only [legs, List.getElem_zipWith]
  exact hnonneg _ _ _ _

/-- Where the running sum is still nothing, the line is where it starts. -/
theorem getElem_eq_of_scanl (hflat : NoFlatLegs haversineM pts) {i : ℕ}
    (hi : i < ((legs haversineM pts).scanl (· + ·) 0).length) (hpts : i < pts.length)
    (hzero : ((legs haversineM pts).scanl (· + ·) 0)[i] ≤ 0) :
    pts[i] = pts[0] := by
  induction i with
  | zero => rfl
  | succ i ih =>
    have hi' : i < ((legs haversineM pts).scanl (· + ·) 0).length := Nat.lt_of_succ_lt hi
    have hleg : i < (legs haversineM pts).length := by
      rw [List.length_scanl] at hi
      exact Nat.lt_of_succ_lt_succ hi
    obtain ⟨hle, -⟩ := scanl_bounds (legs_nonneg hnonneg pts) 0
    have hbefore := hle _ (List.getElem_mem hi')
    have hlegnonneg := legs_nonneg hnonneg pts _ (List.getElem_mem hleg)
    rw [List.getElem_succ_scanl] at hzero
    have hlegzero : (legs haversineM pts)[i] ≤ 0 := by linarith
    rw [legs_getElem hleg (Nat.lt_of_succ_lt hpts) hpts] at hlegzero
    rw [← ih hi' (Nat.lt_of_succ_lt hpts) (by linarith)]
    exact (List.isChain_iff_getElem.mp hflat i hpts hlegzero).symm

/-- The point at the start of a line. -/
theorem pointAt_start (hflat : NoFlatLegs haversineM pts) (hlegs : 0 < (legs haversineM pts).length)
    (hpts : 0 < pts.length) :
    pointAt pts (legs haversineM pts) ((legs haversineM pts).scanl (· + ·) 0) 0 = pts[0] := by
  have hlength := length_legs haversineM (List.ne_nil_of_length_pos hpts)
  obtain ⟨hle, hsorted⟩ := scanl_bounds (legs_nonneg hnonneg pts) 0
  generalize hcum : (legs haversineM pts).scanl (· + ·) 0 = cum at hle hsorted
  have hcount : 0 < cum.countP fun c => c ≤ 0 := by
    refine List.countP_pos_iff.mpr ⟨0, ?_, decide_eq_true (le_refl 0)⟩
    rw [← hcum]
    exact List.mem_of_getElem? List.getElem?_scanl_zero
  generalize hi : min (cum.countP (fun c => c ≤ 0) - 1) ((legs haversineM pts).length - 1) = i
  have hlt : i < cum.countP fun c => c ≤ 0 := by omega
  have hileg : i < (legs haversineM pts).length := by omega
  obtain ⟨hicum, hzero⟩ := getElem_le_of_lt_countP hsorted hlt
  have hipts : i < pts.length := by omega
  have hstart : pts[i] = pts[0] := by
    subst hcum
    exact getElem_eq_of_scanl hnonneg hflat hicum hipts hzero
  have hsum : cum[i] = 0 := hzero.antisymm (hle _ (List.getElem_mem hicum))
  unfold pointAt
  simp only [hi, List.getD_eq_getElem _ _ hipts, List.getD_eq_getElem _ _ hicum, hsum, hstart,
    sub_zero, zero_div, ite_self, zero_mul, add_zero]

/-- The point at the end of a line. -/
theorem pointAt_end (hflat : NoFlatLegs haversineM pts) (hlegs : 0 < (legs haversineM pts).length)
    (hpts : pts.length - 1 < pts.length) {total : K}
    (htotal : ((legs haversineM pts).scanl (· + ·) 0).getLast? = some total) :
    pointAt pts (legs haversineM pts) ((legs haversineM pts).scanl (· + ·) 0) total =
      pts[pts.length - 1] := by
  have hlength := length_legs haversineM
    (List.ne_nil_of_length_pos (Nat.zero_lt_of_lt hpts))
  obtain ⟨-, hsorted⟩ := scanl_bounds (legs_nonneg hnonneg pts) 0
  have hcumLength : ((legs haversineM pts).scanl (· + ·) 0).length =
      (legs haversineM pts).length + 1 := List.length_scanl
  obtain ⟨n, hn⟩ : ∃ n, (legs haversineM pts).length = n + 1 := ⟨_, (Nat.sub_add_cancel hlegs).symm⟩
  have hcum : n < ((legs haversineM pts).scanl (· + ·) 0).length := by omega
  have hcum' : n + 1 < ((legs haversineM pts).scanl (· + ·) 0).length := by omega
  have hleg : n < (legs haversineM pts).length := by omega
  have hp : n < pts.length := by omega
  have hq : n + 1 < pts.length := by omega
  have hsum : ((legs haversineM pts).scanl (· + ·) 0)[n] + (legs haversineM pts)[n] = total := by
    have hstep := List.getElem_succ_scanl hcum'
    rw [List.getLast?_eq_getElem?, hcumLength, hn, Nat.add_sub_cancel,
      List.getElem?_eq_getElem hcum'] at htotal
    rw [← hstep]
    exact Option.some.inj htotal
  have hcount := countP_le_of_getLast? hsorted htotal
  have hlast : pts[pts.length - 1] = pts[n + 1] := by
    congr 1
    omega
  have hi : min (((legs haversineM pts).scanl (· + ·) 0).countP (fun c => c ≤ total) - 1)
      ((legs haversineM pts).length - 1) = n := by omega
  unfold pointAt
  simp only [hi, List.getD_eq_getElem _ _ hp, List.getD_eq_getElem _ _ hq,
    List.getD_eq_getElem _ _ hcum, List.getD_eq_getElem _ _ hleg, hlast]
  by_cases hspan : (legs haversineM pts)[n] ≤ 0
  · have hsame : pts[n] = pts[n + 1] :=
      List.isChain_iff_getElem.mp hflat n hq (legs_getElem hleg hp hq ▸ hspan)
    rw [if_pos hspan, ← hsame]
    simp only [zero_mul, add_zero]
  · have hone : (total - ((legs haversineM pts).scanl (· + ·) 0)[n]) / (legs haversineM pts)[n] =
        1 := by
      rw [← hsum, add_sub_cancel_left, div_self (not_le.mp hspan).ne']
    rw [if_neg hspan, hone]
    simp only [one_mul, add_sub_cancel]

/-- **An edge that is not cut at its start** is drawn from there. -/
theorem clipLine_head? (hflat : NoFlatLegs haversineM pts) (hne : pts ≠ []) (fracEnd : K) :
    (clipLine haversineM pts 0 fracEnd).head? = pts.head? := by
  have hpts := List.length_pos_iff.mpr hne
  have hhead : pts.head? = some pts[0] := by
    rw [List.head?_eq_getElem?, List.getElem?_eq_getElem hpts]
  unfold clipLine
  split
  · rfl
  · simp only
    rw [List.getLast?_scanl, Option.getD_some]
    split
    · rw [List.head?_cons, hhead, Option.getD_some]
    · next hpos =>
      have hlegs := legs_pos_of_total List.getLast?_scanl (not_le.mp hpos)
      rw [zero_mul, pointAt_start hnonneg hflat hlegs hpts, hhead]
      rfl

/-- **An edge that is not cut at its end** is drawn up to there. -/
theorem clipLine_getLast? (hflat : NoFlatLegs haversineM pts) (hne : pts ≠ []) (fracStart : K) :
    (clipLine haversineM pts fracStart 1).getLast? = pts.getLast? := by
  have hpts : pts.length - 1 < pts.length := Nat.sub_one_lt_of_lt (List.length_pos_iff.mpr hne)
  have hlast : pts.getLast? = some pts[pts.length - 1] := by
    rw [List.getLast?_eq_getElem?, List.getElem?_eq_getElem hpts]
  unfold clipLine
  split
  · rfl
  · simp only
    rw [List.getLast?_scanl, Option.getD_some]
    split
    · rw [hlast]
      rfl
    · next hpos =>
      have hlegs := legs_pos_of_total List.getLast?_scanl (not_le.mp hpos)
      rw [one_mul, pointAt_end hnonneg hflat hlegs hpts List.getLast?_scanl, List.getLast?_concat,
        hlast]

end

/-- **An edge always draws something.** -/
theorem clipLine_ne_nil (hne : pts ≠ []) (fracStart fracEnd : K) :
    clipLine haversineM pts fracStart fracEnd ≠ [] := by
  unfold clipLine
  split
  · exact hne
  · simp only
    split
    · exact List.cons_ne_nil _ _
    · exact List.concat_ne_nil _ _

/-! ## The loop that measures -/

omit [LinearOrder K] in
theorem foldl_point (haversineM : K → K → K → K → K) {tr : Trace K}
    (h : tr.cum = lineEnd (legM haversineM) 0 tr.coords) (pts : List (K × K)) :
    pts.foldl (Trace.point haversineM) tr =
      ⟨tr.coords ++ pts, lineEnd (legM haversineM) 0 (tr.coords ++ pts), tr.edgeEndCum⟩ := by
  induction pts generalizing tr with
  | nil =>
    rw [List.foldl_nil, List.append_nil, ← h]
  | cons p pts ih =>
    have hnext : (tr.point haversineM p).cum =
        lineEnd (legM haversineM) 0 (tr.point haversineM p).coords := by
      cases hlast : tr.coords.getLast? with
      | none =>
        rw [List.getLast?_eq_none_iff] at hlast
        rw [hlast, lineEnd_nil] at h
        simp [Trace.point, hlast, h]
      | some prev =>
        simp only [Trace.point, hlast]
        rw [lineEnd_concat _ _ hlast, h]
    rw [List.foldl_cons, ih hnext]
    simp [Trace.point]

/-- **The loop** measures the line that it joins, up to the end of each piece. -/
theorem foldl_edge (haversineM : K → K → K → K → K) (pieces : List (List (K × K))) :
    pieces.foldl (Trace.edge haversineM) ⟨[], 0, []⟩ =
      ⟨join pieces, lineEnd (legM haversineM) 0 (join pieces),
        (List.range pieces.length).map fun i =>
          lineEnd (legM haversineM) 0 (join (pieces.take (i + 1)))⟩ := by
  induction pieces using List.reverseRecOn with
  | nil => rfl
  | append_singleton pieces piece ih =>
    have hbefore : ((List.range pieces.length).map fun i =>
        lineEnd (legM haversineM) 0 (join ((pieces ++ [piece]).take (i + 1)))) =
        (List.range pieces.length).map fun i =>
          lineEnd (legM haversineM) 0 (join (pieces.take (i + 1))) := by
      refine List.map_congr_left fun i hi => ?_
      rw [List.take_append_of_le_length (List.mem_range.mp hi)]
    rw [List.foldl_concat, ih, Trace.edge, foldl_point haversineM rfl, List.length_append,
      List.length_singleton, List.range_succ, List.map_append, hbefore, List.map_singleton,
      List.take_of_length_le (by rw [List.length_append, List.length_singleton]), join_concat]

end

end RoutePlanner.Artifact
