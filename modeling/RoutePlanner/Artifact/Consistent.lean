import RoutePlanner.Artifact.Geometry
import RoutePlanner.Costs.Consistent
import RoutePlanner.Lib.FirstSeen
import RoutePlanner.Planner.Router

/-!
# `Router._describe`: an artifact agrees with itself

Five functions go through a search result, each on its own: the counts of `compute_metrics`, the
line, its pieces, the maneuvers and the unsafe points.

* `describe_consistent`: they agree, for every allowed walk, any fractions and any costs.
* `describe_counts`: the counts are those of the planner's model.
-/

namespace RoutePlanner.Artifact

open RoutePlanner.Lib RoutePlanner.Search
open RoutePlanner.Costs (QueryCosts PackStatics Snapshot Config buildPackStatics computeCosts)
open RoutePlanner.Ingestion (Maneuver)

variable {N E T : ℕ} {K : Type} [Field K] [LinearOrder K]

/-- `RouteOut`: what is drawn, and the counts. -/
structure RouteOut (K : Type) where
  geometry : List (K × K)
  unprotectedLeft : ℕ
  uncontrolledCrossing : ℕ
  total : ℕ
  segments : List (Segment K)
  unsafePoints : List (UnsafePoint K)
  maneuvers : List (ManeuverOut K)

/-- **`_describe`.** -/
def describe (haversineM : K → K → K → K → K) (pack : Pack N E T K) (qc : QueryCosts E T K)
    (r : PathResult E T K) (fracOrigin fracDest : K) : RouteOut K :=
  let unprotectedLeft := r.turnIds.countP fun t => qc.turnUnsafeType t = .left
  let uncontrolledCrossing := r.turnIds.countP fun t => qc.turnUnsafeType t = .crossing
  { geometry := routeGeometry haversineM pack r fracOrigin fracDest
    unprotectedLeft := unprotectedLeft
    uncontrolledCrossing := uncontrolledCrossing
    total := unprotectedLeft + uncontrolledCrossing
    segments := routeSegments haversineM pack qc r fracOrigin fracDest
    unsafePoints := unsafePoints pack qc r
    maneuvers := routeManeuvers haversineM pack r fracOrigin fracDest }

/-- The line up to the end of piece `i`. -/
def RouteOut.upTo (a : RouteOut K) (i : ℕ) : List (K × K) :=
  join ((a.segments.take (i + 1)).map Segment.coordinates)

/-- An artifact that agrees with itself. -/
structure Consistent (haversineM : K → K → K → K → K) (pack : Pack N E T K)
    (qc : QueryCosts E T K) (r : PathResult E T K) (a : RouteOut K) : Prop where
  /-- A point for every count. -/
  total : a.total = a.unsafePoints.length
  unprotectedLeft :
    a.unprotectedLeft = a.unsafePoints.countP fun p => p.type = "unprotected_left"
  uncontrolledCrossing :
    a.uncontrolledCrossing = a.unsafePoints.countP fun p => p.type = "uncontrolled_crossing"
  /-- What a counted turn enters is painted red. -/
  red : ∀ i t, r.turnIds[i]? = some t → qc.turnUnsafeType t ≠ .none →
    ∃ seg, a.segments[i + 1]? = some seg ∧ seg.tier = "unsafe"
  /-- The line is made of its pieces, no joint repeated. -/
  geometry : a.geometry = join (a.segments.map Segment.coordinates)
  /-- The maneuvers are the turns that are not straight, at the length of the line up to the end of
  the in-edge. -/
  maneuvers : a.maneuvers =
    (r.turnIds.zipIdx.filter fun t => pack.turnManeuver t.1 ≠ .straight).map fun t =>
      maneuverOut pack t.1 (lineEnd (legM haversineM) 0 (a.upTo t.2))
  upTo_prefix : ∀ i, a.upTo i <+: a.geometry
  upTo_end : ∀ i t, r.turnIds[i]? = some t → ∃ seg fs, a.segments[i]? = some seg ∧
    seg.coordinates = edgeCoords haversineM pack (pack.inn t) fs 1 ∧
    (a.upTo i).getLast? = seg.coordinates.getLast?
  sorted : a.maneuvers.Pairwise fun m m' => m.offsetM ≤ m'.offsetM
  bounded : ∀ m ∈ a.maneuvers, m.offsetM ≤ lineEnd (legM haversineM) 0 a.geometry
  /-- Where no leg without length leads elsewhere, every joint is one, and an in-edge ends where its
  polyline does. -/
  joints : (∀ e, NoFlatLegs haversineM (pack.polyline e)) →
    Tiles (a.segments.map Segment.coordinates) a.geometry ∧
      ∀ i t, r.turnIds[i]? = some t →
        (a.upTo i).getLast? = (pack.polyline (pack.inn t)).getLast?

variable {haversineM : K → K → K → K → K} {pack : Pack N E T K} {qc : QueryCosts E T K}
  {r : PathResult E T K} {fo fd : K}

/-! ## Counts -/

omit [Field K] [LinearOrder K] in
theorem countP_unprotectedLeft :
    (unsafePoints pack qc r).countP (fun p => p.type = "unprotected_left") =
      r.turnIds.countP fun t => qc.turnUnsafeType t = .left := by
  unfold unsafePoints
  rw [List.countP_map, List.countP_filter]
  refine List.countP_congr fun t _ => ?_
  cases h : qc.turnUnsafeType t <;> simp [h]

omit [Field K] [LinearOrder K] in
theorem countP_uncontrolledCrossing :
    (unsafePoints pack qc r).countP (fun p => p.type = "uncontrolled_crossing") =
      r.turnIds.countP fun t => qc.turnUnsafeType t = .crossing := by
  unfold unsafePoints
  rw [List.countP_map, List.countP_filter]
  refine List.countP_congr fun t _ => ?_
  cases h : qc.turnUnsafeType t <;> simp [h]

omit [Field K] [LinearOrder K] in
/-- **A point for every turn that is counted.** -/
theorem length_unsafePoints : (unsafePoints pack qc r).length =
    r.turnIds.countP (fun t => qc.turnUnsafeType t = .left) +
      r.turnIds.countP fun t => qc.turnUnsafeType t = .crossing := by
  unfold unsafePoints
  rw [List.length_map, ← List.countP_eq_length_filter]
  induction r.turnIds with
  | nil => rfl
  | cons t ts ih =>
    rw [List.countP_cons, List.countP_cons, List.countP_cons, ih]
    cases qc.turnUnsafeType t <;> simp <;> omega

/-! ## Pieces -/

/-- The pieces of the route. -/
def pieces (haversineM : K → K → K → K → K) (pack : Pack N E T K) (r : PathResult E T K)
    (fo fd : K) : List (List (K × K)) :=
  let edges := r.edges pack.topo.turnOutEdge
  edges.zipIdx.map fun e =>
    edgeCoords haversineM pack e.1 (fracs fo fd edges.length e.2).1
      (fracs fo fd edges.length e.2).2

omit [LinearOrder K] in
theorem fracsSingle_eq (fo fd : K) (n i : ℕ) : fracsSingle fo fd n i = fracs fo fd n i := by
  unfold fracsSingle
  split
  · next h =>
    obtain ⟨rfl, rfl⟩ := h
    rfl
  · rfl

theorem routeGeometry_eq : routeGeometry haversineM pack r fo fd =
    join (pieces haversineM pack r fo fd) := by
  unfold routeGeometry pieces join
  simp only [fracsSingle_eq]
  rw [List.foldl_map]

theorem coordinates_routeSegments (qc : QueryCosts E T K) :
    (routeSegments haversineM pack qc r fo fd).map Segment.coordinates =
      pieces haversineM pack r fo fd := by
  have hlen : (r.edges pack.topo.turnOutEdge).length ≤
      (Costs.Tier.tierSafe :: r.turnIds.map qc.turnTier).length := by
    simp [PathResult.edges]
  unfold routeSegments pieces
  simp only
  rw [List.map_map]
  conv_rhs => rw [← List.map_fst_zip hlen, List.zipIdx_map, List.map_map]
  rw [List.map_fst_zip hlen]
  rfl

theorem length_pieces : (pieces haversineM pack r fo fd).length = r.turnIds.length + 1 := by
  simp [pieces, PathResult.edges]

theorem getElem?_pieces {i : ℕ} {e : Fin E} (he : (r.edges pack.topo.turnOutEdge)[i]? = some e) :
    (pieces haversineM pack r fo fd)[i]? =
      some (edgeCoords haversineM pack e (fracs fo fd (r.turnIds.length + 1) i).1
        (fracs fo fd (r.turnIds.length + 1) i).2) := by
  have hlen : (r.edges pack.topo.turnOutEdge).length = r.turnIds.length + 1 := by
    simp [PathResult.edges]
  unfold pieces
  simp only
  rw [List.getElem?_map, List.getElem?_zipIdx, he, hlen]
  simp

theorem piece_ne_nil : ∀ piece ∈ pieces haversineM pack r fo fd, piece ≠ [] := by
  intro piece hpiece
  obtain ⟨e, -, rfl⟩ := List.mem_map.mp hpiece
  exact clipLine_ne_nil (pack.polyline_ne_nil e.1) _ _

theorem upTo_describe (i : ℕ) : (describe haversineM pack qc r fo fd).upTo i =
    join ((pieces haversineM pack r fo fd).take (i + 1)) := by
  rw [RouteOut.upTo, List.map_take]
  exact congrArg (fun l : List (List (K × K)) => join (l.take (i + 1)))
    (coordinates_routeSegments qc)

/-! ## The edges of a turn -/

section Turns

variable {i : ℕ} {t : Fin T} (ht : r.turnIds[i]? = some t)

include ht

omit [Field K] [LinearOrder K] in
theorem getElem?_edges_out :
    (r.edges pack.topo.turnOutEdge)[i + 1]? = some (pack.out t) := by
  rw [PathResult.edges, List.getElem?_cons_succ, List.getElem?_map, ht]
  rfl

/-- The segment that a turn enters. -/
theorem tier_routeSegments_out (haversineM : K → K → K → K → K) (pack : Pack N E T K)
    (qc : QueryCosts E T K) (fo fd : K) :
    (routeSegments haversineM pack qc r fo fd)[i + 1]?.map Segment.tier =
      some (tierName (qc.turnTier t)) := by
  have htier : (Costs.Tier.tierSafe :: r.turnIds.map qc.turnTier)[i + 1]? =
      some (qc.turnTier t) := by
    rw [List.getElem?_cons_succ, List.getElem?_map, ht]
    rfl
  have hzip : ((r.edges pack.topo.turnOutEdge).zip
      (Costs.Tier.tierSafe :: r.turnIds.map qc.turnTier))[i + 1]? =
        some (pack.out t, qc.turnTier t) :=
    List.getElem?_zip_eq_some.mpr ⟨getElem?_edges_out ht, htier⟩
  unfold routeSegments
  simp only
  rw [List.getElem?_map, List.getElem?_zipIdx, hzip]
  rfl

variable (hw : pack.topo.graph.IsWalk r.firstEdge r.turnIds r.destEdge)

include hw

omit [Field K] [LinearOrder K] in
theorem getElem?_edges_inn : (r.edges pack.topo.turnOutEdge)[i]? = some (pack.inn t) :=
  hw.getElem?_vertices ht

/-- The piece of an in-edge is not cut at its end. -/
theorem getElem?_pieces_inn (haversineM : K → K → K → K → K) (fo fd : K) :
    ∃ fs, (pieces haversineM pack r fo fd)[i]? =
      some (edgeCoords haversineM pack (pack.inn t) fs 1) := by
  obtain ⟨hi, -⟩ := List.getElem?_eq_some_iff.mp ht
  have hend : (fracs fo fd (r.turnIds.length + 1) i).2 = 1 := if_neg (by omega)
  refine ⟨(fracs fo fd (r.turnIds.length + 1) i).1, ?_⟩
  rw [getElem?_pieces (getElem?_edges_inn ht hw), hend]

omit hw in
/-- The piece of an out-edge is not cut at its start. -/
theorem getElem?_pieces_out (haversineM : K → K → K → K → K) (pack : Pack N E T K) (fo fd : K) :
    ∃ fe, (pieces haversineM pack r fo fd)[i + 1]? =
    some (edgeCoords haversineM pack (pack.out t) 0 fe) := by
  have hstart : (fracs fo fd (r.turnIds.length + 1) (i + 1)).1 = 0 := by
    rw [fracs, if_neg (Nat.succ_ne_zero i)]
  refine ⟨(fracs fo fd (r.turnIds.length + 1) (i + 1)).2, ?_⟩
  rw [getElem?_pieces (getElem?_edges_out ht), hstart]

/-- The line up to the end of an in-edge ends where its piece does. -/
theorem getLast?_join_take (haversineM : K → K → K → K → K) (fo fd : K) :
    ∃ fs, (pieces haversineM pack r fo fd)[i]? =
      some (edgeCoords haversineM pack (pack.inn t) fs 1) ∧
    (join ((pieces haversineM pack r fo fd).take (i + 1))).getLast? =
      (edgeCoords haversineM pack (pack.inn t) fs 1).getLast? := by
  obtain ⟨fs, hpiece⟩ := getElem?_pieces_inn ht hw haversineM fo fd
  refine ⟨fs, hpiece, ?_⟩
  rw [List.take_add_one, hpiece]
  exact getLast?_join_concat _ (clipLine_ne_nil (pack.polyline_ne_nil _) _ _)

end Turns

/-! ## Joints -/

/-- Pieces that follow each other share the junction. -/
theorem pieces_isChain [IsStrictOrderedRing K] (hnonneg : ∀ a b c d, 0 ≤ haversineM a b c d)
    (hjunctions : pack.JunctionsShared) (hflat : ∀ e, NoFlatLegs haversineM (pack.polyline e))
    (hw : pack.topo.graph.IsWalk r.firstEdge r.turnIds r.destEdge) :
    (pieces haversineM pack r fo fd).IsChain fun l l' => l.getLast? = l'.head? := by
  refine List.isChain_iff_getElem.mpr fun i hi => ?_
  obtain ⟨t, ht⟩ : ∃ t, r.turnIds[i]? = some t := by
    rw [length_pieces] at hi
    exact ⟨r.turnIds[i], List.getElem?_eq_getElem (Nat.lt_of_succ_lt_succ hi)⟩
  obtain ⟨fs, hin⟩ := getElem?_pieces_inn ht hw haversineM fo fd
  obtain ⟨fe, hout⟩ := getElem?_pieces_out ht haversineM pack fo fd
  rw [(List.getElem?_eq_some_iff.mp hin).2, (List.getElem?_eq_some_iff.mp hout).2, edgeCoords,
    edgeCoords, clipLine_getLast? hnonneg (hflat _) (pack.polyline_ne_nil _),
    clipLine_head? hnonneg (hflat _) (pack.polyline_ne_nil _), hjunctions t]

/-! ## Maneuvers -/

/-- **The maneuvers**, with the length of the line up to the end of each in-edge. -/
theorem routeManeuvers_eq : routeManeuvers haversineM pack r fo fd =
    (r.turnIds.zipIdx.filter fun t => pack.turnManeuver t.1 ≠ .straight).map fun t =>
      maneuverOut pack t.1 (lineEnd (legM haversineM) 0
        (join ((pieces haversineM pack r fo fd).take (t.2 + 1)))) := by
  have htrace : (r.edges pack.topo.turnOutEdge).zipIdx.foldl (fun tr e =>
      tr.edge haversineM (edgeCoords haversineM pack e.1
        (fracs fo fd (r.edges pack.topo.turnOutEdge).length e.2).1
        (fracs fo fd (r.edges pack.topo.turnOutEdge).length e.2).2)) (⟨[], 0, []⟩ : Trace K) =
      (pieces haversineM pack r fo fd).foldl (Trace.edge haversineM) ⟨[], 0, []⟩ := by
    rw [pieces, List.foldl_map]
  unfold routeManeuvers
  simp only [fracsSingle_eq]
  rw [htrace, foldl_edge]
  refine List.map_congr_left fun t ht => ?_
  have hlt : t.2 < (pieces haversineM pack r fo fd).length := by
    have hmem := List.mem_zipIdx_iff_getElem?.mp (List.mem_of_mem_filter ht)
    rw [length_pieces]
    exact Nat.lt_succ_of_lt (List.getElem?_eq_some_iff.mp hmem).1
  simp only
  rw [List.getD_eq_getElem?_getD, List.getElem?_map, List.getElem?_range hlt]
  rfl

/-! ## The artifact -/

theorem upTo_prefix_upTo {i j : ℕ} (hij : i ≤ j) :
    (describe haversineM pack qc r fo fd).upTo i <+:
      (describe haversineM pack qc r fo fd).upTo j := by
  rw [upTo_describe, upTo_describe]
  have h := join_take_prefix ((pieces haversineM pack r fo fd).take (j + 1)) (i + 1)
  rwa [List.take_take, Nat.min_eq_left (Nat.succ_le_succ hij)] at h

theorem geometry_describe : (describe haversineM pack qc r fo fd).geometry =
    join (pieces haversineM pack r fo fd) :=
  routeGeometry_eq

theorem upTo_prefix_geometry (i : ℕ) : (describe haversineM pack qc r fo fd).upTo i <+:
    (describe haversineM pack qc r fo fd).geometry := by
  rw [upTo_describe, geometry_describe]
  exact join_take_prefix _ _

theorem lineEnd_le_of_prefix [IsStrictOrderedRing K] (hnonneg : ∀ a b c d, 0 ≤ haversineM a b c d)
    {line more : List (K × K)} (h : line <+: more) :
    lineEnd (legM haversineM) 0 line ≤ lineEnd (legM haversineM) 0 more := by
  obtain ⟨rest, rfl⟩ := h
  exact lineEnd_le_append (fun _ _ => hnonneg _ _ _ _) 0 line rest

theorem maneuvers_describe : (describe haversineM pack qc r fo fd).maneuvers =
    (r.turnIds.zipIdx.filter fun t => pack.turnManeuver t.1 ≠ .straight).map fun t =>
      maneuverOut pack t.1 (lineEnd (legM haversineM) 0
        ((describe haversineM pack qc r fo fd).upTo t.2)) := by
  simp only [upTo_describe]
  exact routeManeuvers_eq

/-- **An artifact agrees with itself.** -/
theorem describe_consistent [IsStrictOrderedRing K] [FloorRing K] {cfg : Config K}
    {st : PackStatics E T K} (hnonneg : ∀ a b c d, 0 ≤ haversineM a b c d)
    (hjunctions : pack.JunctionsShared) (hst : buildPackStatics pack.toPack cfg = .ok st)
    (snap : Snapshot E K) (hw : pack.topo.graph.IsWalk r.firstEdge r.turnIds r.destEdge)
    (fracOrigin fracDest : K) :
    Consistent haversineM pack (computeCosts pack.toPack snap cfg st) r
      (describe haversineM pack (computeCosts pack.toPack snap cfg st) r fracOrigin fracDest) where
  total := length_unsafePoints.symm
  unprotectedLeft := countP_unprotectedLeft.symm
  uncontrolledCrossing := countP_uncontrolledCrossing.symm
  red i t ht hcounted := by
    obtain ⟨seg, hseg, htier⟩ := Option.map_eq_some_iff.mp (tier_routeSegments_out ht haversineM
      pack (computeCosts pack.toPack snap cfg st) fracOrigin fracDest)
    refine ⟨seg, hseg, htier.trans ?_⟩
    exact congrArg tierName (Costs.tierOf_of_unsafeType hst hcounted)
  geometry := routeGeometry_eq.trans (congrArg join (coordinates_routeSegments _).symm)
  maneuvers := maneuvers_describe
  upTo_prefix := upTo_prefix_geometry
  upTo_end i t ht := by
    obtain ⟨fs, hpiece, hlast⟩ := getLast?_join_take ht hw haversineM fracOrigin fracDest
    rw [← coordinates_routeSegments (computeCosts pack.toPack snap cfg st),
      List.getElem?_map] at hpiece
    obtain ⟨seg, hseg, hcoords⟩ := Option.map_eq_some_iff.mp hpiece
    refine ⟨seg, fs, hseg, hcoords, ?_⟩
    rw [upTo_describe, hlast, hcoords]
  sorted := by
    rw [maneuvers_describe]
    refine List.pairwise_map.mpr (((pairwise_zipIdx r.turnIds).filter _).imp fun hlt => ?_)
    exact lineEnd_le_of_prefix hnonneg (upTo_prefix_upTo hlt.le)
  bounded m hm := by
    rw [maneuvers_describe] at hm
    obtain ⟨t, -, rfl⟩ := List.mem_map.mp hm
    exact lineEnd_le_of_prefix hnonneg (upTo_prefix_geometry t.2)
  joints hflat := by
    refine ⟨?_, fun i t ht => ?_⟩
    · have hsegments : (describe haversineM pack (computeCosts pack.toPack snap cfg st) r fracOrigin
          fracDest).segments.map Segment.coordinates =
          pieces haversineM pack r fracOrigin fracDest := coordinates_routeSegments _
      have hpieces : pieces haversineM pack r fracOrigin fracDest ≠ [] := by
        refine List.ne_nil_of_length_pos ?_
        rw [length_pieces]
        exact Nat.succ_pos _
      rw [hsegments, geometry_describe]
      exact tiles_join hpieces piece_ne_nil (pieces_isChain hnonneg hjunctions hflat hw)
    · obtain ⟨fs, -, hlast⟩ := getLast?_join_take ht hw haversineM fracOrigin fracDest
      rw [upTo_describe, hlast, edgeCoords,
        clipLine_getLast? hnonneg (hflat _) (pack.polyline_ne_nil _)]

/-- `crossTown` as it is drawn, at the equator. -/
def crossTown : Pack 5 6 11 ℚ :=
  { Costs.crossTown with
    nodeLat := ![0, 0, 1 / 200, -1 / 200, 0]
    nodeLon := ![0, 1 / 200, 0, 0, -1 / 200]
    turnAngleDeg := ![180, 180, 180, 90, 0, 90, 0, -90, 0, -90, 180]
    edgeGeomPtr := ![0, 2, 4, 6, 8, 10, 12]
    geomLat := [0, 0, 0, 1 / 200, 0, 0, 0, 0, -1 / 200, 0, 0, 0]
    geomLon := [0, 1 / 200, 0, 0, 0, -1 / 200, 1 / 200, 0, 0, 0, -1 / 200, 0]
    geom_length := rfl
    geom_ptr := by decide }

/-- Metres along the streets of a town at the equator. -/
def equatorM (lat1 lon1 lat2 lon2 : ℚ) : ℚ := 111195 * (|lat2 - lat1| + |lon2 - lon1|)

theorem equatorM_nonneg (lat1 lon1 lat2 lon2 : ℚ) : 0 ≤ equatorM lat1 lon1 lat2 lon2 :=
  mul_nonneg (by decide) (add_nonneg (abs_nonneg _) (abs_nonneg _))

/-- `describe_consistent` on a left turn in `crossTown`, from the middle of a block to the middle of
another. -/
theorem describe_consistent_crossTown :
    ∃ st, buildPackStatics crossTown.toPack Costs.shippedConfig = .ok st ∧
      let qc := computeCosts crossTown.toPack
        (Costs.snapshotOf crossTown.toPack (fun _ => 1) fun _ => 600) Costs.shippedConfig st
      Consistent equatorM crossTown qc ⟨[7], 4, 2, 0⟩
        (describe equatorM crossTown qc ⟨[7], 4, 2, 0⟩ (1 / 2) (1 / 2)) := by
  obtain ⟨st, hst⟩ :=
    (Costs.buildPackStatics_ok_iff crossTown.toPack Costs.shippedConfig).mpr (by decide)
  have hjunctions : crossTown.JunctionsShared := by
    unfold Pack.JunctionsShared
    decide +kernel
  have hw : crossTown.topo.graph.IsWalk 4 [7] 2 := ⟨rfl, rfl, rfl⟩
  exact ⟨st, hst, describe_consistent (r := ⟨[7], 4, 2, 0⟩) equatorM_nonneg hjunctions hst _ hw _ _⟩

example : routeGeometry equatorM crossTown ⟨[7], 4, 2, 0⟩ (1 / 2) (1 / 2) =
    [(0, -1 / 400), (0, 0), (-1 / 400, 0)] := by
  decide +kernel

/-! ## The counts of the planner -/

/-- **The counts** are those of `computeMetrics`. -/
theorem describe_counts [IsStrictOrderedRing K] [FloorRing K] {cfg : Config K}
    {st : PackStatics E T K} {hlen : ∀ e, 0 ≤ pack.edgeLengthM e}
    {hspeed : ∀ e, 0 < pack.edgeSpeedMps e}
    {hpairs : ∀ e r, pack.edgeReverse e = some r → pack.edgeReverse r = some e ∧ r ≠ e}
    (mult : Planner.Snapshot E K) (volume : Fin E → K)
    (h : buildPackStatics pack.toPack cfg = .ok st) :
    let snap := Costs.snapshotOf pack.toPack mult.speedMult volume
    let planner := pack.toPack.toPlanner hlen hspeed hpairs
    let m := Planner.computeMetrics planner
      (Planner.computeCosts planner mult cfg.cost.toCostCfg (Costs.turnScores snap h)) r fo fd
    let a := describe haversineM pack (computeCosts pack.toPack snap cfg st) r fo fd
    m.unprotectedLeft = a.unprotectedLeft ∧ m.uncontrolledCrossing = a.uncontrolledCrossing := by
  intro snap planner m a
  have htype : (Planner.computeCosts planner mult cfg.cost.toCostCfg
      (Costs.turnScores snap h)).turnUnsafeType =
        (computeCosts pack.toPack snap cfg st).turnUnsafeType :=
    (Costs.computeCosts_planner mult volume h).2.2.2.2
  simp only [m, a, Planner.computeMetrics, describe, htype, and_self]

end RoutePlanner.Artifact
