import Mathlib.Algebra.Order.Field.Rat
import Mathlib.Algebra.Order.Ring.Unbundled.Basic
import Mathlib.Analysis.SpecialFunctions.Trigonometric.Inverse
import Mathlib.Data.List.Induction
import Mathlib.Order.Bounds.Basic
import RoutePlanner.Ingestion.Pack
import RoutePlanner.Lib.Planar

/-!
# `pyref/snap.py`: snapping a point to an edge

Model of `SnapIndex`. The polylines of a pack are cut into segments; an index of the segments'
midpoints (`scipy.spatial.cKDTree`, any `KNearest` here) gives the `k` segments whose midpoints are
nearest, and only these are measured.

The functions of `math` and `numpy` are parameters (`Maths`). Of them the results use `math.hypot`
only, as the length of a vector (`IsHypot`). Of a pack without geometry there is no index: its
constructor raises at `np.zeros(-1)`. Here nothing is found in such a pack.

* `snap_nearest_iff`: when the segment found is the nearest one.
* `longRoad_missed`: a road ten metres away that is not found.
-/

namespace RoutePlanner.Snap

open RoutePlanner.Lib RoutePlanner.Ingestion

variable {K : Type}

/-- Functions of `math` and `numpy`, and `haversine_m`. -/
structure Maths (K : Type) where
  radians : K → K
  degrees : K → K
  cos : K → K
  hypot : K → K → K
  haversineM : K → K → K → K → K

/-- `SnapCandidate`. -/
structure SnapCandidate (K : Type) where
  edge : ℕ
  frac : K
  distM : K
  lat : K
  lon : K
  deriving DecidableEq, Repr

section Defs

variable [Field K] [LinearOrder K] (M : Maths K) (pack : GraphPack K)

/-- `EARTH_RADIUS_M`. -/
def earthRadiusM : K := ((6371000 : ℕ) : K)

/-- `_kx`: metres to a radian of longitude, at the mean latitude of the nodes. -/
def kx : K :=
  earthRadiusM * M.cos (M.radians (pack.nodeLat.sum / (pack.nodeLat.length : K)))

/-- `_ky`: metres to a radian of latitude. -/
def ky : K := earthRadiusM

/-- `_project`. -/
def project (lat lon : K) : K × K := (M.radians lon * kx M pack, M.radians lat * ky)

/-- `edge_geom_ptr[e]`. -/
def geomPtr (e : ℕ) : ℕ := pack.edgeGeomPtr.getD e 0

/-- `seg_edge` and `seg_a`: the edge of each segment, and where its start is in the pool. -/
def segments : List (ℕ × ℕ) :=
  (List.range pack.numEdges).flatMap fun e =>
    (List.range' (geomPtr pack e) (geomPtr pack (e + 1) - 1 - geomPtr pack e)).map fun i => (e, i)

/-- Point `i` of the pool. -/
def poolPoint (i : ℕ) : K × K := project M pack (pack.geomLat.getD i 0) (pack.geomLon.getD i 0)

/-- `_ax[si], _ay[si]`. -/
def segStart (seg : ℕ × ℕ) : K × K := poolPoint M pack seg.2

/-- `_bx[si], _by[si]`. -/
def segEnd (seg : ℕ × ℕ) : K × K := poolPoint M pack (seg.2 + 1)

/-- The point of a segment that the index holds. -/
def midpoint (seg : ℕ × ℕ) : K × K :=
  (((segStart M pack seg).1 + (segEnd M pack seg).1) / ((2 : ℕ) : K),
    ((segStart M pack seg).2 + (segEnd M pack seg).2) / ((2 : ℕ) : K))

/-- The points of the index. -/
def midpoints : List (K × K) := (segments pack).map (midpoint M pack)

/-- Whether the pool's step from point `i` leads to another edge. -/
def boundary (i : ℕ) : Bool := decide (i ∈ pack.edgeGeomPtr.tail.dropLast.map (· - 1))

/-- `seg_len`. -/
def segLen (i : ℕ) : K :=
  if boundary pack i = true then 0
  else M.haversineM (pack.geomLat.getD i 0) (pack.geomLon.getD i 0) (pack.geomLat.getD (i + 1) 0)
    (pack.geomLon.getD (i + 1) 0)

/-- `_cum[i]`. -/
def cum (i : ℕ) : K := ((List.range i).map (segLen M pack)).sum

/-- `_edge_polyline_len`. -/
def edgePolylineLen (e : ℕ) : K :=
  cum M pack (geomPtr pack (e + 1) - 1) - cum M pack (geomPtr pack e)

/-! ## Snapping -/

/-- The distance from `p` to the point of a segment at fraction `v`. -/
def distAt (p : K × K) (seg : ℕ × ℕ) (v : K) : K :=
  M.hypot (p.1 - (pointAt (segStart M pack seg) (segEnd M pack seg) v).1)
    (p.2 - (pointAt (segStart M pack seg) (segEnd M pack seg) v).2)

/-- `u`: where `p` projects on a segment. -/
def segFrac (p : K × K) (seg : ℕ × ℕ) : K :=
  clampedFrac p (segStart M pack seg) (segEnd M pack seg)

/-- `d`: the distance from `p` to a segment. -/
def segDist (p : K × K) (seg : ℕ × ℕ) : K := distAt M pack p seg (segFrac M pack p seg)

/-- The candidate on a segment. -/
def candidate (p : K × K) (seg : ℕ × ℕ) : SnapCandidate K :=
  let u := segFrac M pack p seg
  let q := pointAt (segStart M pack seg) (segEnd M pack seg) u
  let along := cum M pack seg.2 - cum M pack (geomPtr pack seg.1) +
    u * (cum M pack (seg.2 + 1) - cum M pack seg.2)
  let total := edgePolylineLen M pack seg.1
  { edge := seg.1
    frac := if total ≤ 0 then 0 else min 1 (along / total)
    distM := segDist M pack p seg
    lat := M.degrees (q.2 / ky)
    lon := M.degrees (q.1 / kx M pack) }

/-- The loop over the segments that the index found, for one of them. -/
def examine (p : K × K) (maxM : K) (best : Option (SnapCandidate K)) (seg : ℕ × ℕ) :
    Option (SnapCandidate K) :=
  if maxM < segDist M pack p seg ∨ ∃ c ∈ best, c.distM ≤ segDist M pack p seg then best
  else some (candidate M pack p seg)

/-- The segments that are measured: those with the `k` nearest midpoints. -/
def examined (tree : KNearest (midpoints M pack)) (p : K × K) (k : ℕ) : List (ℕ × ℕ) :=
  (tree.query p (min k (segments pack).length)).map fun si => (segments pack).getD si (0, 0)

/-- **`SnapIndex.snap`**. -/
def snap (tree : KNearest (midpoints M pack)) (lat lon : K) (k : ℕ) (maxM : K) :
    List (SnapCandidate K) :=
  let p := project M pack lat lon
  match (examined M pack tree p k).foldl (examine M pack p maxM) none with
  | none => []
  | some best =>
    best :: match pack.edgeReverse.getD best.edge none with
      | none => []
      | some rev => [⟨rev, 1 - best.frac, best.distM, best.lat, best.lon⟩]

end Defs

/-- `math.hypot` is the length of a vector. -/
def Maths.IsHypot [Field K] [LinearOrder K] (M : Maths K) : Prop :=
  ∀ x y, 0 ≤ M.hypot x y ∧ M.hypot x y * M.hypot x y = x * x + y * y

/-! ## What is nearest -/

section Nearest

variable [Field K] [LinearOrder K] {M : Maths K} {pack : GraphPack K} {p : K × K} {maxM : K}

/-- The distances from `p` to the points of some segments. -/
def distances (M : Maths K) (pack : GraphPack K) (p : K × K) (segs : List (ℕ × ℕ)) : Set K :=
  {d | ∃ seg ∈ segs, ∃ v, 0 ≤ v ∧ v ≤ 1 ∧ d = distAt M pack p seg v}

theorem examined_subset {tree : KNearest (midpoints M pack)} {k : ℕ} {seg : ℕ × ℕ}
    (h : seg ∈ examined M pack tree p k) : seg ∈ segments pack := by
  obtain ⟨si, hsi, rfl⟩ := List.mem_map.mp h
  have hlt := tree.lt_length p _ si hsi
  rw [midpoints, List.length_map] at hlt
  rw [List.getD_eq_getElem?_getD, List.getElem?_eq_getElem hlt, Option.getD_some]
  exact List.getElem_mem hlt

/-- A pack of at most `k` segments is measured whole. -/
theorem mem_examined_of_few {tree : KNearest (midpoints M pack)} {k : ℕ} {seg : ℕ × ℕ}
    (hfew : (segments pack).length ≤ k) (h : seg ∈ segments pack) :
    seg ∈ examined M pack tree p k := by
  obtain ⟨i, hi, rfl⟩ := List.mem_iff_getElem.mp h
  have hlen : (midpoints M pack).length = (segments pack).length := List.length_map _
  have hquery : i ∈ tree.query p (midpoints M pack).length := tree.mem_query p (hlen ▸ hi)
  refine List.mem_map.mpr ⟨i, ?_, ?_⟩
  · rw [min_eq_right hfew, ← hlen]
    exact hquery
  · rw [List.getD_eq_getElem?_getD, List.getElem?_eq_getElem hi, Option.getD_some]

/-- What the loop has found in the segments it measured. -/
def Found (M : Maths K) (pack : GraphPack K) (p : K × K) (maxM : K) (segs : List (ℕ × ℕ))
    (best : Option (SnapCandidate K)) : Prop :=
  match best with
  | none => ∀ seg ∈ segs, maxM < segDist M pack p seg
  | some c => ∃ seg ∈ segs, c = candidate M pack p seg ∧ segDist M pack p seg ≤ maxM ∧
    ∀ seg' ∈ segs, segDist M pack p seg ≤ segDist M pack p seg'

/-- **One segment** is nearer than what was found, or changes nothing. -/
theorem found_examine {segs : List (ℕ × ℕ)} {best : Option (SnapCandidate K)}
    (h : Found M pack p maxM segs best) (seg : ℕ × ℕ) :
    Found M pack p maxM (segs ++ [seg]) (examine M pack p maxM best seg) := by
  have hall : ∀ {P : ℕ × ℕ → Prop}, (∀ s ∈ segs, P s) → P seg → ∀ s ∈ segs ++ [seg], P s :=
    fun hold hnew => List.forall_mem_append.mpr ⟨hold, List.forall_mem_singleton.mpr hnew⟩
  have hself : seg ∈ segs ++ [seg] := List.mem_append_right _ List.mem_cons_self
  unfold examine
  by_cases hfar : maxM < segDist M pack p seg
  · rw [if_pos (Or.inl hfar)]
    cases best with
    | none => exact hall h hfar
    | some c =>
      obtain ⟨seg0, hmem, hc, hle, hmin⟩ := h
      exact ⟨seg0, List.mem_append_left _ hmem, hc, hle, hall hmin (hle.trans hfar.le)⟩
  · have hnear : segDist M pack p seg ≤ maxM := not_lt.mp hfar
    cases best with
    | none =>
      rw [if_neg (by simpa using hfar)]
      exact ⟨seg, hself, rfl, hnear, hall (fun s hs => hnear.trans (h s hs).le) le_rfl⟩
    | some c =>
      obtain ⟨seg0, hmem, rfl, hle, hmin⟩ := h
      by_cases hkeep : segDist M pack p seg0 ≤ segDist M pack p seg
      · rw [if_pos (Or.inr ⟨_, rfl, hkeep⟩)]
        exact ⟨seg0, List.mem_append_left _ hmem, rfl, hle, hall hmin hkeep⟩
      · have hno : ¬ (maxM < segDist M pack p seg ∨ ∃ c ∈ some (candidate M pack p seg0),
            c.distM ≤ segDist M pack p seg) := by
          rintro (h | ⟨c, hc, h⟩)
          · exact hfar h
          · obtain rfl := Option.some.inj hc
            exact hkeep h
        rw [if_neg hno]
        exact ⟨seg, hself, rfl, hnear,
          hall (fun s hs => (not_le.mp hkeep).le.trans (hmin s hs)) le_rfl⟩

/-- **What the loop finds**: the nearest of the segments it measures, if that is near enough. -/
theorem found_foldl (segs : List (ℕ × ℕ)) :
    Found M pack p maxM segs (segs.foldl (examine M pack p maxM) none) := by
  induction segs using List.reverseRecOn with
  | nil => exact fun seg hseg => absurd hseg List.not_mem_nil
  | append_singleton segs seg ih =>
    rw [List.foldl_concat]
    exact found_examine ih seg

variable [IsStrictOrderedRing K]

/-- **The distance to a segment** is that to its nearest point. -/
theorem segDist_le (hM : M.IsHypot) (seg : ℕ × ℕ) {v : K} (h0 : 0 ≤ v) (h1 : v ≤ 1) :
    segDist M pack p seg ≤ distAt M pack p seg v := by
  have hsq := sqDist_clamped_le p (segStart M pack seg) (segEnd M pack seg) h0 h1
  unfold segDist segFrac distAt
  rw [mul_self_le_mul_self_iff (hM _ _).1 (hM _ _).1, (hM _ _).2, (hM _ _).2]
  exact hsq

/-- Whether some point of a segment is within `maxM` of `p`. -/
def Within (M : Maths K) (pack : GraphPack K) (p : K × K) (maxM : K) (seg : ℕ × ℕ) : Prop :=
  ∃ v, 0 ≤ v ∧ v ≤ 1 ∧ distAt M pack p seg v ≤ maxM

theorem segFrac_mem (seg : ℕ × ℕ) : 0 ≤ segFrac M pack p seg ∧ segFrac M pack p seg ≤ 1 :=
  clampedFrac_mem _ _ _

theorem within_iff (hM : M.IsHypot) (seg : ℕ × ℕ) :
    Within M pack p maxM seg ↔ segDist M pack p seg ≤ maxM := by
  constructor
  · rintro ⟨v, h0, h1, hle⟩
    exact (segDist_le hM seg h0 h1).trans hle
  · intro hle
    exact ⟨_, (segFrac_mem seg).1, (segFrac_mem seg).2, hle⟩

/-- A segment that is as near to `p` as any segment of the pack. -/
def Nearest (M : Maths K) (pack : GraphPack K) (p : K × K) (seg : ℕ × ℕ) : Prop :=
  ∃ v, 0 ≤ v ∧ v ≤ 1 ∧ distAt M pack p seg v ∈ lowerBounds (distances M pack p (segments pack))

theorem segDist_mem {seg : ℕ × ℕ} (hseg : seg ∈ segments pack) :
    segDist M pack p seg ∈ distances M pack p (segments pack) :=
  ⟨seg, hseg, _, (segFrac_mem seg).1, (segFrac_mem seg).2, rfl⟩

/-- No point of the pack is nearer than a segment when no segment is. -/
theorem segDist_mem_lowerBounds (hM : M.IsHypot) (seg : ℕ × ℕ) :
    segDist M pack p seg ∈ lowerBounds (distances M pack p (segments pack)) ↔
      ∀ seg' ∈ segments pack, segDist M pack p seg ≤ segDist M pack p seg' := by
  constructor
  · exact fun hlow seg' hseg' => hlow (segDist_mem hseg')
  · rintro hmin d ⟨seg', hseg', v, h0, h1, rfl⟩
    exact (hmin seg' hseg').trans (segDist_le hM seg' h0 h1)

theorem nearest_iff (hM : M.IsHypot) (seg : ℕ × ℕ) :
    Nearest M pack p seg ↔
      ∀ seg' ∈ segments pack, segDist M pack p seg ≤ segDist M pack p seg' := by
  rw [← segDist_mem_lowerBounds hM]
  constructor
  · rintro ⟨v, h0, h1, hlow⟩ d hd
    exact (segDist_le hM seg h0 h1).trans (hlow hd)
  · exact fun hlow => ⟨_, (segFrac_mem seg).1, (segFrac_mem seg).2, hlow⟩

/-- **A snap is the nearest** just when one of the segments measured is as near as any, or none is
within `maxM`. -/
theorem snap_nearest_iff (hM : M.IsHypot) (tree : KNearest (midpoints M pack)) (lat lon : K)
    (k : ℕ) (maxM : K) :
    ((snap M pack tree lat lon k maxM ≠ [] ↔
          ∃ seg ∈ segments pack, Within M pack (project M pack lat lon) maxM seg) ∧
        ∀ c ∈ (snap M pack tree lat lon k maxM).head?,
          IsLeast (distances M pack (project M pack lat lon) (segments pack)) c.distM) ↔
      (∀ seg ∈ segments pack, ¬ Within M pack (project M pack lat lon) maxM seg) ∨
        ∃ seg ∈ examined M pack tree (project M pack lat lon) k,
          Nearest M pack (project M pack lat lon) seg := by
  have hfound : Found M pack (project M pack lat lon) maxM
      (examined M pack tree (project M pack lat lon) k) _ := found_foldl _
  unfold snap
  generalize project M pack lat lon = p at hfound ⊢
  simp only [within_iff hM, nearest_iff hM]
  generalize (examined M pack tree p k).foldl (examine M pack p maxM) none = best at hfound ⊢
  cases best with
  | none =>
    -- nothing that was measured is near enough
    simp only [ne_eq, not_true_eq_false, false_iff, List.head?_nil]
    constructor
    · rintro ⟨hnone, -⟩
      exact Or.inl fun seg hseg hle => hnone ⟨seg, hseg, hle⟩
    · rintro (hnone | ⟨seg, hseg, hmin⟩)
      · exact ⟨fun ⟨seg, hseg, hle⟩ => hnone seg hseg hle, nofun⟩
      · refine ⟨fun ⟨seg', hseg', hle⟩ => ?_, nofun⟩
        exact absurd ((hmin seg' hseg').trans hle) (not_le.mpr (hfound seg hseg))
  | some c =>
    obtain ⟨seg0, hmem, rfl, hle0, hmin0⟩ := hfound
    simp only [ne_eq, reduceCtorEq, not_false_eq_true, true_iff, List.head?_cons,
      Option.mem_def, Option.some.injEq, forall_eq']
    constructor
    · rintro ⟨-, hleast⟩
      exact Or.inr ⟨seg0, hmem, (segDist_mem_lowerBounds hM seg0).mp hleast.2⟩
    · rintro (hnone | ⟨seg, hseg, hmin⟩)
      · exact absurd hle0 (hnone seg0 (examined_subset hmem))
      · refine ⟨⟨seg0, examined_subset hmem, hle0⟩, segDist_mem (examined_subset hmem), ?_⟩
        exact (segDist_mem_lowerBounds hM seg0).mpr fun seg' hseg' =>
          (hmin0 seg hseg).trans (hmin seg' hseg')

end Nearest

section Reals

/-- The functions of `math` and `numpy`, over the reals. -/
noncomputable def realMaths : Maths ℝ where
  radians x := x * Real.pi / (180 : ℕ)
  degrees x := x * (180 : ℕ) / Real.pi
  cos := Real.cos
  hypot x y := Real.sqrt (x * x + y * y)
  haversineM lat1 lon1 lat2 lon2 :=
    let dlat := (lat2 - lat1) * Real.pi / (180 : ℕ)
    let dlon := (lon2 - lon1) * Real.pi / (180 : ℕ)
    let a := Real.sin (dlat / (2 : ℕ)) ^ 2 + Real.cos (lat1 * Real.pi / (180 : ℕ)) *
      Real.cos (lat2 * Real.pi / (180 : ℕ)) * Real.sin (dlon / (2 : ℕ)) ^ 2
    earthRadiusM * (2 : ℕ) * Real.arcsin (Real.sqrt a)

theorem realMaths_isHypot : realMaths.IsHypot := fun x y =>
  ⟨Real.sqrt_nonneg _, Real.mul_self_sqrt (add_nonneg (mul_self_nonneg x) (mul_self_nonneg y))⟩

/-- Two streets along parallels, a kilometre apart; the first has a point in its middle. -/
noncomputable def parallelStreets : GraphPack ℝ where
  nodeLat := [0, 0, 1 / (100 : ℕ), 1 / (100 : ℕ)]
  nodeLon := [0, 1 / (50 : ℕ), 0, 1 / (50 : ℕ)]
  nodeOsmid := [1, 2, 3, 4]
  nodeOutPtr := [0, 1, 1, 2, 2]
  edgeTail := [0, 2]
  edgeHead := [1, 3]
  edgeLengthM := [(2224 : ℕ), (2224 : ℕ)]
  edgeReverse := [none, none]
  edgeBearingIn := [(90 : ℕ), (90 : ℕ)]
  edgeBearingOut := [(90 : ℕ), (90 : ℕ)]
  edgeOsmWay := [7, 8]
  edgeGeomPtr := [0, 3, 5]
  geomLat := [0, 0, 0, 1 / (100 : ℕ), 1 / (100 : ℕ)]
  geomLon := [0, 1 / (100 : ℕ), 1 / (50 : ℕ), 0, 1 / (50 : ℕ)]
  turnPtr := [0, 0, 0]
  turnOutEdge := []
  turnManeuver := []
  turnAngleDeg := []
  turnAllowed := []

/-- How far north a latitude is. -/
theorem project_north (pack : GraphPack ℝ) (lat lon : ℝ) :
    (project realMaths pack lat lon).2 = lat * (Real.pi * (6371000 / 180)) := by
  show lat * Real.pi / ((180 : ℕ) : ℝ) * ((6371000 : ℕ) : ℝ) = _
  push_cast
  ring

/-- A street along a parallel is at one latitude. -/
theorem north_of_parallel (pack : GraphPack ℝ) (seg : ℕ × ℕ) {y : ℝ}
    (hstart : (segStart realMaths pack seg).2 = y) (hend : (segEnd realMaths pack seg).2 = y)
    (v : ℝ) : (pointAt (segStart realMaths pack seg) (segEnd realMaths pack seg) v).2 = y := by
  show (segStart realMaths pack seg).2 + v * ((segEnd realMaths pack seg).2 -
    (segStart realMaths pack seg).2) = y
  rw [hstart, hend, sub_self, mul_zero, add_zero]

/-- A point is no nearer to another than their latitudes are. -/
theorem abs_north_le_distAt (pack : GraphPack ℝ) (p : ℝ × ℝ) (seg : ℕ × ℕ) (v : ℝ) :
    |p.2 - (pointAt (segStart realMaths pack seg) (segEnd realMaths pack seg) v).2| ≤
      distAt realMaths pack p seg v := by
  refine Real.abs_le_sqrt ?_
  rw [sq]
  exact le_add_of_nonneg_left (mul_self_nonneg _)

/-- On one meridian that is the distance. -/
theorem distAt_of_meridian {pack : GraphPack ℝ} {p : ℝ × ℝ} {seg : ℕ × ℕ} {v : ℝ}
    (h : p.1 = (pointAt (segStart realMaths pack seg) (segEnd realMaths pack seg) v).1) :
    distAt realMaths pack p seg v =
      |p.2 - (pointAt (segStart realMaths pack seg) (segEnd realMaths pack seg) v).2| := by
  unfold distAt
  rw [h, sub_self]
  show Real.sqrt (0 * 0 + _) = _
  rw [mul_zero, zero_add, Real.sqrt_mul_self_eq_abs]

theorem segments_parallelStreets : segments parallelStreets = [(0, 0), (0, 1), (1, 3)] := rfl

/-- The latitudes of the two streets. -/
theorem north_parallelStreets (v : ℝ) {seg : ℕ × ℕ} (hseg : seg ∈ segments parallelStreets) :
    (pointAt (segStart realMaths parallelStreets seg) (segEnd realMaths parallelStreets seg) v).2 =
      (if seg.1 = 0 then 0 else 1 / 100) * (Real.pi * (6371000 / 180)) := by
  rw [segments_parallelStreets, List.mem_cons, List.mem_cons, List.mem_singleton] at hseg
  have hsecond : (1 / ((100 : ℕ) : ℝ)) = 1 / 100 := by norm_num
  rcases hseg with rfl | rfl | rfl
  · rw [if_pos rfl]
    exact north_of_parallel parallelStreets (0, 0) (project_north _ 0 _) (project_north _ 0 _) v
  · rw [if_pos rfl]
    exact north_of_parallel parallelStreets (0, 1) (project_north _ 0 _) (project_north _ 0 _) v
  · rw [if_neg one_ne_zero, ← hsecond]
    exact north_of_parallel parallelStreets (1, 3) (project_north _ (1 / (100 : ℕ)) _)
      (project_north _ (1 / (100 : ℕ)) _) v

/-- The point is 111 m north of the first street, which is found. -/
theorem snap_parallelStreets :
    let p := project realMaths parallelStreets (1 / 1000) (5 / 1000)
    let found := snap realMaths parallelStreets (sortedIndex _) (1 / 1000) (5 / 1000) 20 300
    (∃ seg ∈ segments parallelStreets, Within realMaths parallelStreets p 300 seg) ∧
      (found ≠ [] ↔ ∃ seg ∈ segments parallelStreets, Within realMaths parallelStreets p 300 seg) ∧
        ∀ c ∈ found.head?,
          IsLeast (distances realMaths parallelStreets p (segments parallelStreets)) c.distM := by
  intro p found
  have hmem : (0, 0) ∈ segments parallelStreets := List.mem_cons_self
  have hp : p.2 = 1 / 1000 * (Real.pi * (6371000 / 180)) := project_north _ _ _
  have hpos : 0 ≤ p.2 := hp ▸ mul_nonneg (by norm_num) (mul_nonneg Real.pi_pos.le (by norm_num))
  have hfoot : distAt realMaths parallelStreets p (0, 0) (1 / 2) = p.2 := by
    -- the point is north of the middle of the segment
    have hx : p.1 = (pointAt (segStart realMaths parallelStreets (0, 0))
        (segEnd realMaths parallelStreets (0, 0)) (1 / 2)).1 := by
      show (5 / 1000) * Real.pi / ((180 : ℕ) : ℝ) * kx realMaths parallelStreets =
        0 * Real.pi / ((180 : ℕ) : ℝ) * kx realMaths parallelStreets +
          1 / 2 * (1 / ((100 : ℕ) : ℝ) * Real.pi / ((180 : ℕ) : ℝ) * kx realMaths parallelStreets -
            0 * Real.pi / ((180 : ℕ) : ℝ) * kx realMaths parallelStreets)
      push_cast
      ring
    rw [distAt_of_meridian hx, north_parallelStreets _ hmem, if_pos rfl, zero_mul, sub_zero,
      abs_of_nonneg hpos]
  have hnear : Nearest realMaths parallelStreets p (0, 0) := by
    refine ⟨1 / 2, by norm_num, by norm_num, ?_⟩
    rintro d ⟨seg, hseg, v, -, -, rfl⟩
    rw [hfoot]
    refine le_trans ?_ (abs_north_le_distAt parallelStreets p seg v)
    rw [north_parallelStreets v hseg]
    split
    · rw [zero_mul, sub_zero]
      exact le_abs_self _
    · -- the other street is ten times as far north
      rw [abs_sub_comm]
      refine le_trans ?_ (le_abs_self _)
      linarith
  refine ⟨⟨(0, 0), hmem, 1 / 2, by norm_num, by norm_num, ?_⟩,
    (snap_nearest_iff realMaths_isHypot (sortedIndex _) _ _ 20 300).mpr
      (Or.inr ⟨(0, 0), mem_examined_of_few (by decide) hmem, hnear⟩)⟩
  rw [hfoot, hp]
  have hπ := Real.pi_le_four
  linarith

end Reals

/-! ## A road that is not found -/

section LongRoad

/-- The same functions over the rationals: `hypot` along an axis, `cos` near the equator. -/
def ratMaths : Maths ℚ where
  radians x := x * 355 / 20340
  degrees x := x * 20340 / 355
  cos x := 1 - x * x / 2
  hypot x y := if y = 0 then |x| else if x = 0 then |y| else |x| + |y|
  haversineM lat1 lon1 lat2 lon2 := earthRadiusM * (|lat2 - lat1| + |lon2 - lon1|) * 355 / 20340

/-- A straight road of 4 km along the equator, and a street drawn with ten segments that starts
300 m north of it; both two-way, and joined by a third road. -/
def longRoad : GraphPack ℚ where
  nodeLat := [28 / 10000, 46 / 10000, 9 / 100000, 9 / 100000]
  nodeLon := [0, 0, -5 / 10000, 36 / 1000]
  nodeOsmid := [1, 2, 3, 4]
  nodeOutPtr := [0, 1, 3, 4, 6]
  edgeTail := [0, 1, 1, 2, 3, 3]
  edgeHead := [1, 0, 3, 3, 1, 2]
  edgeLengthM := [200, 200, 4504, 4058, 4504, 4058]
  edgeReverse := [some 1, some 0, some 4, some 5, some 2, some 3]
  edgeBearingIn := [0, 180, 90, 90, 0, 270]
  edgeBearingOut := [0, 180, 180, 90, 270, 270]
  edgeOsmWay := [10, 10, 11, 12, 11, 12]
  edgeGeomPtr := [0, 11, 22, 25, 27, 30, 32]
  geomLat := (List.range 11).map (fun i => 28 / 10000 + 18 / 100000 * (i : ℚ)) ++
    (List.range 11).map (fun i => 46 / 10000 - 18 / 100000 * (i : ℚ)) ++
    [46 / 10000, 46 / 10000, 9 / 100000, 9 / 100000, 9 / 100000, 9 / 100000, 46 / 10000,
      46 / 10000, 9 / 100000, 9 / 100000]
  geomLon := List.replicate 22 0 ++
    [0, 36 / 1000, 36 / 1000, -5 / 10000, 36 / 1000, 36 / 1000, 36 / 1000, 0, 36 / 1000,
      -5 / 10000]
  turnPtr := [0, 2, 3, 5, 7, 9, 10]
  turnOutEdge := [1, 2, 0, 4, 5, 4, 5, 1, 2, 3]
  turnManeuver := [.uturn, .right, .uturn, .uturn, .right, .left, .uturn, .left, .uturn, .uturn]
  turnAngleDeg := [180, 90, 180, 180, 90, -90, 180, -90, 180, 180]
  turnAllowed := [false, true, true, false, true, true, false, true, false, true]

example : longRoad.validate = true := by decide +kernel

/-- **A road ten metres away that is not found**: the twenty midpoints of the street are nearer
than the road's. -/
theorem longRoad_missed :
    snap ratMaths longRoad (sortedIndex _) 0 0 20 300 = [] ∧
      ∃ seg ∈ segments longRoad,
        Within ratMaths longRoad (project ratMaths longRoad 0 0) 300 seg := by
  refine ⟨by decide +kernel, (3, 25), by decide +kernel, 5 / 365, ?_⟩
  unfold distAt
  decide +kernel

end LongRoad

end RoutePlanner.Snap
