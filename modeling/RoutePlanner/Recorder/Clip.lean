import Mathlib.Data.Rat.Floor
import RoutePlanner.Recorder.Samples

/-!
# What `clipArtifact` keeps

The line of an artifact is cut to the longest run of its clear samples, and so are the pieces of it
and the offsets of its maneuvers, by tests of their own with a tolerance of `EPS_M`. On a line whose
legs are longer than that they agree.

* `cutSegments_eq`: the pieces, cut by the code's tests, are the pieces cut exactly.
* `cutTo_eq`: so is the whole artifact.
* `clip_correct`: the pieces of a clipped artifact tile its line, its length and its offsets are
  those of that line, and what is not a place stays as it is.
-/

namespace RoutePlanner.Recorder

open RoutePlanner.Lib

variable {K : Type} [Field K] [LinearOrder K]

/-! ## Cuts by the tests of the code -/

/-- No vertex is almost at `a`, and the one that is at `a` is `A`. -/
def ApartFrom (a : K) (A : Coord K) (line : List (Coord K × K)) : Prop :=
  ∀ v ∈ line, (v.2 + epsM < a ∨ v.2 = a ∨ a + epsM < v.2) ∧ (v.2 = a → v.1 = A)

theorem ApartFrom.mono {a : K} {A : Coord K} {line piece : List (Coord K × K)}
    (h : ApartFrom a A line) (hin : piece <:+: line) : ApartFrom a A piece :=
  fun v hv => h v (hin.subset hv)

section Cuts

variable [IsStrictOrderedRing K] {a b : K} {A B : Coord K} {line : List (Coord K × K)}

theorem ApartFrom.lt_iff (h : ApartFrom a A line) {v : Coord K × K} (hv : v ∈ line) :
    v.2 < a - epsM ↔ v.2 < a := by
  have heps := epsM_pos (K := K)
  constructor
  · intro hlt
    linarith
  · intro hlt
    rcases (h v hv).1 with hlt' | heq | hgt
    · linarith
    · exact absurd hlt (by rw [heq]; exact lt_irrefl a)
    · linarith

theorem ApartFrom.gt_iff (h : ApartFrom a A line) {v : Coord K × K} (hv : v ∈ line) :
    a + epsM < v.2 ↔ a < v.2 := by
  have heps := epsM_pos (K := K)
  constructor
  · intro hgt
    linarith
  · intro hgt
    rcases (h v hv).1 with hlt | heq | hgt'
    · linarith
    · exact absurd hgt (by rw [heq]; exact lt_irrefl a)
    · exact hgt'

/-- The vertices between the cuts. -/
theorem inside_eq (hA : ApartFrom a A line) (hB : ApartFrom b B line) :
    (line.filter fun v => decide (a + epsM < v.2 ∧ v.2 < b - epsM)) =
      line.filter fun v => decide (a < v.2 ∧ v.2 < b) :=
  List.filter_congr fun _ hv => decide_eq_decide.mpr (and_congr (hA.gt_iff hv) (hB.lt_iff hv))

/-- A piece, cut by the code's tests. -/
theorem cutLine_eq {v : Coord K × K} {l : List (Coord K × K)} (hA : ApartFrom a A (v :: l))
    (hB : ApartFrom b B (v :: l)) :
    cutLine a b A B v.2 (l.getLast?.getD v).2 ((v :: l).map Prod.fst) ((v :: l).map Prod.snd) =
      cut a b A B (v :: l) := by
  have hlast : (v :: l).getLast? = some (l.getLast?.getD v) := List.getLast?_cons
  have hw : l.getLast?.getD v ∈ v :: l := List.mem_of_getLast? hlast
  have hzip : ((v :: l).map Prod.fst).zip ((v :: l).map Prod.snd) = v :: l := by
    rw [List.zip_map']
    exact List.map_id _
  have hinner : l.dropLast <:+: v :: l :=
    (List.dropLast_prefix l).isInfix.trans (List.suffix_cons v l).isInfix
  unfold cutLine cut
  rw [hzip, List.getLast?_map, hlast, List.tail_cons, inside_eq (hA.mono hinner) (hB.mono hinner)]
  simp only [hA.lt_iff List.mem_cons_self, hB.gt_iff hw, List.map_cons, List.head?_cons,
    Option.map_some, Option.getD_some]

/-- A piece is kept, by the code's tests, when it reaches into the stretch. -/
theorem meets_iff {v : Coord K × K} {l : List (Coord K × K)} (hA : ApartFrom a A (v :: l))
    (hB : ApartFrom b B (v :: l)) :
    ¬ (((v :: l).map Prod.fst).length < 2 ∨ (l.getLast?.getD v).2 ≤ a + epsM ∨ b - epsM ≤ v.2) ↔
      meets a b (v :: l) = true := by
  have hw : l.getLast?.getD v ∈ v :: l := List.mem_of_getLast? List.getLast?_cons
  have hlen : ¬ ((v :: l).map Prod.fst).length < 2 ↔ l ≠ [] := by
    cases l <;> simp
  rw [not_or, not_or, not_le, not_le, hA.gt_iff hw, hB.lt_iff List.mem_cons_self, hlen, meets,
    decide_eq_true_eq]

variable {distanceM : LatLon K → LatLon K → K} {isClear : LatLon K → Bool}

/-- **The pieces, cut by the code's tests.** -/
theorem cutSegments_eq {segs : List (Segment K)} {s : K} (hne : ∀ seg ∈ segs, seg.coordinates ≠ [])
    (hA : ∀ piece ∈ placed (legM distanceM) s (segs.map Segment.coordinates), ApartFrom a A piece)
    (hB : ∀ piece ∈ placed (legM distanceM) s (segs.map Segment.coordinates), ApartFrom b B piece) :
    (cutSegments distanceM isClear a b A B s segs).map Segment.coordinates =
      (cutPieces a b A B (placed (legM distanceM) s (segs.map Segment.coordinates))).filter
        fun out => out.all fun c => isClear (ll c) := by
  induction segs generalizing s with
  | nil => rfl
  | cons seg segs ih =>
    have hseg := hne seg List.mem_cons_self
    obtain ⟨p, cs, hcs⟩ := List.exists_cons_of_ne_nil hseg
    obtain ⟨l, hl⟩ := stations_cons (legM distanceM) s p cs
    have hfst : seg.coordinates = ((p, s) :: l).map Prod.fst := by
      rw [← hl, map_fst_stations, hcs]
    have hsnd : (cumulative distanceM seg.coordinates).map (· + s) =
        ((p, s) :: l).map Prod.snd := by
      rw [cumulative_add hseg, hcs, hl]
    have hlast : (((p, s) :: l).map Prod.snd).getLast?.getD s = (l.getLast?.getD (p, s)).2 := by
      rw [List.getLast?_map, List.getLast?_cons]
      rfl
    have hend : lineEnd (legM distanceM) s seg.coordinates = (l.getLast?.getD (p, s)).2 := by
      rw [lineEnd, hcs, hl, ← List.getLast?_map, hlast]
    rw [List.map_cons, placed, hend] at hA hB ⊢
    have hplaced : stations (legM distanceM) s seg.coordinates = (p, s) :: l := by rw [hcs, hl]
    rw [hplaced] at hA hB ⊢
    have hAseg := hA _ List.mem_cons_self
    have hBseg := hB _ List.mem_cons_self
    have ih' := ih (s := (l.getLast?.getD (p, s)).2)
      (fun seg' h => hne seg' (List.mem_cons_of_mem seg h))
      (fun piece h => hA piece (List.mem_cons_of_mem _ h))
      (fun piece h => hB piece (List.mem_cons_of_mem _ h))
    have hcut := cutLine_eq hAseg hBseg
    have hmeets := meets_iff hAseg hBseg
    rw [← hfst] at hmeets
    rw [← hsnd, ← hfst] at hcut
    have hhead : ((cumulative distanceM seg.coordinates).map (· + s)).head?.getD s = s := by
      rw [hsnd]
      rfl
    rw [← hsnd] at hlast
    unfold cutSegments
    simp only [hhead, hlast]
    by_cases hkeep : meets a b ((p, s) :: l) = true
    · rw [if_neg (hmeets.mpr hkeep), cutPieces_cons_of_pos hkeep, ← hcut, List.filter_cons, ← ih']
      split
      · rfl
      · rfl
    · rw [if_pos (not_not.mp fun h => hkeep (hmeets.mp h)), cutPieces_cons_of_neg hkeep]
      exact ih'

omit [IsStrictOrderedRing K] in
/-- The tiers of the pieces that are kept are as they were. -/
theorem tiers_cutSegments (s : K) (segs : List (Segment K)) :
    ((cutSegments distanceM isClear a b A B s segs).map Segment.tier).Sublist
      (segs.map Segment.tier) := by
  induction segs generalizing s with
  | nil => exact List.Sublist.slnil
  | cons seg segs ih =>
    unfold cutSegments
    simp only
    split
    · exact (ih _).cons _
    · split
      · exact (ih _).cons_cons _
      · exact (ih _).cons _

/-- The line between two samples, and the line itself. -/
structure Stretch (distanceM : LatLon K → LatLon K → K) (isClear : LatLon K → Bool)
    (coords : List (Coord K)) (x j : Sample K) : Prop where
  ne_nil : coords ≠ []
  proper : Proper (legM distanceM) coords
  lt : x.s < j.s
  start : OnLine lerp (legM distanceM) 0 coords x.s x.pt
  last : OnLine lerp (legM distanceM) 0 coords j.s j.pt
  apart_start : ApartFrom x.s x.pt (stations (legM distanceM) 0 coords)
  apart_last : ApartFrom j.s j.pt (stations (legM distanceM) 0 coords)
  clear_start : isClear (ll x.pt) = true
  clear_last : isClear (ll j.pt) = true
  clear_inside : ∀ v ∈ stations (legM distanceM) 0 coords, x.s < v.2 → v.2 < j.s →
    isClear (ll v.1) = true

namespace Stretch

variable {coords : List (Coord K)} {x j : Sample K}
  (h : Stretch distanceM isClear coords x j)

include h

theorem head_le : ∀ v ∈ (stations (legM distanceM) 0 coords).head?, v.2 ≤ x.s := by
  intro v hv
  obtain ⟨p, cs, rfl⟩ := List.exists_cons_of_ne_nil h.ne_nil
  obtain ⟨l, hl⟩ := stations_cons (legM distanceM) 0 p cs
  rw [hl] at hv
  obtain rfl := Option.some.inj hv
  exact le_of_onLine h.proper h.start

theorem le_last : ∀ v ∈ (stations (legM distanceM) 0 coords).getLast?, j.s ≤ v.2 :=
  fun _ hv => le_end_of_onLine h.proper h.last hv

omit [IsStrictOrderedRing K] in
theorem stations_ne_nil : stations (legM distanceM) 0 coords ≠ [] := by
  obtain ⟨p, cs, rfl⟩ := List.exists_cons_of_ne_nil h.ne_nil
  obtain ⟨l, hl⟩ := stations_cons (legM distanceM) 0 p cs
  rw [hl]
  exact List.cons_ne_nil _ _

/-- The line between the two samples: them, and the vertices between them. -/
theorem cut_eq : cut x.s j.s x.pt j.pt (stations (legM distanceM) 0 coords) =
    x.pt :: ((stations (legM distanceM) 0 coords).filter
      fun v => decide (x.s < v.2 ∧ v.2 < j.s)).map Prod.fst ++ [j.pt] :=
  Lib.cut_eq h.stations_ne_nil h.lt (fun v hv => (h.apart_start v hv).2)
    (fun v hv => (h.apart_last v hv).2) h.head_le h.le_last

theorem head_cut :
    (cut x.s j.s x.pt j.pt (stations (legM distanceM) 0 coords)).head? = some x.pt := by
  rw [h.cut_eq]
  rfl

theorem getLast_cut :
    (cut x.s j.s x.pt j.pt (stations (legM distanceM) 0 coords)).getLast? = some j.pt := by
  rw [h.cut_eq, List.getLast?_concat]

/-- All of it is clear. -/
theorem cut_clear : ∀ c ∈ cut x.s j.s x.pt j.pt (stations (legM distanceM) 0 coords),
    isClear (ll c) = true := by
  rw [h.cut_eq]
  intro c hc
  rcases List.mem_append.mp hc with hc | hc
  · rcases List.mem_cons.mp hc with rfl | hc
    · exact h.clear_start
    · obtain ⟨v, hv, rfl⟩ := List.mem_map.mp hc
      obtain ⟨hmem, hin⟩ := List.mem_filter.mp hv
      exact h.clear_inside v hmem (of_decide_eq_true hin).1 (of_decide_eq_true hin).2
  · rw [List.mem_singleton.mp hc]
    exact h.clear_last

/-- The point of the stretch that is nearest, along the line, to a place that is almost in it. -/
theorem exists_near {o : K} {r : Coord K} (hfrom : x.s - epsM ≤ o) (hto : o ≤ j.s + epsM)
    (hr : OnLine lerp (legM distanceM) 0 coords o r) : ∃ d q,
      OnLine lerp (legM distanceM) 0 coords (x.s + d) q ∧ 0 ≤ d ∧ x.s + d ≤ j.s ∧
        |max 0 (o - x.s) - d| ≤ epsM ∧ |o - (x.s + d)| ≤ epsM := by
  have heps := epsM_pos (K := K)
  have hlt := h.lt
  rcases lt_or_ge o x.s with hbefore | hge
  · refine ⟨0, x.pt, ?_, le_refl 0, ?_, ?_, ?_⟩
    · rw [add_zero]
      exact h.start
    · rw [add_zero]
      exact hlt.le
    · rw [max_eq_left (by linarith), sub_zero, abs_zero]
      exact heps.le
    · rw [add_zero, abs_le]
      exact ⟨by linarith, by linarith⟩
  · have hmax : max 0 (o - x.s) = o - x.s := max_eq_right (sub_nonneg.mpr hge)
    rcases le_or_gt o j.s with hle | hafter
    · refine ⟨o - x.s, r, ?_, sub_nonneg.mpr hge, ?_, ?_, ?_⟩
      · rwa [add_sub_cancel]
      · rwa [add_sub_cancel]
      · rw [hmax, sub_self, abs_zero]
        exact heps.le
      · rw [add_sub_cancel, sub_self, abs_zero]
        exact heps.le
    · refine ⟨j.s - x.s, j.pt, ?_, ?_, ?_, ?_, ?_⟩
      · rw [add_sub_cancel]
        exact h.last
      · exact (sub_pos.mpr hlt).le
      · rw [add_sub_cancel]
      · rw [hmax, sub_sub_sub_cancel_right, abs_le]
        exact ⟨by linarith, by linarith⟩
      · rw [add_sub_cancel, abs_le]
        exact ⟨by linarith, by linarith⟩

variable (hexact : ExactAlong distanceM)

include hexact

/-- Its vertices, in place on the uncut line. -/
theorem stations_cut : stations (legM distanceM) x.s
      (cut x.s j.s x.pt j.pt (stations (legM distanceM) 0 coords)) =
    (x.pt, x.s) :: ((stations (legM distanceM) 0 coords).filter
      fun v => decide (x.s < v.2 ∧ v.2 < j.s)) ++ [(j.pt, j.s)] := by
  have hcovers := covers_cut hexact.toExact h.proper h.start h.last h.lt
  have hstations := stations_of_covers hexact.toExact h.proper hcovers
  rw [h.cut_eq]
  rw [List.map_cons, List.map_append, List.map_singleton] at hstations
  exact hstations

/-- Its length. -/
theorem length_cut : polylineLength distanceM
    (cut x.s j.s x.pt j.pt (stations (legM distanceM) 0 coords)) = j.s - x.s := by
  have hne : cut x.s j.s x.pt j.pt (stations (legM distanceM) 0 coords) ≠ [] := by
    rw [h.cut_eq]
    exact List.cons_ne_nil _ _
  have hshift := stations_add (legM distanceM) 0 x.s
    (cut x.s j.s x.pt j.pt (stations (legM distanceM) 0 coords))
  rw [zero_add, h.stations_cut hexact] at hshift
  have hlast := congrArg List.getLast? hshift
  rw [List.getLast?_concat, List.getLast?_map] at hlast
  rw [polylineLength_eq hne, lineEnd]
  cases hend : (stations (legM distanceM) 0
    (cut x.s j.s x.pt j.pt (stations (legM distanceM) 0 coords))).getLast? with
  | none => exact absurd hlast (by rw [hend]; simp)
  | some v =>
    rw [hend] at hlast
    have hv : j.s = v.2 + x.s := congrArg Prod.snd (Option.some.inj hlast)
    rw [hv, add_sub_cancel_right]
    rfl

/-- A point of the line between the two samples is a point of the cut line. -/
theorem onLine_cut {d : K} {q : Coord K} (hd : 0 ≤ d) (hle : x.s + d ≤ j.s)
    (hq : OnLine lerp (legM distanceM) 0 coords (x.s + d) q) :
    OnLine lerp (legM distanceM) 0
      (cut x.s j.s x.pt j.pt (stations (legM distanceM) 0 coords)) d q := by
  have hcovers := covers_cut hexact.toExact h.proper h.start h.last h.lt
  have hon := onLine_of_covers hexact.toExact h.proper hcovers hq (le_add_of_nonneg_right hd)
    ⟨(j.pt, j.s), by simp, hle⟩
  rw [List.map_cons, List.map_append, List.map_singleton] at hon
  rw [h.cut_eq, ← onLine_add (t := x.s), zero_add, add_comm d]
  exact hon

/-- What the offsets lose is where the cut is. -/
theorem shift_eq {v : Coord K × K} (hv : ((stations (legM distanceM) 0 coords).filter
      fun v => decide (x.s < v.2 ∧ v.2 < j.s)).head? = some v) :
    v.2 - distanceM (ll x.pt) (ll v.1) = x.s := by
  have hcovers := covers_cut hexact.toExact h.proper h.start h.last h.lt
  generalize (stations (legM distanceM) 0 coords).filter
    (fun v => decide (x.s < v.2 ∧ v.2 < j.s)) = inner at hcovers hv
  obtain ⟨inner, rfl⟩ := List.head?_eq_some_iff.mp hv
  have hdist : legM distanceM x.pt v.1 = v.2 - x.s := hcovers.dist_eq hexact.toExact h.proper
  change v.2 - legM distanceM x.pt v.1 = x.s
  rw [hdist, sub_sub_cancel]

end Stretch

/-! ## The clipped artifact -/

/-- A maneuver whose offset is counted along the clipped line. -/
structure Rebased (distanceM : LatLon K → LatLon K → K) (artifact clipped : RouteAlternative K)
    (a b : K) (m m' : Maneuver K) : Prop where
  same : m' = { m with offsetM := m'.offsetM }
  nonneg : 0 ≤ m'.offsetM
  le_length : m'.offsetM ≤ clipped.distanceM + epsM
  /-- Up to `EPS_M`, at both ends of the clipped line. -/
  along : ∃ d q, OnLine lerp (legM distanceM) 0 clipped.geometry d q ∧
    OnLine lerp (legM distanceM) 0 artifact.geometry (a + d) q ∧
    |m'.offsetM - d| ≤ epsM ∧ |m.offsetM - (a + d)| ≤ epsM
  /-- Exactly, between them. -/
  exact : a ≤ m.offsetM → m.offsetM ≤ b →
    OnLine lerp (legM distanceM) 0 clipped.geometry m'.offsetM (m.place.lon, m.place.lat)

/-- `clipped` is `artifact` between the samples `x` and `j`. -/
structure Clipped (distanceM : LatLon K → LatLon K → K) (isClear : LatLon K → Bool)
    (artifact clipped : RouteAlternative K) (x j : Sample K) : Prop where
  geometry : clipped.geometry =
    cut x.s j.s x.pt j.pt (stations (legM distanceM) 0 artifact.geometry)
  starts : clipped.geometry.head? = some x.pt
  ends : clipped.geometry.getLast? = some j.pt
  /-- The pieces tile the clipped line: they start and end with it, and join. -/
  segments : Tiles (clipped.segments.map Segment.coordinates) clipped.geometry
  first : (clipped.segments.map Segment.coordinates).head?.bind List.head? = some x.pt
  last : (clipped.segments.map Segment.coordinates).getLast?.bind List.getLast? = some j.pt
  joints : (clipped.segments.map Segment.coordinates).IsChain fun l l' => l.getLast? = l'.head?
  tiers : (clipped.segments.map Segment.tier).Sublist (artifact.segments.map Segment.tier)
  length : clipped.distanceM = polylineLength distanceM clipped.geometry
  length_eq : clipped.distanceM = j.s - x.s
  maneuvers : ∀ m' ∈ clipped.maneuvers, isClear m'.place = true ∧
    ∃ m ∈ artifact.maneuvers, Rebased distanceM artifact clipped x.s j.s m m'
  unsafePoints : clipped.unsafePoints.Sublist artifact.unsafePoints
  unsafePoints_clear : ∀ u ∈ clipped.unsafePoints, isClear u.place = true
  /-- What is not a place is unchanged. -/
  rest : clipped = { artifact with
    geometry := clipped.geometry, segments := clipped.segments, maneuvers := clipped.maneuvers,
    unsafePoints := clipped.unsafePoints, distanceM := clipped.distanceM }

/-- The artifact cut to a stretch. -/
def clippedTo (distanceM : LatLon K → LatLon K → K) (isClear : LatLon K → Bool)
    (artifact : RouteAlternative K) (samples : List (Sample K)) (x j : Sample K) :
    RouteAlternative K :=
  { artifact with
    geometry := cut x.s j.s x.pt j.pt (stations (legM distanceM) 0 artifact.geometry)
    segments := cutSegments distanceM isClear x.s j.s x.pt j.pt 0 artifact.segments
    maneuvers := (artifact.maneuvers.filter fun m =>
      decide (x.s - epsM ≤ m.offsetM ∧ m.offsetM ≤ j.s + epsM) && isClear m.place).map
        fun m => { m with offsetM := max 0 (m.offsetM - x.s) }
    unsafePoints := artifact.unsafePoints.filter fun u =>
      isClear u.place && (nearestSample distanceM samples u.place).any fun n =>
        decide (x.s ≤ n.1.s ∧ n.1.s ≤ j.s)
    distanceM := polylineLength distanceM
      (cut x.s j.s x.pt j.pt (stations (legM distanceM) 0 artifact.geometry)) }

section Clipped

variable {artifact : RouteAlternative K} {samples : List (Sample K)} {x j : Sample K}
  (h : Stretch distanceM isClear artifact.geometry x j) (hexact : ExactAlong distanceM)

include h hexact

/-- **What the code cuts out.** -/
theorem cutTo_eq : cutTo distanceM isClear artifact samples x j =
    some (clippedTo distanceM isClear artifact samples x j) := by
  unfold cutTo clippedTo
  simp only [cumulative_eq h.ne_nil, zip_stations, inside_eq h.apart_start h.apart_last]
  rw [← h.cut_eq, if_pos (List.all_eq_true.mpr h.cut_clear)]
  cases hhead : ((stations (legM distanceM) 0 artifact.geometry).filter
      fun v => decide (x.s < v.2 ∧ v.2 < j.s)).head? with
  | none => rfl
  | some v => simp only [h.shift_eq hexact hhead]

/-- A maneuver, with its offset from the cut. -/
theorem rebased {m : Maneuver K} (hfrom : x.s - epsM ≤ m.offsetM) (hto : m.offsetM ≤ j.s + epsM)
    (hon : OnLine lerp (legM distanceM) 0 artifact.geometry m.offsetM (m.place.lon, m.place.lat)) :
    Rebased distanceM artifact (clippedTo distanceM isClear artifact samples x j) x.s j.s m
      { m with offsetM := max 0 (m.offsetM - x.s) } := by
  have heps := epsM_pos (K := K)
  have hlt := h.lt
  have hlen : (clippedTo distanceM isClear artifact samples x j).distanceM = j.s - x.s :=
    h.length_cut hexact
  refine ⟨rfl, le_max_left _ _, ?_, ?_, ?_⟩
  · rw [hlen]
    refine max_le ?_ ?_
    · linarith
    · linarith
  · obtain ⟨d, q, hq, hd0, hd1, hnear, hback⟩ := h.exists_near hfrom hto hon
    exact ⟨d, q, h.onLine_cut hexact hd0 hd1 hq, hq, hnear, hback⟩
  · intro hge hle
    have hmax : max 0 (m.offsetM - x.s) = m.offsetM - x.s := max_eq_right (sub_nonneg.mpr hge)
    show OnLine lerp (legM distanceM) 0 _ (max 0 (m.offsetM - x.s)) _
    rw [hmax]
    refine h.onLine_cut hexact (sub_nonneg.mpr hge) ?_ ?_
    · rwa [add_sub_cancel]
    · rwa [add_sub_cancel]

omit hexact in
/-- The pieces that are kept tile the clipped line. -/
theorem tiles_cutSegments
    (htiles : Tiles (artifact.segments.map Segment.coordinates) artifact.geometry) :
    Tiles ((cutSegments distanceM isClear x.s j.s x.pt j.pt 0 artifact.segments).map
        Segment.coordinates)
      (cut x.s j.s x.pt j.pt (stations (legM distanceM) 0 artifact.geometry)) := by
  have hplaced := tiles_placed (legM distanceM) 0 htiles
  have hne : ∀ seg ∈ artifact.segments, seg.coordinates ≠ [] := fun seg hseg =>
    htiles.piece_ne_nil (List.mem_map_of_mem hseg)
  have hcut := tiles_cutPieces hplaced (stations_sorted h.proper)
    (fun v hv => (h.apart_start v hv).2) (fun v hv => (h.apart_last v hv).2) h.lt
    (fun v hv => (h.head_le v hv).trans_lt h.lt) h.le_last
  have hclear : ∀ out ∈ cutPieces x.s j.s x.pt j.pt
      (placed (legM distanceM) 0 (artifact.segments.map Segment.coordinates)),
      (out.all fun c => isClear (ll c)) = true := fun out hout =>
    List.all_eq_true.mpr fun c hc => h.cut_clear c ((hcut.infix_of_mem hout).subset hc)
  rw [cutSegments_eq hne (fun piece hp => h.apart_start.mono (hplaced.infix_of_mem hp))
    (fun piece hp => h.apart_last.mono (hplaced.infix_of_mem hp)),
    List.filter_eq_self.mpr hclear]
  exact hcut

/-- **The clipped artifact.** -/
theorem clipped_clippedTo
    (htiles : Tiles (artifact.segments.map Segment.coordinates) artifact.geometry)
    (hoffsets : ∀ m ∈ artifact.maneuvers, OnLine lerp (legM distanceM) 0 artifact.geometry
      m.offsetM (m.place.lon, m.place.lat)) :
    Clipped distanceM isClear artifact (clippedTo distanceM isClear artifact samples x j) x j where
  geometry := rfl
  starts := h.head_cut
  ends := h.getLast_cut
  segments := tiles_cutSegments h htiles
  first := (tiles_cutSegments h htiles).head?.trans h.head_cut
  last := (tiles_cutSegments h htiles).getLast?.trans h.getLast_cut
  joints := (tiles_cutSegments h htiles).isChain
  tiers := tiers_cutSegments 0 artifact.segments
  length := rfl
  length_eq := h.length_cut hexact
  maneuvers m' hm' := by
    obtain ⟨m, hm, rfl⟩ := List.mem_map.mp hm'
    obtain ⟨hmem, hkeep⟩ := List.mem_filter.mp hm
    obtain ⟨hwithin, hclear⟩ := Bool.and_eq_true_iff.mp hkeep
    obtain ⟨hfrom, hto⟩ := of_decide_eq_true hwithin
    exact ⟨hclear, m, hmem, rebased h hexact hfrom hto (hoffsets m hmem)⟩
  unsafePoints := List.filter_sublist
  unsafePoints_clear u hu := (Bool.and_eq_true_iff.mp (List.mem_filter.mp hu).2).1
  rest := rfl

end Clipped

/-! ## The kept stretch -/

section Kept

variable [FloorRing K] {p : Coord K} {cs : List (Coord K)} {x j : Sample K}

omit [Field K] [IsStrictOrderedRing K] [FloorRing K] in
/-- A run of two samples or more goes forward, and everything between its ends is in it. -/
theorem ClearRun.between {samples run : List (Sample K)} (h : ClearRun samples x j run)
    (hs : samples.Pairwise fun x y => x.s < y.s) :
    (2 ≤ run.length → x.s < j.s) ∧
      ∀ y ∈ samples, x.s < y.s → y.s < j.s → y ∈ run := by
  obtain ⟨pre, post, rfl⟩ := h.consecutive
  obtain ⟨hprerun, -, hpost⟩ := List.pairwise_append.mp hs
  obtain ⟨-, hrun, hpre⟩ := List.pairwise_append.mp hprerun
  constructor
  · intro hlen
    obtain ⟨t, rfl⟩ := List.head?_eq_some_iff.mp h.head
    have ht : t ≠ [] := by
      rintro rfl
      exact absurd hlen (by simp)
    obtain ⟨c, t, rfl⟩ := List.exists_cons_of_ne_nil ht
    have hj : j ∈ c :: t := by
      have hlast := h.last
      rw [List.getLast?_cons_cons] at hlast
      exact List.mem_of_getLast? hlast
    exact (List.pairwise_cons.mp hrun).1 j hj
  · intro y hy hxy hyj
    have hx := List.mem_of_mem_head? h.head
    have hj := List.mem_of_getLast? h.last
    rcases List.mem_append.mp hy with hy | hy
    · rcases List.mem_append.mp hy with hy | hy
      · exact absurd (hpre y hy x hx) (not_lt.mpr hxy.le)
      · exact hy
    · exact absurd (hpost j (List.mem_append_right _ hj) y hy) (not_lt.mpr hyj.le)

/-- **The run that is kept is a stretch of the line.** -/
theorem stretch_of_run (hexact : ExactAlong distanceM) (hlong : LongLegs distanceM (p :: cs))
    {run : List (Sample K)}
    (hrun : ClearRun (samplesFrom distanceM isClear 0 p cs) x j run) (hlen : 2 ≤ run.length) :
    Stretch distanceM isClear (p :: cs) x j := by
  obtain ⟨hlt, hbetween⟩ := hrun.between (samplesFrom_sorted hlong)
  have hx := List.mem_of_mem_head? hrun.head
  have hj := List.mem_of_getLast? hrun.last
  have hxs := hrun.consecutive.subset hx
  have hjs := hrun.consecutive.subset hj
  obtain ⟨hxon, hxclear⟩ := mem_samplesFrom hlong hxs
  obtain ⟨hjon, hjclear⟩ := mem_samplesFrom hlong hjs
  have hapart : ∀ {y : Sample K}, y ∈ samplesFrom distanceM isClear 0 p cs →
      ApartFrom y.s y.pt (stations (legM distanceM) 0 (p :: cs)) := by
    intro y hy v hv
    refine ⟨samplesFrom_separated hlong hy hv, fun heq => ?_⟩
    have hvon := onLine_of_mem_stations hexact.toExact hv
    rw [heq] at hvon
    exact onLine_unique hexact.toExact hlong.proper hvon (mem_samplesFrom hlong hy).1
  refine ⟨List.cons_ne_nil _ _, hlong.proper, hlt hlen, hxon, hjon, hapart hxs, hapart hjs, ?_, ?_,
    fun v hv hxv hvj => ?_⟩
  · rw [← hxclear]
    exact hrun.clear x hx
  · rw [← hjclear]
    exact hrun.clear j hj
  · exact hrun.clear _ (hbetween _ (vertex_mem_samplesFrom hv) hxv hvj)

/-- A longest run of consecutive clear samples, from `x` to `j`. -/
structure LongestRun (samples : List (Sample K)) (x j : Sample K) : Prop where
  run : ∃ run, ClearRun samples x j run
  lt : x.s < j.s
  longest : ∀ x' j' run, ClearRun samples x' j' run → j'.s - x'.s ≤ j.s - x.s

omit [FloorRing K] in
theorem longestRun_of_bestRun {samples : List (Sample K)} {best : Sample K × Sample K}
    (hs : samples.Pairwise fun x y => x.s < y.s) (hbest : bestRun samples none = some best) :
    LongestRun samples best.1 best.2 := by
  rcases bestRun_run samples none best hbest with hnone | ⟨run, hrun, hlen⟩
  · exact absurd hnone (by simp)
  · have hlt := (hrun.between hs).1 hlen
    refine ⟨⟨run, hrun⟩, hlt, fun x' j' run' hrun' => ?_⟩
    rcases lt_or_ge x'.s j'.s with hlt' | hge
    · obtain ⟨r, hr, hle⟩ := bestRun_longest none hs hrun' hlt'
      obtain rfl := Option.some.inj (hbest.symm.trans hr)
      exact hle
    · exact (sub_nonpos.mpr hge).trans (sub_pos.mpr hlt).le

end Kept

end Cuts

/-! ## `clipArtifact` -/

/-- `RouteKind`. -/
inductive RouteKind where
  | fast
  | balanced
  | safe
  deriving DecidableEq, Repr

/-- `UnsafeCounts`. -/
structure UnsafeCounts where
  unprotectedLeft : ℕ
  uncontrolledCrossing : ℕ
  total : ℕ
  deriving DecidableEq, Repr

/-- A `RouteAlternative` with all its fields; the others of `preference` stand beside it. -/
structure Artifact (K : Type) extends RouteAlternative K where
  kind : RouteKind
  unsafeCounts : UnsafeCounts
  detourPct : K
  controlDelayS : K
  lambda : K
  detourBudgetPct : K
  departureTime : String
  trafficSource : Option String
  trafficAsOf : Option String
  schemaVersion : ℤ

section Main

variable [FloorRing K] (distanceM : LatLon K → LatLon K → K)

/-- `isClear` of an artifact: clear of the anchors and of its own two ends. -/
def RouteAlternative.isClear (artifact : RouteAlternative K) (anchors : List (Anchor K))
    (x : LatLon K) : Bool :=
  clearOf distanceM x.anchor (anchors ++ artifact.ends.map LatLon.anchor)

/-- `samples`. -/
def RouteAlternative.samples (artifact : RouteAlternative K) (anchors : List (Anchor K)) :
    List (Sample K) :=
  match artifact.geometry with
  | [] => []
  | p :: cs => samplesFrom distanceM (artifact.isClear distanceM anchors) 0 p cs

/-- `clipArtifact`, with the fields it does not look at. -/
def Artifact.clip (artifact : Artifact K) (anchors : List (Anchor K)) : Option (Artifact K) :=
  (clipArtifact distanceM artifact.toRouteAlternative anchors).map fun clipped =>
    { artifact with toRouteAlternative := clipped }

variable {distanceM}

theorem samples_cons (distanceM : LatLon K → LatLon K → K) {artifact : RouteAlternative K}
    (anchors : List (Anchor K))
    {p : Coord K} {cs : List (Coord K)} (hgeometry : artifact.geometry = p :: cs) :
    artifact.samples distanceM anchors =
      samplesFrom distanceM (artifact.isClear distanceM anchors) 0 p cs := by
  unfold RouteAlternative.samples
  simp only [hgeometry]

theorem clipArtifact_cons {artifact : RouteAlternative K} {anchors : List (Anchor K)}
    {p q : Coord K} {cs : List (Coord K)} (hgeometry : artifact.geometry = p :: q :: cs) :
    clipArtifact distanceM artifact anchors =
      (bestRun (artifact.samples distanceM anchors) none).bind fun best =>
        cutTo distanceM (artifact.isClear distanceM anchors) artifact
          (artifact.samples distanceM anchors) best.1 best.2 := by
  unfold clipArtifact RouteAlternative.samples RouteAlternative.isClear
  simp only [hgeometry]
  cases bestRun (samplesFrom distanceM (fun x : LatLon K => clearOf distanceM x.anchor
    (anchors ++ artifact.ends.map LatLon.anchor)) 0 p (q :: cs)) none with
  | none => rfl
  | some best => rfl

omit [Field K] [FloorRing K] in
/-- A line of one vertex, or none, has no run of two. -/
theorem le_of_length_le {samples run : List (Sample K)} {x j : Sample K}
    (h : ClearRun samples x j run) (hlen : samples.length ≤ 1) : j.s ≤ x.s := by
  have hx := h.consecutive.subset (List.mem_of_mem_head? h.head)
  have hj := h.consecutive.subset (List.mem_of_getLast? h.last)
  cases samples with
  | nil => exact absurd hx List.not_mem_nil
  | cons y samples =>
    have hnil : samples = [] :=
      List.length_eq_zero_iff.mp (Nat.le_zero.mp (Nat.le_of_succ_le_succ hlen))
    rw [hnil] at hx hj
    rw [List.mem_singleton.mp hx, List.mem_singleton.mp hj]

variable [IsStrictOrderedRing K]

/-- **What is clipped, and when.** -/
theorem clipArtifact_eq (hexact : ExactAlong distanceM) {artifact : RouteAlternative K}
    (anchors : List (Anchor K)) (hlong : LongLegs distanceM artifact.geometry) :
    (clipArtifact distanceM artifact anchors = none ∧
      ∀ x j run, ClearRun (artifact.samples distanceM anchors) x j run → j.s ≤ x.s) ∨
    ∃ x j, LongestRun (artifact.samples distanceM anchors) x j ∧
      Stretch distanceM (artifact.isClear distanceM anchors) artifact.geometry x j ∧
      clipArtifact distanceM artifact anchors =
        some (clippedTo distanceM (artifact.isClear distanceM anchors) artifact
          (artifact.samples distanceM anchors) x j) := by
  have hshort : (artifact.samples distanceM anchors).length ≤ 1 → ∀ x j run,
      ClearRun (artifact.samples distanceM anchors) x j run → j.s ≤ x.s :=
    fun hlen _ _ _ h => le_of_length_le h hlen
  rcases hgeometry : artifact.geometry with _ | ⟨p, _ | ⟨q, cs⟩⟩
  · refine Or.inl ⟨?_, hshort ?_⟩
    · unfold clipArtifact
      simp only [hgeometry]
    · unfold RouteAlternative.samples
      simp only [hgeometry, List.length_nil, Nat.zero_le]
  · refine Or.inl ⟨?_, hshort ?_⟩
    · unfold clipArtifact
      simp only [hgeometry]
    · rw [samples_cons distanceM anchors hgeometry]
      exact Nat.le_refl 1
  · have hsamples := samples_cons distanceM anchors hgeometry
    rw [hgeometry] at hlong
    have hsorted : (artifact.samples distanceM anchors).Pairwise fun x y => x.s < y.s := by
      rw [hsamples]
      exact samplesFrom_sorted hlong
    rw [clipArtifact_cons hgeometry]
    cases hbest : bestRun (artifact.samples distanceM anchors) none with
    | none =>
      refine Or.inl ⟨rfl, fun x j run hrun => not_lt.mp fun hlt => ?_⟩
      obtain ⟨r, hr, -⟩ := bestRun_longest none hsorted hrun hlt
      exact absurd (hbest.symm.trans hr) (by simp)
    | some best =>
      have hlongest := longestRun_of_bestRun hsorted hbest
      rcases bestRun_run _ none best hbest with hnone | ⟨run, hrun, hlen⟩
      · exact absurd hnone (by simp)
      · rw [hsamples] at hrun
        have hstretch := stretch_of_run hexact hlong hrun hlen
        refine Or.inr ⟨best.1, best.2, hlongest, hstretch, ?_⟩
        rw [← hgeometry] at hstretch
        exact cutTo_eq hstretch hexact

/-- **`clipArtifact` is correct.** It gives nothing only where no two consecutive samples are clear.
Otherwise it keeps a longest run of clear samples, and the clipped artifact is the artifact between
its ends. -/
theorem clip_correct (hexact : ExactAlong distanceM) (artifact : Artifact K)
    (anchors : List (Anchor K))
    (htiles : Tiles (artifact.segments.map Segment.coordinates) artifact.geometry)
    (hlong : LongLegs distanceM artifact.geometry)
    (hoffsets : ∀ m ∈ artifact.maneuvers, OnLine lerp (legM distanceM) 0 artifact.geometry
      m.offsetM (m.place.lon, m.place.lat)) :
    (artifact.clip distanceM anchors = none ∧ ∀ x j run,
      ClearRun (artifact.samples distanceM anchors) x j run → j.s ≤ x.s) ∨
    ∃ clipped x j, artifact.clip distanceM anchors = some clipped ∧
      LongestRun (artifact.samples distanceM anchors) x j ∧
      Clipped distanceM (artifact.isClear distanceM anchors) artifact.toRouteAlternative
        clipped.toRouteAlternative x j ∧
      clipped = { artifact with toRouteAlternative := clipped.toRouteAlternative } := by
  unfold Artifact.clip
  rcases clipArtifact_eq hexact anchors hlong with ⟨hnone, hruns⟩ | ⟨x, j, hrun, hstretch, hsome⟩
  · rw [hnone]
    exact Or.inl ⟨rfl, hruns⟩
  · rw [hsome]
    exact Or.inr ⟨_, x, j, rfl, hrun, clipped_clippedTo hstretch hexact htiles hoffsets, rfl⟩

/-- Metres on a plane, counted along its axes. -/
def planeM (a b : LatLon ℚ) : ℚ := 100000 * (|b.lat - a.lat| + |b.lon - a.lon|)

/-- They are exact along legs. -/
theorem planeM_exact : ExactAlong planeM := by
  have hleg : ∀ (p q : Coord ℚ) (u v : ℚ), u ≤ v →
      legM planeM (lerp p q u) (lerp p q v) = (v - u) * legM planeM p q := by
    intro p q u v huv
    have hscale : ∀ c d : ℚ, |c + v * (d - c) - (c + u * (d - c))| = (v - u) * |d - c| := by
      intro c d
      have hdiff : c + v * (d - c) - (c + u * (d - c)) = (v - u) * (d - c) := by ring
      rw [hdiff, abs_mul, abs_of_nonneg (sub_nonneg.mpr huv)]
    simp only [legM, planeM, ll, lerp, hscale]
    ring
  have hzero : ∀ p q : Coord ℚ, lerp p q 0 = p := fun p q => by simp [lerp]
  refine ⟨fun p q u hu _ => ?_, fun p q u v hu huv _ => ?_⟩
  · have h := hleg p q 0 u hu
    rwa [hzero, sub_zero] at h
  · have h0u := hleg p q 0 u hu
    have h0v := hleg p q 0 v (hu.trans huv)
    rw [hzero, sub_zero] at h0u h0v
    rw [h0u, h0v, hleg p q u v huv]
    ring

/-- A street of some 800 m, with a leg of half a metre in its middle. -/
def street : Artifact ℚ where
  geometry := [(0, 0), (0, 4000 / 1000000), (0, 4005 / 1000000), (0, 8000 / 1000000)]
  distanceM := 800
  etaS := 60
  segments := [⟨[(0, 0), (0, 4000 / 1000000)], .safe⟩,
    ⟨[(0, 4000 / 1000000), (0, 4005 / 1000000), (0, 8000 / 1000000)], .caution⟩]
  unsafePoints := []
  maneuvers := [⟨.left, 90, 400, ⟨4000 / 1000000, 0⟩⟩]
  level := "safe"
  profileVersion := none
  kind := .safe
  unsafeCounts := ⟨0, 0, 0⟩
  detourPct := 0
  controlDelayS := 0
  lambda := 1
  detourBudgetPct := 0
  departureTime := "08:00"
  trafficSource := none
  trafficAsOf := none
  schemaVersion := 2

/-- The ends of the leg in its middle are consecutive samples, and clear. -/
theorem street_run : ∃ x j run, ClearRun (street.samples planeM []) x j run ∧ x.s < j.s := by
  let isClear := street.isClear planeM []
  let c₀ : Coord ℚ := (0, 0)
  let c₁ : Coord ℚ := (0, 4000 / 1000000)
  let c₂ : Coord ℚ := (0, 4005 / 1000000)
  let c₃ : Coord ℚ := (0, 8000 / 1000000)
  have hleg : sampleLeg isClear c₁ c₂ 400 (1 / 2) = [⟨c₁, 400, isClear (ll c₁)⟩] := by
    have hsteps : max 1 ⌈(1 / 2 : ℚ) / sampleStepM⌉.toNat = 1 := by decide +kernel
    unfold sampleLeg
    rw [hsteps]
    rfl
  obtain ⟨rest, hrest⟩ : ∃ rest, samplesFrom planeM isClear (400 + 1 / 2) c₂ [c₃] =
      ⟨c₂, 400 + 1 / 2, isClear (ll c₂)⟩ :: rest := ⟨_, rfl⟩
  have hsamples : street.samples planeM [] = sampleLeg isClear c₀ c₁ 0 (planeM (ll c₀) (ll c₁)) ++
      (sampleLeg isClear c₁ c₂ (0 + planeM (ll c₀) (ll c₁)) (planeM (ll c₁) (ll c₂)) ++
        samplesFrom planeM isClear (0 + planeM (ll c₀) (ll c₁) + planeM (ll c₁) (ll c₂)) c₂
          [c₃]) := rfl
  have h01 : 0 + planeM (ll c₀) (ll c₁) = 400 := by decide +kernel
  have h12 : planeM (ll c₁) (ll c₂) = 1 / 2 := by decide +kernel
  rw [h01, h12, hleg, hrest] at hsamples
  have hclear₁ : isClear (ll c₁) = true := by decide +kernel
  have hclear₂ : isClear (ll c₂) = true := by decide +kernel
  refine ⟨_, _, [⟨c₁, 400, isClear (ll c₁)⟩, ⟨c₂, 400 + 1 / 2, isClear (ll c₂)⟩],
    ⟨?_, ?_, rfl, rfl⟩, by decide +kernel⟩
  · rw [hsamples]
    exact ⟨sampleLeg isClear c₀ c₁ 0 (planeM (ll c₀) (ll c₁)), rest, by simp⟩
  · exact List.forall_mem_cons.mpr ⟨hclear₁, List.forall_mem_cons.mpr ⟨hclear₂, by simp⟩⟩

/-- Its middle is kept. -/
theorem clip_correct_street : ∃ clipped x j, street.clip planeM [] = some clipped ∧
    LongestRun (street.samples planeM []) x j ∧
    Clipped planeM (street.isClear planeM []) street.toRouteAlternative
      clipped.toRouteAlternative x j ∧
    clipped = { street with toRouteAlternative := clipped.toRouteAlternative } := by
  refine (clip_correct planeM_exact street [] ?_ ?_ ?_).resolve_left fun h => ?_
  · exact Tiles.cons [(0, 0)] _ _ (Tiles.one _ (by decide))
  · unfold LongLegs
    simp only [street]
    decide +kernel
  · intro m hm
    rw [List.mem_singleton.mp hm]
    refine Or.inl ⟨1, zero_le_one, le_refl 1, ?_, ?_⟩
    · decide +kernel
    · decide +kernel
  · obtain ⟨x, j, run, hrun, hlt⟩ := street_run
    exact absurd (h.2 x j run hrun) (not_le.mpr hlt)

end Main

end RoutePlanner.Recorder
