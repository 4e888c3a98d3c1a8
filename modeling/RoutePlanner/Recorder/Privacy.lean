import Mathlib.Algebra.Order.Field.Basic
import Mathlib.Algebra.Order.Floor.Ring
import Mathlib.Data.List.TakeWhile

/-!
# `web/lib/tracePrivacy.ts`: what may leave the phone

Model of the fix filter, the trailing rule and the clipping of artifacts. Arithmetic is exact, over
any ordered field `K` with a floor; readings may hold `NaN` and infinities (`JsNum`). The
great-circle distance is a parameter: nothing here depends on what it computes.

A `TraceFix` and an `Anchor` carry what their makers check, so that a stored one is in range.

Main results:
* `mem_sealable`: a fix at the front of `pending` is clear of the head.
* `clipArtifact_clear`: every place of a clipped artifact is clear of the anchors and of the
  artifact's own two ends.
-/

namespace RoutePlanner.Recorder

variable {K : Type} [Field K] [LinearOrder K]

/-! ## Points -/

/-- `LatLon`. -/
structure LatLon (K : Type) where
  lat : K
  lon : K
  deriving DecidableEq

/-- `Anchor`: a private point, with its own uncertainty. -/
structure Anchor (K : Type) [Field K] [LinearOrder K] extends LatLon K where
  accuracyM : Option K
  accuracy_nonneg : ∀ a ∈ accuracyM, 0 ≤ a

/-- A route vertex as a point without uncertainty. -/
def LatLon.anchor (p : LatLon K) : Anchor K := ⟨p, none, by simp⟩

/-- `TRIM_M`. -/
def trimM : K := 300

/-- `MAX_ACCURACY_M`. -/
def maxAccuracyM : K := 100

/-- `MIN_FIX_INTERVAL_MS`. -/
def minFixIntervalMs : ℤ := 900

/-- `MAX_SPEED_MPS`. -/
def maxSpeedMps : K := 70

section Distance

variable (distanceM : LatLon K → LatLon K → K)

/-- `separationM`. -/
def separationM (a b : Anchor K) : K :=
  distanceM a.toLatLon b.toLatLon - a.accuracyM.getD 0 - b.accuracyM.getD 0

/-- `clearOf`. -/
def clearOf (p : Anchor K) (anchors : List (Anchor K)) : Bool :=
  anchors.all fun a => decide (trimM ≤ separationM distanceM p a)

theorem clearOf_eq_true {p : Anchor K} {anchors : List (Anchor K)} :
    clearOf distanceM p anchors = true ↔
      ∀ a ∈ anchors, trimM ≤ separationM distanceM p a := by
  unfold clearOf
  simp only [List.all_eq_true, decide_eq_true_eq]

/-- The accuracies only hold more back. -/
theorem le_distanceM_of_separation [IsStrictOrderedRing K] {p a : Anchor K}
    (h : trimM ≤ separationM distanceM p a) : trimM ≤ distanceM p.toLatLon a.toLatLon := by
  have hacc : ∀ q : Anchor K, 0 ≤ q.accuracyM.getD 0 := by
    intro q
    cases hq : q.accuracyM with
    | none => exact le_rfl
    | some x => exact q.accuracy_nonneg x hq
  unfold separationM at h
  exact h.trans ((sub_le_self _ (hacc a)).trans (sub_le_self _ (hacc p)))

end Distance

/-! ## Fixes -/

/-- A number of a reading. -/
inductive JsNum (K : Type) where
  | num (x : K)
  | nan
  | inf (negative : Bool)
  deriving DecidableEq

/-- `finite`. -/
def JsNum.finite : JsNum K → Option K
  | .num x => some x
  | .nan => none
  | .inf _ => none

/-- `RawFix`. -/
structure RawFix (K : Type) where
  t : JsNum K
  lat : JsNum K
  lon : JsNum K
  speedMps : Option (JsNum K)
  accuracyM : JsNum K
  headingDeg : Option (JsNum K)
  deriving DecidableEq

/-- `TraceFix`, with the ranges `toTraceFix` checks. -/
structure TraceFix (K : Type) [Field K] [LinearOrder K] where
  t : ℤ
  lat : K
  lon : K
  speedMps : Option K
  accuracyM : K
  headingDeg : Option K
  lat_range : |lat| ≤ 90
  lon_range : |lon| ≤ 180
  accuracy_nonneg : 0 ≤ accuracyM
  accuracy_le : accuracyM ≤ maxAccuracyM
  speed_nonneg : ∀ s ∈ speedMps, 0 ≤ s
  heading_range : ∀ d ∈ headingDeg, 0 ≤ d ∧ d ≤ 360
  deriving DecidableEq

/-- A fix as a point with its accuracy. -/
def TraceFix.anchor (f : TraceFix K) : Anchor K :=
  ⟨⟨f.lat, f.lon⟩, some f.accuracyM, fun a ha => by
    rw [← Option.some.inj ha]
    exact f.accuracy_nonneg⟩

/-- `Math.round`. -/
def mathRound [FloorRing K] (x : K) : ℤ := ⌊x + 1 / 2⌋

/-- **`toTraceFix`.** -/
def toTraceFix [FloorRing K] (raw : RawFix K) : Option (TraceFix K) :=
  match raw.t.finite, raw.lat.finite, raw.lon.finite, raw.accuracyM.finite with
  | some t, some lat, some lon, some accuracyM =>
    if h : |lat| ≤ 90 ∧ |lon| ≤ 180 ∧ 0 ≤ accuracyM ∧ accuracyM ≤ maxAccuracyM then
      some
        { t := mathRound t
          lat := lat
          lon := lon
          speedMps := (raw.speedMps.bind JsNum.finite).filter fun s => decide (0 ≤ s)
          accuracyM := accuracyM
          headingDeg := (raw.headingDeg.bind JsNum.finite).filter fun d =>
            decide (0 ≤ d ∧ d ≤ 360)
          lat_range := h.1
          lon_range := h.2.1
          accuracy_nonneg := h.2.2.1
          accuracy_le := h.2.2.2
          speed_nonneg := fun _ hs => of_decide_eq_true (Option.mem_filter_iff.mp hs).2
          heading_range := fun _ hd => of_decide_eq_true (Option.mem_filter_iff.mp hd).2 }
    else none
  | _, _, _, _ => none

section Fixes

variable (distanceM : LatLon K → LatLon K → K)

/-- **`followsHead`.** -/
def followsHead (head : Option (TraceFix K)) (fix : TraceFix K) : Bool :=
  match head with
  | none => true
  | some head =>
    decide (minFixIntervalMs ≤ fix.t - head.t) &&
      decide (distanceM head.anchor.toLatLon fix.anchor.toLatLon ≤
        maxSpeedMps * (((fix.t - head.t : ℤ) : K) / 1000))

theorem spaced_of_followsHead {head fix : TraceFix K}
    (h : followsHead distanceM (some head) fix = true) : head.t + minFixIntervalMs ≤ fix.t := by
  have hdt := of_decide_eq_true (Bool.and_eq_true_iff.mp h).1
  omega

/-- `sealablePrefix`. -/
def sealablePrefix (pending : List (TraceFix K)) (head : Option (TraceFix K)) : ℕ :=
  match head with
  | none => 0
  | some head =>
    (pending.takeWhile fun f =>
      decide (trimM ≤ separationM distanceM f.anchor head.anchor)).length

/-- **The trailing rule.** What `sealablePrefix` lets go is clear of the head. -/
theorem mem_sealable {pending : List (TraceFix K)} {head : Option (TraceFix K)} {f : TraceFix K}
    (hf : f ∈ pending.take (sealablePrefix distanceM pending head)) :
    f ∈ pending ∧ ∃ h, head = some h ∧ trimM ≤ separationM distanceM f.anchor h.anchor := by
  unfold sealablePrefix at hf
  cases head with
  | none => exact absurd hf (by simp)
  | some h =>
    have htake : pending.take (pending.takeWhile fun f =>
        decide (trimM ≤ separationM distanceM f.anchor h.anchor)).length =
        pending.takeWhile fun f => decide (trimM ≤ separationM distanceM f.anchor h.anchor) :=
      (List.prefix_iff_eq_take.mp (List.takeWhile_prefix _)).symm
    rw [htake] at hf
    exact ⟨(List.takeWhile_prefix _).subset hf, h, rfl,
      of_decide_eq_true (List.mem_takeWhile_imp (p := fun f : TraceFix K =>
        decide (trimM ≤ separationM distanceM f.anchor h.anchor)) hf)⟩

end Fixes

/-! ## Artifacts -/

/-- `[lon, lat]`. -/
abbrev Coord (K : Type) : Type := K × K

/-- `ll`. -/
def ll (c : Coord K) : LatLon K := ⟨c.2, c.1⟩

/-- `Tier`. -/
inductive Tier where
  | safe
  | caution
  | unsafeTier
  deriving DecidableEq, Repr

/-- `Segment`. -/
structure Segment (K : Type) where
  coordinates : List (Coord K)
  tier : Tier
  deriving DecidableEq

/-- `UnsafeType` of the wire. -/
inductive UnsafePointType where
  | unprotectedLeft
  | uncontrolledCrossing
  deriving DecidableEq, Repr

/-- `UnsafePoint`. -/
structure UnsafePoint (K : Type) where
  place : LatLon K
  type : UnsafePointType
  expectedWaitS : K
  deriving DecidableEq

/-- `ManeuverType`. -/
inductive ManeuverType where
  | left
  | right
  | uturn
  deriving DecidableEq, Repr

/-- `Maneuver`. -/
structure Maneuver (K : Type) where
  type : ManeuverType
  angleDeg : K
  offsetM : K
  place : LatLon K
  deriving DecidableEq

/-- `RouteAlternative`: its places, and what the trip end reads of it (`eta_s`, and `level` and
`traffic_basis?.profile_version` of its preference). -/
structure RouteAlternative (K : Type) where
  geometry : List (Coord K)
  distanceM : K
  etaS : K
  segments : List (Segment K)
  unsafePoints : List (UnsafePoint K)
  maneuvers : List (Maneuver K)
  level : String
  profileVersion : Option String
  deriving DecidableEq

/-- Every coordinate of an artifact. -/
def RouteAlternative.places (r : RouteAlternative K) : List (LatLon K) :=
  r.geometry.map ll ++ r.segments.flatMap (fun s => s.coordinates.map ll) ++
    r.maneuvers.map Maneuver.place ++ r.unsafePoints.map UnsafePoint.place

/-- The two ends of an artifact. -/
def RouteAlternative.ends (r : RouteAlternative K) : List (LatLon K) :=
  (r.geometry.head?.toList ++ r.geometry.getLast?.toList).map ll

/-- `SAMPLE_STEP_M`. -/
def sampleStepM : K := 1

/-- `EPS_M`. -/
def epsM : K := 1 / 1000000

/-- `Sample`. -/
structure Sample (K : Type) where
  pt : Coord K
  s : K
  clear : Bool
  deriving DecidableEq

/-- `j.s - x.s` beats the best run so far. -/
def longer (best : Option (Sample K × Sample K)) (x j : Sample K) : Bool :=
  match best with
  | none => true
  | some b => decide (b.2.s - b.1.s < j.s - x.s)

/-- The longest run of consecutive clear samples, of two or more: its first and its last. -/
def bestRun : List (Sample K) → Option (Sample K × Sample K) → Option (Sample K × Sample K)
  | [], best => best
  | x :: xs, best =>
    if x.clear = true then
      let j := ((xs.takeWhile Sample.clear).getLast?).getD x
      bestRun (xs.dropWhile Sample.clear)
        (if (xs.takeWhile Sample.clear) ≠ [] ∧ longer best x j = true then some (x, j) else best)
    else bestRun xs best
termination_by l => l.length
decreasing_by
  · exact Nat.lt_succ_of_le (List.length_dropWhile_le _ _)
  · exact Nat.lt_succ_self _

section Clip

variable (distanceM : LatLon K → LatLon K → K) (isClear : LatLon K → Bool)

/-- The along-line distances of the vertices after `p`, which is at `s`. -/
def cumulativeFrom (s : K) (p : Coord K) : List (Coord K) → List K
  | [] => []
  | c :: cs => (s + distanceM (ll p) (ll c)) ::
      cumulativeFrom (s + distanceM (ll p) (ll c)) c cs

/-- `cumulative`. -/
def cumulative (coords : List (Coord K)) : List K :=
  match coords with
  | [] => [0]
  | c :: cs => 0 :: cumulativeFrom distanceM 0 c cs

/-- `polylineLength`. -/
def polylineLength (coords : List (Coord K)) : K :=
  ((cumulative distanceM coords).getLast?).getD 0

/-- The samples from vertex `p`, at `s`, up to the next vertex `q`, which is `len` away. -/
def sampleLeg [FloorRing K] (p q : Coord K) (s len : K) : List (Sample K) :=
  let steps := max 1 ⌈len / sampleStepM⌉.toNat
  ⟨p, s, isClear (ll p)⟩ :: (List.range (steps - 1)).map fun k =>
    let u : K := ((k + 1 : ℕ) : K) / (steps : K)
    let c : Coord K := (p.1 + u * (q.1 - p.1), p.2 + u * (q.2 - p.2))
    ⟨c, s + u * len, isClear (ll c)⟩

/-- Every vertex from `p` on, and points every `SAMPLE_STEP_M` between. -/
def samplesFrom [FloorRing K] (s : K) (p : Coord K) : List (Coord K) → List (Sample K)
  | [] => [⟨p, s, isClear (ll p)⟩]
  | c :: cs => sampleLeg isClear p c s (distanceM (ll p) (ll c)) ++
      samplesFrom (s + distanceM (ll p) (ll c)) c cs

/-- A piece of the line from `s0` to `s1`, with its vertices' along-line distances, cut to the
stretch from `a` to `b`. -/
def cutLine (a b : K) (cutA cutB : Coord K) (s0 s1 : K) (sc : List (Coord K)) (scum : List K) :
    List (Coord K) :=
  (if s0 < a - epsM then cutA else sc.head?.getD cutA) ::
    ((sc.zip scum).tail.dropLast.filter fun v =>
      decide (a + epsM < v.2 ∧ v.2 < b - epsM)).map Prod.fst ++
    [if b + epsM < s1 then cutB else sc.getLast?.getD cutB]

/-- The per-edge pieces of a line, each cut to the stretch from `a` to `b`; `segStart` is where the
first piece starts. -/
def cutSegments (a b : K) (cutA cutB : Coord K) (segStart : K) :
    List (Segment K) → List (Segment K)
  | [] => []
  | seg :: segs =>
    let sc := seg.coordinates
    let scum := (cumulative distanceM sc).map (· + segStart)
    let s0 := scum.head?.getD segStart
    let s1 := scum.getLast?.getD segStart
    let out := cutLine a b cutA cutB s0 s1 sc scum
    let rest := cutSegments a b cutA cutB s1 segs
    if sc.length < 2 ∨ s1 ≤ a + epsM ∨ b - epsM ≤ s0 then rest
    else if out.all (fun c => isClear (ll c)) = true then { seg with coordinates := out } :: rest
    else rest

/-- The sample nearest to `u`, the first of equals, with its distance. -/
def nearestSample (samples : List (Sample K)) (u : LatLon K) : Option (Sample K × K) :=
  samples.foldl (fun nearest smp =>
    match nearest with
    | none => some (smp, distanceM (ll smp.pt) u)
    | some n => if distanceM (ll smp.pt) u < n.2 then some (smp, distanceM (ll smp.pt) u)
      else some n) none

/-- The artifact cut to the stretch between two samples, or nothing if a vertex of it is not
clear. -/
def cutTo (artifact : RouteAlternative K) (samples : List (Sample K)) (start last : Sample K) :
    Option (RouteAlternative K) :=
  let coords := artifact.geometry
  let a := start.s
  let b := last.s
  let inner := (coords.zip (cumulative distanceM coords)).filter fun v =>
    decide (a + epsM < v.2 ∧ v.2 < b - epsM)
  let geometry := start.pt :: inner.map Prod.fst ++ [last.pt]
  if geometry.all (fun c => isClear (ll c)) = true then
    let shift := match inner.head? with
      | some v => v.2 - distanceM (ll start.pt) (ll v.1)
      | none => a
    some
      { artifact with
        geometry := geometry
        segments := cutSegments distanceM isClear a b start.pt last.pt 0 artifact.segments
        maneuvers := (artifact.maneuvers.filter fun m =>
          decide (a - epsM ≤ m.offsetM ∧ m.offsetM ≤ b + epsM) && isClear m.place).map
            fun m => { m with offsetM := max 0 (m.offsetM - shift) }
        unsafePoints := artifact.unsafePoints.filter fun u =>
          isClear u.place && (nearestSample distanceM samples u.place).any fun n =>
            decide (a ≤ n.1.s ∧ n.1.s ≤ b)
        distanceM := polylineLength distanceM geometry }
  else none

end Clip

section Clear

variable [FloorRing K] (distanceM : LatLon K → LatLon K → K)

/-- **`clipArtifact`.** -/
def clipArtifact (artifact : RouteAlternative K) (anchors : List (Anchor K)) :
    Option (RouteAlternative K) :=
  match artifact.geometry with
  | [] => none
  | [_] => none
  | p :: q :: cs =>
    let centers := anchors ++ artifact.ends.map LatLon.anchor
    let isClear := fun x : LatLon K => clearOf distanceM x.anchor centers
    let samples := samplesFrom distanceM isClear 0 p (q :: cs)
    match bestRun samples none with
    | none => none
    | some best => cutTo distanceM isClear artifact samples best.1 best.2

omit [FloorRing K] in
theorem mem_cutSegments {isClear : LatLon K → Bool} {a b : K} {cutA cutB : Coord K} {start : K}
    {segs : List (Segment K)} {seg : Segment K}
    (h : seg ∈ cutSegments distanceM isClear a b cutA cutB start segs) {c : Coord K}
    (hc : c ∈ seg.coordinates) : isClear (ll c) = true := by
  induction segs generalizing start with
  | nil => exact absurd h List.not_mem_nil
  | cons s segs ih =>
    unfold cutSegments at h
    simp only at h
    split at h
    · exact ih h
    · split at h
      · rename_i hclear
        rcases List.mem_cons.mp h with rfl | h
        · exact List.all_eq_true.mp hclear c hc
        · exact ih h
      · exact ih h

omit [FloorRing K] in
/-- Everything a cut keeps is clear. -/
theorem cutTo_clear {isClear : LatLon K → Bool} {artifact clipped : RouteAlternative K}
    {samples : List (Sample K)} {start last : Sample K}
    (h : cutTo distanceM isClear artifact samples start last = some clipped) :
    ∀ x ∈ clipped.places, isClear x = true := by
  unfold cutTo at h
  simp only at h
  split at h
  · rename_i hgeometry
    obtain rfl := Option.some.inj h
    intro x hx
    unfold RouteAlternative.places at hx
    simp only [List.mem_append] at hx
    rcases hx with ((hx | hx) | hx) | hx
    · obtain ⟨c, hc, rfl⟩ := List.mem_map.mp hx
      exact List.all_eq_true.mp hgeometry c hc
    · obtain ⟨seg, hseg, hx⟩ := List.mem_flatMap.mp hx
      obtain ⟨c, hc, rfl⟩ := List.mem_map.mp hx
      exact mem_cutSegments distanceM hseg hc
    · obtain ⟨m, hm, rfl⟩ := List.mem_map.mp hx
      obtain ⟨m', hm', rfl⟩ := List.mem_map.mp hm
      exact (Bool.and_eq_true_iff.mp (List.mem_filter.mp hm').2).2
    · obtain ⟨u, hu, rfl⟩ := List.mem_map.mp hx
      exact (Bool.and_eq_true_iff.mp (List.mem_filter.mp hu).2).1
  · exact absurd h (by simp)

/-- **No clipped artifact leaks an end.** Every coordinate of its geometry, segments, maneuvers and
unsafe points is clear of every anchor and of the unclipped artifact's two ends. -/
theorem clipArtifact_clear {artifact clipped : RouteAlternative K} {anchors : List (Anchor K)}
    (h : clipArtifact distanceM artifact anchors = some clipped) :
    ∀ x ∈ clipped.places,
      (∀ a ∈ anchors, trimM ≤ separationM distanceM x.anchor a) ∧
      ∀ e ∈ artifact.ends, trimM ≤ separationM distanceM x.anchor e.anchor := by
  unfold clipArtifact at h
  split at h
  · exact absurd h (by simp)
  · exact absurd h (by simp)
  · simp only at h
    split at h
    · exact absurd h (by simp)
    · intro x hx
      have hclear := (clearOf_eq_true distanceM).mp (cutTo_clear distanceM h x hx)
      refine ⟨fun a ha => hclear a (List.mem_append_left _ ha), fun e he => ?_⟩
      exact hclear _ (List.mem_append_right _ (List.mem_map_of_mem he))

end Clear

end RoutePlanner.Recorder
