import Mathlib.Algebra.Order.Field.Rat
import RoutePlanner.Lib.Along
import RoutePlanner.Lib.FirstSeen

/-!
# `web/lib/useRouteProgress.ts` and `routeProgress.ts`: alerts along a route

The hook places every fix and every unsafe point on the followed route by its coordinate, raises the
unsafe points up to `ALERT_LOOKAHEAD_M` ahead, and remembers those that it raised by kind, type and
place. `nearestPointOnLine` and the formula of `haversineM` are parameters; a number is one of an
ordered field.

* `alertsRight_iff`: on a ride along a route every unsafe point is raised once, on the pass in which
  its own maneuver comes within the lookahead, just when no two unsafe points have the same type and
  the same place on the route, and every point is placed on the pass on which the ride meets it.
* `alertsRight_of_once`: so on a route that never comes back to a coordinate of the ride.
* `thereAndBack_silent`: on a street driven there and back the second crossing is never raised.

What one fix raises is `onFix_alerts`; the log of a ride is what is new of all that comes into the
lookahead (`alertLog_eq`).
-/

namespace RoutePlanner.Web.RouteProgress

open RoutePlanner.Lib

/-! ## `types.ts` -/

/-- `RouteKind`. -/
inductive RouteKind where
  | fast
  | balanced
  | safe
  deriving DecidableEq

/-- `ManeuverType`. -/
inductive ManeuverType where
  | left
  | right
  | uturn
  deriving DecidableEq

section

variable (P K : Type)

/-- `LineString`; `lineString` takes two positions or more. -/
structure LineString where
  coordinates : List P
  positions : 2 ≤ coordinates.length

/-- `Maneuver`. -/
structure Maneuver where
  type : ManeuverType
  angleDeg : K
  offsetM : K
  position : P

/-- `UnsafePointLike`. -/
structure UnsafePointLike where
  position : P
  type : String

/-- What is read of a `RouteAlternative`, and which object it is. -/
structure RouteAlternative where
  object : ℕ
  kind : RouteKind
  geometry : LineString P
  distanceM : K
  etaS : K
  maneuvers : List (Maneuver P K)
  unsafePoints : List (UnsafePointLike P)

/-- What `nearestPointOnLine` returns: a position, its distance along the line and that from the
point. -/
structure NearestPoint where
  coordinates : P
  location : Option K
  dist : Option K

/-! ## `routeProgress.ts` -/

/-- `ProjectedPoint`. -/
structure ProjectedPoint where
  snapped : P
  offsetM : K
  offRouteM : K

/-- `ProjectedUnsafePoint`, and which object of the list it is. -/
structure ProjectedUnsafePoint where
  object : ℕ
  point : UnsafePointLike P
  offsetM : K

/-- `RouteProgressState`. -/
structure RouteProgressState where
  offsetM : K
  offRouteM : K
  offRoute : Bool
  remainingM : K
  remainingS : K
  nextManeuver : Option (Maneuver P K)
  alerts : List (ProjectedUnsafePoint P K)

/-- The key of an alert. Kind and place have no colon, so that the text tells the parts apart. -/
abbrev AlertKey := RouteKind × String × K

/-- The hook: its state and its refs. A set is a list of its members. -/
structure Hook where
  state : Option (RouteProgressState P K)
  offRouteStreakRef : ℕ
  firedRef : List (AlertKey K)
  routeRef : Option ℕ
  startTsRef : ℤ

/-- What the hook is passed with a position, and the time. -/
structure Fix where
  position : P
  accuracy : Option K
  now : ℤ

end

section

variable {P K : Type} [Field K] [LinearOrder K]

/-- `OFF_ROUTE_THRESHOLD_M`. -/
def offRouteThresholdM : K := ((35 : ℕ) : K)

/-- `OFF_ROUTE_HYSTERESIS_FIXES`. -/
def offRouteHysteresisFixes : ℕ := 3

/-- `MAX_ACCURACY_M`. -/
def maxAccuracyM : K := ((30 : ℕ) : K)

/-- `ALERT_LOOKAHEAD_M`. -/
def alertLookaheadM : K := ((150 : ℕ) : K)

/-- `ENDPOINT_GRACE_M`. -/
def endpointGraceM : K := ((30 : ℕ) : K)

/-- `START_GRACE_MS`. -/
def startGraceMs : ℤ := 15000

section

variable (nearestPointOnLine : LineString P → P → NearestPoint P K)

/-- `projectOnRoute`. -/
def projectOnRoute (coordinates : LineString P) (pos : P) : ProjectedPoint P K where
  snapped := (nearestPointOnLine coordinates pos).coordinates
  offsetM := (nearestPointOnLine coordinates pos).location.getD 0
  offRouteM := (nearestPointOnLine coordinates pos).dist.getD 0

/-- `projectUnsafePoints`. -/
def projectUnsafePoints (unsafePoints : List (UnsafePointLike P))
    (routeCoordinates : LineString P) : List (ProjectedUnsafePoint P K) :=
  unsafePoints.zipIdx.map fun p =>
    ⟨p.2, p.1, (projectOnRoute nearestPointOnLine routeCoordinates p.1.position).offsetM⟩

end

/-- `endpointDistances`: `startM` and `endM`; `none` is `Infinity`. -/
def endpointDistances (haversineM : P → P → K) (coordinates : List P) (pos : P) :
    Option K × Option K :=
  (coordinates.head?.map (haversineM · pos), coordinates.getLast?.map (haversineM · pos))

/-- `remaining`: `remainingM` and `remainingS`. -/
def remaining (distanceM etaS offsetM : K) : K × K :=
  let remainingM := max 0 (distanceM - offsetM)
  (remainingM, if 0 < distanceM then etaS * remainingM / distanceM else 0)

/-- `nextManeuver`. -/
def nextManeuver (maneuvers : List (Maneuver P K)) (offsetM : K) : Option (Maneuver P K) :=
  maneuvers.foldl (fun best m =>
    if offsetM ≤ m.offsetM then
      match best with
      | none => some m
      | some b => if m.offsetM < b.offsetM then some m else best
    else best) none

/-- `alertsAhead`. -/
def alertsAhead (projected : List (ProjectedUnsafePoint P K)) (offsetM lookaheadM : K) :
    List (ProjectedUnsafePoint P K) :=
  projected.filter fun p => offsetM ≤ p.offsetM ∧ p.offsetM ≤ offsetM + lookaheadM

/-! ## `useRouteProgress.ts` -/

/-- The key that an alert is remembered by. -/
def alertKey (kind : RouteKind) (a : ProjectedUnsafePoint P K) : AlertKey K :=
  (kind, a.point.type, a.offsetM)

namespace Hook

/-- The hook when it is first rendered. -/
def mounted : Hook P K where
  state := none
  offRouteStreakRef := 0
  firedRef := []
  routeRef := none
  startTsRef := 0

/-- The effect that starts over when the route is another object. -/
def resetEffect (route : Option (RouteAlternative P K)) (now : ℤ) (h : Hook P K) : Hook P K :=
  if h.routeRef = route.map RouteAlternative.object then h
  else
    { state := none
      offRouteStreakRef := 0
      firedRef := []
      routeRef := route.map RouteAlternative.object
      startTsRef := now }

variable (nearestPointOnLine : LineString P → P → NearestPoint P K) (haversineM : P → P → K)

/-- The effect that makes the state of a position. -/
def progressEffect (route : Option (RouteAlternative P K)) (position : Option P)
    (accuracy : Option K) (now : ℤ) (h : Hook P K) : Hook P K :=
  match route, position with
  | some route, some position =>
    let projected := projectOnRoute nearestPointOnLine route.geometry position
    let left := remaining route.distanceM route.etaS projected.offsetM
    let noisy := accuracy.any fun a => maxAccuracyM < a
    let ends := endpointDistances haversineM route.geometry.coordinates position
    let nearEndpoint :=
      ends.1.any (fun d => d < endpointGraceM) || ends.2.any (fun d => d < endpointGraceM)
    let withinStartGrace := decide (now - h.startTsRef < startGraceMs)
    let streak :=
      if noisy || nearEndpoint || withinStartGrace then 0
      else if offRouteThresholdM < projected.offRouteM then h.offRouteStreakRef + 1
      else 0
    let fired := passNew (alertKey route.kind) h.firedRef
      (alertsAhead (projectUnsafePoints nearestPointOnLine route.unsafePoints route.geometry)
        projected.offsetM alertLookaheadM)
    { h with
      offRouteStreakRef := streak
      firedRef := fired.2
      state := some
        { offsetM := projected.offsetM
          offRouteM := projected.offRouteM
          offRoute := decide (offRouteHysteresisFixes ≤ streak)
          remainingM := left.1
          remainingS := left.2
          nextManeuver := nextManeuver route.maneuvers projected.offsetM
          alerts := fired.1 } }
  | _, _ => { h with state := none }

/-- A render with a new position, and its effects. -/
def onFix (route : RouteAlternative P K) (h : Hook P K) (f : Fix P K) : Hook P K :=
  (h.resetEffect (some route) f.now).progressEffect nearestPointOnLine haversineM (some route)
    (some f.position) f.accuracy f.now

/-- The alerts of the state. -/
def alerts (h : Hook P K) : List (ProjectedUnsafePoint P K) :=
  (h.state.map RouteProgressState.alerts).getD []

/-- The alerts of all states that the fixes make, each with the number of its fix, of which the
first is `k`. -/
def alertLog (route : RouteAlternative P K) (h : Hook P K) (k : ℕ) :
    List (Fix P K) → List (ℕ × ProjectedUnsafePoint P K)
  | [] => []
  | f :: fs =>
    (h.onFix nearestPointOnLine haversineM route f).alerts.map (Prod.mk k) ++
      alertLog route (h.onFix nearestPointOnLine haversineM route f) (k + 1) fs

end Hook

/-! ## Rides -/

/-- A ride along a route, from its start to its end: its fixes, the place on the way where each is
made, and the place where each unsafe point is met. -/
structure Ride (lerp : P → P → K → P) (dist : P → P → K) (route : RouteAlternative P K) where
  fixes : List (Fix P K)
  places : List K
  occurrences : List K
  fixes_onLine : List.Forall₂
    (fun f u => OnLine lerp dist 0 route.geometry.coordinates u f.position) fixes places
  points_onLine : List.Forall₂
    (fun p w => OnLine lerp dist 0 route.geometry.coordinates w p.position) route.unsafePoints
    occurrences
  starts : places.head? = some 0
  steps : places.IsChain fun u v => u ≤ v ∧ v < u + alertLookaheadM
  ends : places.getLast? = some (lineEnd dist 0 route.geometry.coordinates)

variable (nearestPointOnLine : LineString P → P → NearestPoint P K) (haversineM : P → P → K)
  (route : RouteAlternative P K)

/-- The place on the route that a coordinate is given. -/
def placeOf (pos : P) : K := (projectOnRoute nearestPointOnLine route.geometry pos).offsetM

/-- At the fix the point is within the lookahead, as the hook has it. -/
def Ahead (f : Fix P K) (p : UnsafePointLike P) : Prop :=
  placeOf nearestPointOnLine route f.position ≤ placeOf nearestPointOnLine route p.position ∧
    placeOf nearestPointOnLine route p.position ≤
      placeOf nearestPointOnLine route f.position + alertLookaheadM

/-- No two unsafe points have the same type and the same place. -/
def KeysApart : Prop :=
  ∀ (i j : ℕ) (p q : UnsafePointLike P), route.unsafePoints[i]? = some p →
    route.unsafePoints[j]? = some q → p.type = q.type →
    placeOf nearestPointOnLine route p.position = placeOf nearestPointOnLine route q.position →
    i = j

variable {lerp : P → P → K → P} {dist : P → P → K} {route}

/-- Every point is first ahead, as the hook has it, when the traveler comes to its occurrence. -/
def OwnPass (ride : Ride lerp dist route) : Prop :=
  ∀ (i : ℕ) (p : UnsafePointLike P) (w : K), route.unsafePoints[i]? = some p →
    ride.occurrences[i]? = some w →
    ∃ (k : ℕ) (f : Fix P K) (u : K), ride.fixes[k]? = some f ∧ ride.places[k]? = some u ∧
      Ahead nearestPointOnLine route f p ∧
      (∀ k' < k, ∀ f', ride.fixes[k']? = some f' → ¬Ahead nearestPointOnLine route f' p) ∧
      u ≤ w ∧ w ≤ u + alertLookaheadM

/-- Every unsafe point is raised by one fix, and once, while the traveler is within the lookahead
before its occurrence. -/
def AlertsRight (h : Hook P K) (ride : Ride lerp dist route) : Prop :=
  ∀ i w, ride.occurrences[i]? = some w →
    ∃ k u, ride.places[k]? = some u ∧ u ≤ w ∧ w ≤ u + alertLookaheadM ∧
      ((h.alertLog nearestPointOnLine haversineM route 0 ride.fixes).filter
        fun e => e.2.object = i).map Prod.fst = [k]

/-! ## What the fixes raise -/

/-- What is ahead at each fix, with the number of the fix. -/
def comings (route : RouteAlternative P K) (k : ℕ) :
    List (Fix P K) → List (ℕ × ProjectedUnsafePoint P K)
  | [] => []
  | f :: fs =>
    (alertsAhead (projectUnsafePoints nearestPointOnLine route.unsafePoints route.geometry)
      (placeOf nearestPointOnLine route f.position) alertLookaheadM).map (Prod.mk k) ++
      comings route (k + 1) fs

variable {nearestPointOnLine haversineM} {h : Hook P K} {f : Fix P K} {fs : List (Fix P K)}

omit [Field K] [LinearOrder K] in
theorem Hook.resetEffect_of_same {now : ℤ} (hroute : h.routeRef = some route.object) :
    h.resetEffect (some route) now = h :=
  if_pos hroute

theorem Hook.onFix_alerts (hroute : h.routeRef = some route.object) :
    (h.onFix nearestPointOnLine haversineM route f).alerts =
      (passNew (alertKey route.kind) h.firedRef
        (alertsAhead (projectUnsafePoints nearestPointOnLine route.unsafePoints route.geometry)
          (placeOf nearestPointOnLine route f.position) alertLookaheadM)).1 := by
  rw [onFix, resetEffect_of_same hroute]
  rfl

theorem Hook.onFix_firedRef (hroute : h.routeRef = some route.object) :
    (h.onFix nearestPointOnLine haversineM route f).firedRef =
      (passNew (alertKey route.kind) h.firedRef
        (alertsAhead (projectUnsafePoints nearestPointOnLine route.unsafePoints route.geometry)
          (placeOf nearestPointOnLine route f.position) alertLookaheadM)).2 := by
  rw [onFix, resetEffect_of_same hroute]
  rfl

theorem Hook.onFix_routeRef (hroute : h.routeRef = some route.object) :
    (h.onFix nearestPointOnLine haversineM route f).routeRef = some route.object := by
  rw [onFix, resetEffect_of_same hroute]
  exact hroute

variable (nearestPointOnLine haversineM) in
/-- A hook that followed another route forgets what it raised. -/
theorem Hook.onFix_of_other (f : Fix P K) (hroute : h.routeRef ≠ some route.object) :
    h.onFix nearestPointOnLine haversineM route f =
      (h.resetEffect (some route) f.now).onFix nearestPointOnLine haversineM route f ∧
      (h.resetEffect (some route) f.now).routeRef = some route.object ∧
      (h.resetEffect (some route) f.now).firedRef = [] := by
  have hreset : h.resetEffect (some route) f.now =
      ⟨none, 0, [], some route.object, f.now⟩ := if_neg hroute
  rw [onFix, onFix, hreset, resetEffect_of_same rfl]
  exact ⟨rfl, rfl, rfl⟩

theorem Hook.alertLog_eq_of_same {k : ℕ} (hroute : h.routeRef = some route.object) :
    h.alertLog nearestPointOnLine haversineM route k fs =
      (passNew (alertKey route.kind ∘ Prod.snd) h.firedRef
        (comings nearestPointOnLine route k fs)).1 := by
  induction fs generalizing h k with
  | nil => rfl
  | cons f fs ih =>
    rw [alertLog, comings, passNew_append, passNew_map, ih (onFix_routeRef hroute),
      onFix_alerts hroute, onFix_firedRef hroute]
    rfl

/-- **The log of a ride** is what is new of all that comes into the lookahead. -/
theorem Hook.alertLog_eq {k : ℕ} (hroute : h.routeRef ≠ some route.object) :
    h.alertLog nearestPointOnLine haversineM route k fs =
      (passNew (alertKey route.kind ∘ Prod.snd) [] (comings nearestPointOnLine route k fs)).1 := by
  cases fs with
  | nil => rfl
  | cons f fs =>
    obtain ⟨hfix, hsame, hfired⟩ := onFix_of_other nearestPointOnLine haversineM f hroute
    rw [alertLog, hfix, ← alertLog, alertLog_eq_of_same hsame, hfired]

/-! ## What is ahead -/

omit [LinearOrder K] in
theorem mem_projectUnsafePoints {a : ProjectedUnsafePoint P K} :
    a ∈ projectUnsafePoints nearestPointOnLine route.unsafePoints route.geometry ↔
      route.unsafePoints[a.object]? = some a.point ∧
        a.offsetM = placeOf nearestPointOnLine route a.point.position := by
  constructor
  · intro ha
    obtain ⟨⟨p, i⟩, hp, rfl⟩ := List.mem_map.mp ha
    exact ⟨List.mem_zipIdx_iff_getElem?.mp hp, rfl⟩
  · rintro ⟨hpoint, hoffset⟩
    refine List.mem_map.mpr ⟨(a.point, a.object), List.mem_zipIdx_iff_getElem?.mpr hpoint, ?_⟩
    obtain ⟨i, p, x⟩ := a
    exact congrArg (ProjectedUnsafePoint.mk i p) hoffset.symm

/-- The projection of an unsafe point. -/
def projected (nearestPointOnLine : LineString P → P → NearestPoint P K)
    (route : RouteAlternative P K) (i : ℕ) (p : UnsafePointLike P) : ProjectedUnsafePoint P K :=
  ⟨i, p, placeOf nearestPointOnLine route p.position⟩

theorem mem_alertsAhead {a : ProjectedUnsafePoint P K} :
    a ∈ alertsAhead (projectUnsafePoints nearestPointOnLine route.unsafePoints route.geometry)
        (placeOf nearestPointOnLine route f.position) alertLookaheadM ↔
      ∃ i p, route.unsafePoints[i]? = some p ∧ a = projected nearestPointOnLine route i p ∧
        Ahead nearestPointOnLine route f p := by
  rw [alertsAhead, List.mem_filter, decide_eq_true_iff, mem_projectUnsafePoints]
  constructor
  · rintro ⟨⟨hpoint, hoffset⟩, hahead⟩
    refine ⟨a.object, a.point, hpoint, ?_, ?_⟩
    · rw [projected, ← hoffset]
    · rwa [hoffset] at hahead
  · rintro ⟨i, p, hpoint, rfl, hahead⟩
    exact ⟨⟨hpoint, rfl⟩, hahead⟩

theorem mem_comings {k : ℕ} {e : ℕ × ProjectedUnsafePoint P K} :
    e ∈ comings nearestPointOnLine route k fs ↔
      ∃ n f i p, fs[n]? = some f ∧ route.unsafePoints[i]? = some p ∧
        e = (k + n, projected nearestPointOnLine route i p) ∧
        Ahead nearestPointOnLine route f p := by
  induction fs generalizing k with
  | nil => simp [comings]
  | cons f fs ih =>
    rw [comings, List.mem_append, List.mem_map, ih]
    constructor
    · rintro (⟨a, ha, rfl⟩ | ⟨n, f', i, p, hf, hp, rfl, hahead⟩)
      · obtain ⟨i, p, hp, rfl, hahead⟩ := mem_alertsAhead.mp ha
        exact ⟨0, f, i, p, rfl, hp, rfl, hahead⟩
      · exact ⟨n + 1, f', i, p, hf, hp, by rw [Nat.add_right_comm, Nat.add_assoc], hahead⟩
    · rintro ⟨n, f', i, p, hf, hp, rfl, hahead⟩
      cases n with
      | zero =>
        obtain rfl := Option.some.inj hf
        exact Or.inl ⟨_, mem_alertsAhead.mpr ⟨i, p, hp, rfl, hahead⟩, rfl⟩
      | succ n =>
        exact Or.inr ⟨n, f', i, p, hf, hp, by rw [Nat.add_right_comm, Nat.add_assoc], hahead⟩

/-- Earlier: at an earlier fix, or further up in the list of unsafe points. -/
def Earlier (d e : ℕ × ProjectedUnsafePoint P K) : Prop :=
  d.1 < e.1 ∨ d.1 = e.1 ∧ d.2.object < e.2.object

omit [Field K] [LinearOrder K] in
theorem Earlier.asymm (d e : ℕ × ProjectedUnsafePoint P K) (h : Earlier d e) : ¬Earlier e d := by
  unfold Earlier at *
  omega

theorem comings_sorted (route : RouteAlternative P K) (k : ℕ) (fs : List (Fix P K)) :
    (comings nearestPointOnLine route k fs).Pairwise Earlier := by
  induction fs generalizing k with
  | nil => exact List.Pairwise.nil
  | cons f fs ih =>
    refine List.pairwise_append.mpr ⟨?_, ih (k + 1), fun d hd e he => ?_⟩
    · have hobjects : (projectUnsafePoints nearestPointOnLine route.unsafePoints
          route.geometry).Pairwise fun a b => a.object < b.object :=
        List.pairwise_map.mpr (pairwise_zipIdx _)
      refine List.pairwise_map.mpr ((hobjects.filter _).imp fun hab => Or.inr ⟨rfl, hab⟩)
    · obtain ⟨a, -, rfl⟩ := List.mem_map.mp hd
      obtain ⟨n, -, -, -, -, -, rfl, -⟩ := mem_comings.mp he
      exact Or.inl (by simp only; omega)

/-! ## The first fix that raises a point -/

/-- **A point is raised** by the first fix that it is ahead of, if no point further up has its
key. -/
theorem mem_alertLog (hroute : h.routeRef ≠ some route.object) {k i : ℕ} {p : UnsafePointLike P}
    (hp : route.unsafePoints[i]? = some p) :
    (k, projected nearestPointOnLine route i p) ∈
        h.alertLog nearestPointOnLine haversineM route 0 fs ↔
      (∃ f, fs[k]? = some f ∧ Ahead nearestPointOnLine route f p) ∧
      (∀ k' < k, ∀ f', fs[k']? = some f' → ¬Ahead nearestPointOnLine route f' p) ∧
      ∀ j < i, ∀ q, route.unsafePoints[j]? = some q → q.type = p.type →
        placeOf nearestPointOnLine route q.position ≠
          placeOf nearestPointOnLine route p.position := by
  rw [Hook.alertLog_eq hroute,
    mem_passNew_of_sorted Earlier.asymm (comings_sorted route 0 fs), mem_comings]
  constructor
  · rintro ⟨⟨n, f, i', p', hf, hp', heq, hahead⟩, -, hfirst⟩
    obtain ⟨hk, hproj⟩ := Prod.mk.inj heq
    obtain ⟨rfl, rfl, -⟩ := ProjectedUnsafePoint.mk.inj hproj
    rw [Nat.zero_add] at hk
    subst hk
    refine ⟨⟨f, hf, hahead⟩, fun k' hk' f' hf' hahead' => ?_, fun j hj q hq htype hplace => ?_⟩
    · refine hfirst (k', projected nearestPointOnLine route i p) (mem_comings.mpr
        ⟨k', f', i, p, hf', hp, by rw [Nat.zero_add], hahead'⟩) (Or.inl hk') rfl
    · have hq' : Ahead nearestPointOnLine route f q := by rwa [Ahead, hplace]
      refine hfirst (k, projected nearestPointOnLine route j q) (mem_comings.mpr
        ⟨k, f, j, q, hf, hq, by rw [Nat.zero_add], hq'⟩) (Or.inr ⟨rfl, hj⟩) ?_
      simp only [Function.comp, alertKey, projected, htype, hplace]
  · rintro ⟨⟨f, hf, hahead⟩, hbefore, hup⟩
    refine ⟨⟨k, f, i, p, hf, hp, by rw [Nat.zero_add], hahead⟩, List.not_mem_nil, ?_⟩
    intro d hd hearlier hkey
    obtain ⟨n, f', j, q, hf', hq, rfl, hahead'⟩ := mem_comings.mp hd
    rw [Nat.zero_add] at hearlier
    simp only [Function.comp, alertKey, projected, Prod.mk.injEq] at hkey
    obtain ⟨-, htype, hplace⟩ := hkey
    rcases hearlier with hn | ⟨-, hj⟩
    · refine hbefore n hn f' hf' ?_
      rwa [Ahead, ← hplace]
    · exact hup j hj q hq htype hplace

/-- What the log has of a point is one alert at most. -/
theorem filter_alertLog (hroute : h.routeRef ≠ some route.object) {k i : ℕ}
    {p : UnsafePointLike P} (hp : route.unsafePoints[i]? = some p) :
    ((h.alertLog nearestPointOnLine haversineM route 0 fs).filter
        fun e => e.2.object = i).map Prod.fst = [k] ↔
      (k, projected nearestPointOnLine route i p) ∈
        h.alertLog nearestPointOnLine haversineM route 0 fs := by
  have hproj : ∀ e ∈ comings nearestPointOnLine route 0 fs, e.2.object = i →
      e.2 = projected nearestPointOnLine route i p := by
    intro e he hobject
    obtain ⟨n, f, j, q, -, hq, rfl, -⟩ := mem_comings.mp he
    obtain rfl : j = i := hobject
    rw [Option.some.inj (hp.symm.trans hq)]
  rw [Hook.alertLog_eq hroute]
  constructor
  · intro hone
    have hmem : k ∈ [k] := List.mem_singleton_self k
    rw [← hone] at hmem
    obtain ⟨e, he, rfl⟩ := List.mem_map.mp hmem
    obtain ⟨hlog, hobject⟩ := List.mem_filter.mp he
    obtain ⟨l, r, hsplit, -⟩ := mem_passNew.mp hlog
    have hcoming : e ∈ comings nearestPointOnLine route 0 fs := by
      rw [hsplit]
      exact List.mem_append_right l List.mem_cons_self
    rwa [← hproj e hcoming (of_decide_eq_true hobject)]
  · intro hlog
    rw [filter_passNew (fun a ha b hb hpa hpb => ?_) hlog (decide_eq_true rfl)]
    · rfl
    · rw [Function.comp, Function.comp, hproj a ha (of_decide_eq_true hpa),
        hproj b hb (of_decide_eq_true hpb)]

/-! ## When every point is raised on its own pass -/

theorem Ride.getElem?_occurrences (ride : Ride lerp dist route) (i : ℕ) :
    (∃ w, ride.occurrences[i]? = some w) ↔ ∃ p, route.unsafePoints[i]? = some p := by
  rw [← Option.isSome_iff_exists, ← Option.isSome_iff_exists, isSome_getElem?, isSome_getElem?,
    ride.points_onLine.length_eq]

/-- Points that are all raised share no key. -/
theorem keysApart_of_alertsRight (hroute : h.routeRef ≠ some route.object)
    {ride : Ride lerp dist route} (hright : AlertsRight nearestPointOnLine haversineM h ride) :
    KeysApart nearestPointOnLine route := by
  have hapart : ∀ (j i : ℕ) (q p : UnsafePointLike P), j < i →
      route.unsafePoints[j]? = some q → route.unsafePoints[i]? = some p → q.type = p.type →
      placeOf nearestPointOnLine route q.position ≠
        placeOf nearestPointOnLine route p.position := by
    intro j i q p hj hq hp htype
    obtain ⟨w, hw⟩ := (ride.getElem?_occurrences i).mpr ⟨p, hp⟩
    obtain ⟨k, -, -, -, -, hlog⟩ := hright i w hw
    obtain ⟨-, -, hup⟩ := (mem_alertLog hroute hp).mp ((filter_alertLog hroute hp).mp hlog)
    exact hup j hj q hq htype
  intro i j p q hp hq htype hplace
  rcases Nat.lt_trichotomy i j with hij | hij | hij
  · exact absurd hplace (hapart i j p q hij hp hq htype)
  · exact hij
  · exact absurd hplace.symm (hapart j i q p hij hq hp htype.symm)

theorem ownPass_of_alertsRight (hroute : h.routeRef ≠ some route.object)
    {ride : Ride lerp dist route} (hright : AlertsRight nearestPointOnLine haversineM h ride) :
    OwnPass nearestPointOnLine ride := by
  intro i p w hp hw
  obtain ⟨k, u, hu, huw, hwu, hlog⟩ := hright i w hw
  obtain ⟨⟨f, hf, hahead⟩, hbefore, -⟩ :=
    (mem_alertLog hroute hp).mp ((filter_alertLog hroute hp).mp hlog)
  exact ⟨k, f, u, hf, hu, hahead, hbefore, huw, hwu⟩

theorem alertsRight_of_ownPass (hroute : h.routeRef ≠ some route.object)
    {ride : Ride lerp dist route} (hkeys : KeysApart nearestPointOnLine route)
    (hown : OwnPass nearestPointOnLine ride) :
    AlertsRight nearestPointOnLine haversineM h ride := by
  intro i w hw
  obtain ⟨p, hp⟩ := (ride.getElem?_occurrences i).mp ⟨w, hw⟩
  obtain ⟨k, f, u, hf, hu, hahead, hbefore, huw, hwu⟩ := hown i p w hp hw
  refine ⟨k, u, hu, huw, hwu, (filter_alertLog hroute hp).mpr ((mem_alertLog hroute hp).mpr
    ⟨⟨f, hf, hahead⟩, hbefore, fun j hj q hq htype hplace => ?_⟩)⟩
  exact hj.ne (hkeys j i q p hq hp htype hplace)

/-! ## Routes that come by once -/

/-- The library, on a line: it answers a coordinate with a nearest place. -/
structure Nearest (lerp : P → P → K → P) (dist : P → P → K)
    (nearestPointOnLine : LineString P → P → NearestPoint P K) (line : LineString P) : Prop where
  location : ∀ pos, ∃ x, (nearestPointOnLine line pos).location = some x ∧
    OnLine lerp dist 0 line.coordinates x (nearestPointOnLine line pos).coordinates
  distance : ∀ pos, (nearestPointOnLine line pos).dist =
    some (dist pos (nearestPointOnLine line pos).coordinates)
  nearest : ∀ pos y q, OnLine lerp dist 0 line.coordinates y q →
    dist pos (nearestPointOnLine line pos).coordinates ≤ dist pos q

/-- The line has the coordinate at one place only. -/
def Once (lerp : P → P → K → P) (dist : P → P → K) (line : LineString P) (pos : P) : Prop :=
  ∀ x y, OnLine lerp dist 0 line.coordinates x pos → OnLine lerp dist 0 line.coordinates y pos →
    x = y

/-- What is on the line once is placed where it is. -/
theorem placeOf_of_once (hlib : Nearest lerp dist nearestPointOnLine route.geometry)
    (hself : ∀ p, dist p p = 0) (hapart : ∀ p q, dist p q ≤ 0 → p = q) {pos : P} {x : K}
    (honce : Once lerp dist route.geometry pos)
    (hx : OnLine lerp dist 0 route.geometry.coordinates x pos) :
    placeOf nearestPointOnLine route pos = x := by
  obtain ⟨y, hlocation, hy⟩ := hlib.location pos
  have hnear := hlib.nearest pos x pos hx
  rw [hself] at hnear
  rw [← hapart _ _ hnear] at hy
  rw [placeOf, projectOnRoute, hlocation]
  exact honce y x hy hx

/-- **Steps shorter than the lookahead** leave out no place: it is first within the lookahead of a
step that is not past it. -/
theorem exists_first_within {places : List K} {w l : K} (hstart : ∀ u ∈ places.head?, u ≤ w)
    (hsteps : places.IsChain fun u v => u ≤ v ∧ v < u + l)
    (hend : ∃ u ∈ places.getLast?, w ≤ u + l) :
    ∃ (k : ℕ) (u : K), places[k]? = some u ∧ u ≤ w ∧ w ≤ u + l ∧
      ∀ k' < k, ∀ u', places[k']? = some u' → u' + l < w := by
  induction places with
  | nil =>
    obtain ⟨u, hu, -⟩ := hend
    cases hu
  | cons a rest ih =>
    by_cases ha : w ≤ a + l
    · exact ⟨0, a, rfl, hstart a rfl, ha, fun k' hk' => absurd hk' (Nat.not_lt_zero k')⟩
    · cases rest with
      | nil =>
        obtain ⟨u, hu, hwu⟩ := hend
        obtain rfl : a = u := Option.some.inj hu
        exact absurd hwu ha
      | cons b rest =>
        obtain ⟨⟨-, hstep⟩, hrest⟩ := List.isChain_cons_cons.mp hsteps
        obtain ⟨k, u, hu, huw, hwu, hbefore⟩ := ih
          (fun v hv => Option.some.inj hv ▸ (hstep.trans (not_le.mp ha)).le) hrest
          (by rwa [List.getLast?_cons_cons] at hend)
        refine ⟨k + 1, u, hu, huw, hwu, fun k' hk' u' hu' => ?_⟩
        cases k' with
        | zero =>
          obtain rfl := Option.some.inj hu'
          exact not_le.mp ha
        | succ k' => exact hbefore k' (Nat.lt_of_succ_lt_succ hk') u' hu'

omit [Field K] [LinearOrder K] in
theorem exists_of_forall₂ {α β : Type} {R : α → β → Prop} {l : List α} {m : List β}
    (h : List.Forall₂ R l m) {i : ℕ} {b : β} (hb : m[i]? = some b) :
    ∃ a, l[i]? = some a ∧ R a b := by
  obtain ⟨hi, rfl⟩ := List.getElem?_eq_some_iff.mp hb
  have hl : i < l.length := h.length_eq ▸ hi
  exact ⟨l[i], List.getElem?_eq_getElem hl, h.get hl hi⟩

/-- What is met on the line, and lies on it once, is placed where it is met. -/
theorem placeOf_of_met (hlib : Nearest lerp dist nearestPointOnLine route.geometry)
    (hself : ∀ p, dist p p = 0) (hapart : ∀ p q, dist p q ≤ 0 → p = q) {α : Type} {pos : α → P}
    {l : List α} {places : List K}
    (hmet : List.Forall₂ (fun a x => OnLine lerp dist 0 route.geometry.coordinates x (pos a)) l
      places)
    (honce : ∀ a ∈ l, Once lerp dist route.geometry (pos a)) {i : ℕ} {a : α} {x : K}
    (ha : l[i]? = some a) (hx : places[i]? = some x) :
    placeOf nearestPointOnLine route (pos a) = x ∧
      OnLine lerp dist 0 route.geometry.coordinates x (pos a) := by
  obtain ⟨a', ha', hon⟩ := exists_of_forall₂ hmet hx
  obtain rfl := Option.some.inj (ha.symm.trans ha')
  exact ⟨placeOf_of_once hlib hself hapart (honce a (List.mem_of_getElem? ha)) hon, hon⟩

/-- On a route that comes by every coordinate of the ride once, the alerts are right as soon as no
two unsafe points have one type and one place. -/
theorem alertsRight_of_once [IsStrictOrderedRing K]
    (hlib : Nearest lerp dist nearestPointOnLine route.geometry) (hself : ∀ p, dist p p = 0)
    (hapart : ∀ p q, dist p q ≤ 0 → p = q) (hline : Proper dist route.geometry.coordinates)
    (hroute : h.routeRef ≠ some route.object) (ride : Ride lerp dist route)
    (hfixes : ∀ f ∈ ride.fixes, Once lerp dist route.geometry f.position)
    (hpoints : ∀ p ∈ route.unsafePoints, Once lerp dist route.geometry p.position)
    (hoccurrences : ∀ (i j : ℕ) (p q : UnsafePointLike P) (w : K),
      route.unsafePoints[i]? = some p → route.unsafePoints[j]? = some q → p.type = q.type →
      ride.occurrences[i]? = some w → ride.occurrences[j]? = some w → i = j) :
    AlertsRight nearestPointOnLine haversineM h ride := by
  have hpoint : ∀ (i : ℕ) (p : UnsafePointLike P) (w : K), route.unsafePoints[i]? = some p →
      ride.occurrences[i]? = some w → placeOf nearestPointOnLine route p.position = w ∧
        OnLine lerp dist 0 route.geometry.coordinates w p.position := fun i p w =>
    placeOf_of_met hlib hself hapart ride.points_onLine hpoints
  have hfix : ∀ (k : ℕ) (f : Fix P K) (u : K), ride.fixes[k]? = some f →
      ride.places[k]? = some u → placeOf nearestPointOnLine route f.position = u :=
    fun k f u hf hu => (placeOf_of_met hlib hself hapart ride.fixes_onLine hfixes hf hu).1
  refine alertsRight_of_ownPass hroute (fun i j p q hp hq htype hplace => ?_)
    (fun i p w hp hw => ?_)
  · obtain ⟨w, hw⟩ := (ride.getElem?_occurrences i).mpr ⟨p, hp⟩
    obtain ⟨w', hw'⟩ := (ride.getElem?_occurrences j).mpr ⟨q, hq⟩
    have heq : w' = w := by
      rw [← (hpoint i p w hp hw).1, ← (hpoint j q w' hq hw').1, hplace]
    exact hoccurrences i j p q w hp hq htype hw (heq ▸ hw')
  · obtain ⟨hplace, hon⟩ := hpoint i p w hp hw
    have hlookahead : (0 : K) ≤ alertLookaheadM := Nat.cast_nonneg 150
    have hstart : ∀ u ∈ ride.places.head?, u ≤ w := by
      intro u hu
      obtain rfl := Option.some.inj (ride.starts.symm.trans hu)
      exact start_le_of_onLine hline hon
    have hend : w ≤ lineEnd dist 0 route.geometry.coordinates + alertLookaheadM :=
      (le_lineEnd_of_onLine hline hon).trans (le_add_of_nonneg_right hlookahead)
    obtain ⟨k, u, hu, huw, hwu, hbefore⟩ :=
      exists_first_within hstart ride.steps ⟨_, ride.ends, hend⟩
    obtain ⟨f, hf, -⟩ := exists_of_forall₂ ride.fixes_onLine hu
    refine ⟨k, f, u, hf, hu, ?_, fun k' hk' f' hf' hahead => ?_, huw, hwu⟩
    · rw [Ahead, hplace, hfix k f u hf hu]
      exact ⟨huw, hwu⟩
    · obtain ⟨u', hu', -⟩ := exists_of_forall₂ ride.fixes_onLine.flip hf'
      rw [Ahead, hplace, hfix k' f' u' hf' hu'] at hahead
      exact not_lt.mpr hahead.2 (hbefore k' hk' u' hu')

end

/-! ## There and back -/

/-- A street of 400 m to the north, driven there and back. -/
def street : LineString (ℚ × ℚ) := ⟨[(0, 0), (0, 400), (0, 0)], by decide⟩

/-- Distance along the streets of a grid. -/
def gridM (p q : ℚ × ℚ) : ℚ := |p.1 - q.1| + |p.2 - q.2|

/-- The straight way from a point to another. -/
def straight (p q : ℚ × ℚ) (u : ℚ) : ℚ × ℚ := (p.1 + u * (q.1 - p.1), p.2 + u * (q.2 - p.2))

/-- The nearest place on the street, of two such the first. -/
def nearestOnStreet (_ : LineString (ℚ × ℚ)) (pos : ℚ × ℚ) : NearestPoint (ℚ × ℚ) ℚ where
  coordinates := (0, max 0 (min 400 pos.2))
  location := some (max 0 (min 400 pos.2))
  dist := some (gridM pos (0, max 0 (min 400 pos.2)))

theorem onLine_street_out {rest : List (ℚ × ℚ)} {y : ℚ} (h0 : 0 ≤ y) (h1 : y ≤ 400) :
    OnLine straight gridM 0 ((0, 0) :: (0, 400) :: rest) y (0, y) := by
  refine Or.inl ⟨y / 400, by linarith, by linarith, ?_, ?_⟩
  · simp [gridM]
  · simp [straight]

theorem onLine_street_back {y : ℚ} (h0 : 0 ≤ y) (h1 : y ≤ 400) :
    OnLine straight gridM 0 street.coordinates (800 - y) (0, y) := by
  refine Or.inr (Or.inl ⟨1 - y / 400, by linarith, by linarith, ?_, ?_⟩)
  · simp [gridM]
    linarith
  · simp [straight]
    linarith

theorem eq_of_onLine_street {x : ℚ} {q : ℚ × ℚ}
    (h : OnLine straight gridM 0 street.coordinates x q) : q.1 = 0 ∧ 0 ≤ q.2 ∧ q.2 ≤ 400 := by
  rcases h with ⟨u, h0, h1, -, rfl⟩ | ⟨u, h0, h1, -, rfl⟩ | ⟨-, rfl⟩
  · dsimp only [straight]
    refine ⟨by ring, by linarith, by linarith⟩
  · dsimp only [straight]
    refine ⟨by ring, by linarith, by linarith⟩
  · exact ⟨rfl, le_refl 0, by decide⟩

/-- The street, with a crossing at 200 m that is come to twice. -/
def thereAndBackRoute : RouteAlternative (ℚ × ℚ) ℚ where
  object := 0
  kind := .fast
  geometry := street
  distanceM := 800
  etaS := 80
  maneuvers := [⟨.uturn, 180, 400, (0, 400)⟩]
  unsafePoints :=
    [⟨(0, 200), "uncontrolled_crossing"⟩, ⟨(0, 200), "uncontrolled_crossing"⟩]

/-- A fix every hundred metres and ten seconds. -/
def thereAndBackFix (k : ℕ) (y : ℚ) : Fix (ℚ × ℚ) ℚ := ⟨(0, y), some 5, 10000 * k⟩

/-- The ride. -/
def thereAndBack : Ride straight gridM thereAndBackRoute where
  fixes := [thereAndBackFix 0 0, thereAndBackFix 1 100, thereAndBackFix 2 200,
    thereAndBackFix 3 300, thereAndBackFix 4 400, thereAndBackFix 5 300, thereAndBackFix 6 200,
    thereAndBackFix 7 100, thereAndBackFix 8 0]
  places := [0, 100, 200, 300, 400, 800 - 300, 800 - 200, 800 - 100, 800 - 0]
  occurrences := [200, 800 - 200]
  fixes_onLine := by
    refine .cons ?_ (.cons ?_ (.cons ?_ (.cons ?_ (.cons ?_ (.cons ?_ (.cons ?_ (.cons ?_
      (.cons ?_ .nil))))))))
    · exact onLine_street_out (by decide) (by decide)
    · exact onLine_street_out (by decide) (by decide)
    · exact onLine_street_out (by decide) (by decide)
    · exact onLine_street_out (by decide) (by decide)
    · exact onLine_street_out (by decide) (by decide)
    · exact onLine_street_back (by decide) (by decide)
    · exact onLine_street_back (by decide) (by decide)
    · exact onLine_street_back (by decide) (by decide)
    · exact onLine_street_back (by decide) (by decide)
  points_onLine := by
    refine .cons ?_ (.cons ?_ .nil)
    · exact onLine_street_out (by decide) (by decide)
    · exact onLine_street_back (by decide) (by decide)
  starts := rfl
  steps := by decide +kernel
  ends := by decide +kernel

/-- No place between `a` and `b` is nearer than the one cut off there. -/
theorem abs_sub_cut_le {a b x y : ℚ} (ha : a ≤ y) (hb : y ≤ b) :
    |x - max a (min b x)| ≤ |x - y| := by
  rcases le_total x a with hxa | hxa
  · have hcut : max a (min b x) = a := by
      rw [min_eq_right (hxa.trans (ha.trans hb)), max_eq_left hxa]
    rw [hcut, abs_of_nonpos (sub_nonpos.mpr hxa), abs_of_nonpos (sub_nonpos.mpr (hxa.trans ha))]
    linarith
  · rcases le_total b x with hbx | hbx
    · have hcut : max a (min b x) = b := by
        rw [min_eq_left hbx, max_eq_right (ha.trans hb)]
      rw [hcut, abs_of_nonneg (sub_nonneg.mpr hbx), abs_of_nonneg (sub_nonneg.mpr (hb.trans hbx))]
      linarith
    · have hcut : max a (min b x) = x := by
        rw [min_eq_right hbx, max_eq_right hxa]
      rw [hcut, sub_self, abs_zero]
      exact abs_nonneg _

theorem nearest_street : Nearest straight gridM nearestOnStreet street where
  location pos := ⟨_, rfl, onLine_street_out (le_max_left _ _)
    (max_le (by decide) (min_le_left _ _))⟩
  distance pos := rfl
  nearest pos y q h := by
    obtain ⟨hx, h0, h1⟩ := eq_of_onLine_street h
    rw [gridM, gridM, hx]
    exact add_le_add_right (abs_sub_cut_le h0 h1) _

/-! ## One way -/

/-- The street, driven to its end. -/
def oneWay : LineString (ℚ × ℚ) := ⟨[(0, 0), (0, 400)], by decide⟩

/-- The street has every place once. -/
theorem eq_of_onLine_oneWay {x : ℚ} {q : ℚ × ℚ}
    (h : OnLine straight gridM 0 oneWay.coordinates x q) :
    x = q.2 ∧ q.1 = 0 ∧ 0 ≤ q.2 ∧ q.2 ≤ 400 := by
  rcases h with ⟨u, h0, h1, rfl, rfl⟩ | ⟨rfl, rfl⟩
  · dsimp only [straight]
    refine ⟨?_, by ring, by linarith, by linarith⟩
    simp [gridM]
  · exact ⟨by simp [gridM], rfl, by decide, le_refl 400⟩

theorem once_oneWay (pos : ℚ × ℚ) : Once straight gridM oneWay pos := fun _ _ hx hy =>
  (eq_of_onLine_oneWay hx).1.trans (eq_of_onLine_oneWay hy).1.symm

theorem nearest_oneWay : Nearest straight gridM nearestOnStreet oneWay where
  location pos := ⟨_, rfl, onLine_street_out (le_max_left _ _)
    (max_le (by decide) (min_le_left _ _))⟩
  distance pos := rfl
  nearest pos y q h := by
    obtain ⟨-, hx, h0, h1⟩ := eq_of_onLine_oneWay h
    rw [gridM, gridM, hx]
    exact add_le_add_right (abs_sub_cut_le h0 h1) _

/-- The street, with crossings at 100 m and at 300 m. -/
def oneWayRoute : RouteAlternative (ℚ × ℚ) ℚ where
  object := 0
  kind := .fast
  geometry := oneWay
  distanceM := 400
  etaS := 40
  maneuvers := []
  unsafePoints :=
    [⟨(0, 100), "uncontrolled_crossing"⟩, ⟨(0, 300), "uncontrolled_crossing"⟩]

/-- The ride out. -/
def outward : Ride straight gridM oneWayRoute where
  fixes := [thereAndBackFix 0 0, thereAndBackFix 1 100, thereAndBackFix 2 200,
    thereAndBackFix 3 300, thereAndBackFix 4 400]
  places := [0, 100, 200, 300, 400]
  occurrences := [100, 300]
  fixes_onLine := by
    refine .cons ?_ (.cons ?_ (.cons ?_ (.cons ?_ (.cons ?_ .nil)))) <;>
      exact onLine_street_out (by decide) (by decide)
  points_onLine := by
    refine .cons ?_ (.cons ?_ .nil) <;> exact onLine_street_out (by decide) (by decide)
  starts := rfl
  steps := by decide +kernel
  ends := by decide +kernel

/-- On the way out both crossings are raised. -/
theorem alertsRight_outward :
    AlertsRight nearestOnStreet gridM Hook.mounted outward := by
  have hline : Proper gridM oneWayRoute.geometry.coordinates := by
    unfold Proper
    decide +kernel
  have hroute : (Hook.mounted : Hook (ℚ × ℚ) ℚ).routeRef ≠ some oneWayRoute.object := nofun
  refine alertsRight_of_once nearest_oneWay (fun p => by simp [gridM]) (fun p q hpq => ?_) hline
    hroute outward (fun f _ => once_oneWay f.position) (fun p _ => once_oneWay p.position)
    (fun i j p q w hp hq _ hi hj => ?_)
  · have hfst := abs_nonneg (p.1 - q.1)
    have hsnd := abs_nonneg (p.2 - q.2)
    unfold gridM at hpq
    refine Prod.ext (sub_eq_zero.mp (abs_eq_zero.mp ?_)) (sub_eq_zero.mp (abs_eq_zero.mp ?_))
    · linarith
    · linarith
  · -- the two occurrences are apart
    have hnodup : outward.occurrences.Nodup := by decide +kernel
    have hlt : i < outward.occurrences.length := (List.getElem?_eq_some_iff.mp hi).1
    exact (List.getElem?_inj hlt hnodup).mp (hi.trans hj.symm)

/-! ## The alerts of a ride -/

/-- **Alerts are right** just when no two points share a key and every point is first ahead on its
own pass. -/
theorem alertsRight_iff {P K : Type} [Field K] [LinearOrder K]
    {nearestPointOnLine : LineString P → P → NearestPoint P K} {haversineM : P → P → K}
    {lerp : P → P → K → P} {dist : P → P → K} {route : RouteAlternative P K} (h : Hook P K)
    (hroute : h.routeRef ≠ some route.object) (ride : Ride lerp dist route) :
    AlertsRight nearestPointOnLine haversineM h ride ↔
      KeysApart nearestPointOnLine route ∧ OwnPass nearestPointOnLine ride :=
  ⟨fun hright => ⟨keysApart_of_alertsRight hroute hright, ownPass_of_alertsRight hroute hright⟩,
    fun hcond => alertsRight_of_ownPass hroute hcond.1 hcond.2⟩

/-- `alertsRight_iff` on both rides; the condition is met on the way out. -/
theorem alertsRight_iff_thereAndBack :
    (AlertsRight nearestOnStreet gridM Hook.mounted thereAndBack ↔
      KeysApart nearestOnStreet thereAndBackRoute ∧ OwnPass nearestOnStreet thereAndBack) ∧
    AlertsRight nearestOnStreet gridM Hook.mounted outward ∧
      KeysApart nearestOnStreet oneWayRoute ∧ OwnPass nearestOnStreet outward :=
  ⟨alertsRight_iff Hook.mounted nofun thereAndBack, alertsRight_outward,
    (alertsRight_iff Hook.mounted nofun outward).mp alertsRight_outward⟩

/-- **There and back** the second crossing is never raised: the library answers both with one
place, and so they share a key. -/
theorem thereAndBack_silent : Nearest straight gridM nearestOnStreet thereAndBackRoute.geometry ∧
    ¬AlertsRight nearestOnStreet gridM Hook.mounted thereAndBack := by
  refine ⟨nearest_street, fun hright => ?_⟩
  obtain ⟨k, -, -, -, -, hlog⟩ := hright 1 _ rfl
  have hsilent : (Hook.mounted.alertLog nearestOnStreet gridM thereAndBackRoute 0
      thereAndBack.fixes).filter (fun e => e.2.object = 1) = [] := by
    rw [List.filter_eq_nil_iff]
    decide +kernel
  rw [hsilent] at hlog
  cases hlog

end RoutePlanner.Web.RouteProgress
