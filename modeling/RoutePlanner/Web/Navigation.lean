import Mathlib.Data.List.Nodup
import Mathlib.Data.Rat.Defs
import RoutePlanner.Lib.Run

/-!
# `web/lib/useNavigation.ts`: rerouting in a navigation session

The hook holds the followed route and asks for a new one when the traveler has left it. React runs
the reroute effect after a render in which one of its dependencies changed, and first the cleanup
of its last run. A route or a place is an object, equal to another when it is the same one.

An event is what makes the page render the hook, or an answer to one of its requests. A render
whose effects set state is followed by another, `settle`. What `useRouteProgress` makes of a fix is
given by the event, and so is what the planner passes.

* `reroute_applied_iff`: a response that comes while the same session follows the same route
  replaces that route just when nothing that the effect depends on changed since the request, so
  when no fix came in between.

What a commit does is `commit_cases`; `Inv` holds of every state between two events.
-/

namespace RoutePlanner.Web

open RoutePlanner.Lib

/-! ## `navigation.ts` -/

/-- `NavPhase`. -/
inductive NavPhase where
  | navigating
  | arrived
  deriving DecidableEq

/-- A `RouteProgressState`: which object it is, and the field that is read. -/
structure RouteProgressState where
  object : ℕ
  offRoute : Bool
  deriving DecidableEq

/-- `ARRIVAL_RADIUS_M`. -/
def arrivalRadiusM : ℚ := 25

/-- `hasArrived`, of a distance that may be infinite. -/
def hasArrived (distToDestM : Option ℚ) : Bool := distToDestM.any fun d => d < arrivalRadiusM

/-- `shouldReroute`. -/
def shouldReroute (phase : NavPhase) (progress : Option RouteProgressState) (rerouting : Bool) :
    Bool :=
  phase = .navigating && progress.any RouteProgressState.offRoute && !rerouting

/-! ## The hook -/

section

variable (Route LatLon : Type)

/-- The dependencies of the reroute effect. -/
structure Deps where
  followedRoute : Option Route
  progress : Option RouteProgressState
  phase : NavPhase
  position : Option LatLon
  destination : Option LatLon
  deriving DecidableEq

/-- A `/reroute` request that is in flight: its arguments, of which `route` is the one whose
preference it carries, and the `cancelled` of its closure. -/
structure Request where
  id : ℕ
  position : LatLon
  destination : LatLon
  route : Route
  cancelled : Bool
  deriving DecidableEq

/-- The hook between two events: what it is passed, its state, its refs, and what React keeps of
the reroute effect's last run. -/
structure Nav where
  initialRoute : Option Route
  destination : Option LatLon
  position : Option LatLon
  followedRoute : Option Route
  rerouteError : Option String
  arrived : Bool
  progress : Option RouteProgressState
  reroutingRef : Bool
  sessionRef : Option Route
  effect : Deps Route LatLon
  /-- The request that the effect's cleanup cancels. -/
  cleanup : Option ℕ
  inFlight : List (Request Route LatLon)
  sent : ℕ

/-- What can happen. -/
inductive Event where
  | planner (initialRoute : Option Route) (destination : Option LatLon)
  | position (position : Option LatLon)
  | progress (progress : Option RouteProgressState)
  | resolved (id : ℕ) (route : Route)
  | rejected (id : ℕ) (message : String)

end

variable {Route LatLon : Type}

namespace Nav

/-- The hook on an idle page. -/
def idle : Nav Route LatLon where
  initialRoute := none
  destination := none
  position := none
  followedRoute := none
  rerouteError := none
  arrived := false
  progress := none
  reroutingRef := false
  sessionRef := none
  effect := ⟨none, none, .navigating, none, none⟩
  cleanup := none
  inFlight := []
  sent := 0

/-- `phase`. -/
def phase (n : Nav Route LatLon) : NavPhase := if n.arrived then .arrived else .navigating

/-- The dependencies as a render sees them. -/
def deps (n : Nav Route LatLon) : Deps Route LatLon :=
  ⟨n.followedRoute, n.progress, n.phase, n.position, n.destination⟩

/-- `distToDestM`. -/
def distToDestM (distanceMeters : LatLon → LatLon → ℚ) (n : Nav Route LatLon) : Option ℚ :=
  match n.followedRoute, n.position, n.destination with
  | some _, some position, some destination => some (distanceMeters position destination)
  | _, _, _ => none

/-- The render: arrival is latched. -/
def render (distanceMeters : LatLon → LatLon → ℚ) (n : Nav Route LatLon) : Nav Route LatLon :=
  { n with arrived := n.arrived || hasArrived (n.distToDestM distanceMeters) }

/-- The cleanup of the reroute effect. -/
def cancel (n : Nav Route LatLon) : Nav Route LatLon :=
  { n with
    inFlight := n.inFlight.map fun r =>
      if n.cleanup = some r.id then { r with cancelled := true } else r
    cleanup := none }

/-- The effect that starts and stops a session. -/
def sessionEffect [DecidableEq Route] (n : Nav Route LatLon) : Nav Route LatLon :=
  if n.sessionRef = n.initialRoute then n
  else { n with
    sessionRef := n.initialRoute
    followedRoute := n.initialRoute
    arrived := false
    reroutingRef := false
    rerouteError := none }

/-- The reroute effect, on what its render saw. -/
def rerouteEffect (d : Deps Route LatLon) (n : Nav Route LatLon) : Nav Route LatLon :=
  match d.followedRoute, d.position, d.destination with
  | some route, some position, some destination =>
    if shouldReroute d.phase d.progress n.reroutingRef then
      { n with
        reroutingRef := true
        inFlight := n.inFlight ++ [⟨n.sent, position, destination, route, false⟩]
        cleanup := some n.sent
        sent := n.sent + 1
        effect := d }
    else { n with effect := d }
  | _, _, _ => { n with effect := d }

variable [DecidableEq Route] [DecidableEq LatLon] (distanceMeters : LatLon → LatLon → ℚ)

/-- A render and its effects. The cleanup of an effect comes before all effects. -/
def commit (n : Nav Route LatLon) : Nav Route LatLon :=
  let n := n.render distanceMeters
  if n.effect = n.deps then n.sessionEffect
  else n.cancel.sessionEffect.rerouteEffect n.deps

/-- A render, and the one that the session effect's state asks for. -/
def settle (n : Nav Route LatLon) : Nav Route LatLon :=
  (n.commit distanceMeters).commit distanceMeters

/-- The request is settled: `finally`. -/
def finish (id : ℕ) (n : Nav Route LatLon) : Nav Route LatLon :=
  { n with inFlight := n.inFlight.filter fun r => r.id ≠ id, reroutingRef := false }

/-- What an event leaves to render. -/
def take (n : Nav Route LatLon) : Event Route LatLon → Nav Route LatLon
  | .planner initialRoute destination => { n with initialRoute, destination }
  | .position position => { n with position }
  | .progress progress => { n with progress }
  | .resolved id route =>
    match n.inFlight.find? fun r => r.id = id with
    | none => n
    | some r =>
      if r.cancelled then n.finish id
      else { n.finish id with followedRoute := some route, rerouteError := none }
  | .rejected id message =>
    match n.inFlight.find? fun r => r.id = id with
    | none => n
    | some r =>
      if r.cancelled then n.finish id else { n.finish id with rerouteError := some message }

/-- One event. -/
def step (n : Nav Route LatLon) (e : Event Route LatLon) : Nav Route LatLon :=
  (n.take e).settle distanceMeters

/-- The hook after the events. -/
def run (events : List (Event Route LatLon)) : Nav Route LatLon :=
  events.foldl (step distanceMeters) idle

end Nav

/-- The events of a GPS fix: the position changes, and then the progress. -/
def fix (position : LatLon) (progress : RouteProgressState) : List (Event Route LatLon) :=
  [.position (some position), .progress (some progress)]

/-- The request that an event answers. -/
def Event.answers : Event Route LatLon → Option ℕ
  | .resolved id _ => some id
  | .rejected id _ => some id
  | _ => none

/-- The event changes nothing that is passed to the effect. -/
def Nav.Quiet (n : Nav Route LatLon) : Event Route LatLon → Prop
  | .planner initialRoute destination =>
    n.initialRoute = initialRoute ∧ n.destination = destination
  | .position position => n.position = position
  | .progress progress => n.progress = progress
  | _ => True

/-- The event starts no other session and stops none. -/
def Nav.SameSession (n : Nav Route LatLon) : Event Route LatLon → Prop
  | .planner initialRoute _ => n.initialRoute = initialRoute
  | _ => True

namespace Nav

variable {distanceMeters : LatLon → LatLon → ℚ} {n : Nav Route LatLon} {r : Request Route LatLon}

/-! ## The parts of a commit -/

/-- An arrival that a render would latch. -/
def Arriving (distanceMeters : LatLon → LatLon → ℚ) (n : Nav Route LatLon) : Prop :=
  n.arrived = false ∧ hasArrived (n.distToDestM distanceMeters) = true

theorem not_arriving_render : ¬(n.render distanceMeters).Arriving distanceMeters := by
  rintro ⟨harrived, hnear⟩
  have hdist : (n.render distanceMeters).distToDestM distanceMeters =
      n.distToDestM distanceMeters := rfl
  rw [hdist] at hnear
  simp [render, hnear] at harrived

theorem render_eq_self (h : ¬n.Arriving distanceMeters) : n.render distanceMeters = n := by
  have harrived : (n.arrived || hasArrived (n.distToDestM distanceMeters)) = n.arrived := by
    cases ha : n.arrived with
    | true => rfl
    | false =>
      rw [Bool.false_or]
      by_contra hnear
      exact h ⟨ha, by simpa using hnear⟩
  rw [render, harrived]

/-- Every request that is in flight is known, and only the one of the effect's last run is not
cancelled. -/
structure Requests (n : Nav Route LatLon) : Prop where
  fresh : ∀ r ∈ n.inFlight, r.id < n.sent
  nodup : (n.inFlight.map Request.id).Nodup
  live : ∀ r ∈ n.inFlight, r.cancelled = false → n.cleanup = some r.id

theorem map_id_cancel (n : Nav Route LatLon) :
    n.cancel.inFlight.map Request.id = n.inFlight.map Request.id := by
  rw [cancel, List.map_map]
  refine List.map_congr_left fun r _ => ?_
  simp only [Function.comp]
  split <;> rfl

/-- After the cleanup every request is cancelled. -/
theorem cancelled_of_mem_cancel (h : n.Requests) (hr : r ∈ n.cancel.inFlight) :
    r.cancelled = true := by
  obtain ⟨r', hr', rfl⟩ := List.mem_map.mp hr
  split
  · rfl
  · next hne =>
    by_contra hlive
    exact hne (h.live r' hr' (by simpa using hlive))

theorem mem_cancel (h : n.Requests) (hr : r ∈ n.inFlight) :
    { r with cancelled := true } ∈ n.cancel.inFlight := by
  refine List.mem_map.mpr ⟨r, hr, ?_⟩
  split
  · rfl
  · next hne =>
    cases hc : r.cancelled with
    | true =>
      cases r
      cases hc
      rfl
    | false => exact absurd (h.live r hr hc) hne

theorem Requests.cancel (h : n.Requests) : n.cancel.Requests where
  fresh r hr := by
    have hid : r.id ∈ n.cancel.inFlight.map Request.id := List.mem_map_of_mem hr
    rw [map_id_cancel] at hid
    obtain ⟨r', hr', heq⟩ := List.mem_map.mp hid
    rw [← heq]
    exact h.fresh r' hr'
  nodup := by
    rw [map_id_cancel]
    exact h.nodup
  live r hr hlive := by
    rw [cancelled_of_mem_cancel h hr] at hlive
    cases hlive

section

variable [DecidableEq Route]

@[simp] theorem sessionEffect_inFlight : n.sessionEffect.inFlight = n.inFlight := by
  unfold sessionEffect
  split <;> rfl

@[simp] theorem sessionEffect_cleanup : n.sessionEffect.cleanup = n.cleanup := by
  unfold sessionEffect
  split <;> rfl

@[simp] theorem sessionEffect_sent : n.sessionEffect.sent = n.sent := by
  unfold sessionEffect
  split <;> rfl

@[simp] theorem sessionEffect_initialRoute :
    n.sessionEffect.initialRoute = n.initialRoute := by
  unfold sessionEffect
  split <;> rfl

theorem sessionEffect_sessionRef : n.sessionEffect.sessionRef = n.initialRoute := by
  unfold sessionEffect
  split
  · next h => exact h
  · rfl

theorem sessionEffect_of_same (h : n.sessionRef = n.initialRoute) : n.sessionEffect = n :=
  if_pos h

theorem Requests.sessionEffect (h : n.Requests) : n.sessionEffect.Requests where
  fresh := by simpa using h.fresh
  nodup := by simpa using h.nodup
  live := by simpa using h.live

end

/-- The effect asks for a route or not, and that is all. -/
theorem rerouteEffect_cases (d : Deps Route LatLon) (n : Nav Route LatLon) :
    n.rerouteEffect d = { n with effect := d } ∨
    ∃ route position destination, d.followedRoute = some route ∧ d.position = some position ∧
      d.destination = some destination ∧ d.phase = .navigating ∧ n.reroutingRef = false ∧
      n.rerouteEffect d = { n with
        reroutingRef := true
        inFlight := n.inFlight ++ [⟨n.sent, position, destination, route, false⟩]
        cleanup := some n.sent
        sent := n.sent + 1
        effect := d } := by
  unfold rerouteEffect
  split
  · next route position destination hroute hposition hdestination =>
    split
    · next hshould =>
      simp only [shouldReroute, Bool.and_eq_true, decide_eq_true_eq, Bool.not_eq_true'] at hshould
      exact Or.inr ⟨route, position, destination, hroute, hposition, hdestination, hshould.1.1,
        hshould.2, rfl⟩
    · exact Or.inl rfl
  · exact Or.inl rfl

theorem mem_rerouteEffect (d : Deps Route LatLon) (hr : r ∈ n.inFlight) :
    r ∈ (n.rerouteEffect d).inFlight := by
  rcases rerouteEffect_cases d n with h | ⟨_, _, _, -, -, -, -, -, h⟩
  · rw [h]
    exact hr
  · rw [h]
    exact List.mem_append_left _ hr

/-- The effect's request is the only one that is not cancelled. -/
theorem Requests.rerouteEffect (d : Deps Route LatLon) (h : n.Requests)
    (hall : ∀ r ∈ n.inFlight, r.cancelled = true) : (n.rerouteEffect d).Requests := by
  rcases rerouteEffect_cases d n with heq | ⟨route, position, destination, -, -, -, -, -, heq⟩
  · rw [heq]
    exact ⟨h.fresh, h.nodup, h.live⟩
  · rw [heq]
    refine ⟨fun r hr => ?_, ?_, fun r hr hlive => ?_⟩
    · rcases List.mem_append.mp hr with hr | hr
      · exact Nat.lt_succ_of_lt (h.fresh r hr)
      · rw [List.mem_singleton.mp hr]
        exact Nat.lt_succ_self _
    · rw [List.map_append, List.nodup_append]
      refine ⟨h.nodup, List.nodup_singleton _, fun a ha b hb hab => ?_⟩
      obtain ⟨r, hr, rfl⟩ := List.mem_map.mp ha
      rw [List.map_singleton, List.mem_singleton] at hb
      rw [hb] at hab
      exact absurd hab (Nat.ne_of_lt (h.fresh r hr))
    · rcases List.mem_append.mp hr with hr | hr
      · rw [hall r hr] at hlive
        cases hlive
      · rw [List.mem_singleton.mp hr]

/-- A request older than what the effect sends was in flight before it. -/
theorem mem_of_mem_rerouteEffect {d : Deps Route LatLon} (hr : r ∈ (n.rerouteEffect d).inFlight)
    (hold : r.id < n.sent) : r ∈ n.inFlight := by
  rcases rerouteEffect_cases d n with h | ⟨_, _, _, -, -, -, -, -, h⟩
  · rw [h] at hr
    exact hr
  · rw [h] at hr
    rcases List.mem_append.mp hr with hr | hr
    · exact hr
    · rw [List.mem_singleton.mp hr] at hold
      exact absurd hold (Nat.lt_irrefl _)

/-- What the reroute effect leaves alone. -/
theorem rerouteEffect_frame (d : Deps Route LatLon) (n : Nav Route LatLon) :
    (n.rerouteEffect d).deps = n.deps ∧ (n.rerouteEffect d).sessionRef = n.sessionRef ∧
      (n.rerouteEffect d).initialRoute = n.initialRoute ∧
      (n.rerouteEffect d).arrived = n.arrived ∧ (n.rerouteEffect d).effect = d := by
  rcases rerouteEffect_cases d n with h | ⟨_, _, _, -, -, -, -, -, h⟩ <;> rw [h] <;>
    exact ⟨rfl, rfl, rfl, rfl, rfl⟩

theorem Arriving.congr {n' : Nav Route LatLon} (hdeps : n'.deps = n.deps)
    (harrived : n'.arrived = n.arrived) (h : n'.Arriving distanceMeters) :
    n.Arriving distanceMeters := by
  have hdist : n'.distToDestM distanceMeters = n.distToDestM distanceMeters := by
    simp only [deps, Deps.mk.injEq] at hdeps
    simp only [distToDestM, hdeps]
  exact ⟨by rw [← harrived]; exact h.1, by rw [← hdist]; exact h.2⟩

/-! ## An event before its render -/

theorem Requests.finish (h : n.Requests) (id : ℕ) : (n.finish id).Requests where
  fresh r hr := h.fresh r (List.mem_of_mem_filter hr)
  nodup := h.nodup.sublist (List.Sublist.map _ List.filter_sublist)
  live r hr := h.live r (List.mem_of_mem_filter hr)

theorem Requests.take (h : n.Requests) (e : Event Route LatLon) : (n.take e).Requests := by
  cases e with
  | planner initialRoute destination => exact ⟨h.fresh, h.nodup, h.live⟩
  | position position => exact ⟨h.fresh, h.nodup, h.live⟩
  | progress progress => exact ⟨h.fresh, h.nodup, h.live⟩
  | resolved id route =>
    have hfinish := h.finish id
    rw [Nav.take]
    split
    · exact h
    · split
      · exact hfinish
      · exact ⟨hfinish.fresh, hfinish.nodup, hfinish.live⟩
  | rejected id message =>
    have hfinish := h.finish id
    rw [Nav.take]
    split
    · exact h
    · split
      · exact hfinish
      · exact ⟨hfinish.fresh, hfinish.nodup, hfinish.live⟩

/-! ## A commit -/

variable [DecidableEq Route] [DecidableEq LatLon]

/-- **What a commit does**, after its render `m`: nothing but the session effect, if the reroute
effect's dependencies are the old ones; else it cancels, and asks for a route or not. -/
theorem commit_cases (n : Nav Route LatLon) {m : Nav Route LatLon}
    (hm : n.render distanceMeters = m) :
    (m.effect = m.deps ∧ n.commit distanceMeters = m.sessionEffect) ∨
    (m.effect ≠ m.deps ∧
      n.commit distanceMeters = m.cancel.sessionEffect.rerouteEffect m.deps) := by
  subst hm
  by_cases h : (n.render distanceMeters).effect = (n.render distanceMeters).deps
  · exact Or.inl ⟨h, if_pos h⟩
  · exact Or.inr ⟨h, if_neg h⟩

theorem Requests.commit (h : n.Requests) : (n.commit distanceMeters).Requests := by
  have hm : (n.render distanceMeters).Requests := ⟨h.fresh, h.nodup, h.live⟩
  rcases commit_cases n rfl with ⟨-, heq⟩ | ⟨-, heq⟩
  · rw [heq]
    exact hm.sessionEffect
  · rw [heq]
    refine hm.cancel.sessionEffect.rerouteEffect _ fun r hr => ?_
    rw [sessionEffect_inFlight] at hr
    exact cancelled_of_mem_cancel hm hr

/-- A cancelled request stays so. -/
theorem mem_commit_of_cancelled (h : n.Requests)
    (hr : { r with cancelled := true } ∈ n.inFlight) :
    { r with cancelled := true } ∈ (n.commit distanceMeters).inFlight := by
  have hm : (n.render distanceMeters).Requests := ⟨h.fresh, h.nodup, h.live⟩
  rcases commit_cases n rfl with ⟨-, heq⟩ | ⟨-, heq⟩
  · rw [heq, sessionEffect_inFlight]
    exact hr
  · rw [heq]
    refine mem_rerouteEffect _ ?_
    rw [sessionEffect_inFlight]
    exact mem_cancel hm (r := { r with cancelled := true }) hr

/-- A commit that finds the dependencies changed cancels every request. -/
theorem mem_commit_of_changed (h : n.Requests) (hr : r ∈ n.inFlight)
    (hchanged : n.effect ≠ (n.render distanceMeters).deps) :
    { r with cancelled := true } ∈ (n.commit distanceMeters).inFlight := by
  have hm : (n.render distanceMeters).Requests := ⟨h.fresh, h.nodup, h.live⟩
  rcases commit_cases n rfl with ⟨heq, -⟩ | ⟨-, heq⟩
  · exact absurd heq hchanged
  · rw [heq]
    refine mem_rerouteEffect _ ?_
    rw [sessionEffect_inFlight]
    exact mem_cancel hm hr

/-- The page is up to date: the last run of the effect saw it, and another render changes
nothing. -/
structure Settled (distanceMeters : LatLon → LatLon → ℚ) (n : Nav Route LatLon) : Prop where
  effect : n.effect = n.deps
  session : n.sessionRef = n.initialRoute
  rendered : ¬n.Arriving distanceMeters

theorem Settled.commit_eq (h : n.Settled distanceMeters) : n.commit distanceMeters = n := by
  rcases commit_cases n (render_eq_self h.rendered) with ⟨-, heq⟩ | ⟨hne, -⟩
  · rw [heq, sessionEffect_of_same h.session]
  · exact absurd h.effect hne

theorem Settled.settle_eq (h : n.Settled distanceMeters) : n.settle distanceMeters = n := by
  rw [settle, h.commit_eq, h.commit_eq]

theorem commit_session : (n.commit distanceMeters).sessionRef = n.initialRoute ∧
    (n.commit distanceMeters).initialRoute = n.initialRoute := by
  rcases commit_cases n rfl with ⟨-, heq⟩ | ⟨-, heq⟩
  · rw [heq, sessionEffect_sessionRef, sessionEffect_initialRoute]
    exact ⟨rfl, rfl⟩
  · obtain ⟨-, href, hinitial, -⟩ := rerouteEffect_frame (n.render distanceMeters).deps
      (n.render distanceMeters).cancel.sessionEffect
    rw [heq, href, hinitial, sessionEffect_sessionRef, sessionEffect_initialRoute]
    exact ⟨rfl, rfl⟩

/-- With the session up to date, a commit leaves the page up to date. -/
theorem settled_commit (h : n.sessionRef = n.initialRoute) :
    (n.commit distanceMeters).Settled distanceMeters := by
  obtain ⟨href, hinitial⟩ : (n.commit distanceMeters).sessionRef = n.initialRoute ∧ _ :=
    commit_session
  rcases commit_cases n rfl with ⟨heffect, heq⟩ | ⟨-, heq⟩
  · rw [heq, sessionEffect_of_same (n := n.render distanceMeters) h]
    exact ⟨heffect, h, not_arriving_render⟩
  · rw [sessionEffect_of_same (n := (n.render distanceMeters).cancel) h] at heq
    obtain ⟨hdeps, -, -, harrived, heffect⟩ := rerouteEffect_frame (n.render distanceMeters).deps
      (n.render distanceMeters).cancel
    rw [← heq] at hdeps harrived heffect
    exact ⟨by rw [heffect, hdeps]; rfl, by rw [href, hinitial],
      fun harriving => not_arriving_render (harriving.congr hdeps harrived)⟩

/-! ## Between two events -/

/-- What holds between two events. -/
structure Inv (distanceMeters : LatLon → LatLon → ℚ) (n : Nav Route LatLon) : Prop where
  settled : n.Settled distanceMeters
  requests : n.Requests

theorem inv_settle (h : n.Requests) : (n.settle distanceMeters).Inv distanceMeters := by
  obtain ⟨href, hinitial⟩ : (n.commit distanceMeters).sessionRef = n.initialRoute ∧ _ :=
    commit_session
  exact ⟨settled_commit (by rw [href, hinitial]), h.commit.commit⟩

theorem Inv.step (h : n.Inv distanceMeters) (e : Event Route LatLon) :
    (n.step distanceMeters e).Inv distanceMeters :=
  inv_settle (h.requests.take e)

omit [DecidableEq Route] [DecidableEq LatLon] in
theorem inv_idle : (idle : Nav Route LatLon).Inv distanceMeters where
  settled := ⟨rfl, rfl, fun h => (by cases h.2)⟩
  requests := ⟨fun r hr => (by cases hr), List.nodup_nil, fun r hr => (by cases hr)⟩

theorem inv_foldl (h : n.Inv distanceMeters) (events : List (Event Route LatLon)) :
    (events.foldl (Nav.step distanceMeters) n).Inv distanceMeters :=
  foldl_invariant (fun _ e _ h => h.step e) h

/-! ## A request between two events -/

omit [DecidableEq Route] [DecidableEq LatLon] in
theorem mem_take (e : Event Route LatLon) (hr : r ∈ n.inFlight) (he : e.answers ≠ some r.id) :
    r ∈ (n.take e).inFlight := by
  have hfinish : ∀ id, e.answers = some id → r ∈ (n.finish id).inFlight := by
    intro id hid
    refine List.mem_filter.mpr ⟨hr, ?_⟩
    rw [hid] at he
    simpa using fun heq : r.id = id => he (by rw [heq])
  cases e with
  | planner initialRoute destination => exact hr
  | position position => exact hr
  | progress progress => exact hr
  | resolved id route =>
    rw [take]
    split
    · exact hr
    · split
      · exact hfinish id rfl
      · exact hfinish id rfl
  | rejected id message =>
    rw [take]
    split
    · exact hr
    · split
      · exact hfinish id rfl
      · exact hfinish id rfl

theorem mem_commit (h : n.Requests) (hr : r ∈ n.inFlight) :
    r ∈ (n.commit distanceMeters).inFlight ∨
      { r with cancelled := true } ∈ (n.commit distanceMeters).inFlight := by
  by_cases hchanged : n.effect = (n.render distanceMeters).deps
  · rcases commit_cases n rfl with ⟨-, heq⟩ | ⟨hne, -⟩
    · rw [heq, sessionEffect_inFlight]
      exact Or.inl hr
    · exact absurd hchanged hne
  · exact Or.inr (mem_commit_of_changed h hr hchanged)

/-- A request stays in flight until it is answered. -/
theorem mem_step (h : n.Requests) (e : Event Route LatLon) (hr : r ∈ n.inFlight)
    (he : e.answers ≠ some r.id) :
    r ∈ (n.step distanceMeters e).inFlight ∨
      { r with cancelled := true } ∈ (n.step distanceMeters e).inFlight := by
  have htake := h.take e
  have hcommit : r ∈ ((n.take e).commit distanceMeters).inFlight ∨
      { r with cancelled := true } ∈ ((n.take e).commit distanceMeters).inFlight :=
    mem_commit htake (mem_take e hr he)
  rcases hcommit with hmem | hmem
  · exact mem_commit htake.commit hmem
  · exact Or.inr (mem_commit_of_cancelled htake.commit hmem)

/-- **A quiet event** changes no dependency, and leaves the live request as it is. -/
theorem Inv.quiet_step (h : n.Inv distanceMeters) {e : Event Route LatLon} (hquiet : n.Quiet e)
    (hother : ∀ id, e.answers = some id → n.cleanup ≠ some id) :
    (n.step distanceMeters e).deps = n.deps ∧ (n.step distanceMeters e).cleanup = n.cleanup ∧
      ∀ r ∈ n.inFlight, e.answers ≠ some r.id → r ∈ (n.step distanceMeters e).inFlight := by
  -- Nothing that a render looks at changes.
  have hsame : (n.take e).deps = n.deps ∧ (n.take e).cleanup = n.cleanup ∧
      (n.take e).effect = n.effect ∧ (n.take e).sessionRef = n.sessionRef ∧
      (n.take e).initialRoute = n.initialRoute ∧ (n.take e).arrived = n.arrived := by
    cases e with
    | planner initialRoute destination =>
      obtain ⟨rfl, rfl⟩ := hquiet
      exact ⟨rfl, rfl, rfl, rfl, rfl, rfl⟩
    | position position =>
      obtain rfl : n.position = position := hquiet
      exact ⟨rfl, rfl, rfl, rfl, rfl, rfl⟩
    | progress progress =>
      obtain rfl : n.progress = progress := hquiet
      exact ⟨rfl, rfl, rfl, rfl, rfl, rfl⟩
    | resolved id route =>
      rw [take]
      split
      · exact ⟨rfl, rfl, rfl, rfl, rfl, rfl⟩
      · next r hfind =>
        have hid : r.id = id := by simpa using List.find?_some hfind
        by_cases hc : r.cancelled = true
        · rw [if_pos hc]
          exact ⟨rfl, rfl, rfl, rfl, rfl, rfl⟩
        · have := h.requests.live r (List.mem_of_find?_eq_some hfind) (by simpa using hc)
          rw [hid] at this
          exact absurd this (hother id rfl)
    | rejected id message =>
      rw [take]
      split
      · exact ⟨rfl, rfl, rfl, rfl, rfl, rfl⟩
      · next r hfind =>
        split <;> exact ⟨rfl, rfl, rfl, rfl, rfl, rfl⟩
  obtain ⟨hdeps, hcleanup, heffect, href, hinitial, harrived⟩ := hsame
  have hsettled : (n.take e).Settled distanceMeters :=
    ⟨by rw [heffect, hdeps, h.settled.effect], by rw [href, hinitial, h.settled.session],
      fun harriving => h.settled.rendered (harriving.congr hdeps harrived)⟩
  rw [Nav.step, hsettled.settle_eq]
  exact ⟨hdeps, hcleanup, fun r hr he => mem_take e hr he⟩

/-- **A fix**, or another destination, cancels every request of the session. -/
theorem Inv.noisy_step (h : n.Inv distanceMeters) {e : Event Route LatLon}
    (hsession : n.SameSession e) (hnoisy : ¬n.Quiet e) (hr : r ∈ n.inFlight) :
    { r with cancelled := true } ∈ (n.step distanceMeters e).inFlight := by
  have htake := h.requests.take e
  obtain ⟨hin, hchanged⟩ : (n.take e).inFlight = n.inFlight ∧
      (n.take e).effect ≠ ((n.take e).render distanceMeters).deps := by
    have heffect := h.settled.effect
    cases e with
    | planner initialRoute destination =>
      refine ⟨rfl, fun heq => hnoisy ⟨hsession, ?_⟩⟩
      rw [show (n.take (.planner initialRoute destination)).effect = n.effect from rfl,
        heffect] at heq
      exact congrArg Deps.destination heq
    | position position =>
      refine ⟨rfl, fun heq => hnoisy ?_⟩
      rw [show (n.take (.position position)).effect = n.effect from rfl, heffect] at heq
      exact congrArg Deps.position heq
    | progress progress =>
      refine ⟨rfl, fun heq => hnoisy ?_⟩
      rw [show (n.take (.progress progress)).effect = n.effect from rfl, heffect] at heq
      exact congrArg Deps.progress heq
    | resolved id route => exact absurd trivial hnoisy
    | rejected id message => exact absurd trivial hnoisy
  have hcommit := mem_commit_of_changed htake (by rw [hin]; exact hr) hchanged
  exact mem_commit_of_cancelled htake.commit hcommit

/-! ## A request over many events -/

theorem Inv.quiet_run (h : n.Inv distanceMeters) {events : List (Event Route LatLon)}
    (hquiet : Along (Nav.step distanceMeters) Nav.Quiet n events)
    (hother : ∀ e ∈ events, ∀ id, e.answers = some id → n.cleanup ≠ some id) :
    (events.foldl (Nav.step distanceMeters) n).deps = n.deps ∧
      ∀ r ∈ n.inFlight, (∀ e ∈ events, e.answers ≠ some r.id) →
        r ∈ (events.foldl (Nav.step distanceMeters) n).inFlight := by
  induction events generalizing n with
  | nil => exact ⟨rfl, fun r hr _ => hr⟩
  | cons e events ih =>
    obtain ⟨hdeps, hcleanup, hmem⟩ := h.quiet_step hquiet.1 (hother e List.mem_cons_self)
    obtain ⟨hdeps', hmem'⟩ := ih (h.step e) hquiet.2 fun e' he' => by
      rw [hcleanup]
      exact hother e' (List.mem_cons_of_mem e he')
    refine ⟨hdeps'.trans hdeps, fun r hr hpending => hmem' r (hmem r hr ?_) ?_⟩
    · exact hpending e List.mem_cons_self
    · exact fun e' he' => hpending e' (List.mem_cons_of_mem e he')

theorem dropped_run (h : n.Inv distanceMeters) {events : List (Event Route LatLon)}
    (hr : { r with cancelled := true } ∈ n.inFlight)
    (hpending : ∀ e ∈ events, e.answers ≠ some r.id) :
    { r with cancelled := true } ∈ (events.foldl (Nav.step distanceMeters) n).inFlight := by
  induction events generalizing n with
  | nil => exact hr
  | cons e events ih =>
    refine ih (h.step e) ?_ fun e' he' => hpending e' (List.mem_cons_of_mem e he')
    have hstep : { r with cancelled := true } ∈ (n.step distanceMeters e).inFlight ∨
        { r with cancelled := true } ∈ (n.step distanceMeters e).inFlight :=
      mem_step h.requests e hr (hpending e List.mem_cons_self)
    exact hstep.elim id id

theorem Inv.noisy_run (h : n.Inv distanceMeters) {events : List (Event Route LatLon)}
    (hsession : Along (Nav.step distanceMeters) Nav.SameSession n events)
    (hnoisy : ¬Along (Nav.step distanceMeters) Nav.Quiet n events) (hr : r ∈ n.inFlight)
    (hpending : ∀ e ∈ events, e.answers ≠ some r.id) :
    { r with cancelled := true } ∈ (events.foldl (Nav.step distanceMeters) n).inFlight := by
  induction events generalizing n r with
  | nil => exact absurd trivial hnoisy
  | cons e events ih =>
    have hrest : ∀ e' ∈ events, e'.answers ≠ some r.id := fun e' he' =>
      hpending e' (List.mem_cons_of_mem e he')
    by_cases hquiet : n.Quiet e
    · have hlater : ¬Along (Nav.step distanceMeters) Nav.Quiet (n.step distanceMeters e) events :=
        fun hall => hnoisy ⟨hquiet, hall⟩
      have hstep : r ∈ (n.step distanceMeters e).inFlight ∨
          { r with cancelled := true } ∈ (n.step distanceMeters e).inFlight :=
        mem_step h.requests e hr (hpending e List.mem_cons_self)
      rcases hstep with hmem | hmem
      · exact ih (h.step e) hsession.2 hlater hmem hrest
      · exact ih (r := { r with cancelled := true }) (h.step e) hsession.2 hlater hmem hrest
    · exact dropped_run (h.step e) (h.noisy_step hsession.1 hquiet hr) hrest

/-! ## The request an event sends -/

theorem commit_sent (h : n.Requests) (hr : r ∈ (n.commit distanceMeters).inFlight)
    (hnew : n.sent ≤ r.id) :
    r.cancelled = false ∧ (n.commit distanceMeters).reroutingRef = true ∧
      (n.render distanceMeters).followedRoute = some r.route ∧
      (n.render distanceMeters).arrived = false ∧
      n.commit distanceMeters =
        (n.render distanceMeters).cancel.sessionEffect.rerouteEffect
          (n.render distanceMeters).deps := by
  have hm : (n.render distanceMeters).Requests := ⟨h.fresh, h.nodup, h.live⟩
  have hold : ∀ r ∈ (n.render distanceMeters).cancel.sessionEffect.inFlight, r.id < n.sent := by
    intro r hr
    rw [sessionEffect_inFlight] at hr
    exact hm.cancel.fresh r hr
  rcases commit_cases n rfl with ⟨-, heq⟩ | ⟨-, heq⟩
  · rw [heq, sessionEffect_inFlight] at hr
    exact absurd (h.fresh r hr) (Nat.not_lt.mpr hnew)
  · rw [heq] at hr ⊢
    rcases rerouteEffect_cases (n.render distanceMeters).deps
      (n.render distanceMeters).cancel.sessionEffect with
      hquiet | ⟨route, position, destination, hroute, -, -, hphase, -, hsends⟩
    · rw [hquiet] at hr
      exact absurd (hold r hr) (Nat.not_lt.mpr hnew)
    · rw [hsends] at hr ⊢
      rcases List.mem_append.mp hr with hr | hr
      · exact absurd (hold r hr) (Nat.not_lt.mpr hnew)
      · have harrived : (n.render distanceMeters).arrived = false := by
          cases ha : (n.render distanceMeters).arrived with
          | false => rfl
          | true => simp [deps, phase, ha] at hphase
        rw [List.mem_singleton.mp hr]
        exact ⟨rfl, rfl, hroute, harrived, rfl⟩

/-- A commit that asks for a route, and leaves the followed route as the effect saw it, leaves the
page up to date. -/
theorem settled_of_sent (h : n.Requests) (hr : r ∈ (n.commit distanceMeters).inFlight)
    (hnew : n.sent ≤ r.id) (hroute : (n.commit distanceMeters).followedRoute = some r.route) :
    (n.commit distanceMeters).Settled distanceMeters := by
  obtain ⟨-, -, hfollowed, harrived, heq⟩ := commit_sent h hr hnew
  obtain ⟨href, hinitial⟩ : (n.commit distanceMeters).sessionRef = n.initialRoute ∧ _ :=
    commit_session
  obtain ⟨hdeps, -, -, hsame, heffect⟩ := rerouteEffect_frame (n.render distanceMeters).deps
    (n.render distanceMeters).cancel.sessionEffect
  rw [← heq] at hdeps hsame heffect
  -- The session effect, if it did anything, put the same route back.
  have hsession : (n.render distanceMeters).cancel.sessionEffect.deps =
      (n.render distanceMeters).deps ∧
        (n.render distanceMeters).cancel.sessionEffect.arrived =
          (n.render distanceMeters).arrived := by
    by_cases hcurrent : (n.render distanceMeters).cancel.sessionRef =
        (n.render distanceMeters).cancel.initialRoute
    · rw [sessionEffect_of_same hcurrent]
      exact ⟨rfl, rfl⟩
    · have hback : (n.commit distanceMeters).followedRoute =
          (n.render distanceMeters).followedRoute := hroute.trans hfollowed.symm
      have hput := (congrArg Deps.followedRoute hdeps).symm.trans hback
      rw [sessionEffect, if_neg hcurrent] at hput ⊢
      refine ⟨?_, harrived.symm⟩
      simp only [deps, phase, Deps.mk.injEq] at hput ⊢
      refine ⟨hput, rfl, ?_, rfl, rfl⟩
      rw [harrived]
  refine ⟨by rw [heffect, hdeps, hsession.1], by rw [href, hinitial], fun harriving => ?_⟩
  exact not_arriving_render
    (harriving.congr (hdeps.trans hsession.1) (hsame.trans hsession.2))

/-- **A request just sent** is live, unless the event that sent it also changed the followed
route. -/
theorem Inv.sent_cases (h : n.Inv distanceMeters) (e : Event Route LatLon)
    (hr : r ∈ (n.step distanceMeters e).inFlight) (hnew : n.sent ≤ r.id) :
    r.cancelled = false ∨ ((n.step distanceMeters e).cleanup = none ∧
      (n.step distanceMeters e).followedRoute ≠ some r.route) := by
  have htake := h.requests.take e
  have hsent : (n.take e).sent ≤ r.id := by
    refine Nat.le_trans (Nat.le_of_eq ?_) hnew
    cases e <;> simp only [take] <;> repeat' split
    all_goals rfl
  obtain ⟨href, hinitial⟩ : ((n.take e).commit distanceMeters).sessionRef = _ ∧ _ :=
    commit_session
  generalize hc : (n.take e).commit distanceMeters = c at href hinitial
  have hcreq : c.Requests := hc ▸ htake.commit
  have hstep : n.step distanceMeters e = c.commit distanceMeters := by rw [← hc]; rfl
  have hcurrent : c.sessionRef = c.initialRoute := href.trans hinitial.symm
  rw [hstep] at hr ⊢
  by_cases hsecond : c.sent ≤ r.id
  · exact Or.inl (commit_sent hcreq hr hsecond).1
  · rcases commit_cases c rfl with ⟨-, heq⟩ | ⟨hchanged, heq⟩
    · rw [heq, sessionEffect_inFlight] at hr
      exact Or.inl (commit_sent htake (by rw [hc]; exact hr) hsent).1
    · -- The first render sent it, and the second one cancels it.
      right
      rw [sessionEffect_of_same (n := (c.render distanceMeters).cancel) hcurrent] at heq
      rw [heq] at hr ⊢
      have hmem : r ∈ (c.render distanceMeters).cancel.inFlight :=
        mem_of_mem_rerouteEffect hr (Nat.lt_of_not_le hsecond)
      obtain ⟨sent, hin, hsame⟩ := List.mem_map.mp hmem
      have hid : sent.id = r.id ∧ sent.route = r.route := by
        rw [← hsame]
        split <;> exact ⟨rfl, rfl⟩
      rw [show (c.render distanceMeters).inFlight = c.inFlight from rfl, ← hc] at hin
      have hsentNew : (n.take e).sent ≤ sent.id := hid.1 ▸ hsent
      have hbusy := (commit_sent htake hin hsentNew).2.1
      rcases rerouteEffect_cases (c.render distanceMeters).deps
        (c.render distanceMeters).cancel with hq | ⟨_, _, _, -, -, -, -, hfree, -⟩
      · rw [hq]
        refine ⟨rfl, fun hroute => hchanged ?_⟩
        have hsettled := settled_of_sent htake hin hsentNew (by rw [hc, hid.2]; exact hroute)
        rw [hc] at hsettled
        rw [render_eq_self hsettled.rendered]
        exact hsettled.effect
      · rw [hc] at hbusy
        rw [show (c.render distanceMeters).cancel.reroutingRef = c.reroutingRef from rfl, hbusy]
          at hfree
        cases hfree

/-! ## The response -/

omit [DecidableEq Route] [DecidableEq LatLon] in
theorem Requests.find?_eq (h : n.Requests) (hr : r ∈ n.inFlight) :
    (n.inFlight.find? fun r' => r'.id = r.id) = some r := by
  cases hfind : n.inFlight.find? fun r' => r'.id = r.id with
  | none =>
    have hnone := List.find?_eq_none.mp hfind r hr
    simp at hnone
  | some found =>
    have hid : found.id = r.id := by simpa using List.find?_some hfind
    rw [List.inj_on_of_nodup_map h.nodup (List.mem_of_find?_eq_some hfind) hr hid]

/-- Within a session no render changes the followed route. -/
theorem settle_followedRoute (h : n.sessionRef = n.initialRoute) :
    (n.settle distanceMeters).followedRoute = n.followedRoute := by
  have hcommit : ∀ {m : Nav Route LatLon}, m.sessionRef = m.initialRoute →
      (m.commit distanceMeters).followedRoute = m.followedRoute := by
    intro m hm
    rcases commit_cases m rfl with ⟨-, heq⟩ | ⟨-, heq⟩
    · rw [heq, sessionEffect_of_same (n := m.render distanceMeters) hm]
      rfl
    · rw [heq, sessionEffect_of_same (n := (m.render distanceMeters).cancel) hm]
      exact congrArg Deps.followedRoute (rerouteEffect_frame _ _).1
  obtain ⟨href, hinitial⟩ : (n.commit distanceMeters).sessionRef = n.initialRoute ∧ _ :=
    commit_session
  rw [settle, hcommit (href.trans hinitial.symm), hcommit h]

/-- The response to a live request is applied. -/
theorem Inv.resolve_live (h : n.Inv distanceMeters) (hr : r ∈ n.inFlight)
    (hlive : r.cancelled = false) (route : Route) :
    (n.step distanceMeters (.resolved r.id route)).followedRoute = some route := by
  have htake : n.take (.resolved r.id route) =
      { n.finish r.id with followedRoute := some route, rerouteError := none } := by
    rw [take, h.requests.find?_eq hr]
    simp only [hlive, Bool.false_eq_true, if_false]
  rw [Nav.step, htake]
  exact settle_followedRoute h.settled.session

/-- The response to a cancelled request is dropped. -/
theorem Inv.resolve_dropped (h : n.Inv distanceMeters) (hr : r ∈ n.inFlight)
    (hdropped : r.cancelled = true) (route : Route) :
    (n.step distanceMeters (.resolved r.id route)).followedRoute = n.followedRoute := by
  have htake : n.take (.resolved r.id route) = n.finish r.id := by
    rw [take, h.requests.find?_eq hr]
    simp only [hdropped, if_true]
  rw [Nav.step, htake]
  exact settle_followedRoute (n := n.finish r.id) h.settled.session

end Nav

variable [DecidableEq Route] [DecidableEq LatLon] {distanceMeters : LatLon → LatLon → ℚ}

/-- **Which responses are applied.** A request that the event `e` sent is answered with a new
route, while its session still follows its route. The response replaces that route just when every
event since `e` left the position, the progress, and what the planner passes, as they were. -/
theorem reroute_applied_iff (before : List (Event Route LatLon)) (e : Event Route LatLon)
    (since : List (Event Route LatLon)) (r : Request Route LatLon) (route : Route)
    (hsent : r ∈ (Nav.run distanceMeters (before ++ [e])).inFlight)
    (hnew : (Nav.run distanceMeters before).sent ≤ r.id)
    (hpending : ∀ e' ∈ since, e'.answers ≠ some r.id)
    (hsession : Along (Nav.step distanceMeters) Nav.SameSession
      (Nav.run distanceMeters (before ++ [e])) since)
    (hroute : (Nav.run distanceMeters (before ++ e :: since)).followedRoute = some r.route)
    (hfresh : route ≠ r.route) :
    (Nav.run distanceMeters (before ++ e :: since ++ [.resolved r.id route])).followedRoute =
        some route ↔
      Along (Nav.step distanceMeters) Nav.Quiet (Nav.run distanceMeters (before ++ [e])) since := by
  have hstep : Nav.run distanceMeters (before ++ [e]) =
      (Nav.run distanceMeters before).step distanceMeters e := List.foldl_concat ..
  have hsince : Nav.run distanceMeters (before ++ e :: since) =
      since.foldl (Nav.step distanceMeters) (Nav.run distanceMeters (before ++ [e])) := by
    rw [Nav.run, Nav.run, ← List.foldl_append, List.append_assoc]
    rfl
  have hlast : Nav.run distanceMeters (before ++ e :: since ++ [.resolved r.id route]) =
      (Nav.run distanceMeters (before ++ e :: since)).step distanceMeters (.resolved r.id route) :=
    List.foldl_concat ..
  have hbefore : (Nav.run distanceMeters before).Inv distanceMeters :=
    Nav.inv_foldl Nav.inv_idle before
  have hinv : (Nav.run distanceMeters (before ++ [e])).Inv distanceMeters :=
    Nav.inv_foldl Nav.inv_idle _
  have hinv' : (Nav.run distanceMeters (before ++ e :: since)).Inv distanceMeters :=
    Nav.inv_foldl Nav.inv_idle _
  rw [hlast]
  constructor
  · intro happlied
    by_contra hnoisy
    have hdropped := hinv.noisy_run hsession hnoisy hsent hpending
    rw [← hsince] at hdropped
    rw [hinv'.resolve_dropped (r := { r with cancelled := true }) hdropped rfl, hroute]
      at happlied
    exact hfresh (Option.some.inj happlied).symm
  · intro hquiet
    rcases hbefore.sent_cases e (by rw [← hstep]; exact hsent) hnew with hlive | ⟨hnone, hother⟩
    · have hcleanup := hinv.requests.live r hsent hlive
      obtain ⟨-, hmem⟩ := hinv.quiet_run hquiet fun e' he' id hid => by
        rw [hcleanup, ← hid]
        exact (hpending e' he').symm
      have hin := hmem r hsent hpending
      rw [← hsince] at hin
      exact hinv'.resolve_live hin hlive route
    · obtain ⟨hdeps, -⟩ := hinv.quiet_run hquiet fun e' he' id hid => by
        rw [hstep, hnone]
        exact Option.some_ne_none id ∘ Eq.symm
      rw [← hsince, hstep] at hdeps
      have hsame := congrArg Deps.followedRoute hdeps
      exact absurd (hsame.symm.trans hroute) hother

/-- A session that leaves its route `1` far from its destination, and asks for another. -/
def offRoute : List (Event ℕ ℕ) :=
  [.planner (some 1) (some 9), .position (some 0), .progress (some ⟨0, true⟩)]

/-- The planner renders it again with the route and the destination it has. -/
def rerender : Event ℕ ℕ := .planner (some 1) (some 9)

/-- Answered before the next fix, it follows the new route `2`. -/
theorem reroute_applied_iff_no_fix :
    (Nav.run (fun _ _ => 1000) (offRoute ++ [rerender] ++ [.resolved 0 2])).followedRoute =
      some 2 := by
  have hsession : Along (Nav.step fun _ _ => 1000) Nav.SameSession
      (Nav.run (fun _ _ => 1000) offRoute) [rerender] := ⟨rfl, trivial⟩
  have hquiet : Along (Nav.step fun _ _ => 1000) Nav.Quiet
      (Nav.run (fun _ _ => 1000) offRoute) [rerender] := ⟨⟨rfl, rfl⟩, trivial⟩
  exact (reroute_applied_iff [.planner (some 1) (some 9), .position (some 0)]
    (.progress (some ⟨0, true⟩)) [rerender] ⟨0, 0, 9, 1, false⟩ 2 (by decide +kernel)
    (by decide +kernel) (by decide) hsession (by decide +kernel) (by decide)).mpr hquiet

/-- Answered after a fix, it keeps the old one, though nothing else has changed. -/
theorem reroute_dropped_by_fix :
    (Nav.run (fun _ _ => 1000) (offRoute ++ fix 3 ⟨1, true⟩)).followedRoute = some 1 ∧
      (Nav.run (fun _ _ => 1000) (offRoute ++ fix 3 ⟨1, true⟩)).initialRoute = some 1 ∧
      (Nav.run (fun _ _ => 1000) (offRoute ++ fix 3 ⟨1, true⟩)).destination = some 9 ∧
      (Nav.run (fun _ _ => 1000) (offRoute ++ fix 3 ⟨1, true⟩)).phase = .navigating ∧
      (Nav.run (fun _ _ => 1000) (offRoute ++ fix 3 ⟨1, true⟩ ++ [.resolved 0 2])).followedRoute =
        some 1 := by
  decide +kernel

end RoutePlanner.Web
