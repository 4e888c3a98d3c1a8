import RoutePlanner.Api.Routes
import RoutePlanner.Web.Navigation

/-!
# Navigation against the service

A session starts on a route that `/route` answered with. `useNavigation` asks `/reroute` with the
preference of the route that it follows, and follows what comes back. The service answers with that
preference, so a session stays at the level, the weight, the budget and the departure of the request
it came from, however fixes, responses, refusals and sessions interleave.

A route is an object, and `artifact` is what it holds: no code writes to it.

* `Live.commit`: the request that is not cancelled asked with the route that is followed.
* `settle_followedRoute_eq`: what an event leaves to follow.
* `KeepsPlan.reroute`, `KeepsPlan.step`: what a reroute and an event keep.
* **`session_keeps_plan`**: what a followed route carries.
-/

namespace RoutePlanner.Web

open RoutePlanner.Api RoutePlanner.Lib
open RoutePlanner.Planner (Level RouteOut)

/-! ## The followed route -/

section Hook

variable {Route LatLon : Type} {n : Nav Route LatLon} {distanceMeters : LatLon → LatLon → ℚ}

namespace Nav

/-- The request that is not cancelled asked with the route that the effect last saw. -/
def Live (n : Nav Route LatLon) : Prop :=
  ∀ r ∈ n.inFlight, r.cancelled = false → n.effect.followedRoute = some r.route

theorem Live.take (h : n.Live) (e : Event Route LatLon) : (n.take e).Live := by
  have hfinish : ∀ id, (n.finish id).Live := fun id r hr => h r (List.mem_of_mem_filter hr)
  cases e with
  | planner | position | progress => exact h
  | resolved id route | rejected id message =>
    rw [Nav.take]
    split
    · exact h
    · split
      · exact hfinish id
      · exact hfinish id

variable [DecidableEq Route] [DecidableEq LatLon]

/-- **Every request that is left was sent for what the effect saw.** -/
theorem Live.commit (h : n.Live) (hrequests : n.Requests) :
    (n.commit distanceMeters).Live := by
  have hm : (n.render distanceMeters).Requests :=
    ⟨hrequests.fresh, hrequests.nodup, hrequests.live⟩
  rcases commit_cases n rfl with ⟨-, heq⟩ | ⟨-, heq⟩
  · rw [heq]
    intro r hr hlive
    rw [sessionEffect_inFlight] at hr
    have heffect : (n.render distanceMeters).sessionEffect.effect = n.effect := by
      unfold sessionEffect
      split <;> rfl
    rw [heffect]
    exact h r hr hlive
  · have hdead : ∀ r ∈ (n.render distanceMeters).cancel.sessionEffect.inFlight,
        r.cancelled = true := fun r hr => by
      rw [sessionEffect_inFlight] at hr
      exact cancelled_of_mem_cancel hm hr
    rw [heq]
    intro r hr hlive
    rcases rerouteEffect_cases (n.render distanceMeters).deps
      (n.render distanceMeters).cancel.sessionEffect with
      hquiet | ⟨route, position, destination, hroute, -, -, -, -, hsends⟩
    · rw [hquiet] at hr
      exact absurd (hdead r hr) (by simp [hlive])
    · rw [hsends] at hr ⊢
      rcases List.mem_append.mp hr with hr | hr
      · exact absurd (hdead r hr) (by simp [hlive])
      · rw [List.mem_singleton.mp hr]
        exact hroute

theorem Live.step (h : n.Live) (hrequests : n.Requests) (e : Event Route LatLon) :
    (n.step distanceMeters e).Live :=
  ((h.take e).commit (hrequests.take e)).commit (hrequests.take e).commit

/-- A commit starts the session that it is passed. -/
theorem commit_followedRoute : (n.commit distanceMeters).followedRoute =
    if n.sessionRef = n.initialRoute then n.followedRoute else n.initialRoute := by
  have hsession : ∀ m : Nav Route LatLon, m.sessionEffect.followedRoute =
      if m.sessionRef = m.initialRoute then m.followedRoute else m.initialRoute := by
    intro m
    unfold sessionEffect
    split <;> rfl
  rcases commit_cases n rfl with ⟨-, heq⟩ | ⟨-, heq⟩
  · rw [heq, hsession]
    rfl
  · rw [heq]
    refine (congrArg Deps.followedRoute (rerouteEffect_frame _ _).1).trans ?_
    exact hsession (n.render distanceMeters).cancel

/-- **What an event leaves to follow.** -/
theorem settle_followedRoute_eq : (n.settle distanceMeters).followedRoute =
    if n.sessionRef = n.initialRoute then n.followedRoute else n.initialRoute := by
  obtain ⟨href, hinitial⟩ : (n.commit distanceMeters).sessionRef = n.initialRoute ∧
      (n.commit distanceMeters).initialRoute = n.initialRoute := commit_session
  rw [settle, commit_followedRoute, if_pos (href.trans hinitial.symm), commit_followedRoute]

theorem settle_initialRoute : (n.settle distanceMeters).initialRoute = n.initialRoute :=
  commit_session.2.trans commit_session.2

end Nav

end Hook

/-! ## The answers -/

namespace Nav

/-- What an event changes of the session. -/
theorem take_cases {Route LatLon : Type} {n : Nav Route LatLon} (e : Event Route LatLon) :
    (∃ initialRoute destination, e = .planner initialRoute destination) ∨
      ((n.take e).initialRoute = n.initialRoute ∧ (n.take e).sessionRef = n.sessionRef ∧
        ((n.take e).followedRoute = n.followedRoute ∨ ∃ r ∈ n.inFlight, r.cancelled = false ∧
          ∃ route, e = .resolved r.id route ∧ (n.take e).followedRoute = some route)) := by
  cases e with
  | planner initialRoute destination => exact Or.inl ⟨initialRoute, destination, rfl⟩
  | position | progress => exact Or.inr ⟨rfl, rfl, Or.inl rfl⟩
  | resolved id route =>
    refine Or.inr ?_
    rw [Nav.take]
    split
    · exact ⟨rfl, rfl, Or.inl rfl⟩
    · next r hfind =>
      split
      · exact ⟨rfl, rfl, Or.inl rfl⟩
      · next hlive =>
        have hid : r.id = id := by simpa using List.find?_some hfind
        refine ⟨rfl, rfl, Or.inr ⟨r, List.mem_of_find?_eq_some hfind, by simpa using hlive, route,
          by rw [hid], rfl⟩⟩
  | rejected id message =>
    refine Or.inr ?_
    rw [Nav.take]
    split
    · exact ⟨rfl, rfl, Or.inl rfl⟩
    · split
      · exact ⟨rfl, rfl, Or.inl rfl⟩
      · exact ⟨rfl, rfl, Or.inl rfl⟩

end Nav

section Service

variable {K L E Route LatLon : Type} [Field K] [LinearOrder K] [IsStrictOrderedRing K]
variable (svc : RouteService K L E) (artifact : Route → ServedRoute K) (point : LatLon → Point K)

/-- The route is in an answer to this `/route` request. -/
def Routed (now : ℤ) (body : RouteRequest K) (s : ServedRoute K) : Prop :=
  ∃ served, svc.route now body = some (.routes served) ∧ s ∈ served

/-- What `fetchReroute` sends. -/
def Request.body (r : Request Route LatLon) : RerouteRequest K :=
  ⟨point r.position, point r.destination, .of (artifact r.route).route.preference⟩

/-- **The service is at the other end**: a session starts on a route of an answer to `/route`, and
the response to a request is the answer to what was sent. -/
def Answered [FloorRing K] (n : Nav Route LatLon) : Event Route LatLon → Prop
  | .planner initialRoute _ =>
    ∀ route, initialRoute = some route → ∃ now body, Routed svc now body (artifact route)
  | .resolved id route => ∀ r ∈ n.inFlight, r.id = id → ∃ (l : L) (a : RouteArrival K E),
      a.body = .reroute (r.body artifact point) ∧
        (svc.serve l a).1 = some (.rerouted (artifact route))
  | _ => True

/-- What holds of a session between two events. -/
structure KeepsPlan (n : Nav Route LatLon) : Prop where
  routed : ∀ r, n.initialRoute = some r → ∃ now body, Routed svc now body (artifact r)
  followed : ∀ f, n.followedRoute = some f → ∃ r, n.initialRoute = some r ∧
    (artifact f).route.kind = (artifact r).route.kind ∧
      CarriedPreference.of (artifact f).route.preference = .of (artifact r).route.preference

variable {svc artifact point} {n : Nav Route LatLon} {distanceMeters : LatLon → LatLon → ℚ}

/-- A route of `/route` carries its label. -/
theorem Routed.level {now : ℤ} {body : RouteRequest K} {s : ServedRoute K}
    (h : Routed svc now body s) : s.route.preference.level = s.route.kind := by
  obtain ⟨served, hserved, hs⟩ := h
  exact congrArg CarriedPreference.level (RouteService.routed_preference hserved hs)

/-- **A reroute keeps the plan.** -/
theorem KeepsPlan.reroute (h : KeepsPlan svc artifact n) {f route : Route}
    (hf : n.followedRoute = some f) {now : ℤ} {origin destination : Point K}
    (hserved : svc.reroute now ⟨origin, destination, .of (artifact f).route.preference⟩ =
      some (.rerouted (artifact route))) :
    ∃ r, n.initialRoute = some r ∧ (artifact route).route.kind = (artifact r).route.kind ∧
      CarriedPreference.of (artifact route).route.preference =
        .of (artifact r).route.preference := by
  obtain ⟨r, hr, -, hpreference⟩ := h.followed f hf
  obtain ⟨now', body, hrouted⟩ := h.routed r hr
  -- the departure is a clock time of the pack, which is its own
  obtain ⟨hkind, hcarried⟩ := RouteService.rerouted_preference hserved
  have hsame : CarriedPreference.of (artifact route).route.preference =
      .of (artifact f).route.preference := hcarried
  refine ⟨r, hr, ?_, hsame.trans hpreference⟩
  calc (artifact route).route.kind
      = (artifact f).route.preference.level := hkind
    _ = (artifact r).route.preference.level := congrArg CarriedPreference.level hpreference
    _ = (artifact r).route.kind := hrouted.level

variable [FloorRing K] [DecidableEq Route] [DecidableEq LatLon]

theorem KeepsPlan.step (h : KeepsPlan svc artifact n) (hinv : n.Inv distanceMeters)
    (hlive : n.Live) {e : Event Route LatLon} (he : Answered svc artifact point n e) :
    KeepsPlan svc artifact (n.step distanceMeters e) := by
  obtain ⟨hrouted, hfollowed⟩ : (∀ r, (n.take e).initialRoute = some r →
      ∃ now body, Routed svc now body (artifact r)) ∧
    (∀ f, (n.take e).followedRoute = some f → (n.take e).sessionRef = (n.take e).initialRoute →
      ∃ r, (n.take e).initialRoute = some r ∧ (artifact f).route.kind = (artifact r).route.kind ∧
        CarriedPreference.of (artifact f).route.preference =
          .of (artifact r).route.preference) := by
    rcases Nav.take_cases (n := n) e with ⟨initialRoute, destination, rfl⟩ | ⟨hinitial, -, htaken⟩
    · refine ⟨he, fun f hf hsession => ?_⟩
      -- the session is the one that goes on
      have hsame : n.initialRoute = initialRoute := hinv.settled.session.symm.trans hsession
      exact hsame ▸ h.followed f hf
    · rw [hinitial]
      refine ⟨h.routed, fun f hf _ => ?_⟩
      rcases htaken with hsame | ⟨r, hr, hcancelled, route, rfl, hroute⟩
      · exact h.followed f (hsame.symm.trans hf)
      · obtain rfl := Option.some.inj (hroute.symm.trans hf)
        obtain ⟨l, a, hbody, hserved⟩ := he r hr rfl
        have hhandled := RouteService.serve_ok hserved rfl
        rw [hbody] at hhandled
        have hasked : n.followedRoute = some r.route :=
          (congrArg Deps.followedRoute hinv.settled.effect).symm.trans (hlive r hr hcancelled)
        exact h.reroute hasked hhandled
  constructor
  · intro r hr
    rw [Nav.step, Nav.settle_initialRoute] at hr
    exact hrouted r hr
  · intro f hf
    rw [Nav.step, Nav.settle_followedRoute_eq] at hf
    rw [Nav.step, Nav.settle_initialRoute]
    split at hf
    · next hsession => exact hfollowed f hf hsession
    · exact ⟨f, hf, rfl, rfl⟩

variable (svc artifact distanceMeters) in
/-- **The invariant** of a session that the service answers. -/
structure SessionInv (n : Nav Route LatLon) : Prop where
  inv : n.Inv distanceMeters
  live : n.Live
  plan : KeepsPlan svc artifact n

theorem SessionInv.step (h : SessionInv svc artifact distanceMeters n) {e : Event Route LatLon}
    (he : Answered svc artifact point n e) :
    SessionInv svc artifact distanceMeters (n.step distanceMeters e) where
  inv := h.inv.step e
  live := h.live.step h.inv.requests e
  plan := h.plan.step h.inv h.live he

omit [FloorRing K] [DecidableEq Route] [DecidableEq LatLon] in
theorem sessionInv_idle :
    SessionInv svc artifact distanceMeters (Nav.idle : Nav Route LatLon) := by
  refine ⟨Nav.inv_idle, fun r hr => ?_, fun r hr => ?_, fun f hf => ?_⟩
  · cases hr
  · cases hr
  · cases hf

/-- **A session keeps its plan.** What it follows has the level of the route that it started on, and
carries the level, the weight, the budget and the departure of the request that route came from. -/
theorem session_keeps_plan {events : List (Event Route LatLon)}
    (h : Along (Nav.step distanceMeters) (Answered svc artifact point) Nav.idle events) {f : Route}
    (hf : (Nav.run distanceMeters events).followedRoute = some f) :
    ∃ r now body, (Nav.run distanceMeters events).initialRoute = some r ∧
      Routed svc now body (artifact r) ∧
      (artifact f).route.kind = (artifact r).route.kind ∧
      CarriedPreference.of (artifact f).route.preference =
        ⟨(artifact r).route.kind,
          (artifact r).entry.router.lamByKind (artifact r).route.kind,
          body.detourBudgetPct.getD (artifact r).entry.router.alternatives.detourBudgetPct,
          ⟨resolveDeparture body.departureTime (artifact r).entry.tz now, none⟩⟩ := by
  have hinv : SessionInv svc artifact distanceMeters (Nav.run distanceMeters events) :=
    h.invariant (fun _ _ he hn => hn.step he) sessionInv_idle
  obtain ⟨r, hr, hkind, hpreference⟩ := hinv.plan.followed f hf
  obtain ⟨now, body, hrouted⟩ := hinv.plan.routed r hr
  obtain ⟨served, hserved, hs⟩ := hrouted
  exact ⟨r, now, body, hr, ⟨served, hserved, hs⟩, hkind,
    hpreference.trans (RouteService.routed_preference hserved hs)⟩

end Service

/-! ## A session that is rerouted -/

/-- A service that lets every request through. -/
def openService : RouteService ℚ Unit Unit := toyService ⟨fun l _ => (none, l)⟩ 1

theorem selectPack_open (origin destination : Point ℚ) :
    openService.selectPack origin destination = .ok oneStreet := rfl

section

variable (origin destination : Point ℚ) {departure : ℤ}

theorem route_open {safety : Bool} {budget : Option ℚ} {routes : List (RouteOut _ _ ℚ ℤ)}
    (h : oneStreet.router.route 4 ⟨(origin.lat, origin.lon), (destination.lat, destination.lon),
      departure⟩ safety budget = some (.ok routes)) (now : ℤ) :
    openService.route now ⟨origin, destination, some ⟨departure, none⟩, safety, budget⟩ =
      some (.routes (routes.map fun r => ⟨oneStreet, r⟩)) := by
  unfold RouteService.route
  rw [selectPack_open]
  exact congrArg (Option.map _) h

theorem reroute_open {level : Level} {lam budget : ℚ} {s : RouteOut _ _ ℚ ℤ}
    (h : oneStreet.router.reroute 4 ⟨(origin.lat, origin.lon), (destination.lat, destination.lon),
      departure⟩ level lam budget = some (.ok s)) (now : ℤ) :
    openService.reroute now ⟨origin, destination, ⟨level, lam, budget, ⟨departure, none⟩⟩⟩ =
      some (.rerouted ⟨oneStreet, s⟩) := by
  unfold RouteService.reroute
  rw [selectPack_open]
  exact congrArg (Option.map _) h

end

/-- From the start of the street to its end at noon, and again from its middle. -/
theorem routes_oneStreet : ∃ routes,
    oneStreet.router.route 4 ⟨(0, 0), (1, 0), 43200000000⟩ true (some (1 / 4)) =
      some (.ok routes) ∧
    routes.length = 1 ∧ ∀ r ∈ routes, ∃ s,
      oneStreet.router.reroute 4 ⟨(1 / 2, 0), (1, 0), r.preference.departureTime⟩
        r.preference.level r.preference.lam r.preference.detourBudgetPct = some (.ok s) ∧
      r.kind = .fast ∧ s.kind = .fast := by
  decide +kernel

/-- The place `9` is the end of the street, and the others are its middle. -/
def toyPoint (place : ℕ) : Point ℚ := if place = 9 then ⟨1, 0⟩ else ⟨1 / 2, 0⟩

/-- It follows the answer to its request. -/
theorem session_keeps_plan_rerouted : ∃ artifact : ℕ → ServedRoute ℚ,
    (Nav.run (fun _ _ => 1000) (offRoute ++ [.resolved 0 2])).followedRoute = some 2 ∧
    ∃ r now body, (Nav.run (fun _ _ => 1000) (offRoute ++ [.resolved 0 2])).initialRoute = some r ∧
      Routed openService now body (artifact r) ∧
      (artifact 2).route.kind = (artifact r).route.kind ∧
      CarriedPreference.of (artifact 2).route.preference =
        ⟨(artifact r).route.kind,
          (artifact r).entry.router.lamByKind (artifact r).route.kind,
          body.detourBudgetPct.getD (artifact r).entry.router.alternatives.detourBudgetPct,
          ⟨resolveDeparture body.departureTime (artifact r).entry.tz now, none⟩⟩ := by
  obtain ⟨routes, hroutes, hlength, hall⟩ := routes_oneStreet
  obtain ⟨r, rfl⟩ := List.length_eq_one_iff.mp hlength
  obtain ⟨s, hs, -⟩ := hall r List.mem_cons_self
  have hrouted : Routed openService 0 ⟨⟨0, 0⟩, ⟨1, 0⟩, some ⟨43200000000, none⟩, true,
      some (1 / 4)⟩ ⟨oneStreet, r⟩ := 
    ⟨[⟨oneStreet, r⟩], route_open ⟨0, 0⟩ ⟨1, 0⟩ hroutes 0, List.mem_cons_self⟩
  have hrerouted : openService.reroute 0 ⟨⟨1 / 2, 0⟩, ⟨1, 0⟩, .of r.preference⟩ =
      some (.rerouted ⟨oneStreet, s⟩) := reroute_open ⟨1 / 2, 0⟩ ⟨1, 0⟩ hs 0
  have hanswered : Along (Nav.step fun _ _ => 1000)
      (Answered openService (fun n => if n = 2 then ⟨oneStreet, s⟩ else ⟨oneStreet, r⟩) toyPoint)
      Nav.idle (offRoute ++ [.resolved 0 2]) := by
    refine ⟨fun route hroute => ?_, trivial, trivial, fun q hq _ => ?_, trivial⟩
    · obtain rfl := Option.some.inj hroute
      exact ⟨_, _, hrouted⟩
    · have hin : (Nav.run (fun _ _ => 1000) offRoute).inFlight = [⟨0, 0, 9, 1, false⟩] := by
        decide +kernel
      obtain rfl := List.mem_singleton.mp (hin ▸ hq)
      exact ⟨(), ⟨⟨none, []⟩, _, (), 0⟩, rfl, hrerouted⟩
  have hfollowed : (Nav.run (fun _ _ => 1000) (offRoute ++ [.resolved 0 2])).followedRoute =
      some 2 := by decide +kernel
  exact ⟨_, hfollowed, session_keeps_plan hanswered hfollowed⟩

end RoutePlanner.Web
