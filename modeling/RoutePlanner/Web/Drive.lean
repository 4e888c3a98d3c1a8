import RoutePlanner.Web.Page
import RoutePlanner.Web.Session

/-!
# A drive: the page, the hook and the service

While it navigates, the page passes the selected route to `useNavigation`, and the hook asks the
service that the page has asked. A render passes what its page holds, and an event gives which
objects its destination and its position are.

* `Drive.Inv.step`: the hook is on the route that the page has selected, and keeps to its plan.
* **`drive_as_picked`**: what is followed is what the page shows as picked, for what it asked.
-/

namespace RoutePlanner.Web

open RoutePlanner.Api RoutePlanner.Lib
open RoutePlanner.Planner (Level)
open RoutePlanner.Recorder (RouteKind)

/-! ## The system -/

section

variable (K Route LatLon : Type)

/-- The page and its hook. -/
structure Drive where
  home : Home K Route
  nav : Nav Route LatLon

/-- What can happen to the page, with the objects that its render passes, or to the hook. -/
inductive DriveEvent where
  | home (e : HomeEvent K) (destination position : Option LatLon)
  | progress (progress : Option RouteProgressState)
  | resolved (id : ℕ) (route : Route)
  | rejected (id : ℕ) (message : String)

end

variable {K L E Route LatLon : Type} [Field K] [LinearOrder K]

section Code

variable [DecidableEq Route] [DecidableEq LatLon]
variable (env : HomeEnv K Route) (distanceMeters : LatLon → LatLon → ℚ)

/-- What the page passes as `initialRoute`. -/
def Home.initialRoute (page : Home K Route) : Option Route :=
  if page.navigating then page.search.activeRoute env else none

namespace Drive

def initial (departure : String) : Drive K Route LatLon := ⟨.initial departure, .idle⟩

/-- One event. -/
def step (d : Drive K Route LatLon) : DriveEvent K Route LatLon → Drive K Route LatLon
  | .home e destination position =>
    let home := d.home.step env e
    let planned := d.nav.step distanceMeters (.planner (home.initialRoute env) destination)
    ⟨home, planned.step distanceMeters (.position position)⟩
  | .progress progress => { d with nav := d.nav.step distanceMeters (.progress progress) }
  | .resolved id route => { d with nav := d.nav.step distanceMeters (.resolved id route) }
  | .rejected id message => { d with nav := d.nav.step distanceMeters (.rejected id message) }

/-- **The drive after the events.** -/
def run (departure : String) (events : List (DriveEvent K Route LatLon)) : Drive K Route LatLon :=
  events.foldl (step env distanceMeters) (initial departure)

end Drive

end Code

/-! ## The service -/

/-- The level of a card. -/
def levelOf : RouteKind → Level
  | .fast => .fast
  | .balanced => .balanced
  | .safe => .safe

/-- What `fetchRoutes` sends. The departure has no offset, and `clock` reads it. -/
def RouteAsk.body (clock : String → ℤ) (ask : RouteAsk K) : RouteRequest K :=
  ⟨ask.origin, ask.destination, some ⟨clock ask.departureTime, none⟩, ask.safetyEnabled,
    some ask.detourBudgetPct⟩

variable [IsStrictOrderedRing K] [FloorRing K]
variable (svc : RouteService K L E) (env : HomeEnv K Route) (artifact : Route → ServedRoute K)
variable (clock : String → ℤ) (point : LatLon → Point K)

/-- **The service answers the page**, and a route is of the kind that it holds. -/
structure Serves : Prop where
  answer : ∀ n ask routes, env.answer n ask = .routes routes → ∃ (l : L) (a : RouteArrival K E),
    a.body = .route (ask.body clock) ∧ (svc.serve l a).1 = some (.routes (routes.map artifact))
  kind : ∀ route, (artifact route).route.kind = levelOf (env.kind route)

/-- The service answers the hook. -/
def Served (d : Drive K Route LatLon) : DriveEvent K Route LatLon → Prop
  | .resolved id route => Answered svc artifact point d.nav (.resolved id route)
  | _ => True

/-- **What is followed is what was picked**: it has the kind of the selected route, and the weight,
the budget and the departure of what the page has asked, for the two ends of its link. When the page
waits for nothing, that is what its inputs ask. -/
def AsPicked (page : Home K Route) (f : Route) : Prop :=
  page.navigating = true ∧ ∃ r ask, page.search.activeRoute env = some r ∧
    page.search.googleMapsHref =
      some (env.googleMapsDirectionsUrl ask.origin ask.destination) ∧
    (artifact f).route.kind = levelOf (env.kind r) ∧
    CarriedPreference.of (artifact f).route.preference =
      ⟨levelOf (env.kind r), (artifact r).entry.router.lamByKind (levelOf (env.kind r)),
        ask.detourBudgetPct, ⟨clock ask.departureTime, none⟩⟩ ∧
    (page.timer = none → page.search.loading = false →
      ∀ ask', page.inputs.ask = some ask' → ask' = ask)

variable {svc env artifact clock point}

/-! ## What the page passes -/

omit [Field K] [LinearOrder K] [IsStrictOrderedRing K] [FloorRing K] in
theorem initialRoute_eq_some {page : Home K Route} {r : Route}
    (h : page.initialRoute env = some r) : page.navigating = true ∧
      page.search.activeRoute env = some r ∧ r ∈ page.search.routes := by
  unfold Home.initialRoute at h
  split at h
  · next hnavigating => exact ⟨hnavigating, h, List.mem_of_find?_eq_some h⟩
  · cases h

/-- A route of an answer was asked for. -/
theorem Serves.routed (h : Serves svc env artifact clock) {n : ℕ} {ask : RouteAsk K}
    {routes : List Route} (hanswer : env.answer n ask = .routes routes) {r : Route}
    (hr : r ∈ routes) : ∃ now, Routed svc now (ask.body clock) (artifact r) := by
  obtain ⟨l, a, hbody, hserved⟩ := h.answer n ask routes hanswer
  have hhandled := RouteService.serve_ok hserved rfl
  rw [hbody] at hhandled
  exact ⟨a.now, _, hhandled, List.mem_map_of_mem hr⟩

omit [Field K] [IsStrictOrderedRing K] [FloorRing K] in
/-- **The routes are the answer to one request**, which is that of the inputs when the page waits
for nothing. -/
theorem Home.Inv.asked {page : Home K Route} (h : page.Inv env) (hne : page.search.routes ≠ []) :
    ∃ n ask, env.answer n ask = .routes page.search.routes ∧
      page.search.googleMapsHref =
        some (env.googleMapsDirectionsUrl ask.origin ask.destination) ∧
      (page.timer = none → page.search.loading = false →
        ∀ ask', page.inputs.ask = some ask' → ask' = ask) := by
  by_cases hwaits : page.timer = none ∧ page.search.loading = false ∧
      ∃ ask, page.inputs.ask = some ask
  · obtain ⟨htimer, hloading, ask, hask⟩ := hwaits
    have hshown := h.shown htimer hloading hask
    split at hshown
    · exact absurd hshown.1 hne
    · cases hanswer : env.answer page.search.reqSeq ask with
      | failed message =>
        rw [hanswer] at hshown
        exact absurd hshown.1 hne
      | routes routes =>
        rw [hanswer] at hshown
        obtain ⟨hroutes, -, hhref⟩ := hshown
        refine ⟨_, ask, hroutes ▸ hanswer, hhref, fun _ _ ask' hask' => ?_⟩
        exact Option.some.inj (hask'.symm.trans hask)
  · obtain ⟨n, -, ask, hanswer, hhref⟩ := h.search.answer hne
    exact ⟨n, ask, hanswer, hhref,
      fun htimer hloading ask' hask' => absurd ⟨htimer, hloading, ask', hask'⟩ hwaits⟩

/-! ## The invariant -/

section Run

variable [DecidableEq Route] [DecidableEq LatLon] {distanceMeters : LatLon → LatLon → ℚ}
variable {d : Drive K Route LatLon}

variable (svc env artifact distanceMeters) in
/-- **The invariant** of a drive. -/
structure Drive.Inv (d : Drive K Route LatLon) : Prop where
  home : d.home.Inv env
  session : SessionInv svc artifact distanceMeters d.nav
  passed : d.nav.initialRoute = d.home.initialRoute env

theorem Drive.Inv.step (hserves : Serves svc env artifact clock)
    (h : d.Inv svc env artifact distanceMeters) {e : DriveEvent K Route LatLon}
    (he : Served svc artifact point d e) :
    (d.step env distanceMeters e).Inv svc env artifact distanceMeters := by
  have hstays : ∀ e' : Event Route LatLon, (∀ i p, e' ≠ .planner i p) →
      (d.nav.step distanceMeters e').initialRoute = d.home.initialRoute env := fun e' hother => by
    rcases Nav.take_cases (n := d.nav) e' with ⟨i, p, rfl⟩ | ⟨hinitial, -, -⟩
    · exact absurd rfl (hother i p)
    · exact Nav.settle_initialRoute.trans (hinitial.trans h.passed)
  cases e with
  | home e destination position =>
    have hhome := h.home.step e
    have hplanner : Answered svc artifact point d.nav
        (.planner ((d.home.step env e).initialRoute env) destination) := fun r hr => by
      obtain ⟨-, -, hmem⟩ := initialRoute_eq_some hr
      obtain ⟨n, ask, hanswer, -, -⟩ := hhome.asked (List.ne_nil_of_mem hmem)
      obtain ⟨now, hrouted⟩ := hserves.routed hanswer hmem
      exact ⟨now, _, hrouted⟩
    have hposition : ∀ n, Answered svc artifact point n (.position position) := fun _ => trivial
    refine ⟨hhome, (h.session.step hplanner).step (hposition _), ?_⟩
    exact Nav.settle_initialRoute.trans Nav.settle_initialRoute
  | progress progress =>
    have hprogress : Answered svc artifact point d.nav (.progress progress) := trivial
    exact ⟨h.home, h.session.step hprogress, hstays _ fun _ _ => by simp⟩
  | resolved id route => exact ⟨h.home, h.session.step he, hstays _ fun _ _ => by simp⟩
  | rejected id message =>
    have hrejected : Answered svc artifact point d.nav (.rejected id message) := trivial
    exact ⟨h.home, h.session.step hrejected, hstays _ fun _ _ => by simp⟩

/-- **What is followed is what was picked**, in whatever order the user, the GPS, the timer and the
answers to the page and to the hook come. -/
theorem drive_as_picked (hserves : Serves svc env artifact clock) (departure : String)
    {events : List (DriveEvent K Route LatLon)}
    (h : Along (Drive.step env distanceMeters) (Served svc artifact point)
      (Drive.initial departure) events) {f : Route}
    (hf : (Drive.run env distanceMeters departure events).nav.followedRoute = some f) :
    AsPicked env artifact clock (Drive.run env distanceMeters departure events).home f := by
  have hinitial : (Drive.initial departure : Drive K Route LatLon).Inv svc env artifact
      distanceMeters := ⟨Home.Inv.initial departure, sessionInv_idle, rfl⟩
  have hinv : (Drive.run env distanceMeters departure events).Inv svc env artifact
      distanceMeters := h.invariant (fun _ _ he hd => hd.step hserves he) hinitial
  obtain ⟨r, hr, hkind, hpreference⟩ := hinv.session.plan.followed f hf
  obtain ⟨hnavigating, hactive, hmem⟩ := initialRoute_eq_some (hinv.passed.symm.trans hr)
  obtain ⟨n, ask, hanswer, hhref, hasks⟩ := hinv.home.asked (List.ne_nil_of_mem hmem)
  obtain ⟨now, served, hserved, hs⟩ := hserves.routed hanswer hmem
  have hcarried := RouteService.routed_preference hserved hs
  rw [hserves.kind r] at hkind hcarried
  exact ⟨hnavigating, r, ask, hactive, hhref, hkind, hpreference.trans hcarried, hasks⟩

end Run

/-! ## A drive that is rerouted -/

/-- A page over the street, whose start and end have one route. -/
def streetEnv : HomeEnv ℚ ℕ where
  kind _ := .fast
  distanceMeters _ _ := 1000
  googleMapsDirectionsUrl _ _ := "https://www.google.com/maps/dir/?api=1"
  answer _ ask :=
    if ask.origin.lat = 0 ∧ ask.origin.lon = 0 ∧ ask.destination.lat = 1 ∧
      ask.destination.lon = 0 ∧ ask.safetyEnabled = true ∧ ask.detourBudgetPct = 1 / 4
    then .routes [1] else .failed "routing failed"
  liveNavEnabled := true

/-- Every departure is at noon. -/
def noon (_ : String) : ℤ := 43200000000

/-- The user is located at the start of the street, picks its end, drives off the route and is
rerouted. -/
def driven : List (DriveEvent ℚ ℕ ℕ) :=
  [.home (.metaSettles none) none none, .home (.fix ⟨0, 0⟩) none (some 0),
    .home (.setPoint .destination ⟨1, 0⟩) (some 9) (some 0), .home .timer (some 9) (some 0),
    .home (.answered 1) (some 9) (some 0), .home .startNavigating (some 9) (some 0),
    .progress (some ⟨0, true⟩), .resolved 0 2]

theorem drive_as_picked_driven : ∃ artifact : ℕ → ServedRoute ℚ,
    (Drive.run streetEnv (fun _ _ => 1000) "2026-03-02T12:00" driven).nav.followedRoute = some 2 ∧
    AsPicked streetEnv artifact noon
      (Drive.run streetEnv (fun _ _ => 1000) "2026-03-02T12:00" driven).home 2 := by
  obtain ⟨routes, hroutes, hlength, hall⟩ := routes_oneStreet
  obtain ⟨r, rfl⟩ := List.length_eq_one_iff.mp hlength
  obtain ⟨s, hs, hkind, hkind'⟩ := hall r List.mem_cons_self
  have hserves : Serves openService streetEnv
      (fun n => if n = 2 then ⟨oneStreet, s⟩ else ⟨oneStreet, r⟩) noon := by
    refine ⟨fun n ask routes hanswer => ?_, fun route => ?_⟩
    · obtain ⟨⟨olat, olon⟩, ⟨dlat, dlon⟩, text, safety, budget⟩ := ask
      simp only [streetEnv] at hanswer
      split at hanswer
      · next hask =>
        obtain ⟨rfl, rfl, rfl, rfl, rfl, rfl⟩ := hask
        obtain rfl := RouteOutcome.routes.inj hanswer
        exact ⟨(), ⟨⟨none, []⟩, _, (), 0⟩, rfl, route_open ⟨0, 0⟩ ⟨1, 0⟩ hroutes 0⟩
      · cases hanswer
    · have hroute : ∀ a b : ServedRoute ℚ, a = b → a.route.kind = b.route.kind := by
        rintro a _ rfl
        rfl
      by_cases htwo : route = 2
      · exact (hroute _ _ (if_pos htwo)).trans hkind'
      · exact (hroute _ _ (if_neg htwo)).trans hkind
  have hrerouted : openService.reroute 0 ⟨⟨1 / 2, 0⟩, ⟨1, 0⟩, .of r.preference⟩ =
      some (.rerouted ⟨oneStreet, s⟩) := reroute_open ⟨1 / 2, 0⟩ ⟨1, 0⟩ hs 0
  have hserved : Along (Drive.step streetEnv fun _ _ => 1000)
      (Served openService (fun n => if n = 2 then ⟨oneStreet, s⟩ else ⟨oneStreet, r⟩) toyPoint)
      (Drive.initial "2026-03-02T12:00") driven := by
    refine ⟨trivial, trivial, trivial, trivial, trivial, trivial, trivial, fun q hq _ => ?_,
      trivial⟩
    have hin : (Drive.run streetEnv (fun _ _ => 1000) "2026-03-02T12:00"
        driven.dropLast).nav.inFlight = [⟨0, 0, 9, 1, false⟩] := by
      decide +kernel
    obtain rfl := List.mem_singleton.mp (hin ▸ hq)
    exact ⟨(), ⟨⟨none, []⟩, _, (), 0⟩, rfl, hrerouted⟩
  have hfollowed : (Drive.run streetEnv (fun _ _ => 1000) "2026-03-02T12:00"
      driven).nav.followedRoute = some 2 := by decide +kernel
  exact ⟨_, hfollowed, drive_as_picked hserves _ hserved hfollowed⟩

end RoutePlanner.Web
