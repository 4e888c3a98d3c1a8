import RoutePlanner.Api.Geocode
import RoutePlanner.Lib.Dict
import RoutePlanner.Planner.Forward
import RoutePlanner.Planner.Reroute

/-!
# `api/routes.py`: `/route` and `/reroute`

A request first spends a token of its caller. Then its two ends say which pack it is for, and the
router of that pack answers. `resolve_departure` of `api/departure.py` turns a departure into the
local clock of the pack, which is what a route is priced at and what its preference carries.

The framework has validated the bodies. `now` is the reading of the UTC clock, and `fuel` bounds the
searches of a router.

* `selectPack_ok`, `handle_ne_serverError`: the pack that is asked covers both ends, and there is
  nothing to raise.
* `route_ok`, `reroute_ok`: what a router was asked when it answers.
* `routed_preference`, `rerouted_preference`: what the artifacts carry.
-/

namespace RoutePlanner.Api

open RoutePlanner.Lib
open RoutePlanner.Planner (Level Preference RouteOut Router RoutingError)

/-! ## The departure -/

/-- A `datetime`: a wall clock in microseconds, and its offset from UTC if it is aware. -/
structure DateTime where
  wall : ℤ
  utcoffset : Option ℤ

/-- `ZoneInfo`: the offset from UTC at an instant. -/
abbrev ZoneInfo := ℤ → ℤ

/-- **`resolve_departure`.** -/
def resolveDeparture (departure : Option DateTime) (tz : ZoneInfo) (now : ℤ) : ℤ :=
  let departure := departure.getD ⟨now, some 0⟩
  match departure.utcoffset with
  | none => departure.wall
  | some utcoffset =>
    let utc := departure.wall - utcoffset
    utc + tz utc

/-! ## The data -/

variable {K L E : Type} [Field K] [LinearOrder K]

/-- `PackEntry`. The departures of its router are local clock times. -/
structure PackEntry (K : Type) [Field K] [LinearOrder K] where
  pack : Pack K
  edges : ℕ
  turns : ℕ
  router : Router edges turns K ℤ
  tz : ZoneInfo

/-- `_artifact`: a route as its router gave it out. -/
structure ServedRoute (K : Type) [Field K] [LinearOrder K] where
  entry : PackEntry K
  route : RouteOut entry.edges entry.turns K ℤ

/-- `RouteRequest`. -/
structure RouteRequest (K : Type) where
  origin : Point K
  destination : Point K
  departureTime : Option DateTime
  safetyEnabled : Bool
  detourBudgetPct : Option K

/-- `CarriedPreference`, without the basis that nothing reads. -/
structure CarriedPreference (K : Type) where
  level : Level
  lam : K
  detourBudgetPct : K
  departureTime : DateTime

/-- A preference as a client sends it back. -/
def CarriedPreference.of (p : Preference K ℤ) : CarriedPreference K :=
  ⟨p.level, p.lam, p.detourBudgetPct, ⟨p.departureTime, none⟩⟩

/-- `RerouteRequest`. -/
structure RerouteRequest (K : Type) where
  origin : Point K
  destination : Point K
  preference : CarriedPreference K

/-- The body of a request to one of the two endpoints. -/
inductive RouteBody (K : Type) where
  | route (body : RouteRequest K)
  | reroute (body : RerouteRequest K)

/-- What a request is answered. -/
inductive RouteReply (K : Type) [Field K] [LinearOrder K] where
  | routes (routes : List (ServedRoute K))
  | rerouted (route : ServedRoute K)
  | unprocessable (detail : String)
  | tooMany (retryAfter : String)
  | serverError

namespace RouteReply

def status : RouteReply K → ℕ
  | routes _ => 200
  | rerouted _ => 200
  | unprocessable _ => 422
  | tooMany _ => 429
  | serverError => 500

def detail : RouteReply K → Option String
  | unprocessable detail => some detail
  | tooMany _ => some "too many routing requests"
  | _ => none

end RouteReply

/-- A request as it arrives. `env` is what the limiter finds, and `now` what the clock shows when
the handler reads it. -/
structure RouteArrival (K E : Type) where
  request : Request
  body : RouteBody K
  env : E
  now : ℤ

/-- What a deployment runs with: the registry's entries, checked, and a limiter that takes a key. -/
structure RouteService (K L E : Type) [Field K] [LinearOrder K] where
  entries : List (PackEntry K)
  nonempty : entries ≠ []
  valid : validateCoverage (entries.map PackEntry.pack) = .ok ()
  limiter : Limiter L (Text × E) K
  trustedProxies : ℕ
  fuel : ℕ

/-! ## The endpoints -/

namespace RouteService

variable (svc : RouteService K L E)

/-- `registry.pack_for`. -/
def packFor (origin destination : Point K) : Except UnpackError Selection :=
  Api.packFor (svc.entries.map PackEntry.pack) origin destination

/-- `registry[name]`. -/
def entry (name : String) : Option (PackEntry K) :=
  dictGet (svc.entries.map fun e => (e.pack.name, e)) name

/-- `_select_pack`. -/
def selectPack (origin destination : Point K) : Except (RouteReply K) (PackEntry K) :=
  match svc.packFor origin destination with
  | .error _ => .error .serverError
  | .ok (.pack name) =>
    match svc.entry name with
    | none => .error .serverError
    | some entry => .ok entry
  | .ok refusal => .error (.unprocessable (refusal.detail.getD ""))

/-- `enforce_route_quota`: a refusal, or none. It fails open. -/
def enforceRouteQuota [FloorRing K] (l : L) (request : Request) (env : E) :
    Option (RouteReply K) × L :=
  let (answer, l) := svc.limiter.acquire l (quotaKey request svc.trustedProxies, env)
  match answer with
  | some (some retryAfter) => (some (.tooMany (retryAfterHeader retryAfter)), l)
  | _ => (none, l)

section Handlers

variable [IsStrictOrderedRing K]

/-- **`POST /route`.** -/
def route (now : ℤ) (body : RouteRequest K) : Option (RouteReply K) :=
  match svc.selectPack body.origin body.destination with
  | .error reply => some reply
  | .ok entry =>
    let departure := resolveDeparture body.departureTime entry.tz now
    (entry.router.route svc.fuel
      ⟨(body.origin.lat, body.origin.lon), (body.destination.lat, body.destination.lon), departure⟩
      body.safetyEnabled body.detourBudgetPct).map fun
        | .error err => .unprocessable err.text
        | .ok routes => .routes (routes.map fun r => ⟨entry, r⟩)

/-- **`POST /reroute`.** -/
def reroute (now : ℤ) (body : RerouteRequest K) : Option (RouteReply K) :=
  match svc.selectPack body.origin body.destination with
  | .error reply => some reply
  | .ok entry =>
    let pref := body.preference
    let departure := resolveDeparture (some pref.departureTime) entry.tz now
    (entry.router.reroute svc.fuel
      ⟨(body.origin.lat, body.origin.lon), (body.destination.lat, body.destination.lon), departure⟩
      pref.level pref.lam pref.detourBudgetPct).map fun
        | .error err => .unprocessable err.text
        | .ok route => .rerouted ⟨entry, route⟩

/-- The handler of a body. -/
def handle (now : ℤ) : RouteBody K → Option (RouteReply K)
  | .route body => svc.route now body
  | .reroute body => svc.reroute now body

/-- **One request.** There is no reply if a search runs out of fuel. -/
def serve [FloorRing K] (l : L) (a : RouteArrival K E) : Option (RouteReply K) × L :=
  let (refusal, l) := svc.enforceRouteQuota l a.request a.env
  match refusal with
  | some reply => (some reply, l)
  | none => (svc.handle a.now a.body, l)

end Handlers

/-! ## The pack -/

variable {svc}

theorem names_nodup : (svc.entries.map fun e => e.pack.name).Nodup := by
  have h := ((validateCoverage_ok_iff _).mp svc.valid).1
  rw [List.map_map] at h
  exact h

/-- An entry is found under its name. -/
theorem entry_of_mem {e : PackEntry K} (he : e ∈ svc.entries) : svc.entry e.pack.name = some e := by
  refine dictGet_of_mem ?_ (List.mem_map.mpr ⟨e, he, rfl⟩)
  rw [List.map_map]
  exact names_nodup

variable (svc) in
/-- **The selection**: an entry that covers both ends, or a refusal that says why. -/
theorem selectPack_cases (origin destination : Point K) :
    (∃ e ∈ svc.entries, e.pack.Covers origin ∧ e.pack.Covers destination ∧
      svc.selectPack origin destination = .ok e) ∨
    ∃ detail, svc.selectPack origin destination = .error (.unprocessable detail) := by
  obtain ⟨answer, hanswer, hselected⟩ := packFor_spec
    (valid_of_validateCoverage (fun _ _ _ => le_trans) svc.valid) origin destination
  have hpack : svc.packFor origin destination = .ok answer := hanswer
  cases answer with
  | pack name =>
    obtain ⟨pack, hmem, rfl, horigin, hdestination⟩ := hselected
    obtain ⟨e, he, rfl⟩ := List.mem_map.mp hmem
    refine Or.inl ⟨e, he, horigin, hdestination, ?_⟩
    simp only [selectPack, hpack, entry_of_mem he]
  | originOutside | destinationOutside | differentPacks =>
    exact Or.inr ⟨_, by rw [selectPack, hpack]⟩

theorem selectPack_ok {origin destination : Point K} {e : PackEntry K}
    (h : svc.selectPack origin destination = .ok e) :
    e ∈ svc.entries ∧ e.pack.Covers origin ∧ e.pack.Covers destination := by
  rcases selectPack_cases svc origin destination with
    ⟨e', he', horigin, hdestination, hok⟩ | ⟨detail, herror⟩
  · obtain rfl := Except.ok.inj (hok.symm.trans h)
    exact ⟨he', horigin, hdestination⟩
  · exact nomatch herror.symm.trans h

theorem selectPack_error {origin destination : Point K} {reply : RouteReply K}
    (h : svc.selectPack origin destination = .error reply) :
    ∃ detail, reply = .unprocessable detail := by
  rcases selectPack_cases svc origin destination with
    ⟨e, -, -, -, hok⟩ | ⟨detail, herror⟩
  · exact nomatch hok.symm.trans h
  · exact ⟨detail, (Except.error.inj (herror.symm.trans h)).symm⟩

/-! ## The answers -/

variable [IsStrictOrderedRing K]

/-- **What `/route` answers with**: what the router of a pack that covers both ends was asked. -/
theorem route_ok {now : ℤ} {body : RouteRequest K} {served : List (ServedRoute K)}
    (h : svc.route now body = some (.routes served)) :
    ∃ e ∈ svc.entries, e.pack.Covers body.origin ∧ e.pack.Covers body.destination ∧
      ∃ routes, e.router.route svc.fuel
          ⟨(body.origin.lat, body.origin.lon), (body.destination.lat, body.destination.lon),
            resolveDeparture body.departureTime e.tz now⟩
          body.safetyEnabled body.detourBudgetPct = some (.ok routes) ∧
        served = routes.map fun r => ⟨e, r⟩ := by
  unfold route at h
  cases hselect : svc.selectPack body.origin body.destination with
  | error reply =>
    obtain ⟨detail, rfl⟩ := selectPack_error hselect
    rw [hselect] at h
    exact absurd h (by simp)
  | ok e =>
    obtain ⟨he, horigin, hdestination⟩ := selectPack_ok hselect
    rw [hselect] at h
    obtain ⟨answer, hanswer, hreply⟩ := Option.map_eq_some_iff.mp h
    cases answer with
    | error err => exact nomatch hreply
    | ok routes =>
      exact ⟨e, he, horigin, hdestination, routes, hanswer, (RouteReply.routes.inj hreply).symm⟩

/-- **What `/reroute` answers with.** -/
theorem reroute_ok {now : ℤ} {body : RerouteRequest K} {served : ServedRoute K}
    (h : svc.reroute now body = some (.rerouted served)) :
    served.entry ∈ svc.entries ∧ served.entry.pack.Covers body.origin ∧
      served.entry.pack.Covers body.destination ∧
      served.entry.router.reroute svc.fuel
          ⟨(body.origin.lat, body.origin.lon), (body.destination.lat, body.destination.lon),
            resolveDeparture (some body.preference.departureTime) served.entry.tz now⟩
          body.preference.level body.preference.lam body.preference.detourBudgetPct =
        some (.ok served.route) := by
  unfold reroute at h
  cases hselect : svc.selectPack body.origin body.destination with
  | error reply =>
    obtain ⟨detail, rfl⟩ := selectPack_error hselect
    rw [hselect] at h
    exact absurd h (by simp)
  | ok e =>
    obtain ⟨he, horigin, hdestination⟩ := selectPack_ok hselect
    rw [hselect] at h
    obtain ⟨answer, hanswer, hreply⟩ := Option.map_eq_some_iff.mp h
    cases answer with
    | error err => exact nomatch hreply
    | ok route =>
      obtain rfl := RouteReply.rerouted.inj hreply
      exact ⟨he, horigin, hdestination, hanswer⟩

/-- **The preference of a route**: its label, the weight of its label, and the budget and the
departure that the request came to. -/
theorem routed_preference {now : ℤ} {body : RouteRequest K} {served : List (ServedRoute K)}
    (h : svc.route now body = some (.routes served)) {s : ServedRoute K} (hs : s ∈ served) :
    CarriedPreference.of s.route.preference =
      ⟨s.route.kind, s.entry.router.lamByKind s.route.kind,
        body.detourBudgetPct.getD s.entry.router.alternatives.detourBudgetPct,
        ⟨resolveDeparture body.departureTime s.entry.tz now, none⟩⟩ := by
  obtain ⟨e, -, -, -, routes, hroutes, rfl⟩ := route_ok h
  obtain ⟨r, hr, rfl⟩ := List.mem_map.mp hs
  obtain ⟨p, -, ⟨res, -, hsame⟩ | ⟨-, alts, -, -, hsame⟩⟩ := e.router.route_cases hroutes
  · subst hsame
    rw [List.mem_singleton.mp hr]
    rfl
  · subst hsame
    obtain ⟨r', hr', heq⟩ := Planner.mem_withDetourPct hr
    obtain ⟨a, -, rfl⟩ := List.mem_map.mp hr'
    rw [heq]
    rfl

/-- **A reroute carries on the preference** it was asked with, with the departure resolved. -/
theorem rerouted_preference {now : ℤ} {body : RerouteRequest K} {served : ServedRoute K}
    (h : svc.reroute now body = some (.rerouted served)) :
    served.route.kind = body.preference.level ∧
      CarriedPreference.of served.route.preference =
        ⟨body.preference.level, body.preference.lam, body.preference.detourBudgetPct,
          resolveDeparture (some body.preference.departureTime) served.entry.tz now, none⟩ := by
  obtain ⟨p, -, ⟨res, -, hroute⟩ | ⟨-, res, -, hroute⟩⟩ :=
    served.entry.router.reroute_cases (reroute_ok h).2.2.2
  · rw [hroute]
    exact ⟨rfl, rfl⟩
  · rw [hroute]
    exact ⟨rfl, rfl⟩

omit [IsStrictOrderedRing K] in
/-- The quota refuses with `429` only. -/
theorem enforceRouteQuota_fst [FloorRing K] {l : L} {request : Request} {env : E}
    {reply : RouteReply K} (h : (svc.enforceRouteQuota l request env).1 = some reply) :
    reply.status = 429 := by
  unfold enforceRouteQuota at h
  simp only at h
  split at h
  · rw [← Option.some.inj h]
    rfl
  · cases h

/-- **A request that is let through** is answered by its handler. -/
theorem serve_ok [FloorRing K] {l : L} {a : RouteArrival K E} {reply : RouteReply K}
    (h : (svc.serve l a).1 = some reply) (hstatus : reply.status = 200) :
    svc.handle a.now a.body = some reply := by
  unfold serve at h
  simp only at h
  split at h
  · next refused hrefused =>
    rw [Option.some.inj h] at hrefused
    exact absurd (hstatus.symm.trans (enforceRouteQuota_fst hrefused)) (by decide)
  · exact h

/-- **Nothing raises.** -/
theorem handle_ne_serverError (now : ℤ) (body : RouteBody K) :
    svc.handle now body ≠ some .serverError := by
  intro h
  cases body with
  | route body =>
    simp only [handle, route] at h
    split at h
    · next reply hselect =>
      obtain ⟨detail, rfl⟩ := selectPack_error hselect
      exact absurd h (by simp)
    · obtain ⟨answer, -, hreply⟩ := Option.map_eq_some_iff.mp h
      cases answer <;> exact nomatch hreply
  | reroute body =>
    simp only [handle, reroute] at h
    split at h
    · next reply hselect =>
      obtain ⟨detail, rfl⟩ := selectPack_error hselect
      exact absurd h (by simp)
    · obtain ⟨answer, -, hreply⟩ := Option.map_eq_some_iff.mp h
      cases answer <;> exact nomatch hreply

end RouteService

/-! ## A deployment -/

/-- A pack of one street, a kilometre to the north, driven at half of 20 m/s. -/
def oneStreet : PackEntry ℚ where
  pack := ⟨"toy", none⟩
  edges := 1
  turns := 0
  router :=
    { pack :=
        { Planner.oneWayRouter.pack with
          edgeLengthM := fun _ => 1000
          edgeSpeedMps := fun _ => 20
          length_nonneg := fun _ => by norm_num
          speed_pos := fun _ => by norm_num }
      alternatives := Planner.shippedCfg
      astar := false
      impl := .pyref (sortedQueue Search.pyKey)
      nearest := fun pt => some ⟨Fin.last 0, max 0 (min 1 pt.1), max 0 (min 1 pt.1), 0,
        le_max_left _ _, max_le zero_le_one (min_le_left _ _)⟩
      costsAt := fun _ => Planner.computeCosts _ ⟨fun _ => 1 / 2, fun _ => by norm_num⟩
        Planner.plainCfg ⟨Fin.elim0, Fin.elim0, Fin.elim0, Fin.elim0, Fin.elim0, fun t => t.elim0⟩
      heuristic := fun _ _ _ _ => 0
      simProfileVersion := "sim" }
  tz := fun _ => -28800000000

/-- The pack alone, behind any limiter. -/
def toyService (limiter : Limiter L (Text × E) ℚ) (trustedProxies : ℕ) : RouteService ℚ L E where
  entries := [oneStreet]
  nonempty := List.cons_ne_nil _ _
  valid := by
    rw [validateCoverage, if_neg (not_not.mpr ((dupes_eq_nil_iff _).mpr (by decide)))]
    rfl
  limiter := limiter
  trustedProxies := trustedProxies
  fuel := 4

end RoutePlanner.Api
