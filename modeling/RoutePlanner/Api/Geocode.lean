import RoutePlanner.Api.ClientKey
import RoutePlanner.Api.Registry
import RoutePlanner.Api.RetryAfter
import RoutePlanner.Lib.Fifo
import RoutePlanner.Lib.Run

/-!
# `api/geocode.py`: the search box's proxy

A deployment runs any number of replicas. Each keeps a cache of its own, and all of them ask one
limiter before they ask Nominatim. A request is a coroutine that stops twice: for the limiter's
answer, and for Nominatim's. In between the others go on, so a run is a list of events in any
order: a request arrives at a replica, the limiter serves one, Nominatim replies to one.

`Deployment` also logs what the limiter was asked, what went to Nominatim, and what was stored;
nothing reads the logs.

* `present_eq`: on a validated registry nothing raises, and an unbounded query keeps the first five
  results that some served box holds.
* `params_ok`: nor does what goes to Nominatim.
-/

namespace RoutePlanner.Api

open RoutePlanner.Lib

variable {K L E : Type}

/-! ## The data -/

/-- The validated set of served packs: what `PackRegistry.__init__` lets through. -/
structure PackRegistry (K : Type) [LinearOrder K] where
  packs : List (Pack K)
  nonempty : packs ≠ []
  valid : validateCoverage packs = .ok ()

/-- `GeocodeResult`. -/
structure GeocodeResult (K : Type) where
  name : String
  lat : K
  lon : K
  deriving DecidableEq

/-- An item of Nominatim's answer: `display_name`, and what `float` makes of `lat` and `lon`, if
they are there and are numbers. -/
structure Item (K : Type) where
  displayName : Option String
  lat : Option K
  lon : Option K
  deriving DecidableEq

/-- What comes of a request to Nominatim: an exception, or a status and the list that the body
holds, if it does. -/
inductive Upstream (K : Type) where
  | failed
  | status (code : ℕ) (body : Option (List (Item K)))
  deriving DecidableEq

/-- The parameters of a request to Nominatim: `viewbox` in its order, west, north, east, south. With
it goes `bounded=1`. -/
structure Params (K : Type) where
  q : Text
  format : String
  limit : ℕ
  viewbox : Option (K × K × K × K)
  deriving DecidableEq

/-- `unknown region {region!r}; served regions: {', '.join(names)}`. -/
structure UnknownRegion where
  region : String
  served : List String
  deriving DecidableEq

/-- What a request is answered. `invalid` is the framework's own 422. -/
inductive Response (K : Type) where
  | invalid
  | unknownRegion (e : UnknownRegion)
  | ok (results : List (GeocodeResult K))
  | unavailable
  | tooMany (retryAfter : String)
  | badGateway
  | serverError
  deriving DecidableEq

namespace Response

def status : Response K → ℕ
  | invalid => 422
  | unknownRegion _ => 422
  | ok _ => 200
  | unavailable => 503
  | tooMany _ => 429
  | badGateway => 502
  | serverError => 500

/-- The `detail` of the errors that have a fixed one. -/
def detail : Response K → Option String
  | unavailable => some "geocoding is temporarily unavailable"
  | tooMany _ => some "too many geocoding requests"
  | badGateway => some "geocoding service unavailable"
  | _ => none

/-- The header `Retry-After`. -/
def retryAfter : Response K → Option String
  | unavailable => some "5"
  | tooMany retryAfter => some retryAfter
  | _ => none

end Response

/-- `acquire` of a limiter: a wait, none if admitted, or none at all for `LimiterUnavailable`. -/
structure Limiter (L E K : Type) where
  acquire : L → E → Option (Option K) × L

/-- `InProcessTokenBucket`, at the readings of its clock. -/
def inProcessLimiter [Field K] [LinearOrder K] : Limiter (InProcessTokenBucket K) K K where
  acquire b now := (some (b.acquire now).1, (b.acquire now).2)

/-- A request, and the replica it comes to. -/
structure GeocodeRequest where
  replica : ℕ
  q : Text
  region : Option String
  deriving DecidableEq

/-- Where a request is: at `acquire`, at `client.get`, or done. `effective` is its local
variable. -/
inductive Stage (K : Type) where
  | asking (effective : Option String)
  | upstream (effective : Option String)
  | answered (response : Response K)
  deriving DecidableEq

/-- A key of `_cache`. -/
abbrev CacheKey := Text × Option String

/-- One `_cache[key] = results`: whose reply it was, and the items it came with. -/
structure Stored (K : Type) where
  request : ℕ
  replica : ℕ
  key : CacheKey
  items : List (Item K)
  results : List (GeocodeResult K)
  deriving DecidableEq

/-- `_CACHE_MAX`. -/
def cacheMax : ℕ := 512

/-- `_RESULT_LIMIT`. -/
def resultLimit : ℕ := 5

/-- `_UNBOUNDED_LIMIT`. -/
def unboundedLimit : ℕ := 20

/-! ## The code -/

/-- The bounds of `q` and `region` in the signature of `geocode`. -/
def GeocodeRequest.InBounds (req : GeocodeRequest) : Prop :=
  2 ≤ req.q.length ∧ req.q.length ≤ 200 ∧ ∀ region ∈ req.region, region.length ≤ 100

instance (req : GeocodeRequest) : Decidable req.InBounds := inferInstanceAs (Decidable (_ ∧ _))

/-- `_effective_region`. -/
def effectiveRegion (names : List String) (region : Option String) :
    Except UnknownRegion (Option String) :=
  match region with
  | none => .ok (if names.length = 1 then names.head? else none)
  | some region => if region ∈ names then .ok (some region) else .error ⟨region, names⟩

/-- The items as results, if every one has both coordinates. -/
def readItems (items : List (Item K)) : Option (List (GeocodeResult K)) :=
  items.mapM fun item => do
    let lat ← item.lat
    let lon ← item.lon
    return { name := item.displayName.getD "", lat, lon }

/-- The `viewbox` of a box. `if bbox:` lets a null and an empty one pass. -/
def viewbox : Option (List K) → Except UnpackError (Option (K × K × K × K))
  | none => .ok none
  | some [] => .ok none
  | some [west, south, east, north] => .ok (some (west, north, east, south))
  | some bbox => .error ⟨bbox.length⟩

section

variable [LE K] [DecidableLE K]

/-- `any(bbox_contains(b, point) for b in boxes)`. -/
def anyContains (packs : List (Pack K)) (point : Point K) : Except UnpackError Bool :=
  match packs with
  | [] => .ok false
  | pack :: packs => do
    if ← bboxContains pack.bbox point then
      return true
    anyContains packs point

/-- The results inside some served box. -/
def keepServed (packs : List (Pack K)) :
    List (GeocodeResult K) → Except UnpackError (List (GeocodeResult K))
  | [] => .ok []
  | r :: results => do
    let inside ← anyContains packs ⟨r.lat, r.lon⟩
    let rest ← keepServed packs results
    return if inside then r :: rest else rest

/-- What `geocode` keeps of the results. -/
def present (packs : List (Pack K)) (effective : Option String)
    (results : List (GeocodeResult K)) : Except UnpackError (List (GeocodeResult K)) :=
  match effective with
  | some _ => .ok results
  | none => do
    let results ← keepServed packs results
    return results.take resultLimit

/-! ## What is kept of the results -/

instance decCovers (pack : Pack K) (point : Point K) : Decidable (pack.Covers point) :=
  match h : bboxContains pack.bbox point with
  | .ok true => isTrue h
  | .ok false => isFalse fun hcov => by
    rw [Pack.Covers, h] at hcov
    cases hcov
  | .error _ => isFalse fun hcov => by
    rw [Pack.Covers, h] at hcov
    cases hcov

/-- Some served box holds the result. -/
def GeocodeResult.Inside (packs : List (Pack K)) (r : GeocodeResult K) : Prop :=
  ∃ pack ∈ packs, pack.Covers ⟨r.lat, r.lon⟩

instance decInside (packs : List (Pack K)) (r : GeocodeResult K) : Decidable (r.Inside packs) :=
  inferInstanceAs (Decidable (∃ pack ∈ packs, _))

theorem anyContains_eq {packs : List (Pack K)} {point : Point K}
    (h : ∀ pack ∈ packs, ∃ b, bboxContains pack.bbox point = .ok b) :
    anyContains packs point = .ok (decide (∃ pack ∈ packs, pack.Covers point)) := by
  induction packs with
  | nil => simp [anyContains]
  | cons pack packs ih =>
    obtain ⟨b, hb⟩ := h pack List.mem_cons_self
    have hrest := ih fun p hp => h p (List.mem_cons_of_mem _ hp)
    cases b with
    | true =>
      have hcov : ∃ p ∈ pack :: packs, p.Covers point := ⟨pack, List.mem_cons_self, hb⟩
      simp only [anyContains, hb, hcov, decide_true]
      rfl
    | false =>
      have hnot : ¬pack.Covers point := by
        rw [Pack.Covers, hb]
        simp
      have hiff : (∃ p ∈ pack :: packs, p.Covers point) ↔ ∃ p ∈ packs, p.Covers point := by
        simp [hnot]
      simp only [anyContains, hb, hiff]
      exact hrest

theorem keepServed_eq {packs : List (Pack K)}
    (h : ∀ pack ∈ packs, ∀ point, ∃ b, bboxContains pack.bbox point = .ok b)
    (results : List (GeocodeResult K)) :
    keepServed packs results = .ok (results.filter fun r => r.Inside packs) := by
  induction results with
  | nil => rfl
  | cons r results ih =>
    rw [keepServed, anyContains_eq fun pack hpack => h pack hpack _, ih, List.filter_cons]
    rfl

/-- **What a validated registry keeps** of the results. -/
theorem present_eq {packs : List (Pack K)} (h : Valid packs) (effective : Option String)
    (results : List (GeocodeResult K)) :
    present packs effective results = .ok (if effective = none then
      (results.filter fun r => r.Inside packs).take resultLimit else results) := by
  cases effective with
  | some name => rfl
  | none =>
    rw [present, keepServed_eq h.readable]
    rfl

end

/-! ## The deployment -/

/-- What a deployment runs with. `lower` is `str.lower`. -/
structure GeocodeApp (K L E : Type) [LinearOrder K] where
  registry : PackRegistry K
  lower : Text → Text
  limiter : Limiter L E K

/-- The caches of the replicas, the limiter's state, the requests and where they are, and the
logs. -/
structure Deployment (K L E : Type) where
  caches : ℕ → List (CacheKey × List (GeocodeResult K))
  limiter : L
  requests : List GeocodeRequest
  stage : ℕ → Option (Stage K)
  calls : List (ℕ × E)
  sent : List (ℕ × Params K)
  stored : List (Stored K)

/-- An event of a run. Requests are numbered in the order they arrive. -/
inductive GeocodeEvent (K E : Type) where
  | arrive (req : GeocodeRequest)
  | acquire (i : ℕ) (e : E)
  | reply (i : ℕ) (reply : Upstream K)
  deriving DecidableEq

namespace Deployment

/-- A deployment before its first request. -/
def init (limiter : L) : Deployment K L E where
  caches := fun _ => []
  limiter := limiter
  requests := []
  stage := fun _ => none
  calls := []
  sent := []
  stored := []

/-- Request `i` goes on to a stage. -/
def goTo (s : Deployment K L E) (i : ℕ) (stage : Stage K) : Deployment K L E :=
  { s with stage := Function.update s.stage i (some stage) }

/-- Request `i` is answered. -/
def answer (s : Deployment K L E) (i : ℕ) (response : Response K) : Deployment K L E :=
  s.goTo i (.answered response)

/-- The requests that the limiter served. -/
def asked (s : Deployment K L E) : List ℕ := s.calls.map Prod.fst

/-- What a replica stored, in order. -/
def storedOn (s : Deployment K L E) (replica : ℕ) : List (CacheKey × List (GeocodeResult K)) :=
  (s.stored.filter fun st => st.replica = replica).map fun st => (st.key, st.results)

end Deployment

namespace GeocodeApp

variable [Field K] [LinearOrder K] [FloorRing K]

variable (app : GeocodeApp K L E)

/-- `registry.names()`. -/
def names : List String := app.registry.packs.map Pack.name

/-- The key of a query. -/
def key (q : Text) (effective : Option String) : CacheKey := (app.lower (strip q), effective)

/-- `registry[effective].bbox`, or none for an unbounded query. A name that `_effective_region`
returns is served. -/
def bbox (effective : Option String) : Option (List K) :=
  effective.bind fun name => (app.registry.packs.find? fun p => p.name = name).bind Pack.bbox

/-- The parameters of the request to Nominatim. -/
def params (q : Text) (effective : Option String) : Except UnpackError (Params K) := do
  let viewbox ← viewbox (app.bbox effective)
  let limit := if effective = none then unboundedLimit else resultLimit
  return { q, format := "jsonv2", limit, viewbox }

/-- `geocode` up to the limiter. -/
def look (s : Deployment K L E) (req : GeocodeRequest) : Stage K :=
  if req.InBounds then
    match effectiveRegion app.names req.region with
    | .error e => .answered (.unknownRegion e)
    | .ok effective =>
      match lookup (app.key req.q effective) (s.caches req.replica) with
      | some results => .answered (.ok results)
      | none => .asking effective
  else .answered .invalid

/-- `geocode` on what the limiter said, up to Nominatim. -/
def afterAcquire (s : Deployment K L E) (i : ℕ) (q : Text) (effective : Option String)
    (answer : Option (Option K)) : Deployment K L E :=
  match answer with
  | none => s.answer i .unavailable
  | some (some wait) => s.answer i (.tooMany (retryAfterHeader wait))
  | some none =>
    match app.params q effective with
    | .error _ => s.answer i .serverError
    | .ok params => { s.goTo i (.upstream effective) with sent := s.sent ++ [(i, params)] }

/-- `_cache[key] = results`, when the oldest entry has made room. -/
def keep (s : Deployment K L E) (st : Stored K) : Deployment K L E :=
  { s with
    caches := Function.update s.caches st.replica
      (Fifo.put cacheMax (s.caches st.replica) (st.key, st.results))
    stored := s.stored ++ [st] }

/-- `geocode` from Nominatim's answer on. -/
def afterReply (s : Deployment K L E) (i : ℕ) (req : GeocodeRequest) (effective : Option String)
    (reply : Upstream K) : Deployment K L E :=
  match reply with
  | .failed => s.answer i .serverError
  | .status code body =>
    if code ≠ 200 then s.answer i .badGateway
    else
      match body with
      | none => s.answer i .serverError
      | some items =>
        match readItems items with
        | none => s.answer i .serverError
        | some results =>
          match present app.registry.packs effective results with
          | .error _ => s.answer i .serverError
          | .ok results =>
            (keep s ⟨i, req.replica, app.key req.q effective, items, results⟩).answer i
              (.ok results)

/-- One event. What its request does not wait for changes nothing. -/
def step (s : Deployment K L E) : GeocodeEvent K E → Deployment K L E
  | .arrive req =>
    { s.goTo s.requests.length (app.look s req) with requests := s.requests ++ [req] }
  | .acquire i e =>
    match s.requests[i]?, s.stage i with
    | some req, some (.asking effective) =>
      let (answer, limiter) := app.limiter.acquire s.limiter e
      app.afterAcquire { s with limiter, calls := s.calls ++ [(i, e)] } i req.q effective answer
    | _, _ => s
  | .reply i reply =>
    match s.requests[i]?, s.stage i with
    | some req, some (.upstream effective) => app.afterReply s i req effective reply
    | _, _ => s

/-- The deployment after some events. -/
def run (limiter : L) (events : List (GeocodeEvent K E)) : Deployment K L E :=
  events.foldl app.step (Deployment.init limiter)

omit [Field K] [FloorRing K] in
/-- **What goes to Nominatim** raises nothing: a served box has four numbers, or is null. -/
theorem params_ok (q : Text) (effective : Option String) :
    ∃ params, app.params q effective = .ok params := by
  have hwell := ((validateCoverage_ok_iff _).mp app.registry.valid).2.2.1
  have hbox : ∃ box, viewbox (app.bbox effective) = .ok box := by
    cases hbbox : app.bbox effective with
    | none => exact ⟨none, rfl⟩
    | some bbox =>
      obtain ⟨name, -, hname⟩ := Option.bind_eq_some_iff.mp hbbox
      obtain ⟨pack, hfind, hpack⟩ := Option.bind_eq_some_iff.mp hname
      obtain ⟨box, hbox⟩ := hwell pack (List.mem_of_find?_eq_some hfind) bbox hpack
      rw [checkBBox_ok hbox]
      exact ⟨_, rfl⟩
  obtain ⟨box, hbox⟩ := hbox
  exact ⟨_, by rw [params, hbox]; rfl⟩

end GeocodeApp

/-- Two metros, apart. -/
def twoMetros : PackRegistry ℚ where
  packs := [⟨"metro_a", some [10, 10, 11, 11]⟩, ⟨"metro_b", some [20, 20, 21, 21]⟩]
  nonempty := by simp
  valid := by
    rw [validateCoverage, if_neg (not_not.mpr ((dupes_eq_nil_iff _).mpr (by decide)))]
    rfl

end RoutePlanner.Api
