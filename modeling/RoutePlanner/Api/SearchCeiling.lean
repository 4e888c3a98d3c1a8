import RoutePlanner.Api.GeocodeCeiling
import RoutePlanner.Api.Routes

/-!
# `api/routes.py`, `api/ratelimit.py`: what one caller may search

The routing quota as a whole: a caller sends what lines of `X-Forwarded-For` it likes, the trusted
proxies write theirs, `client_key` finds the key, `build_route_limiter` has a bucket at it, and only
then is a router asked. Requests of all callers come in any order. With Redis the replicas share the
buckets, and a caller is served while Redis does not answer; in one process a bucket may be
dropped.

* `quotaKey_address`: a request that comes in one line is charged to the address it comes from.
* `searches_le_admits`, `searches_le_admitted`: who asks a router was admitted, or not refused for
  want of an answer.
* `search_ceiling`, `search_ceiling_in_process`: so a stretch of a run asks for one address at most
  the capacity and what the clock's rises refill.
-/

namespace RoutePlanner.Api

open RoutePlanner.Lib

variable {K L E : Type} [Field K] [LinearOrder K]

/-! ## Where a request comes from -/

/-- A request as it is sent: the caller's lines, and the trusted proxies, the outermost first. -/
structure RouteCall (K E : Type) where
  peer : Option Text
  lines : List Text
  proxies : List Proxy
  body : RouteBody K
  env : E
  now : ℤ

namespace RouteCall

variable (c : RouteCall K E)

/-- The request that arrives. -/
def arrival : RouteArrival K E := ⟨⟨c.peer, arrive c.proxies c.lines⟩, c.body, c.env, c.now⟩

/-- The address that the outermost trusted proxy saw, or without proxies the service itself. -/
def address : Text :=
  match c.proxies with
  | [] => peerKey c.peer
  | outermost :: _ => outermost.entry.1

/-- It comes through all trusted proxies, and with them in one line. -/
structure Vouched (hops : ℕ) : Prop where
  proxies : c.proxies.length = hops
  line : c.proxies ≠ [] → arriving c.proxies c.lines.length = 1

variable {c}

omit [Field K] [LinearOrder K] in
/-- **A request is charged to its address**, whatever its caller wrote. -/
theorem quotaKey_address {hops : ℕ} (h : c.Vouched hops) :
    quotaKey c.arrival.request hops = c.address := by
  obtain ⟨rfl, hline⟩ := h
  unfold arrival address
  cases hproxies : c.proxies with
  | nil =>
    unfold quotaKey clientKey
    split
    · rfl
    · exact if_neg fun h => absurd h.1 (Nat.lt_irrefl 0)
  | cons outermost inner =>
    have hone := hline (by rw [hproxies]; exact List.cons_ne_nil _ _)
    rw [hproxies, ← length_arrive] at hone
    have hentries := chain_arrive (outermost :: inner) c.lines
    rw [List.map_cons] at hentries
    have hlater : (arrive (outermost :: inner) c.lines).tail.flatMap chain = [] := by
      obtain ⟨line, hsingle⟩ := List.length_eq_one_iff.mp hone
      rw [hsingle]
      rfl
    have hkey := quotaKey_of_first_line c.peer hentries hlater
    rwa [List.length_map] at hkey

end RouteCall

/-! ## Who asks a router -/

/-- The ends of a request. -/
def RouteBody.ends : RouteBody K → Point K × Point K
  | route body => (body.origin, body.destination)
  | reroute body => (body.origin, body.destination)

namespace RouteService

variable (svc : RouteService K L E)

/-- The key that a request is charged to. -/
def key (a : RouteArrival K E) : Text := quotaKey a.request svc.trustedProxies

/-- What the limiter finds at the requests charged to a key. -/
def envs (k : Text) (arrivals : List (RouteArrival K E)) : List E :=
  (arrivals.filter fun a => svc.key a = k).map RouteArrival.env

/-- The request asks a router: its quota and its pack are found. -/
def searched [FloorRing K] (l : L) (a : RouteArrival K E) : Bool :=
  (svc.enforceRouteQuota l a.request a.env).1.isNone &&
    (svc.selectPack a.body.ends.1 a.body.ends.2).isOk

section Run

variable [IsStrictOrderedRing K] [FloorRing K]

/-- The limiter after some requests. -/
def after (l : L) (arrivals : List (RouteArrival K E)) : L :=
  arrivals.foldl (fun l a => (svc.serve l a).2) l

/-- How many of the requests charged to a key ask a router. -/
def searches (k : Text) (l : L) : List (RouteArrival K E) → ℕ
  | [] => 0
  | a :: arrivals =>
    (if svc.key a = k && svc.searched l a then 1 else 0) +
      searches k (svc.serve l a).2 arrivals

end Run

variable {svc}

theorem envs_cons (k : Text) (a : RouteArrival K E) (arrivals : List (RouteArrival K E)) :
    svc.envs k (a :: arrivals) =
      if svc.key a = k then a.env :: svc.envs k arrivals else svc.envs k arrivals := by
  unfold envs
  by_cases hkey : svc.key a = k
  · rw [List.filter_cons_of_pos (by simpa using hkey), if_pos hkey, List.map_cons]
  · rw [List.filter_cons_of_neg (by simpa using hkey), if_neg hkey]

/-- The keys of vouched requests are their addresses. -/
theorem envs_eq_of_vouched {calls : List (RouteCall K E)}
    (hvouched : ∀ c ∈ calls, c.Vouched svc.trustedProxies) (address : Text) :
    svc.envs address (calls.map RouteCall.arrival) =
      (calls.filter fun c => c.address = address).map RouteCall.env := by
  unfold envs
  rw [List.filter_map, List.map_map]
  have hsame : (calls.filter ((fun a => decide (svc.key a = address)) ∘ RouteCall.arrival)) =
      calls.filter fun c => c.address = address := by
    refine List.filter_congr fun c hc => ?_
    have hkey : svc.key c.arrival = c.address := RouteCall.quotaKey_address (hvouched c hc)
    exact congrArg (fun t => decide (t = address)) hkey
  rw [hsame]
  rfl

variable [FloorRing K]

/-- **Who asks a router** was not refused. -/
theorem not_refused_of_searched {l : L} {a : RouteArrival K E} (h : svc.searched l a = true)
    (wait : K) : (svc.limiter.acquire l (svc.key a, a.env)).1 ≠ some (some wait) := by
  intro hwait
  unfold key at hwait
  simp [searched, enforceRouteQuota, hwait] at h

/-- A request does to the limiter what its key does. -/
theorem serve_limiter [IsStrictOrderedRing K] (l : L) (a : RouteArrival K E) :
    (svc.serve l a).2 = (svc.limiter.acquire l (svc.key a, a.env)).2 := by
  have hquota : (svc.enforceRouteQuota l a.request a.env).2 =
      (svc.limiter.acquire l (svc.key a, a.env)).2 := by
    unfold enforceRouteQuota
    simp only
    split <;> rfl
  rw [← hquota]
  unfold serve
  simp only
  split <;> rfl

end RouteService

variable [IsStrictOrderedRing K] [FloorRing K]

/-! ## Buckets in Redis -/

/-- `build_route_limiter` with Redis: a hash for each key. The shells in front of the hashes keep
nothing, so which of them are dropped does not matter. -/
def redisRouteLimiter (rate capacity : K) :
    Limiter (Text → Option (RedisHash K)) (Text × RedisReply K) K where
  acquire hashes e :=
    let (answer, hash) := (redisLimiter rate capacity).acquire (hashes e.1) e.2
    (answer, Function.update hashes e.1 hash)

/-- Redis gave no answer. -/
def RedisReply.failed : RedisReply K → Bool
  | unreachable => true
  | lost _ => true
  | answered _ => false

section Redis

variable {rate capacity : K} {svc : RouteService K (Text → Option (RedisHash K)) (RedisReply K)}
  (hlimiter : svc.limiter = redisRouteLimiter rate capacity)

include hlimiter

/-- A request changes the hash of its key. -/
theorem serve_hash (hashes : Text → Option (RedisHash K)) (a : RouteArrival K (RedisReply K))
    (k : Text) : (svc.serve hashes a).2 k =
      if svc.key a = k then ((redisLimiter rate capacity).acquire (hashes k) a.env).2
      else hashes k := by
  rw [RouteService.serve_limiter, hlimiter]
  by_cases hkey : svc.key a = k
  · subst hkey
    rw [if_pos rfl]
    exact Function.update_self _ _ _
  · rw [if_neg hkey]
    exact Function.update_of_ne (Ne.symm hkey) _ _

theorem after_hash (hashes : Text → Option (RedisHash K))
    (arrivals : List (RouteArrival K (RedisReply K))) (k : Text) :
    svc.after hashes arrivals k =
      (redisLimiter rate capacity).after (hashes k) (svc.envs k arrivals) := by
  induction arrivals generalizing hashes with
  | nil => rfl
  | cons a arrivals ih =>
    have hrest := ih (svc.serve hashes a).2
    rw [serve_hash hlimiter] at hrest
    rw [RouteService.after, List.foldl_cons, ← RouteService.after, hrest, RouteService.envs_cons]
    split <;> rfl

/-- **Who asks a router** was admitted, or Redis gave no answer. -/
theorem searches_le_admits (hashes : Text → Option (RedisHash K))
    (arrivals : List (RouteArrival K (RedisReply K))) (k : Text) :
    svc.searches k hashes arrivals ≤
      (redisLimiter rate capacity).admits (hashes k) (svc.envs k arrivals) +
        (svc.envs k arrivals).countP RedisReply.failed := by
  induction arrivals generalizing hashes with
  | nil => exact Nat.zero_le _
  | cons a arrivals ih =>
    have hrest := ih (svc.serve hashes a).2
    rw [serve_hash hlimiter] at hrest
    rw [RouteService.searches, RouteService.envs_cons]
    by_cases hkey : svc.key a = k
    · rw [if_pos hkey] at hrest
      rw [if_pos hkey, Limiter.admits, List.countP_cons]
      have hone : (if svc.key a = k && svc.searched hashes a then 1 else 0) ≤
          (if ((redisLimiter rate capacity).acquire (hashes k) a.env).1 = some none then 1 else 0) +
            if a.env.failed = true then 1 else 0 := by
        by_cases hsearched : svc.searched hashes a = true
        · have hopen := RouteService.not_refused_of_searched hsearched
          rw [hlimiter, hkey] at hopen
          cases henv : a.env with
          | unreachable | lost =>
            simp only [RedisReply.failed, if_true]
            split <;> omega
          | answered c =>
            rw [henv] at hopen
            cases hanswer : (redisAcquire rate capacity (hashes k) c).1 with
            | none =>
              have hadmit : ((redisLimiter rate capacity).acquire (hashes k)
                  (.answered c)).1 = some none := congrArg some hanswer
              rw [if_pos hadmit]
              split <;> omega
            | some wait => exact absurd (congrArg some hanswer) (hopen wait)
        · rw [if_neg (by simp [hsearched])]
          exact Nat.zero_le _
      omega
    · rw [if_neg hkey] at hrest
      rw [if_neg hkey, if_neg (by simp [hkey])]
      omega

/-- **The ceiling of an address**, with Redis. However many replicas there are, whatever a caller
writes in the header and whatever it asks for, a stretch of a run asks a router for one address at
most the capacity and what the rises of Redis's clock refill in it, and once more for each time
Redis gave no answer; as long as no hash is deleted before its time. -/
theorem search_ceiling (hrate : 0 < rate) (hcapacity : 1 ≤ capacity)
    (before window : List (RouteCall K (RedisReply K)))
    (hvouched : ∀ c ∈ before ++ window, c.Vouched svc.trustedProxies) (address : Text) :
    let ofAddress := fun calls : List (RouteCall K (RedisReply K)) =>
      (calls.filter fun c => c.address = address).map RouteCall.env
    let scripts := fun calls => (ofAddress calls).filterMap RedisReply.script
    ExpiresInTime rate capacity (scripts (before ++ window)) →
      (svc.searches address (svc.after (fun _ => none) (before.map RouteCall.arrival))
          (window.map RouteCall.arrival) : K) ≤
        capacity + rate * rises ((scripts window).map RedisCall.now) +
          (ofAddress window).countP RedisReply.failed := by
  intro ofAddress scripts htime
  have hbefore : svc.envs address (before.map RouteCall.arrival) = ofAddress before :=
    RouteService.envs_eq_of_vouched (fun c hc => hvouched c (List.mem_append_left _ hc)) address
  have hwindow : svc.envs address (window.map RouteCall.arrival) = ofAddress window :=
    RouteService.envs_eq_of_vouched (fun c hc => hvouched c (List.mem_append_right _ hc)) address
  have hsplit : ofAddress (before ++ window) = ofAddress before ++ ofAddress window := by
    simp only [ofAddress, List.filter_append, List.map_append]
  have hceiling := redis_stretch_le hrate hcapacity (ofAddress before) (ofAddress window)
    (hsplit ▸ htime)
  have hsearches := searches_le_admits hlimiter
    (svc.after (fun _ => none) (before.map RouteCall.arrival)) (window.map RouteCall.arrival)
    address
  rw [after_hash hlimiter, hbefore, hwindow] at hsearches
  have hcast := (Nat.cast_le (α := K)).mpr hsearches
  push_cast at hcast
  exact hcast.trans (add_le_add_left hceiling _)

end Redis

/-- A caller behind one proxy, that forges another entry each time. -/
def forging {E : Type} (env : E) (forged : Text) : RouteCall ℚ E where
  peer := some "10.0.0.7".toList
  lines := [forged]
  proxies := [⟨.appends 1, ⟨"198.51.100.4".toList, by decide⟩⟩]
  body := .route ⟨⟨0, 0⟩, ⟨1 / 2, 0⟩, none, true, none⟩
  env := env
  now := 0

theorem vouched_forging {E : Type} (env : E) (forged : Text) : (forging env forged).Vouched 1 where
  proxies := rfl
  line _ := rfl

/-- Of a bucket of one token. -/
theorem search_ceiling_forging :
    ((toyService (redisRouteLimiter 1 1) 1).searches "198.51.100.4".toList (fun _ => none)
        ([forging (.answered ⟨5, false⟩) "1.1.1.1".toList,
          forging (.answered ⟨5, false⟩) "2.2.2.2".toList].map RouteCall.arrival) : ℚ) ≤
      1 + 1 * rises [5, 5] + (0 : ℕ) := by
  have hlimiter : (toyService (redisRouteLimiter 1 1) 1).limiter =
      redisRouteLimiter (1 : ℚ) 1 := rfl
  refine search_ceiling hlimiter (by norm_num) (by norm_num) []
    [forging (.answered ⟨5, false⟩) "1.1.1.1".toList,
      forging (.answered ⟨5, false⟩) "2.2.2.2".toList] ?_ "198.51.100.4".toList ?_
  · intro c hc
    rcases List.mem_pair.mp hc with rfl | rfl
    · exact vouched_forging _ _
    · exact vouched_forging _ _
  · exact ⟨fun h => (by cases h), fun h => (by cases h), trivial⟩

/-! ## Buckets in one process -/

namespace PerClientLimiter

variable {rate capacity : K}

omit [IsStrictOrderedRing K] [FloorRing K] in
variable (rate capacity) in
theorem answersTo_append (lim : PerClientLimiter Text (InProcessTokenBucket K)) (k : Text)
    (events events' : List (Acquire Text K)) :
    lim.answersTo rate capacity k (events ++ events') =
      lim.answersTo rate capacity k events ++
        (lim.run rate capacity events).answersTo rate capacity k events' := by
  induction events generalizing lim with
  | nil => rfl
  | cons e events ih =>
    have hrest := ih (lim.step rate capacity e).2
    rw [List.cons_append, answersTo, answersTo, hrest]
    split <;> rfl

omit [IsStrictOrderedRing K] [FloorRing K] in
theorem length_answersTo (lim : PerClientLimiter Text (InProcessTokenBucket K)) (k : Text)
    (events : List (Acquire Text K)) :
    (lim.answersTo rate capacity k events).length =
      (events.filter fun e => e.key = k).length := by
  induction events generalizing lim with
  | nil => rfl
  | cons e events ih =>
    rw [answersTo]
    by_cases hkey : e.key = k
    · rw [if_pos hkey, List.filter_cons_of_pos (by simpa using hkey), List.length_cons,
        List.length_cons, ih]
    · rw [if_neg hkey, List.filter_cons_of_neg (by simpa using hkey), ih]

omit [FloorRing K] in
/-- A bucket of one client keeps its ceiling in every stretch. -/
theorem solitary_drop_le (hrate : 0 < rate) (hcapacity : 0 ≤ capacity)
    (events : List (Acquire Text K)) (i : ℕ) :
    (admitted ((solitary rate capacity events).drop i) : K) ≤
      capacity + rate * rises ((events.drop i).map Acquire.now) := by
  cases events with
  | nil =>
    simp only [solitary, List.drop_nil, List.map_nil, rises, admitted, List.count_nil,
      Nat.cast_zero, mul_zero, add_zero]
    exact hcapacity
  | cons e events =>
    have hinit : (InProcessTokenBucket.init rate capacity e.made).Sound := ⟨hcapacity, le_refl _⟩
    obtain ⟨hr, hc⟩ := InProcessTokenBucket.run_fields
      (InProcessTokenBucket.init rate capacity e.made) (((e :: events).map Acquire.now).take i)
    have h := InProcessTokenBucket.admitted_le (by rw [hr]; exact hrate)
      (hinit.run hrate (((e :: events).map Acquire.now).take i))
      (((e :: events).map Acquire.now).drop i)
    rw [hr, hc] at h
    rw [solitary, InProcessTokenBucket.answers_drop, List.map_drop]
    exact h

omit [FloorRing K] in
/-- **A stretch** admits for a client that comes back in time what its own bucket would. -/
theorem answersTo_stretch_le (hrate : 0 < rate) (hcapacity : 0 ≤ capacity) (maxClients : ℤ)
    (before window : List (Acquire Text K)) (k : Text)
    (hreturns : ReturnsWithin (Max.max 1 maxClients).toNat k
      ((before ++ window).map Acquire.key)) :
    (admitted (((init maxClients).run rate capacity before).answersTo rate capacity k window) :
      K) ≤ capacity + rate * rises ((window.filter fun e => e.key = k).map Acquire.now) := by
  have hmax : (0 : ℤ) ≤ Max.max 1 maxClients := zero_le_one.trans (le_max_left _ _)
  have hall : (init maxClients).answersTo rate capacity k (before ++ window) =
      solitary rate capacity ((before ++ window).filter fun e => e.key = k) := by
    rw [answersTo_eq_repliesTo rate capacity hmax, solitary_eq_alone,
      Recency.repliesTo_eq_alone (by rw [keys_recency_init]; exact List.nodup_nil)
        (by rw [keys_recency_init]; exact List.not_mem_nil) (by rw [map_visit_key]; exact hreturns),
      List.filter_map]
    rfl
  have hsplit := answersTo_append rate capacity (init maxClients) k before window
  rw [hall, List.filter_append] at hsplit
  have hceiling := solitary_drop_le hrate hcapacity ((before.filter fun e => e.key = k) ++
    window.filter fun e => e.key = k) (before.filter fun e => e.key = k).length
  rw [hsplit, List.drop_left' (length_answersTo _ _ _), List.drop_left] at hceiling
  exact hceiling

end PerClientLimiter

/-- `build_route_limiter` without Redis, at the readings of the clock when a bucket is made and when
a token is taken. -/
def inProcessRouteLimiter (rate capacity : K) :
    Limiter (PerClientLimiter Text (InProcessTokenBucket K)) (Text × K × K) K where
  acquire lim e :=
    let (answer, lim) := lim.step rate capacity ⟨e.1, e.2.1, e.2.2⟩
    (some answer, lim)

section InProcess

variable {rate capacity : K}
  {svc : RouteService K (PerClientLimiter Text (InProcessTokenBucket K)) (K × K)}
  (hlimiter : svc.limiter = inProcessRouteLimiter rate capacity)

/-- What a request asks of the limiter. -/
def RouteService.acquire (svc : RouteService K L (K × K)) (a : RouteArrival K (K × K)) :
    Acquire Text K :=
  ⟨svc.key a, a.env.1, a.env.2⟩

include hlimiter

theorem serve_step (lim : PerClientLimiter Text (InProcessTokenBucket K))
    (a : RouteArrival K (K × K)) :
    (svc.serve lim a).2 = (lim.step rate capacity (svc.acquire a)).2 := by
  rw [RouteService.serve_limiter, hlimiter]
  rfl

/-- **Who asks a router** was admitted. -/
theorem searches_le_admitted (lim : PerClientLimiter Text (InProcessTokenBucket K))
    (arrivals : List (RouteArrival K (K × K))) (k : Text) :
    svc.searches k lim arrivals ≤
      admitted (lim.answersTo rate capacity k (arrivals.map svc.acquire)) := by
  induction arrivals generalizing lim with
  | nil => exact Nat.zero_le _
  | cons a arrivals ih =>
    have hrest := ih (svc.serve lim a).2
    rw [serve_step hlimiter] at hrest
    rw [RouteService.searches, serve_step hlimiter, List.map_cons, PerClientLimiter.answersTo]
    by_cases hkey : svc.key a = k
    · rw [if_pos (show (svc.acquire a).key = k from hkey), admitted, List.count_cons]
      rw [admitted] at hrest
      have hone : (if svc.key a = k && svc.searched lim a then 1 else 0) ≤
          if (lim.step rate capacity (svc.acquire a)).1 == none then 1 else 0 := by
        by_cases hsearched : svc.searched lim a = true
        · have hopen := RouteService.not_refused_of_searched hsearched
          rw [hlimiter] at hopen
          cases hanswer : (lim.step rate capacity (svc.acquire a)).1 with
          | none =>
            simp only [beq_self_eq_true, if_true]
            split <;> omega
          | some wait => exact absurd (congrArg some hanswer) (hopen wait)
        · rw [if_neg (by simp [hsearched])]
          exact Nat.zero_le _
      omega
    · rw [if_neg (show (svc.acquire a).key ≠ k from hkey), if_neg (by simp [hkey])]
      omega

theorem after_eq_run (lim : PerClientLimiter Text (InProcessTokenBucket K))
    (arrivals : List (RouteArrival K (K × K))) :
    svc.after lim arrivals = lim.run rate capacity (arrivals.map svc.acquire) := by
  unfold RouteService.after PerClientLimiter.run
  rw [List.foldl_map]
  exact congrArg (fun f => arrivals.foldl f lim) (funext₂ (serve_step hlimiter))

omit hlimiter [IsStrictOrderedRing K] [FloorRing K] in
/-- What vouched requests ask of the limiter. -/
theorem map_key_acquire {calls : List (RouteCall K (K × K))}
    (hvouched : ∀ c ∈ calls, c.Vouched svc.trustedProxies) :
    ((calls.map RouteCall.arrival).map svc.acquire).map Acquire.key =
      calls.map RouteCall.address := by
  rw [List.map_map, List.map_map]
  exact List.map_congr_left fun c hc => RouteCall.quotaKey_address (hvouched c hc)

/-- **The ceiling of an address**, in one process: the same, for an address that comes back before
as many others as there are buckets were served. -/
theorem search_ceiling_in_process (hrate : 0 < rate) (hcapacity : 0 ≤ capacity) (maxClients : ℤ)
    (before window : List (RouteCall K (K × K)))
    (hvouched : ∀ c ∈ before ++ window, c.Vouched svc.trustedProxies) (address : Text)
    (hreturns : ReturnsWithin (max 1 maxClients).toNat address
      ((before ++ window).map RouteCall.address)) :
    (svc.searches address (svc.after (.init maxClients) (before.map RouteCall.arrival))
        (window.map RouteCall.arrival) : K) ≤
      capacity + rate * rises (((window.filter fun c => c.address = address).map
        RouteCall.env).map Prod.snd) := by
  have hstretch := PerClientLimiter.answersTo_stretch_le hrate hcapacity maxClients
    ((before.map RouteCall.arrival).map svc.acquire)
    ((window.map RouteCall.arrival).map svc.acquire) address (by
      rw [← List.map_append, ← List.map_append, map_key_acquire hvouched]
      exact hreturns)
  have hclock : ((((window.map RouteCall.arrival).map svc.acquire).filter fun e =>
      e.key = address).map Acquire.now) =
      ((window.filter fun c => c.address = address).map RouteCall.env).map Prod.snd := by
    rw [← RouteService.envs_eq_of_vouched (fun c hc => hvouched c (List.mem_append_right _ hc)),
      List.filter_map, List.map_map, RouteService.envs, List.map_map]
    rfl
  have hsearches := searches_le_admitted hlimiter
    (svc.after (.init maxClients) (before.map RouteCall.arrival)) (window.map RouteCall.arrival)
    address
  rw [after_eq_run hlimiter] at hsearches
  rw [hclock] at hstretch
  rw [after_eq_run hlimiter]
  exact (Nat.cast_le.mpr hsearches).trans hstretch

end InProcess

/-- Two such callers share two buckets of one token. -/
theorem search_ceiling_in_process_forging :
    ((toyService (inProcessRouteLimiter 1 1) 1).searches "198.51.100.4".toList (.init 2)
        ([forging (0, 5) "1.1.1.1".toList, forging (0, 5) "2.2.2.2".toList].map
          RouteCall.arrival) : ℚ) ≤ 1 + 1 * rises [5, 5] := by
  have hlimiter : (toyService (inProcessRouteLimiter 1 1) 1).limiter =
      inProcessRouteLimiter (1 : ℚ) 1 := rfl
  refine search_ceiling_in_process hlimiter (by norm_num) (by norm_num) 2 []
    [forging (0, 5) "1.1.1.1".toList, forging (0, 5) "2.2.2.2".toList] ?_ "198.51.100.4".toList ?_
  · intro c hc
    rcases List.mem_pair.mp hc with rfl | rfl
    · exact vouched_forging _ _
    · exact vouched_forging _ _
  · intro before between after he _
    have hlen := congrArg List.length he
    simp only [List.map_append, List.map_cons, List.map_nil, List.length_append, List.length_cons,
      List.length_nil] at hlen
    have hcard := List.toFinset_card_le between
    have htwo : (max 1 2 : ℤ) = 2 := by decide
    omega

end RoutePlanner.Api
