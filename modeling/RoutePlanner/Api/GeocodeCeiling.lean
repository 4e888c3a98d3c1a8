import RoutePlanner.Api.GeocodeRuns

/-!
# `api/geocode.py`, `api/ratelimit.py`: the deployment's ceiling

`build_limiter` gives every replica a `RedisTokenBucket` at one key, so the replicas of a deployment
draw from one hash. A call may fail before the script runs or after it.

* `Limiter.run_account`: what goes to Nominatim in a stretch is what the limiter admits in it.
* `redis_admits_le`, `redis_stretch_le`: the limiter admits no more than its script does, and in a
  stretch no more than the capacity and the refill.
* `geocode_ceiling`: so a stretch sends at most the capacity and what the clock's rises refill,
  however many replicas there are, and no request sends twice.
-/

namespace RoutePlanner.Api

open RoutePlanner.Lib

variable {K L E : Type} [Field K] [LinearOrder K] [FloorRing K]

/-! ## The limiters -/

/-- What comes of a call to Redis: nothing, a script whose answer is lost, or an answer. -/
inductive RedisReply (K : Type) where
  | unreachable
  | lost (c : RedisCall K)
  | answered (c : RedisCall K)

deriving instance DecidableEq for RedisCall, RedisReply

/-- The run of the script, if there was one. -/
def RedisReply.script : RedisReply K → Option (RedisCall K)
  | unreachable => none
  | lost c => some c
  | answered c => some c

/-- `RedisTokenBucket`. Any failure is a `LimiterUnavailable`. -/
def redisLimiter (rate capacity : K) : Limiter (Option (RedisHash K)) (RedisReply K) K where
  acquire state
    | .unreachable => (none, state)
    | .lost c => (none, (redisAcquire rate capacity state c).2)
    | .answered c => (some (redisAcquire rate capacity state c).1,
        (redisAcquire rate capacity state c).2)

namespace Limiter

variable (limiter : Limiter L E K)

/-- The limiter's state after some calls. -/
def after (l : L) (es : List E) : L := es.foldl (fun l e => (limiter.acquire l e).2) l

/-- How many of the calls are admitted. -/
def admits (l : L) : List E → ℕ
  | [] => 0
  | e :: es => (if (limiter.acquire l e).1 = some none then 1 else 0) +
      admits (limiter.acquire l e).2 es

omit [Field K] [FloorRing K] in
theorem admits_append (l : L) (es es' : List E) :
    limiter.admits l (es ++ es') =
      limiter.admits l es + limiter.admits (limiter.after l es) es' := by
  induction es generalizing l with
  | nil => simp [admits, after]
  | cons e es ih =>
    rw [List.cons_append, admits, admits, ih, Nat.add_assoc]
    rfl

end Limiter

namespace GeocodeApp

variable (app : GeocodeApp K L E)

/-- What some events ask of the limiter, and what they send. -/
structure Account (s s' : Deployment K L E) (es : List E) : Prop where
  calls : s'.calls.map Prod.snd = s.calls.map Prod.snd ++ es
  limiter : s'.limiter = app.limiter.after s.limiter es
  sent : s'.sent.length = s.sent.length + app.limiter.admits s.limiter es

omit [Field K] [FloorRing K] in
theorem account_same {s s' : Deployment K L E} (hcalls : s'.calls = s.calls)
    (hlimiter : s'.limiter = s.limiter) (hsent : s'.sent = s.sent) : app.Account s s' [] :=
  ⟨by rw [hcalls, List.append_nil], hlimiter, by rw [hsent]; rfl⟩

/-- **One event** sends what the limiter admits. -/
theorem step_account (s : Deployment K L E) (e : GeocodeEvent K E) :
    ∃ es, app.Account s (app.step s e) es := by
  cases e with
  | arrive req => exact ⟨[], app.account_same rfl rfl rfl⟩
  | acquire i e =>
    rw [step]
    split
    · next req effective _ _ =>
      refine ⟨[e], ?_⟩
      show app.Account s (app.afterAcquire
        { s with limiter := (app.limiter.acquire s.limiter e).2, calls := s.calls ++ [(i, e)] } i
        req.q effective (app.limiter.acquire s.limiter e).1) [e]
      cases hanswer : (app.limiter.acquire s.limiter e).1 with
      | none => exact ⟨List.map_append, rfl, by rw [Limiter.admits, hanswer]; rfl⟩
      | some wait =>
        cases wait with
        | some wait =>
          refine ⟨List.map_append, rfl, ?_⟩
          rw [Limiter.admits, hanswer, if_neg (by simp)]
          rfl
        | none =>
          obtain ⟨params, hparams⟩ := app.params_ok req.q effective
          simp only [afterAcquire, hparams]
          refine ⟨List.map_append, rfl, ?_⟩
          rw [Limiter.admits, hanswer, if_pos rfl]
          exact List.length_append
    · exact ⟨[], app.account_same rfl rfl rfl⟩
  | reply i reply =>
    rw [step]
    split
    · next req effective _ _ =>
      refine ⟨[], ?_⟩
      rcases afterReply_cases app s i req effective reply with ⟨_, _, _, _, heq⟩ |
        ⟨_, heq⟩ | ⟨_, _, _, _, heq⟩
      · rw [heq]
        exact app.account_same rfl rfl rfl
      · rw [heq]
        exact app.account_same rfl rfl rfl
      · rw [heq]
        exact app.account_same rfl rfl rfl
    · exact ⟨[], app.account_same rfl rfl rfl⟩

/-- **A stretch** sends what the limiter admits in it. -/
theorem run_account (s : Deployment K L E) (events : List (GeocodeEvent K E)) :
    ∃ es, app.Account s (events.foldl app.step s) es := by
  induction events generalizing s with
  | nil => exact ⟨[], app.account_same rfl rfl rfl⟩
  | cons e events ih =>
    obtain ⟨es, h⟩ := app.step_account s e
    obtain ⟨es', h'⟩ := ih (app.step s e)
    refine ⟨es ++ es', ?_, ?_, ?_⟩
    · rw [List.foldl_cons, h'.calls, h.calls, List.append_assoc]
    · rw [List.foldl_cons, h'.limiter, h.limiter, Limiter.after, Limiter.after, Limiter.after,
        List.foldl_append]
    · rw [List.foldl_cons, h'.sent, h.sent, h.limiter, Limiter.admits_append, Nat.add_assoc]

end GeocodeApp

/-! ## The bucket in Redis -/

/-- The hash after some runs of the script. -/
def redisAfter (rate capacity : K) (state : Option (RedisHash K)) (calls : List (RedisCall K)) :
    Option (RedisHash K) :=
  calls.foldl (fun state c => (redisAcquire rate capacity state c).2) state

theorem redisLimiter_after (rate capacity : K) (state : Option (RedisHash K))
    (es : List (RedisReply K)) :
    (redisLimiter rate capacity).after state es =
      redisAfter rate capacity state (es.filterMap RedisReply.script) := by
  induction es generalizing state with
  | nil => rfl
  | cons e es ih =>
    cases e with
    | unreachable => exact ih state
    | lost c => exact ih _
    | answered c => exact ih _

/-- **The limiter admits no more than its script.** -/
theorem redis_admits_le (rate capacity : K) (state : Option (RedisHash K))
    (es : List (RedisReply K)) :
    (redisLimiter rate capacity).admits state es ≤
      admitted (redisAnswers rate capacity state (es.filterMap RedisReply.script)) := by
  induction es generalizing state with
  | nil => exact Nat.zero_le _
  | cons e es ih =>
    cases e with
    | unreachable =>
      have hnone : (redisLimiter rate capacity).acquire state .unreachable = (none, state) := rfl
      rw [Limiter.admits, hnone, if_neg (by simp), Nat.zero_add]
      exact ih state
    | lost c =>
      have hlost : (redisLimiter rate capacity).acquire state (.lost c) =
          (none, (redisAcquire rate capacity state c).2) := rfl
      rw [Limiter.admits, hlost, if_neg (by simp), Nat.zero_add]
      refine (ih _).trans ?_
      rw [List.filterMap_cons, RedisReply.script, redisAnswers, admitted, admitted,
        List.count_cons]
      exact Nat.le_add_right _ _
    | answered c =>
      have hanswered : (redisLimiter rate capacity).acquire state (.answered c) =
          (some (redisAcquire rate capacity state c).1,
            (redisAcquire rate capacity state c).2) := rfl
      have hrest := ih (redisAcquire rate capacity state c).2
      rw [Limiter.admits, hanswered, List.filterMap_cons, RedisReply.script, redisAnswers,
        admitted, List.count_cons]
      rw [admitted] at hrest
      simp only [Option.some.injEq, beq_iff_eq]
      omega

variable [IsStrictOrderedRing K]

/-- The hash stands for a bucket after any calls. -/
theorem Stands.calls {rate capacity : K} {state : Option (RedisHash K)}
    {b : InProcessTokenBucket K} (h : Stands state b) (hrate : 0 < rate) (hr : b.rate = rate)
    (hc : b.capacity = capacity) {calls : List (RedisCall K)}
    (htime : Along (fun state c => (redisAcquire rate capacity state c).2) RedisCall.InTime state
      calls) :
    ∃ b' : InProcessTokenBucket K, b'.rate = rate ∧ b'.capacity = capacity ∧
      Stands (redisAfter rate capacity state calls) b' := by
  subst hr hc
  induction calls generalizing state b with
  | nil => exact ⟨b, rfl, rfl, h⟩
  | cons c calls ih =>
    have hnext := (h.acquire hrate htime.1).2
    have hrest := ih hnext hrate htime.2
    exact hrest

/-- **A stretch** of calls admits at most the capacity and what the rises of Redis's clock refill
in it. -/
theorem redis_stretch_le {rate capacity : K} (hrate : 0 < rate) (hcapacity : 1 ≤ capacity)
    (before window : List (RedisReply K))
    (htime : ExpiresInTime rate capacity ((before ++ window).filterMap RedisReply.script)) :
    ((redisLimiter rate capacity).admits ((redisLimiter rate capacity).after none before) window :
      K) ≤ capacity + rate * rises ((window.filterMap RedisReply.script).map RedisCall.now) := by
  -- The hash that the stretch finds stands for a bucket, which the stretch draws from.
  have hinit : Stands none (InProcessTokenBucket.init rate capacity (0 : K)) :=
    { sound := ⟨zero_le_one.trans hcapacity, le_refl _⟩
      full := fun _ => rfl
      hash := fun h hmem => by cases hmem }
  rw [ExpiresInTime, List.filterMap_append, along_append] at htime
  obtain ⟨b, hr, hc, hstands⟩ : ∃ b : InProcessTokenBucket K, b.rate = rate ∧
      b.capacity = capacity ∧
      Stands (redisAfter rate capacity none (before.filterMap RedisReply.script)) b :=
    hinit.calls hrate rfl rfl htime.1
  have hanswers := hstands.answers hrate hr hc htime.2
  have hceiling := InProcessTokenBucket.admitted_le (by rw [hr]; exact hrate) hstands.sound
    ((window.filterMap RedisReply.script).map RedisCall.now)
  rw [← hanswers, hr, hc] at hceiling
  rw [redisLimiter_after]
  exact (Nat.cast_le.mpr (redis_admits_le rate capacity _ window)).trans hceiling

/-- **The deployment's ceiling.** However many replicas there are and however their requests
interleave, a stretch of a run sends to Nominatim at most the capacity and what the rises of
Redis's clock refill in it, as long as no hash is deleted before its time; and no request sends
twice. -/
theorem geocode_ceiling (registry : PackRegistry K) (lower : Text → Text) {rate capacity : K}
    (hrate : 0 < rate) (hcapacity : 1 ≤ capacity)
    (events window : List (GeocodeEvent K (RedisReply K))) :
    let app : GeocodeApp K (Option (RedisHash K)) (RedisReply K) :=
      ⟨registry, lower, redisLimiter rate capacity⟩
    let s := app.run none events
    let s' := app.run none (events ++ window)
    let scripts := fun calls : List (ℕ × RedisReply K) =>
      (calls.map Prod.snd).filterMap RedisReply.script
    (s'.sent.map Prod.fst).Nodup ∧
      (ExpiresInTime rate capacity (scripts s'.calls) →
        (s'.sent.length : K) ≤ s.sent.length + capacity +
          rate * rises ((scripts (s'.calls.drop s.calls.length)).map RedisCall.now)) := by
  intro app s s' scripts
  have hinv := GeocodeApp.Inv.run app none (events ++ window)
  refine ⟨hinv.asked.sublist hinv.sent, fun htime => ?_⟩
  obtain ⟨before, hbefore⟩ := app.run_account (Deployment.init none) events
  obtain ⟨during, hduring⟩ := app.run_account s window
  have hs' : window.foldl app.step s = s' := (List.foldl_append).symm
  rw [hs'] at hduring
  have hcalls : scripts s'.calls = scripts s.calls ++ during.filterMap RedisReply.script := by
    simp only [scripts]
    rw [hduring.calls, List.filterMap_append]
  have hwindow : scripts (s'.calls.drop s.calls.length) = during.filterMap RedisReply.script := by
    simp only [scripts]
    rw [List.map_drop, hduring.calls, List.drop_left' (by simp)]
  have hstate : s.limiter = app.limiter.after none before := hbefore.limiter
  have hlog : s.calls.map Prod.snd = before := hbefore.calls
  have hceiling := redis_stretch_le hrate hcapacity before during (by
    rw [List.filterMap_append, ← hlog]
    rw [hcalls] at htime
    exact htime)
  rw [hduring.sent, hwindow, hstate]
  push_cast
  linarith

/-- Two replicas and one bucket of one token a second. -/
def sharedApp : GeocodeApp ℚ (Option (RedisHash ℚ)) (RedisReply ℚ) :=
  ⟨twoMetros, List.map Char.toLower, redisLimiter 1 1⟩

/-- Each replica is asked once, at one moment. -/
def bothAsk : List (GeocodeEvent ℚ (RedisReply ℚ)) :=
  [.arrive ⟨0, "Main St".toList, none⟩, .arrive ⟨1, "Main St".toList, none⟩,
    .acquire 0 (.answered ⟨5, false⟩), .acquire 1 (.answered ⟨5, false⟩)]

/-- The second is told to wait. -/
theorem geocode_ceiling_both_ask :
    let s' := sharedApp.run none bothAsk
    (s'.sent.length : ℚ) ≤ 0 + 1 + 1 * rises (((s'.calls.map Prod.snd).filterMap
      RedisReply.script).map RedisCall.now) := by
  have hcalls : (sharedApp.run none bothAsk).calls =
      [(0, .answered ⟨5, false⟩), (1, .answered ⟨5, false⟩)] := by decide +kernel
  refine (geocode_ceiling twoMetros (List.map Char.toLower) (by norm_num) (by norm_num) []
    bothAsk).2 ?_
  rw [List.nil_append]
  show ExpiresInTime 1 1 (((sharedApp.run none bothAsk).calls.map Prod.snd).filterMap
    RedisReply.script)
  rw [hcalls]
  exact ⟨fun h => (by cases h), fun h => (by cases h), trivial⟩

end RoutePlanner.Api
