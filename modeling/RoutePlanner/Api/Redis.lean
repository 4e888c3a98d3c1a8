import Mathlib.Data.Rat.Floor
import RoutePlanner.Api.RateLimit
import RoutePlanner.Lib.Run

/-!
# `api/ratelimit.py`: the token bucket kept in Redis

`RedisTokenBucket` keeps its tokens in a Redis hash that the script `_TAKE_TOKEN` reads and writes,
and that Redis deletes some time after its `PEXPIRE` has passed. A call comes at a reading of
Redis's own clock and finds the hash the call before it left, or none if Redis deleted it.

* `redis_eq_bucket_step`: as long as no hash is deleted before its time, the calls are answered as
  by a bucket that starts full and is never deleted.

What a deletion forgets is nothing: `refilled_of_expired`.
-/

namespace RoutePlanner.Api

open RoutePlanner.Lib

variable {K : Type} [Field K] [LinearOrder K]

/-! ## The script -/

/-- The hash at the bucket's key, and the time from which Redis may delete it. -/
structure RedisHash (K : Type) where
  tokens : K
  ts : K
  expiresAt : K
  deriving DecidableEq

/-- One call: the reading of `TIME`, and whether Redis deleted the key since the call before. -/
structure RedisCall (K : Type) where
  now : K
  deleted : Bool

/-- What the script returns: `allowed` and `retry_after`. -/
structure TakeReply (K : Type) where
  allowed : ℕ
  retryAfter : K

/-- The milliseconds that `_TAKE_TOKEN` gives to `PEXPIRE`. -/
def pexpireMs [FloorRing K] (rate capacity : K) : ℤ := ⌈capacity / rate * (2000 : ℕ)⌉

/-- The script `_TAKE_TOKEN`, on what `HMGET` finds. -/
def takeToken [FloorRing K] (rate capacity now : K) (state : Option (RedisHash K)) :
    TakeReply K × RedisHash K :=
  let (tokens, ts) := match state with
    | some h => (h.tokens, h.ts)
    | none => (capacity, now)
  let elapsed := if now - ts < 0 then 0 else now - ts
  let tokens := min capacity (tokens + elapsed * rate)
  let expiresAt := now + (pexpireMs rate capacity : K) / (1000 : ℕ)
  if 1 ≤ tokens then (⟨1, 0⟩, ⟨tokens - 1, now, expiresAt⟩)
  else (⟨0, (1 - tokens) / rate⟩, ⟨tokens, now, expiresAt⟩)

/-- What `RedisTokenBucket.acquire` makes of the reply. -/
def TakeReply.decode (r : TakeReply K) : Option K :=
  if r.allowed = 1 then none else some r.retryAfter

namespace RedisCall

/-- What `HMGET` finds. -/
def sees (c : RedisCall K) (state : Option (RedisHash K)) : Option (RedisHash K) :=
  if c.deleted then none else state

/-- Redis deletes no key before its time. -/
def InTime (state : Option (RedisHash K)) (c : RedisCall K) : Prop :=
  c.deleted = true → ∀ h ∈ state, h.expiresAt ≤ c.now

end RedisCall

/-- `RedisTokenBucket.acquire`. -/
def redisAcquire [FloorRing K] (rate capacity : K) (state : Option (RedisHash K))
    (c : RedisCall K) : Option K × Option (RedisHash K) :=
  let (reply, hash) := takeToken rate capacity c.now (c.sees state)
  (reply.decode, some hash)

/-- What the calls answer. -/
def redisAnswers [FloorRing K] (rate capacity : K) (state : Option (RedisHash K)) :
    List (RedisCall K) → List (Option K)
  | [] => []
  | c :: calls => (redisAcquire rate capacity state c).1 ::
      redisAnswers rate capacity (redisAcquire rate capacity state c).2 calls

/-- No key is deleted before its time. -/
def ExpiresInTime [FloorRing K] (rate capacity : K) (calls : List (RedisCall K)) : Prop :=
  Along (fun state c => (redisAcquire rate capacity state c).2) RedisCall.InTime none calls

/-! ## The script and `bucket_step` -/

theorem elapsed_eq_max (x : K) : (if x < 0 then 0 else x) = max 0 x := by
  by_cases h : x < 0
  · rw [if_pos h, max_eq_left h.le]
  · rw [if_neg h, max_eq_right (le_of_not_gt h)]

theorem bucketStep_eq_of_refilled {tokens tokens' ts ts' now rate capacity : K}
    (h : min capacity (tokens + max 0 (now - ts) * rate) =
      min capacity (tokens' + max 0 (now - ts') * rate)) :
    bucketStep tokens ts now rate capacity = bucketStep tokens' ts' now rate capacity := by
  simp only [bucketStep, h]

namespace InProcessTokenBucket

/-- A full bucket stays full however long it waits. -/
theorem refilled_of_full [IsStrictOrderedRing K] {b : InProcessTokenBucket K} (hrate : 0 < b.rate)
    (hfull : b.tokens = b.capacity) (now : K) : b.refilled now = b.capacity := by
  have hgain : 0 ≤ max 0 (now - b.ts) * b.rate := mul_nonneg (le_max_left _ _) hrate.le
  refine min_eq_left ?_
  rw [hfull]
  exact le_add_of_nonneg_right hgain

end InProcessTokenBucket

variable [FloorRing K]

/-- The time a hash is kept at least. -/
def ttl (rate capacity : K) : K := (pexpireMs rate capacity : K) / (1000 : ℕ)

/-- On a hash, the script is `bucket_step`. -/
theorem takeToken_some (rate capacity now : K) (h : RedisHash K) :
    (takeToken rate capacity now (some h)).1.decode =
        (bucketStep h.tokens h.ts now rate capacity).2.2 ∧
      (takeToken rate capacity now (some h)).2 =
        ⟨(bucketStep h.tokens h.ts now rate capacity).1,
          (bucketStep h.tokens h.ts now rate capacity).2.1, now + ttl rate capacity⟩ := by
  simp only [takeToken, bucketStep, elapsed_eq_max, ttl]
  split
  · exact ⟨rfl, rfl⟩
  · exact ⟨rfl, rfl⟩

/-- On no hash, it is `bucket_step` of a full bucket. -/
theorem takeToken_none (rate capacity now : K) :
    takeToken rate capacity now none =
      takeToken rate capacity now (some ⟨capacity, now, now⟩) := rfl

/-- The hash a call leaves may go once its `ttl` has passed. -/
theorem expiresAt_of_mem {rate capacity : K} {state : Option (RedisHash K)} {c : RedisCall K}
    {h : RedisHash K} (hmem : h ∈ (redisAcquire rate capacity state c).2) :
    h.expiresAt = c.now + ttl rate capacity := by
  obtain rfl : (takeToken rate capacity c.now (c.sees state)).2 = h := Option.some.inj hmem
  cases c.sees state with
  | some found => rw [(takeToken_some rate capacity c.now found).2]
  | none => rw [takeToken_none, (takeToken_some rate capacity c.now _).2]

section

variable [IsStrictOrderedRing K]

/-- A hash is kept twice as long as an empty bucket takes to fill. -/
theorem fill_le_ttl {rate capacity : K} (hrate : 0 < rate) (hcapacity : 0 ≤ capacity) :
    capacity / rate ≤ ttl rate capacity := by
  have hfill : 0 ≤ capacity / rate := div_nonneg hcapacity hrate.le
  have hceil : capacity / rate * (2000 : ℕ) ≤ (pexpireMs rate capacity : K) := Int.le_ceil _
  rw [ttl, le_div_iff₀ (by norm_num)]
  push_cast at hceil ⊢
  linarith

/-- **A deleted bucket was full**: by the time its hash may go, the refill reaches the
capacity. -/
theorem refilled_of_expired {b : InProcessTokenBucket K} (hrate : 0 < b.rate) (hb : b.Sound)
    {now : K} (hexpired : b.ts + ttl b.rate b.capacity ≤ now) : b.refilled now = b.capacity := by
  have hfill := fill_le_ttl hrate (hb.1.trans hb.2)
  have hwait : b.capacity / b.rate ≤ now - b.ts := by linarith
  have hgain : b.capacity ≤ (now - b.ts) * b.rate := (div_le_iff₀ hrate).mp hwait
  refine min_eq_left ?_
  calc b.capacity ≤ (now - b.ts) * b.rate := hgain
    _ ≤ max 0 (now - b.ts) * b.rate := mul_le_mul_of_nonneg_right (le_max_right _ _) hrate.le
    _ ≤ b.tokens + max 0 (now - b.ts) * b.rate := le_add_of_nonneg_left hb.1

/-! ## The simulation -/

/-- The bucket that the key stands for: a hash holds its tokens, and no hash is a full one. -/
structure Stands (state : Option (RedisHash K)) (b : InProcessTokenBucket K) : Prop where
  sound : b.Sound
  full : state = none → b.tokens = b.capacity
  hash : ∀ h ∈ state, h = ⟨b.tokens, b.ts, b.ts + ttl b.rate b.capacity⟩

/-- The hash that the script works on, a full one made up where the call sees none. -/
theorem Stands.exists_hash {state : Option (RedisHash K)} {b : InProcessTokenBucket K}
    (h : Stands state b) (hrate : 0 < b.rate) {c : RedisCall K} (hc : c.InTime state) :
    ∃ hash : RedisHash K,
      takeToken b.rate b.capacity c.now (c.sees state) =
        takeToken b.rate b.capacity c.now (some hash) ∧
      bucketStep hash.tokens hash.ts c.now b.rate b.capacity =
        bucketStep b.tokens b.ts c.now b.rate b.capacity := by
  by_cases hsees : ∃ hash, c.sees state = some hash
  · obtain ⟨hash, hsees⟩ := hsees
    refine ⟨hash, by rw [hsees], ?_⟩
    have hstate : hash ∈ state := by
      unfold RedisCall.sees at hsees
      split at hsees
      · cases hsees
      · exact hsees
    rw [h.hash hash hstate]
  · have hnone : c.sees state = none := by
      cases hs : c.sees state with
      | none => rfl
      | some hash => exact absurd ⟨hash, hs⟩ hsees
    refine ⟨⟨b.capacity, c.now, c.now⟩, by rw [hnone, takeToken_none], ?_⟩
    apply bucketStep_eq_of_refilled
    have hrefilled : b.refilled c.now = b.capacity := by
      cases hstate : state with
      | none => exact InProcessTokenBucket.refilled_of_full hrate (h.full hstate) c.now
      | some hash =>
        have hdeleted : c.deleted = true := by
          by_contra hkept
          rw [RedisCall.sees, if_neg hkept, hstate] at hnone
          cases hnone
        have hexpired := hc hdeleted hash (by rw [hstate]; rfl)
        rw [h.hash hash (by rw [hstate]; rfl)] at hexpired
        exact refilled_of_expired hrate h.sound hexpired
    rw [InProcessTokenBucket.refilled] at hrefilled
    rw [hrefilled]
    simp

/-- **One call** is answered as by the bucket, and the hash it leaves stands for the bucket's. -/
theorem Stands.acquire {state : Option (RedisHash K)} {b : InProcessTokenBucket K}
    (h : Stands state b) (hrate : 0 < b.rate) {c : RedisCall K} (hc : c.InTime state) :
    (redisAcquire b.rate b.capacity state c).1 = (b.acquire c.now).1 ∧
      Stands (redisAcquire b.rate b.capacity state c).2 (b.acquire c.now).2 := by
  obtain ⟨hash, hsame, hstep⟩ := h.exists_hash hrate hc
  obtain ⟨hanswer, hleft⟩ := takeToken_some b.rate b.capacity c.now hash
  rw [hstep] at hanswer hleft
  constructor
  · rw [redisAcquire, hsame]
    exact hanswer
  · refine ⟨h.sound.acquire c.now hrate, fun hnone => (by cases hnone), fun left hmem => ?_⟩
    obtain rfl : (takeToken b.rate b.capacity c.now (some hash)).2 = left := by
      rw [redisAcquire, hsame] at hmem
      exact Option.some.inj hmem
    have hts : (bucketStep b.tokens b.ts c.now b.rate b.capacity).2.1 = c.now :=
      InProcessTokenBucket.acquire_ts b c.now
    rw [hleft, hts, InProcessTokenBucket.acquire_ts]
    rfl

theorem Stands.answers {rate capacity : K} {state : Option (RedisHash K)}
    {b : InProcessTokenBucket K} (h : Stands state b) (hrate : 0 < rate) (hr : b.rate = rate)
    (hc : b.capacity = capacity) {calls : List (RedisCall K)}
    (htime : Along (fun state c => (redisAcquire rate capacity state c).2) RedisCall.InTime state
      calls) :
    redisAnswers rate capacity state calls = b.answers (calls.map RedisCall.now) := by
  subst hr hc
  induction calls generalizing state b with
  | nil => rfl
  | cons c calls ih =>
    obtain ⟨hanswer, hnext⟩ := h.acquire hrate htime.1
    have hrest := ih hnext hrate htime.2
    rw [List.map_cons, redisAnswers, InProcessTokenBucket.answers, hanswer]
    exact congrArg _ hrest

/-- **The script is the reference bucket.** If Redis deletes no key before its `PEXPIRE` has
passed, every call is admitted or refused, and told to wait, as by a bucket advanced by
`bucket_step` from full. -/
theorem redis_eq_bucket_step {rate capacity : K} (hrate : 0 < rate) (hcapacity : 1 ≤ capacity)
    (made : K) (calls : List (RedisCall K)) (htime : ExpiresInTime rate capacity calls) :
    redisAnswers rate capacity none calls =
      (InProcessTokenBucket.init rate capacity made).answers (calls.map RedisCall.now) := by
  have hstands : Stands none (InProcessTokenBucket.init rate capacity made) :=
    { sound := ⟨zero_le_one.trans hcapacity, le_refl _⟩
      full := fun _ => rfl
      hash := fun h hmem => by cases hmem }
  exact hstands.answers hrate rfl rfl htime

end

/-- A bucket of one token a second: emptied, refused, and deleted two seconds after the refusal. -/
theorem redis_eq_bucket_step_deleted :
    redisAnswers (1 : ℚ) 1 none [⟨5, false⟩, ⟨5, false⟩, ⟨7, true⟩, ⟨7, false⟩] =
      (InProcessTokenBucket.init 1 1 (0 : ℚ)).answers [5, 5, 7, 7] := by
  refine redis_eq_bucket_step (by norm_num) (by norm_num) 0
    [⟨5, false⟩, ⟨5, false⟩, ⟨7, true⟩, ⟨7, false⟩] ?_
  refine ⟨fun h => (by cases h), fun h => (by cases h), fun _ h hmem => ?_,
    fun h => (by cases h), trivial⟩
  have hms : pexpireMs (1 : ℚ) 1 = 2000 := by
    rw [pexpireMs]
    norm_num
  rw [expiresAt_of_mem hmem, ttl, hms]
  norm_num

end RoutePlanner.Api
