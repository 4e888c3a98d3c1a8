import Mathlib.Algebra.Order.Field.Basic
import Mathlib.Tactic.Linarith
import Mathlib.Tactic.NormNum
import RoutePlanner.Lib.Recency

/-!
# `api/ratelimit.py`: token buckets

The in-process token bucket and the map that keeps one for each client. Arithmetic is exact, over
an ordered field. A clock is whatever its readings are: one when a bucket is made, one at every
`acquire`, in any order of size.

* `token_bucket_ceiling`: the tokens stay between zero and the capacity, and a stretch of acquires
  admits at most the capacity and what the clock's rises refill.
* `per_client_isolation`: the map stays within its bound, and a client that comes back before
  `max_clients` others were served is answered as by a bucket of its own.

The first rests on an account of one step, `acquire_balance`: what is admitted was there after the
refill. The second is `Recency.repliesTo_eq_alone` of the map, which `acquire_eq` says is what
`PerClientLimiter.acquire` does to its `dict`.
-/

namespace RoutePlanner.Api

open RoutePlanner.Lib

variable {K : Type} [Field K] [LinearOrder K]

/-! ## The bucket -/

/-- `bucket_step`: the tokens, the time stamp, and how long to wait if nothing was taken. -/
def bucketStep (tokens ts now rate capacity : K) : K × K × Option K :=
  let tokens := min capacity (tokens + max 0 (now - ts) * rate)
  if 1 ≤ tokens then (tokens - 1, now, none) else (tokens, now, some ((1 - tokens) / rate))

/-- `InProcessTokenBucket`. -/
structure InProcessTokenBucket (K : Type) where
  rate : K
  capacity : K
  tokens : K
  ts : K
  deriving DecidableEq

namespace InProcessTokenBucket

/-- `InProcessTokenBucket.__init__`, at a reading of its clock. -/
def init (rate capacity now : K) : InProcessTokenBucket K :=
  { rate, capacity, tokens := capacity, ts := now }

/-- `InProcessTokenBucket.acquire`, at a reading of its clock. -/
def acquire (b : InProcessTokenBucket K) (now : K) : Option K × InProcessTokenBucket K :=
  let (tokens, ts, retry) := bucketStep b.tokens b.ts now b.rate b.capacity
  (retry, { b with tokens, ts })

/-- The bucket after one `acquire` at each reading. -/
def run (b : InProcessTokenBucket K) (clock : List K) : InProcessTokenBucket K :=
  clock.foldl (fun b now => (b.acquire now).2) b

/-- What the acquires answer. -/
def answers (b : InProcessTokenBucket K) : List K → List (Option K)
  | [] => []
  | now :: clock => (b.acquire now).1 :: (b.acquire now).2.answers clock

/-- The tokens once the time since the last acquire is credited. -/
def refilled (b : InProcessTokenBucket K) (now : K) : K :=
  min b.capacity (b.tokens + max 0 (now - b.ts) * b.rate)

end InProcessTokenBucket

/-- How many acquires were admitted. -/
def admitted (answers : List (Option K)) : ℕ := answers.count none

/-- How far the clock rises from each reading to the next, a step back counting as none. -/
def rises : List K → K
  | [] => 0
  | [_] => 0
  | a :: b :: clock => max 0 (b - a) + rises (b :: clock)

theorem admitted_cons (a : Option K) (l : List (Option K)) :
    (admitted (a :: l) : K) = admitted [a] + admitted l := by
  rw [← Nat.cast_add, admitted, admitted, admitted, ← List.count_append, List.singleton_append]

namespace InProcessTokenBucket

variable (b : InProcessTokenBucket K) (now : K)

/-- **One acquire**: it takes a token or reports how long to wait, and keeps the rest. -/
theorem acquire_cases :
    (1 ≤ b.refilled now ∧
      b.acquire now = (none, { b with tokens := b.refilled now - 1, ts := now })) ∨
    (b.refilled now < 1 ∧ b.acquire now =
      (some ((1 - b.refilled now) / b.rate), { b with tokens := b.refilled now, ts := now })) := by
  by_cases h : 1 ≤ b.refilled now
  · left
    refine ⟨h, ?_⟩
    unfold refilled at h ⊢
    simp only [acquire, bucketStep, if_pos h]
  · right
    refine ⟨lt_of_not_ge h, ?_⟩
    unfold refilled at h ⊢
    simp only [acquire, bucketStep, if_neg h]

@[simp] theorem acquire_rate : (b.acquire now).2.rate = b.rate := rfl

theorem acquire_ts : (b.acquire now).2.ts = now := by
  rcases acquire_cases b now with ⟨-, h⟩ | ⟨-, h⟩ <;> rw [h]

theorem refilled_le : b.refilled now ≤ b.capacity := min_le_left _ _

theorem answers_drop (clock : List K) (i : ℕ) :
    (b.answers clock).drop i = (b.run (clock.take i)).answers (clock.drop i) := by
  induction i generalizing b clock with
  | zero => rfl
  | succ i ih =>
    cases clock with
    | nil => rfl
    | cons now clock => exact ih (b.acquire now).2 clock

theorem answers_take (clock : List K) (n : ℕ) :
    (b.answers clock).take n = b.answers (clock.take n) := by
  induction n generalizing b clock with
  | zero => rfl
  | succ n ih =>
    cases clock with
    | nil => rfl
    | cons now clock =>
      rw [answers, List.take_succ_cons, List.take_succ_cons, answers, ih]

theorem run_fields (clock : List K) :
    (b.run clock).rate = b.rate ∧ (b.run clock).capacity = b.capacity := by
  induction clock generalizing b with
  | nil => exact ⟨rfl, rfl⟩
  | cons now clock ih => exact ih (b.acquire now).2

/-- What an acquire admits and what it leaves is what the refill gave. -/
theorem acquire_balance :
    (admitted [(b.acquire now).1] : K) + (b.acquire now).2.tokens = b.refilled now := by
  rcases acquire_cases b now with ⟨-, h⟩ | ⟨-, h⟩
  · rw [h]
    simp [admitted]
  · rw [h]
    simp [admitted]

/-- The refill after an acquire is what it left and what the clock's rise brings. -/
theorem refilled_acquire_le (next : K) :
    (b.acquire now).2.refilled next ≤
      (b.acquire now).2.tokens + b.rate * max 0 (next - now) := by
  refine (min_le_right _ _).trans ?_
  rw [acquire_ts, acquire_rate, mul_comm]

/-! ## The invariant -/

/-- The tokens lie between zero and the capacity. -/
def Sound (b : InProcessTokenBucket K) : Prop := 0 ≤ b.tokens ∧ b.tokens ≤ b.capacity

variable {b} [IsStrictOrderedRing K]

theorem refilled_nonneg (hrate : 0 < b.rate) (hb : b.Sound) : 0 ≤ b.refilled now := by
  refine le_min (hb.1.trans hb.2) ?_
  have : 0 ≤ max 0 (now - b.ts) * b.rate := mul_nonneg (le_max_left _ _) hrate.le
  linarith [hb.1]

theorem Sound.acquire (hrate : 0 < b.rate) (hb : b.Sound) : (b.acquire now).2.Sound := by
  have hle := refilled_le b now
  rcases acquire_cases b now with ⟨h1, h⟩ | ⟨-, h⟩
  · rw [h]
    constructor
    · simp only
      linarith
    · simp only
      linarith
  · rw [h]
    exact ⟨refilled_nonneg now hrate hb, hle⟩

theorem Sound.run (hrate : 0 < b.rate) (hb : b.Sound) (clock : List K) : (b.run clock).Sound := by
  induction clock generalizing b with
  | nil => exact hb
  | cons now clock ih => exact ih hrate (hb.acquire now hrate)

/-! ## The account of a stretch -/

/-- **The account.** A stretch admits no more than its first refill and what the clock's rises
bring. -/
theorem admitted_le_refilled (hrate : 0 < b.rate) (hb : b.Sound) (clock : List K) :
    (admitted (b.answers (now :: clock)) : K) ≤ b.refilled now + b.rate * rises (now :: clock) := by
  induction clock generalizing b now with
  | nil =>
    have hleft := (hb.acquire now hrate).1
    have hbalance := acquire_balance b now
    simp only [answers, rises, mul_zero, add_zero]
    linarith
  | cons next clock ih =>
    have hbalance := acquire_balance b now
    have hrefill := refilled_acquire_le b now next
    have hnext : (admitted ((b.acquire now).2.answers (next :: clock)) : K) ≤
        (b.acquire now).2.refilled next + b.rate * rises (next :: clock) :=
      ih next hrate (hb.acquire now hrate)
    have hrises : b.rate * rises (now :: next :: clock) =
        b.rate * max 0 (next - now) + b.rate * rises (next :: clock) := by
      rw [rises, mul_add]
    rw [answers, admitted_cons, hrises]
    linarith

theorem admitted_le (hrate : 0 < b.rate) (hb : b.Sound) (clock : List K) :
    (admitted (b.answers clock) : K) ≤ b.capacity + b.rate * rises clock := by
  cases clock with
  | nil =>
    simp only [answers, admitted, rises, List.count_nil, Nat.cast_zero, mul_zero, add_zero]
    exact hb.1.trans hb.2
  | cons now clock =>
    exact (admitted_le_refilled now hrate hb clock).trans
      (add_le_add_left (refilled_le b now) _)

end InProcessTokenBucket

/-- **The ceiling.** Whatever the clock shows, the tokens stay between zero and the capacity, and
the `n` acquires after the first `i` admit at most the capacity and what the clock rises among
them refills. -/
theorem token_bucket_ceiling [IsStrictOrderedRing K] {rate capacity : K} (hrate : 0 < rate)
    (hcapacity : 0 ≤ capacity) (made : K) (clock : List K) :
    (∀ i, 0 ≤ ((InProcessTokenBucket.init rate capacity made).run (clock.take i)).tokens ∧
      ((InProcessTokenBucket.init rate capacity made).run (clock.take i)).tokens ≤ capacity) ∧
    ∀ i n, (admitted
        ((((InProcessTokenBucket.init rate capacity made).answers clock).drop i).take n) : K) ≤
      capacity + rate * rises ((clock.drop i).take n) := by
  have hinit : (InProcessTokenBucket.init rate capacity made).Sound := ⟨hcapacity, le_refl _⟩
  constructor
  · intro i
    have h := hinit.run hrate (clock.take i)
    rw [InProcessTokenBucket.Sound, (InProcessTokenBucket.run_fields _ _).2] at h
    exact h
  · intro i n
    obtain ⟨hr, hc⟩ := InProcessTokenBucket.run_fields
      (InProcessTokenBucket.init rate capacity made) (clock.take i)
    have h := InProcessTokenBucket.admitted_le (by rw [hr]; exact hrate)
      (hinit.run hrate (clock.take i)) ((clock.drop i).take n)
    rw [hr, hc] at h
    rw [InProcessTokenBucket.answers_drop, InProcessTokenBucket.answers_take]
    exact h

/-- A bucket of two tokens that refills one in two units of time, over a clock that steps back. -/
theorem token_bucket_ceiling_step_back :
    (admitted ((((InProcessTokenBucket.init (1 / 2) 2 (0 : ℚ)).answers [0, 4, 1, 3, 3]).drop 1).take
      3) : ℚ) ≤ 2 + 1 / 2 * rises (([0, 4, 1, 3, 3].drop 1).take 3) :=
  (token_bucket_ceiling (by norm_num) (by norm_num) 0 [0, 4, 1, 3, 3]).2 1 3

/-! ## One bucket for each client -/

/-- `PerClientLimiter`: its `dict` in insertion order. -/
structure PerClientLimiter (Key B : Type) where
  max : ℤ
  buckets : List (Key × B)

namespace PerClientLimiter

variable {Key B A : Type}

/-- `PerClientLimiter.__init__`. -/
def init (maxClients : ℤ) : PerClientLimiter Key B where
  max := Max.max 1 maxClients
  buckets := []

/-- `PerClientLimiter.tracked`. -/
def tracked (lim : PerClientLimiter Key B) : ℕ := lim.buckets.length

/-- The limiter as a recency map. -/
def recency (lim : PerClientLimiter Key B) : Recency Key B := ⟨lim.max.toNat, lim.buckets⟩

theorem tracked_init (maxClients : ℤ) :
    (init maxClients : PerClientLimiter Key B).tracked = 0 := rfl

theorem keys_recency_init (maxClients : ℤ) :
    (init maxClients : PerClientLimiter Key B).recency.keys = [] := rfl

variable [DecidableEq Key]

/-- `PerClientLimiter.acquire`: `make` is `_make`, and `take` the bucket's own `acquire`. -/
def acquire (lim : PerClientLimiter Key B) (make : Key → B) (take : B → A × B) (key : Key) :
    A × PerClientLimiter Key B :=
  let popped := lim.buckets.filter fun p => p.1 ≠ key
  match lim.buckets.lookup key with
  | some bucket =>
    let (answer, bucket) := take bucket
    (answer, { lim with buckets := popped ++ [(key, bucket)] })
  | none =>
    -- The first entry is the one touched longest ago: every touch puts its entry last.
    let room := if lim.max ≤ popped.length then popped.tail else popped
    let (answer, bucket) := take (make key)
    (answer, { lim with buckets := room ++ [(key, bucket)] })

/-- **`acquire` is a visit**: it answers what the entry does and keeps what a visit keeps. -/
theorem acquire_eq {lim : PerClientLimiter Key B} (hmax : 0 ≤ lim.max) (make : Key → B)
    (take : B → A × B) (key : Key) :
    (lim.acquire make take key).1 = (take (lim.recency.entryFor ⟨key, make key, take⟩)).1 ∧
      (lim.acquire make take key).2.recency = lim.recency.serve ⟨key, make key, take⟩ ∧
      (lim.acquire make take key).2.max = lim.max := by
  have hfull : lim.max.toNat ≤ (lim.buckets.filter fun p => p.1 ≠ key).length ↔
      lim.max ≤ ((lim.buckets.filter fun p => p.1 ≠ key).length : ℤ) := by
    omega
  unfold acquire Recency.serve Recency.entryFor Recency.kept Recency.without recency
  cases h : lim.buckets.lookup key with
  | some bucket => simp
  | none =>
    simp only [hfull, Option.getD_none, Option.isSome_none, Bool.false_eq_true, if_false]
    exact ⟨trivial, trivial, trivial⟩

end PerClientLimiter

/-! ## The limiter over in-process buckets -/

/-- One `acquire`: its key, the clock when the bucket is made if one is, and the clock when a token
is taken. -/
structure Acquire (Key K : Type) where
  key : Key
  made : K
  now : K

namespace PerClientLimiter

variable {Key : Type}

section

variable [DecidableEq Key]

/-- One `acquire` of a limiter that makes in-process buckets. -/
def step (rate capacity : K) (lim : PerClientLimiter Key (InProcessTokenBucket K))
    (e : Acquire Key K) : Option K × PerClientLimiter Key (InProcessTokenBucket K) :=
  lim.acquire (fun _ => InProcessTokenBucket.init rate capacity e.made) (fun b => b.acquire e.now)
    e.key

/-- The limiter after the acquires. -/
def run (rate capacity : K) (lim : PerClientLimiter Key (InProcessTokenBucket K))
    (events : List (Acquire Key K)) : PerClientLimiter Key (InProcessTokenBucket K) :=
  events.foldl (fun lim e => (lim.step rate capacity e).2) lim

/-- What the acquires of `k` are answered. -/
def answersTo (rate capacity : K) (k : Key) (lim : PerClientLimiter Key (InProcessTokenBucket K)) :
    List (Acquire Key K) → List (Option K)
  | [] => []
  | e :: events =>
    let rest := (lim.step rate capacity e).2.answersTo rate capacity k events
    if e.key = k then (lim.step rate capacity e).1 :: rest else rest

end

/-- The answers of a bucket made at the first of the acquires and fed all of them. -/
def solitary (rate capacity : K) : List (Acquire Key K) → List (Option K)
  | [] => []
  | e :: events =>
    (InProcessTokenBucket.init rate capacity e.made).answers ((e :: events).map Acquire.now)

/-- An acquire as a visit. -/
def visit (rate capacity : K) (e : Acquire Key K) :
    Visit Key (InProcessTokenBucket K) (Option K) :=
  ⟨e.key, InProcessTokenBucket.init rate capacity e.made, fun b => b.acquire e.now⟩

theorem map_visit_key (rate capacity : K) (events : List (Acquire Key K)) :
    (events.map (visit rate capacity)).map Visit.key = events.map Acquire.key := by
  rw [List.map_map]
  rfl

theorem solitary_eq_alone (rate capacity : K) (events : List (Acquire Key K)) :
    solitary rate capacity events = alone (events.map (visit rate capacity)) := by
  have hserve : ∀ (b : InProcessTokenBucket K) (events : List (Acquire Key K)),
      b.answers (events.map Acquire.now) = serveAlone b (events.map (visit rate capacity)) := by
    intro b events
    induction events generalizing b with
    | nil => rfl
    | cons e events ih =>
      rw [List.map_cons, List.map_cons, InProcessTokenBucket.answers, serveAlone, ih]
      rfl
  cases events with
  | nil => rfl
  | cons e events => exact hserve _ (e :: events)

variable [DecidableEq Key] {lim : PerClientLimiter Key (InProcessTokenBucket K)}

theorem step_spec (rate capacity : K) (hmax : 0 ≤ lim.max) (e : Acquire Key K) :
    (lim.step rate capacity e).1 =
        ((lim.recency.entryFor (visit rate capacity e)).acquire e.now).1 ∧
      (lim.step rate capacity e).2.recency = lim.recency.serve (visit rate capacity e) ∧
      (lim.step rate capacity e).2.max = lim.max :=
  acquire_eq hmax _ _ _

theorem answersTo_eq_repliesTo (rate capacity : K) (hmax : 0 ≤ lim.max) (k : Key)
    (events : List (Acquire Key K)) :
    lim.answersTo rate capacity k events =
      lim.recency.repliesTo k (events.map (visit rate capacity)) := by
  induction events generalizing lim with
  | nil => rfl
  | cons e events ih =>
    obtain ⟨hanswer, hnext, hkeep⟩ := step_spec rate capacity hmax e
    have hmax' : 0 ≤ (lim.step rate capacity e).2.max := by rw [hkeep]; exact hmax
    have hrest := ih hmax'
    rw [hnext] at hrest
    rw [answersTo, List.map_cons, hrest, hanswer]
    by_cases hk : e.key = k
    · subst hk
      rw [if_pos rfl]
      exact (Recency.repliesTo_cons_self (v := visit rate capacity e)).symm
    · rw [if_neg hk]
      exact (Recency.repliesTo_cons_ne (v := visit rate capacity e) hk).symm

/-- The limiter stays within its bound. -/
theorem tracked_run_le (rate capacity : K) (hmax : 1 ≤ lim.max) (hlim : (lim.tracked : ℤ) ≤ lim.max)
    (events : List (Acquire Key K)) :
    ((lim.run rate capacity events).tracked : ℤ) ≤ lim.max := by
  induction events generalizing lim with
  | nil => exact hlim
  | cons e events ih =>
    have hpos : 0 ≤ lim.max := by omega
    obtain ⟨-, hnext, hkeep⟩ := step_spec rate capacity hpos e
    have hbound : (lim.step rate capacity e).2.tracked ≤ lim.max.toNat := by
      have h := Recency.length_serve_le (d := lim.recency) (v := visit rate capacity e)
        (by simp only [recency]; omega) (by simp only [recency, tracked] at hlim ⊢; omega)
      rw [← hnext] at h
      exact h
    have hmax' : 1 ≤ (lim.step rate capacity e).2.max := by omega
    have h := ih hmax' (by omega)
    rw [hkeep] at h
    exact h

end PerClientLimiter

variable {Key : Type} [DecidableEq Key]

/-- **Isolation.** The limiter never tracks more than `max(1, max_clients)` buckets, and a client
that always comes back before as many others were served is answered as by a bucket made at its
first acquire and fed its acquires alone. -/
theorem per_client_isolation (rate capacity : K) (maxClients : ℤ)
    (events : List (Acquire Key K)) :
    (((PerClientLimiter.init maxClients).run rate capacity events).tracked : ℤ) ≤ max 1 maxClients ∧
    ∀ k : Key, (∀ before first between second after,
        events = before ++ first :: between ++ second :: after → first.key = k → second.key = k →
        (∀ e ∈ between, e.key ≠ k) →
        ((between.map Acquire.key).toFinset.card : ℤ) < max 1 maxClients) →
      (PerClientLimiter.init maxClients).answersTo rate capacity k events =
        PerClientLimiter.solitary rate capacity (events.filter fun e => e.key = k) := by
  have hmax : (1 : ℤ) ≤ max 1 maxClients := le_max_left _ _
  constructor
  · refine PerClientLimiter.tracked_run_le rate capacity hmax ?_ events
    rw [PerClientLimiter.tracked_init]
    exact le_trans (by simp) hmax
  · intro k hback
    have hreturns : ReturnsWithin (max 1 maxClients).toNat k
        ((events.map (PerClientLimiter.visit rate capacity)).map Visit.key) := by
      rw [PerClientLimiter.map_visit_key]
      refine returnsWithin_map fun before first between second after he hf hs hnot => ?_
      have := hback before first between second after he hf hs hnot
      omega
    have hpos : 0 ≤ max 1 maxClients := by omega
    rw [PerClientLimiter.answersTo_eq_repliesTo rate capacity hpos,
      PerClientLimiter.solitary_eq_alone,
      Recency.repliesTo_eq_alone (by rw [PerClientLimiter.keys_recency_init]; exact List.nodup_nil)
        (by rw [PerClientLimiter.keys_recency_init]; exact List.not_mem_nil) hreturns,
      List.filter_map]
    rfl

/-- Two clients share a limiter of two buckets: the first, out of tokens, stays out of them. -/
theorem per_client_isolation_two_clients :
    (PerClientLimiter.init 2).answersTo (1 : ℚ) 1 "a"
        [⟨"a", 0, 0⟩, ⟨"b", 0, 0⟩, ⟨"a", 0, 0⟩] =
      PerClientLimiter.solitary 1 1 [⟨"a", 0, 0⟩, ⟨"a", 0, 0⟩] := by
  refine (per_client_isolation 1 1 2 [⟨"a", 0, 0⟩, ⟨"b", 0, 0⟩, ⟨"a", 0, 0⟩]).2 "a" ?_
  intro before first between second after he _ _ _
  have hlen := congrArg List.length he
  simp only [List.length_append, List.length_cons, List.length_nil] at hlen
  have hcard := List.toFinset_card_le (between.map Acquire.key)
  rw [List.length_map] at hcard
  have hone : (max 1 2 : ℤ) = 2 := by decide
  omega

end RoutePlanner.Api
