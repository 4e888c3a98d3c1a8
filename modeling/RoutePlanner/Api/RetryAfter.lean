import Mathlib.Data.Rat.Floor
import RoutePlanner.Api.RateLimit

/-!
# `api/ratelimit.py`: what a refusal promises

A refused caller is told how long to wait, and the header rounds that up. The clock does not step
back here.

* `retry_after_exact`: until the promised moment every acquire is refused, however often the bucket
  is asked, and the first one from then on is admitted.

What survives the polls is `Promises b due`: by `due`, and no earlier, the bucket holds one token.
-/

namespace RoutePlanner.Api

variable {K : Type} [Field K] [LinearOrder K]

/-- `retry_after_header`. -/
def retryAfterHeader [FloorRing K] (seconds : K) : String := toString (max 1 ⌈seconds⌉)

namespace InProcessTokenBucket

theorem run_append (b : InProcessTokenBucket K) (clock clock' : List K) :
    b.run (clock ++ clock') = (b.run clock).run clock' := List.foldl_append

/-- At the rate it refills, the bucket holds one token at `due`. -/
structure Promises (b : InProcessTokenBucket K) (due : K) : Prop where
  rate_pos : 0 < b.rate
  one_le_capacity : 1 ≤ b.capacity
  ts_le : b.ts ≤ due
  one : b.tokens + (due - b.ts) * b.rate = 1

variable [IsStrictOrderedRing K] {b : InProcessTokenBucket K} {now due : K}

/-- What the refill brings by `now`, while the clock does not step back. -/
theorem Promises.refilled_eq (h : b.Promises due) (hts : b.ts ≤ now) :
    b.refilled now = min b.capacity (1 - (due - now) * b.rate) := by
  have hone := h.one
  rw [refilled, max_eq_right (sub_nonneg.mpr hts)]
  congr 1
  linarith [sub_mul due b.ts b.rate, sub_mul now b.ts b.rate, sub_mul due now b.rate]

/-- A refusal names the moment the bucket holds a token again. -/
theorem Promises.of_refused (hrate : 0 < b.rate) (hcapacity : 1 ≤ b.capacity) {r : K}
    (hrefused : (b.acquire now).1 = some r) : (b.acquire now).2.Promises (now + r) := by
  rcases acquire_cases b now with ⟨-, h⟩ | ⟨hlt, h⟩
  · rw [h] at hrefused
    cases hrefused
  · rw [h] at hrefused ⊢
    obtain rfl := Option.some.inj hrefused
    have hwait : 0 ≤ (1 - b.refilled now) / b.rate := div_nonneg (by linarith) hrate.le
    refine ⟨hrate, hcapacity, le_add_of_nonneg_right hwait, ?_⟩
    simp only [add_sub_cancel_left]
    rw [div_mul_cancel₀ _ hrate.ne']
    ring

/-- **A poll before the moment** is refused, told to wait until that moment, and changes nothing
about it. -/
theorem Promises.poll (h : b.Promises due) (hts : b.ts ≤ now) (hnow : now < due) :
    (b.acquire now).1 = some (due - now) ∧ (b.acquire now).2.Promises due := by
  have hshort : 0 < (due - now) * b.rate := mul_pos (sub_pos.mpr hnow) h.rate_pos
  have hrefilled : b.refilled now = 1 - (due - now) * b.rate := by
    rw [h.refilled_eq hts]
    exact min_eq_right (by linarith [h.one_le_capacity])
  have hanswer : (b.acquire now).1 = some (due - now) := by
    rcases acquire_cases b now with ⟨hle, -⟩ | ⟨-, hacquire⟩
    · linarith
    · rw [hacquire, hrefilled, sub_sub_cancel, mul_div_cancel_right₀ _ h.rate_pos.ne']
  refine ⟨hanswer, ?_⟩
  have hnext := Promises.of_refused h.rate_pos h.one_le_capacity hanswer
  rwa [add_sub_cancel] at hnext

/-- **An acquire from the moment on** is admitted. -/
theorem Promises.admits (h : b.Promises due) (hdue : due ≤ now) : (b.acquire now).1 = none := by
  have hgain : (due - now) * b.rate ≤ 0 :=
    mul_nonpos_of_nonpos_of_nonneg (sub_nonpos.mpr hdue) h.rate_pos.le
  have hrefilled : 1 ≤ b.refilled now := by
    rw [h.refilled_eq (h.ts_le.trans hdue)]
    exact le_min h.one_le_capacity (by linarith)
  rcases acquire_cases b now with ⟨-, hacquire⟩ | ⟨hlt, -⟩
  · rw [hacquire]
  · exact absurd hrefilled (not_le.mpr hlt)

/-- The promise survives any number of polls before its moment. -/
theorem Promises.polls {polls : List K} (h : b.Promises due)
    (hclock : (b.ts :: polls).Pairwise fun a b => a ≤ b) (hpolls : ∀ t ∈ polls, t < due) :
    (b.run polls).Promises due ∧ ∀ t, (∀ t' ∈ b.ts :: polls, t' ≤ t) → (b.run polls).ts ≤ t := by
  induction polls generalizing b with
  | nil => exact ⟨h, fun t ht => ht b.ts List.mem_cons_self⟩
  | cons now polls ih =>
    obtain ⟨hfirst, hrest⟩ := List.pairwise_cons.mp hclock
    have hnext := (h.poll (hfirst now List.mem_cons_self) (hpolls now List.mem_cons_self)).2
    have hts := acquire_ts b now
    obtain ⟨hkept, hlast⟩ := ih hnext (by rw [hts]; exact hrest)
      fun t ht => hpolls t (List.mem_cons_of_mem now ht)
    refine ⟨hkept, fun t ht => hlast t fun t' ht' => ht t' (List.mem_cons_of_mem _ ?_)⟩
    rwa [hts] at ht'

end InProcessTokenBucket

variable [FloorRing K] [IsStrictOrderedRing K]

/-- **Retry-After is exact.** An acquire refused at `n` with `r`, polls, and one more acquire at
`m`: before `n + r` it is refused, and told to wait until then; if it is the first from `n + r`
on, it is admitted. The header is an integer, at least one and at least `r`. -/
theorem retry_after_exact {rate capacity : K} (hrate : 0 < rate) (hcapacity : 1 ≤ capacity)
    (made : K) (before : List K) (n : K) (polls : List K) (m r : K)
    (hclock : (n :: (polls ++ [m])).Pairwise fun a b => a ≤ b)
    (hrefused : (((InProcessTokenBucket.init rate capacity made).run before).acquire n).1 =
      some r) :
    let b := (InProcessTokenBucket.init rate capacity made).run (before ++ n :: polls)
    (m < n + r → (b.acquire m).1 = some (n + r - m)) ∧
      (n + r ≤ m → (∀ t ∈ polls, t < n + r) → (b.acquire m).1 = none) ∧
      ∃ k : ℤ, retryAfterHeader r = toString k ∧ 1 ≤ k ∧ r ≤ k := by
  intro b
  have hfields := InProcessTokenBucket.run_fields
    (InProcessTokenBucket.init rate capacity made) before
  have hpromises := InProcessTokenBucket.Promises.of_refused (by rw [hfields.1]; exact hrate)
    (by rw [hfields.2]; exact hcapacity) hrefused
  obtain ⟨hn, htail⟩ := List.pairwise_cons.mp hclock
  obtain ⟨hpolls, -, hlast⟩ := List.pairwise_append.mp htail
  have hle : ∀ t ∈ polls, t ≤ m := fun t ht => hlast t ht m List.mem_cons_self
  have hnm : n ≤ m := hn m (List.mem_append_right _ List.mem_cons_self)
  have hb : b = (((InProcessTokenBucket.init rate capacity made).run before).acquire n).2.run
      polls := InProcessTokenBucket.run_append _ _ _
  have hts := InProcessTokenBucket.acquire_ts
    ((InProcessTokenBucket.init rate capacity made).run before) n
  -- The bucket that the last acquire finds still makes the promise.
  have hrun : (∀ t ∈ polls, t < n + r) → b.Promises (n + r) ∧ b.ts ≤ m := by
    intro hbefore
    have hstart : (n :: polls).Pairwise fun a b => a ≤ b :=
      List.pairwise_cons.mpr ⟨fun t ht => hn t (List.mem_append_left _ ht), hpolls⟩
    rw [← hts] at hstart
    obtain ⟨hkept, hlast⟩ := hpromises.polls hstart hbefore
    rw [← hb] at hkept hlast
    refine ⟨hkept, hlast m fun t ht => ?_⟩
    rcases List.mem_cons.mp ht with rfl | ht
    · rw [hts]
      exact hnm
    · exact hle t ht
  refine ⟨fun hm => ?_, fun hm hbefore => (hrun hbefore).1.admits hm, ?_⟩
  · obtain ⟨hkept, hlast⟩ := hrun fun t ht => (hle t ht).trans_lt hm
    exact (hkept.poll hlast hm).1
  · refine ⟨max 1 ⌈r⌉, rfl, le_max_left _ _, ?_⟩
    calc r ≤ (⌈r⌉ : K) := Int.le_ceil r
      _ ≤ ((max 1 ⌈r⌉ : ℤ) : K) := Int.cast_le.mpr (le_max_right _ _)

/-- A bucket of one token that refills one in two units of time: refused at `1`, polled at `2`, and
asked again at `3`. -/
theorem retry_after_exact_polled :
    (((InProcessTokenBucket.init (1 / 2) 1 (0 : ℚ)).run [1, 1, 2]).acquire 3).1 = none := by
  have hrefused : (((InProcessTokenBucket.init (1 / 2) 1 (0 : ℚ)).run [1]).acquire 1).1 =
      some 2 := by
    decide +kernel
  have h := retry_after_exact (by norm_num) (by norm_num) 0 [1] 1 [2] 3 2 (by decide +kernel)
    hrefused
  exact h.2.1 (by norm_num) (by decide +kernel)

end RoutePlanner.Api
