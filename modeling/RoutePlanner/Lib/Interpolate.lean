import Mathlib.Algebra.Order.Floor.Ring
import Mathlib.Data.Int.Interval
import Mathlib.Tactic.Linarith
import Mathlib.Tactic.Ring

/-!
# Interpolation between the terms of a sequence

`interpolate t x` lies on the line from `t ⌊x⌋` to `t (⌊x⌋ + 1)`.

* `interpolate_intCast`: at an integer it is the term.
* `le_interpolate`, `lt_interpolate`, `interpolate_le`: it stays between the bounds of the terms.
* `interpolate_add`: it has the periods of the sequence.
* `abs_interpolate_sub_le`: it rises and falls no faster than the sequence does from one term to
  the next.
-/

namespace RoutePlanner.Lib

variable {K : Type*} [Field K] [LinearOrder K] [IsStrictOrderedRing K] [FloorRing K]

/-- The line through the terms of `t`. -/
def interpolate (t : ℤ → K) (x : K) : K := t ⌊x⌋ + (x - ⌊x⌋) * (t (⌊x⌋ + 1) - t ⌊x⌋)

variable {t : ℤ → K}

theorem interpolate_intCast (t : ℤ → K) (i : ℤ) : interpolate t i = t i := by
  rw [interpolate, Int.floor_intCast, sub_self, zero_mul, add_zero]

omit [IsStrictOrderedRing K] in
/-- The two parts of what it lies above `lo` by. -/
theorem interpolate_sub (t : ℤ → K) (lo x : K) : interpolate t x - lo =
    (1 - (x - ⌊x⌋)) * (t ⌊x⌋ - lo) + (x - ⌊x⌋) * (t (⌊x⌋ + 1) - lo) := by
  rw [interpolate]
  ring

theorem le_interpolate {lo : K} (h : ∀ i, lo ≤ t i) (x : K) : lo ≤ interpolate t x := by
  have hfrac : 0 ≤ x - ⌊x⌋ := sub_nonneg.mpr (Int.floor_le x)
  have hrest : 0 ≤ 1 - (x - ⌊x⌋) := by linarith [Int.lt_floor_add_one x]
  rw [← sub_nonneg, interpolate_sub]
  exact add_nonneg (mul_nonneg hrest (sub_nonneg.mpr (h ⌊x⌋)))
    (mul_nonneg hfrac (sub_nonneg.mpr (h (⌊x⌋ + 1))))

theorem lt_interpolate {lo : K} (h : ∀ i, lo < t i) (x : K) : lo < interpolate t x := by
  have hfrac : 0 ≤ x - ⌊x⌋ := sub_nonneg.mpr (Int.floor_le x)
  have hrest : 0 < 1 - (x - ⌊x⌋) := by linarith [Int.lt_floor_add_one x]
  rw [← sub_pos, interpolate_sub]
  exact add_pos_of_pos_of_nonneg (mul_pos hrest (sub_pos.mpr (h ⌊x⌋)))
    (mul_nonneg hfrac (sub_pos.mpr (h (⌊x⌋ + 1))).le)

omit [IsStrictOrderedRing K] in
theorem interpolate_neg (t : ℤ → K) (x : K) :
    interpolate (fun i => -t i) x = -interpolate t x := by
  rw [interpolate, interpolate]
  ring

theorem interpolate_le {hi : K} (h : ∀ i, t i ≤ hi) (x : K) : interpolate t x ≤ hi := by
  have hneg := le_interpolate (t := fun i => -t i) (fun i => neg_le_neg (h i)) x
  rw [interpolate_neg] at hneg
  exact neg_le_neg_iff.mp hneg

/-- **Periods.** -/
theorem interpolate_add {p : ℤ} (h : ∀ i, t (i + p) = t i) (x : K) :
    interpolate t (x + p) = interpolate t x := by
  rw [interpolate, interpolate, Int.floor_add_intCast, h, add_right_comm ⌊x⌋, h]
  push_cast
  ring

/-! ## How fast it changes -/

omit [FloorRing K] in
theorem abs_term_sub_le {l : K} (h : ∀ i, |t (i + 1) - t i| ≤ l) (i : ℤ) (n : ℕ) :
    |t (i + n) - t i| ≤ l * n := by
  induction n with
  | zero => simp
  | succ n ih =>
    have hstep := h (i + n)
    have hsplit : t (i + (n + 1 : ℕ)) - t i =
        (t (i + n + 1) - t (i + n)) + (t (i + n) - t i) := by
      rw [Nat.cast_succ, ← add_assoc]
      ring
    calc |t (i + (n + 1 : ℕ)) - t i| ≤ |t (i + n + 1) - t (i + n)| + |t (i + n) - t i| := by
          rw [hsplit]
          exact abs_add_le _ _
      _ ≤ l + l * n := add_le_add hstep ih
      _ = l * (n + 1 : ℕ) := by
        push_cast
        ring

/-- Within one step of the sequence. -/
theorem abs_interpolate_sub_floor_le {l : K} (h : ∀ i, |t (i + 1) - t i| ≤ l) (x : K) :
    |interpolate t x - t ⌊x⌋| ≤ l * (x - ⌊x⌋) := by
  have hfrac : 0 ≤ x - ⌊x⌋ := sub_nonneg.mpr (Int.floor_le x)
  rw [interpolate, add_sub_cancel_left, abs_mul, abs_of_nonneg hfrac, mul_comm]
  exact mul_le_mul_of_nonneg_right (h ⌊x⌋) hfrac

theorem abs_floor_add_one_sub_le {l : K} (h : ∀ i, |t (i + 1) - t i| ≤ l) (x : K) :
    |t (⌊x⌋ + 1) - interpolate t x| ≤ l * (⌊x⌋ + 1 - x) := by
  have hrest : 0 ≤ ⌊x⌋ + 1 - x := by linarith [Int.lt_floor_add_one x]
  have hsplit : t (⌊x⌋ + 1) - interpolate t x = (⌊x⌋ + 1 - x) * (t (⌊x⌋ + 1) - t ⌊x⌋) := by
    rw [interpolate]
    ring
  rw [hsplit, abs_mul, abs_of_nonneg hrest, mul_comm]
  exact mul_le_mul_of_nonneg_right (h ⌊x⌋) hrest

/-- **How fast it changes**: no faster than the sequence. -/
theorem abs_interpolate_sub_le {l : K} (h : ∀ i, |t (i + 1) - t i| ≤ l) {x y : K} (hxy : x ≤ y) :
    |interpolate t y - interpolate t x| ≤ l * (y - x) := by
  rcases (Int.floor_mono hxy).eq_or_lt with hfloor | hfloor
  · have hsplit : interpolate t y - interpolate t x = (y - x) * (t (⌊x⌋ + 1) - t ⌊x⌋) := by
      rw [interpolate, interpolate, ← hfloor]
      ring
    have hgap : 0 ≤ y - x := sub_nonneg.mpr hxy
    rw [hsplit, abs_mul, abs_of_nonneg hgap, mul_comm]
    exact mul_le_mul_of_nonneg_right (h ⌊x⌋) hgap
  · -- down to the term before `y`, along the terms, and down from the term after `x`
    obtain ⟨n, hn⟩ := Int.le.dest (Int.add_one_le_iff.mpr hfloor)
    have hlast := abs_interpolate_sub_floor_le h y
    have hfirst := abs_floor_add_one_sub_le h x
    have hterms := abs_term_sub_le h (⌊x⌋ + 1) n
    rw [hn] at hterms
    have hcast : (⌊y⌋ : K) = ⌊x⌋ + 1 + n := by
      rw [← hn]
      push_cast
      ring
    have hsplit : interpolate t y - interpolate t x =
        (interpolate t y - t ⌊y⌋) + (t ⌊y⌋ - t (⌊x⌋ + 1)) + (t (⌊x⌋ + 1) - interpolate t x) := by
      ring
    calc |interpolate t y - interpolate t x|
        ≤ |interpolate t y - t ⌊y⌋| + |t ⌊y⌋ - t (⌊x⌋ + 1)| + |t (⌊x⌋ + 1) - interpolate t x| := by
          rw [hsplit]
          exact abs_add_three _ _ _
      _ ≤ l * (y - ⌊y⌋) + l * n + l * (⌊x⌋ + 1 - x) :=
          add_le_add (add_le_add hlast hterms) hfirst
      _ = l * (y - x) := by
          rw [hcast]
          ring

end RoutePlanner.Lib
