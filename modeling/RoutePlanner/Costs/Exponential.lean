import Mathlib.Analysis.Complex.ExponentialBounds
import Mathlib.Tactic.NormNum
import RoutePlanner.Costs.Gap

/-!
# The gap wait against the exponential

`adams_delay_s` states Adams' wait with `exp`, and computes it with `_exp_poly`: over the reals,
`_exp_poly` is the exponential up to the tail of its Taylor polynomial, and the wait is Adams' up to
one part in `10 ^ 12`. Ordered fields that embed into the reals, such as the rationals, compute the
same values.

* `expPoly_close`: range reduction and polynomial give `exp`.
* `adamsDelayS_close`: the wait is Adams', capped.
* `map_adamsDelayS`: the wait may be read over the reals.
-/

namespace RoutePlanner.Costs

/-- **Adams' wait**, as the docstring has it: `(exp (q * t_c) - q * t_c - 1) / q`, capped, and none
where nothing conflicts. -/
noncomputable def adamsWait (q tC capS : ℝ) : ℝ :=
  if 0 < q then min ((Real.exp (q * tC) - q * tC - 1) / q) capS else 0

/-! ## Read over the reals -/

section Map

variable {K : Type} [Field K] [LinearOrder K] [FloorRing K] {φ : K →+* ℝ}

theorem map_rint (hφ : StrictMono φ) (x : K) : rint (φ x) = rint x := by
  have hfloor : ⌊φ x⌋ = ⌊x⌋ := Int.map_floor φ hφ x
  have hd : φ x - (⌊x⌋ : ℤ) = φ (x - (⌊x⌋ : ℤ)) := by rw [map_sub, map_intCast]
  have hhalf : (1 / ((2 : ℕ) : ℝ)) = φ (1 / ((2 : ℕ) : K)) := by
    rw [map_div₀, map_one, map_natCast]
  unfold rint
  simp only
  rw [hfloor, hd, hhalf]
  simp only [hφ.lt_iff_lt, hφ.injective.eq_iff]

omit [LinearOrder K] [FloorRing K] in
/-- Horner's rule, read over the reals. -/
theorem map_horner (r a : K) (coef : List K) :
    φ (coef.foldr (fun c p => p * r + c) a) =
      (coef.map φ).foldr (fun c p => p * φ r + c) (φ a) := by
  induction coef with
  | nil => rfl
  | cons c coef ih => rw [List.foldr_cons, map_add, map_mul, ih, List.map_cons, List.foldr_cons]

omit [LinearOrder K] [FloorRing K] in
theorem map_expCoef : (expCoef : List K).map φ = expCoef := by
  unfold expCoef
  rw [List.map_map]
  refine List.map_congr_left fun n _ => ?_
  rw [Function.comp_apply, map_div₀, map_one, map_natCast]

theorem map_expPoly (hφ : StrictMono φ) (x : K) : φ (expPoly x) = expPoly (φ x) := by
  have hinv : φ invLn2 = invLn2 := by rw [invLn2, map_div₀, map_natCast, map_natCast, invLn2]
  have hhi : φ ln2Hi = ln2Hi := by rw [ln2Hi, map_div₀, map_natCast, map_natCast, ln2Hi]
  have hlo : φ ln2Lo = ln2Lo := by rw [ln2Lo, map_div₀, map_natCast, map_natCast, ln2Lo]
  have hlast : φ ((expCoef : List K).getLastD 0) = (expCoef : List ℝ).getLastD 0 := by
    rw [← map_expCoef (φ := φ)]
    simp [expCoef, List.range_succ]
  unfold expPoly
  simp only
  rw [← hinv, ← map_mul, map_rint hφ, map_mul, map_horner, map_zpow₀, map_natCast, hlast,
    List.map_dropLast, map_expCoef]
  simp only [map_sub, map_mul, map_intCast, hhi, hlo]

theorem map_adamsDelayS (hφ : StrictMono φ) (q tC capS : K) :
    φ (adamsDelayS q tC capS) = adamsDelayS (φ q) (φ tC) (φ capS) := by
  have hpos : 0 < φ q ↔ 0 < q := by rw [← map_zero φ, hφ.lt_iff_lt]
  have hx : min (φ q * φ tC) expXMax = φ (min (q * tC) expXMax) := by
    rw [hφ.monotone.map_min, map_mul]
    congr 1
    rw [expXMax, expXMax, map_natCast]
  unfold adamsDelayS
  simp only
  rw [hx, ← map_expPoly hφ, hφ.monotone.map_min]
  simp only [hpos]
  split
  · rw [map_div₀, hφ.monotone.map_max, map_sub, map_sub, map_one, map_zero]
  · rw [map_zero]

end Map

/-! ## The exponential -/

/-- No integer is nearer. -/
theorem abs_sub_rint_le (x : ℝ) : |x - rint x| ≤ 1 / 2 := by
  have hfloor := Int.floor_le x
  have hlt := Int.lt_floor_add_one x
  unfold rint
  simp only [Nat.cast_ofNat]
  split
  · rename_i h
    rw [abs_of_nonneg (by linarith)]
    rcases h with h | ⟨h, -⟩ <;> linarith
  · rename_i h
    rw [not_or, not_lt] at h
    push_cast
    rw [abs_le]
    constructor <;> linarith [h.1]

/-- The polynomial is that of Taylor's series. -/
theorem foldr_expCoef (r : ℝ) :
    (expCoef : List ℝ).dropLast.foldr (fun c p => p * r + c) ((expCoef : List ℝ).getLastD 0) =
      ∑ m ∈ Finset.range 12, r ^ m / m.factorial := by
  simp only [expCoef, List.range_succ, List.range_zero, Finset.sum_range_succ]
  simp
  ring

/-- `ln 2`, in two parts. -/
noncomputable def ln2 : ℝ := ln2Hi + ln2Lo

theorem abs_exp_ln2_sub_two_le : |Real.exp ln2 - 2| ≤ 1 / 10 ^ 20 := by
  have hln : ln2 = 69314718036912381649 / 10 ^ 20 + 190821492927058770002 / 10 ^ 30 := by
    norm_num [ln2, ln2Hi, ln2Lo]
  have hbound := Real.exp_bound (x := ln2) (by rw [hln]; norm_num) (show 0 < 20 by norm_num)
  rw [abs_le] at hbound ⊢
  have habs : |ln2| = ln2 := abs_of_nonneg (by rw [hln]; positivity)
  rw [habs] at hbound
  have htail : ln2 ^ 20 * ((Nat.succ 20 : ℕ) / ((Nat.factorial 20 : ℕ) * (20 : ℕ)) : ℝ) ≤
      1 / 10 ^ 21 := by
    rw [hln]
    norm_num [Nat.factorial]
  have hsum : |∑ m ∈ Finset.range 20, ln2 ^ m / (m.factorial : ℝ) - 2| ≤ 1 / 10 ^ 21 := by
    rw [hln]
    norm_num [Finset.sum_range_succ, Nat.factorial, abs_le]
  rw [abs_le] at hsum
  constructor <;> linarith [hbound.1, hbound.2, hsum.1, hsum.2]

theorem abs_log_two_sub_ln2_le : |Real.log 2 - ln2| ≤ 1 / 10 ^ 20 := by
  obtain ⟨hlo, hhi⟩ := abs_le.mp abs_exp_ln2_sub_two_le
  have hone : 1 ≤ Real.exp ln2 := by linarith
  have habove : Real.log 2 - ln2 ≤ 2 / Real.exp ln2 - 1 := by
    have h := Real.log_le_sub_one_of_pos (show 0 < 2 / Real.exp ln2 by positivity)
    rwa [Real.log_div two_ne_zero (Real.exp_ne_zero _), Real.log_exp] at h
  have hbelow : ln2 - Real.log 2 ≤ Real.exp ln2 / 2 - 1 := by
    have h := Real.log_le_sub_one_of_pos (show 0 < Real.exp ln2 / 2 by positivity)
    rwa [Real.log_div (Real.exp_ne_zero _) two_ne_zero, Real.log_exp] at h
  have hdiv : 2 / Real.exp ln2 - 1 ≤ 1 / 10 ^ 20 := by
    rw [div_sub_one (Real.exp_ne_zero _), div_le_iff₀ (by positivity)]
    nlinarith
  rw [abs_le]
  constructor <;> linarith

/-- How often `ln 2` is taken off. -/
noncomputable def reduction (x : ℝ) : ℤ := rint (x * invLn2)

/-- What remains of the exponent. -/
noncomputable def reduced (x : ℝ) : ℝ := x - reduction x * ln2

theorem expPoly_eq (x : ℝ) :
    expPoly x = (∑ m ∈ Finset.range 12, reduced x ^ m / m.factorial) * 2 ^ reduction x := by
  have hr : (x - reduction x * ln2Hi) - reduction x * ln2Lo = reduced x := by
    unfold reduced ln2
    ring
  unfold expPoly
  simp only
  rw [foldr_expCoef]
  unfold reduction at hr ⊢
  rw [hr, Nat.cast_ofNat]

section Reduction

variable {x : ℝ} (hnonneg : 0 ≤ x) (hle : x ≤ 50)
include hnonneg hle

theorem reduction_bounds : 0 ≤ reduction x ∧ reduction x ≤ 73 := by
  have hinv : (invLn2 : ℝ) = 1442695040888963387 / 10 ^ 18 := by norm_num [invLn2]
  obtain ⟨hlo, hhi⟩ := abs_le.mp (abs_sub_rint_le (x * invLn2))
  rw [← reduction, hinv] at hlo hhi
  constructor
  · have h : (-1 : ℝ) < reduction x := by nlinarith
    exact_mod_cast h
  · have h : (reduction x : ℝ) < 74 := by nlinarith
    exact Int.lt_add_one_iff.mp (by exact_mod_cast h)

theorem abs_reduced_le : |reduced x| ≤ 3466 / 10000 := by
  have hinv : (invLn2 : ℝ) = 1442695040888963387 / 10 ^ 18 := by norm_num [invLn2]
  have hln : ln2 = 69314718036912381649 / 10 ^ 20 + 190821492927058770002 / 10 ^ 30 := by
    norm_num [ln2, ln2Hi, ln2Lo]
  obtain ⟨hlo, hhi⟩ := abs_le.mp (abs_sub_rint_le (x * invLn2))
  rw [← reduction, hinv] at hlo hhi
  unfold reduced
  rw [hln, abs_le]
  constructor <;> linarith

/-- The tail of the series, at what remains of the exponent. -/
theorem abs_taylor_sub_exp_le :
    |∑ m ∈ Finset.range 12, reduced x ^ m / m.factorial - Real.exp (reduced x)| ≤
      |reduced x| ^ 12 / (4 * 10 ^ 8) := by
  have hr := abs_reduced_le hnonneg hle
  rw [abs_sub_comm]
  refine (Real.exp_bound (hr.trans (by norm_num)) (show 0 < 12 by norm_num)).trans ?_
  rw [div_eq_mul_inv]
  exact mul_le_mul_of_nonneg_left (by norm_num [Nat.factorial]) (by positivity)

/-- Putting the powers of two back misses `exp` by what the two parts of `ln 2` miss it. -/
theorem abs_scaled_sub_exp_le :
    |Real.exp (reduced x) * 2 ^ reduction x - Real.exp x| ≤ Real.exp x / 10 ^ 17 := by
  obtain ⟨hzero, hmax⟩ := reduction_bounds hnonneg hle
  have hzero' : (0 : ℝ) ≤ reduction x := by exact_mod_cast hzero
  have hmax' : (reduction x : ℝ) ≤ 73 := by exact_mod_cast hmax
  have hmiss : |(reduction x : ℝ) * (Real.log 2 - ln2)| ≤ 73 / 10 ^ 20 := by
    rw [abs_mul, abs_of_nonneg hzero']
    have := abs_log_two_sub_ln2_le
    have hpos := abs_nonneg (Real.log 2 - ln2)
    nlinarith
  have hpow : (2 : ℝ) ^ reduction x = Real.exp (reduction x * Real.log 2) := by
    rw [mul_comm, Real.exp_mul, Real.exp_log two_pos, Real.rpow_intCast]
  have hsplit : reduced x + reduction x * Real.log 2 =
      x + reduction x * (Real.log 2 - ln2) := by
    unfold reduced
    ring
  have hexp := Real.abs_exp_sub_one_le (hmiss.trans (by norm_num))
  calc |Real.exp (reduced x) * 2 ^ reduction x - Real.exp x|
      = Real.exp x * |Real.exp (reduction x * (Real.log 2 - ln2)) - 1| := by
        rw [hpow, ← Real.exp_add, hsplit, Real.exp_add, ← mul_sub_one, abs_mul,
          abs_of_pos (Real.exp_pos x)]
    _ ≤ Real.exp x * (1 / 10 ^ 17) :=
        mul_le_mul_of_nonneg_left (by linarith) (Real.exp_pos x).le
    _ = Real.exp x / 10 ^ 17 := by ring

/-- **`_exp_poly` is the exponential**, on the range that the wait uses. -/
theorem expPoly_close : |expPoly x - Real.exp x| ≤ Real.exp x / (4 * 10 ^ 13) := by
  have hr := abs_reduced_le hnonneg hle
  have htail : |reduced x| ^ 12 / (4 * 10 ^ 8) ≤ Real.exp (reduced x) * (2 / 10 ^ 14) := by
    have hpow : |reduced x| ^ 12 ≤ (3466 / 10000) ^ 12 := pow_le_pow_left₀ (abs_nonneg _) hr 12
    have hexp : 6534 / 10000 ≤ Real.exp (reduced x) := by
      linarith [Real.add_one_le_exp (reduced x), (abs_le.mp hr).1]
    linarith
  have hscaled := abs_scaled_sub_exp_le hnonneg hle
  have hpower : (0 : ℝ) < 2 ^ reduction x := by positivity
  have hpoly : |expPoly x - Real.exp (reduced x) * 2 ^ reduction x| ≤
      Real.exp (reduced x) * 2 ^ reduction x * (2 / 10 ^ 14) := by
    rw [expPoly_eq, ← sub_mul, abs_mul, abs_of_pos hpower]
    have := (abs_taylor_sub_exp_le hnonneg hle).trans htail
    nlinarith
  have htri := abs_sub_le (expPoly x) (Real.exp (reduced x) * 2 ^ reduction x) (Real.exp x)
  have hup := (abs_le.mp hscaled).2
  have hpos := Real.exp_pos x
  linarith

/-- What the wait divides by the flow. -/
theorem adamsNum_close :
    |(expPoly x - x - 1) - (Real.exp x - x - 1)| ≤ (Real.exp x - x - 1) / 10 ^ 12 := by
  have hquad := Real.quadratic_le_exp_of_nonneg hnonneg
  rw [sub_sub_sub_cancel_right, sub_sub_sub_cancel_right]
  rcases eq_or_ne (reduction x) 0 with hzero | hone
  · -- nothing is taken off: the tail is small against the square of the exponent
    have hreduced : reduced x = x := by
      unfold reduced
      rw [hzero, Int.cast_zero, zero_mul, sub_zero]
    have hx : x ≤ 3466 / 10000 := by
      have := (abs_le.mp (abs_reduced_le hnonneg hle)).2
      rwa [hreduced] at this
    have htail := abs_taylor_sub_exp_le hnonneg hle
    have hpoly : expPoly x = ∑ m ∈ Finset.range 12, reduced x ^ m / (m.factorial : ℝ) := by
      rw [expPoly_eq, hzero, zpow_zero, mul_one]
    rw [← hpoly, hreduced, abs_of_nonneg hnonneg] at htail
    have hpow : x ^ 10 ≤ (3466 / 10000) ^ 10 := pow_le_pow_left₀ hnonneg hx 10
    have hsplit : x ^ 12 = x ^ 2 * x ^ 10 := by ring
    have hsq := mul_le_mul_of_nonneg_left hpow (sq_nonneg x)
    rw [hsplit] at htail
    nlinarith
  · -- the exponent is away from zero: the wait is a fixed part of the exponential
    have hx : 3465 / 10000 ≤ x := by
      have hone' : (1 : ℝ) ≤ reduction x := by
        exact_mod_cast Int.add_one_le_iff.mpr
          (lt_of_le_of_ne (reduction_bounds hnonneg hle).1 hone.symm)
      have hinv : (invLn2 : ℝ) = 1442695040888963387 / 10 ^ 18 := by norm_num [invLn2]
      have hlo := (abs_le.mp (abs_sub_rint_le (x * invLn2))).1
      rw [← reduction, hinv] at hlo
      linarith
    have hpart : Real.exp x / 25 ≤ Real.exp x - x - 1 := by nlinarith
    have hclose := expPoly_close hnonneg hle
    linarith

end Reduction

/-! ## The wait -/

theorem exp_fifty : (10 : ℝ) ^ 21 + 52 ≤ Real.exp 50 := by
  have hone := Real.exp_one_gt_d9
  have hpow : Real.exp 50 = Real.exp 1 ^ 50 := by rw [← Real.exp_nat_mul]; norm_num
  have hle : (2.718 : ℝ) ^ 50 ≤ Real.exp 1 ^ 50 :=
    pow_le_pow_left₀ (by norm_num) (by linarith) 50
  rw [hpow]
  refine le_trans ?_ hle
  norm_num

/-- A cap keeps what is relatively close. -/
theorem abs_min_sub_min_le {a b c ε : ℝ} (hclose : |a - b| ≤ b * ε) (hc : 0 ≤ c) (hε : 0 ≤ ε)
    (hone : ε ≤ 1) : |min a c - min b c| ≤ min b c * ε := by
  rcases le_total b c with hb | hb
  · have hmax := abs_min_sub_min_le_max a c b c
    rw [sub_self, abs_zero, max_eq_left (abs_nonneg _)] at hmax
    rw [min_eq_left hb] at hmax ⊢
    exact hmax.trans hclose
  · obtain ⟨hlo, -⟩ := abs_le.mp hclose
    have hbelow : c * (1 - ε) ≤ b * (1 - ε) :=
      mul_le_mul_of_nonneg_right hb (sub_nonneg.mpr hone)
    have hle : min a c ≤ c := min_le_right a c
    have hge : c * (1 - ε) ≤ min a c := le_min (by linarith) (by nlinarith)
    rw [min_eq_right hb, abs_of_nonpos (by linarith)]
    linarith

/-- Past the clamp of the exponent the cap binds, in the code and in the formula. -/
theorem adamsNum_of_clamped {y : ℝ} (hy : 50 ≤ y) :
    (10 : ℝ) ^ 20 ≤ expPoly 50 - 50 - 1 ∧ 10 ^ 20 ≤ Real.exp y - y - 1 := by
  have hfifty := exp_fifty
  constructor
  · have hclose := (abs_le.mp (adamsNum_close (x := 50) (by norm_num) le_rfl)).1
    linarith
  · have hsplit : Real.exp y = Real.exp 50 * Real.exp (y - 50) := by
      rw [← Real.exp_add, add_sub_cancel]
    have hrest := Real.add_one_le_exp (y - 50)
    rw [hsplit]
    nlinarith

/-- **The wait is Adams'**, to one part in `10 ^ 12`. -/
theorem adamsDelayS_close {q tC capS : ℝ} (htC : 0 ≤ tC) (hcap : 0 ≤ capS)
    (hbinds : capS * q ≤ 10 ^ 20) :
    |adamsDelayS q tC capS - adamsWait q tC capS| ≤ adamsWait q tC capS / 10 ^ 12 := by
  unfold adamsDelayS adamsWait
  simp only [expXMax, Nat.cast_ofNat]
  by_cases hq : 0 < q
  · rw [if_pos hq, if_pos hq, div_eq_mul_inv _ ((10 : ℝ) ^ 12)]
    have hx : 0 ≤ q * tC := mul_nonneg hq.le htC
    rcases le_total (q * tC) 50 with hle | hgt
    · refine abs_min_sub_min_le ?_ hcap (by positivity) (by norm_num)
      have hnum : 0 ≤ Real.exp (q * tC) - q * tC - 1 := by
        linarith [Real.add_one_le_exp (q * tC)]
      have hmax := abs_max_sub_max_le_abs (expPoly (q * tC) - q * tC - 1)
        (Real.exp (q * tC) - q * tC - 1) 0
      have hclose := hmax.trans (adamsNum_close hx hle)
      rw [max_eq_left hnum] at hclose
      rw [min_eq_left hle, ← sub_div, abs_div, abs_of_pos hq, div_mul_eq_mul_div]
      exact div_le_div_of_nonneg_right (by rwa [← div_eq_mul_inv]) hq.le
    · obtain ⟨hcode, hformula⟩ := adamsNum_of_clamped hgt
      have hcode' : capS ≤ max (expPoly 50 - 50 - 1) 0 / q :=
        (le_div_iff₀ hq).mpr ((hbinds.trans hcode).trans (le_max_left _ _))
      have hformula' : capS ≤ (Real.exp (q * tC) - q * tC - 1) / q :=
        (le_div_iff₀ hq).mpr (hbinds.trans hformula)
      rw [min_eq_right hgt, min_eq_right hcode', min_eq_right hformula', sub_self, abs_zero]
      positivity
  · rw [if_neg hq, if_neg hq, min_eq_left hcap, sub_self, abs_zero, zero_div]

end RoutePlanner.Costs
