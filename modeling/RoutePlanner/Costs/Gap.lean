import Mathlib.Algebra.Order.Field.Basic
import Mathlib.Algebra.Order.Floor.Ring
import Mathlib.Data.Nat.Factorial.Basic

/-!
# Adams' gap wait

Model of `adams_delay_s` and of the exponential it is built from: range reduction by `ln 2`, and a
Taylor polynomial. Arithmetic is exact, over any ordered field with a floor.

* `adamsDelayS_nonneg`, `adamsDelayS_zero`.
-/

namespace RoutePlanner.Costs

variable {K : Type} [Field K] [LinearOrder K] [FloorRing K]

/-- `np.rint`: a half goes to the even neighbour. -/
def rint (x : K) : ℤ :=
  let d := x - (⌊x⌋ : ℤ)
  if d < 1 / ((2 : ℕ) : K) ∨ d = 1 / ((2 : ℕ) : K) ∧ ⌊x⌋ % 2 = 0 then ⌊x⌋ else ⌊x⌋ + 1

/-- `_LN2_HI`. -/
def ln2Hi : K := ((69314718036912381649 : ℕ) : K) / ((10 ^ 20 : ℕ) : K)

/-- `_LN2_LO`. -/
def ln2Lo : K := ((190821492927058770002 : ℕ) : K) / ((10 ^ 30 : ℕ) : K)

/-- `_INV_LN2`. -/
def invLn2 : K := ((1442695040888963387 : ℕ) : K) / ((10 ^ 18 : ℕ) : K)

/-- `_EXP_COEF`. -/
def expCoef : List K := (List.range 12).map fun n => 1 / (n.factorial : K)

/-- `_EXP_X_MAX`. -/
def expXMax : K := ((50 : ℕ) : K)

/-- `_exp_poly`. -/
def expPoly (x : K) : K :=
  let k := rint (x * invLn2)
  let r := (x - k * ln2Hi) - k * ln2Lo
  let p := expCoef.dropLast.foldr (fun c p => p * r + c) (expCoef.getLastD 0)
  p * ((2 : ℕ) : K) ^ k

/-- **`adams_delay_s`**, for one turn. -/
def adamsDelayS (q tC capS : K) : K :=
  let x := min (q * tC) expXMax
  let num := max (expPoly x - x - 1) 0
  min (if 0 < q then num / q else 0) capS

variable [IsStrictOrderedRing K]

/-- No wait is negative. -/
theorem adamsDelayS_nonneg (q tC : K) {capS : K} (hcap : 0 ≤ capS) : 0 ≤ adamsDelayS q tC capS := by
  unfold adamsDelayS
  refine le_min ?_ hcap
  split
  · exact div_nonneg (le_max_right _ _) (le_of_lt ‹_›)
  · exact le_rfl

omit [IsStrictOrderedRing K] in
/-- Without conflicting flow there is no wait. -/
theorem adamsDelayS_zero (tC : K) {capS : K} (hcap : 0 ≤ capS) : adamsDelayS 0 tC capS = 0 := by
  unfold adamsDelayS
  simp only
  rw [if_neg (lt_irrefl 0), min_eq_left hcap]

end RoutePlanner.Costs
