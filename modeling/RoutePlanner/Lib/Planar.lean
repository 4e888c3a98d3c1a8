import Mathlib.Algebra.Order.Field.Basic
import Mathlib.Data.List.Perm.Subperm
import Mathlib.Data.List.Sort
import Mathlib.Tactic.Linarith
import Mathlib.Tactic.Ring

/-!
# Segments in the plane, and the nearest points of a list

Points are pairs over an ordered field. `sqDist` is the squared distance.

* `sqDist_clamped_le`: the point of a segment at the clamped projection is the nearest one.
* `KNearest`: an index of points that finds the `k` nearest to any point; `sortedIndex` is one that
  sorts them.
-/

namespace RoutePlanner.Lib

variable {K : Type*} [Field K] [LinearOrder K]

section Segment

/-- The point of the segment from `a` to `b` at the fraction `v`. -/
def pointAt (a b : K × K) (v : K) : K × K := (a.1 + v * (b.1 - a.1), a.2 + v * (b.2 - a.2))

def sqDist (p q : K × K) : K := (p.1 - q.1) * (p.1 - q.1) + (p.2 - q.2) * (p.2 - q.2)

/-- The scalar product of `p - a` with `b - a`. -/
def along (p a b : K × K) : K := (p.1 - a.1) * (b.1 - a.1) + (p.2 - a.2) * (b.2 - a.2)

/-- The fraction at which `p` projects on the segment from `a` to `b`, held in `[0, 1]`. -/
def clampedFrac (p a b : K × K) : K :=
  if sqDist b a = 0 then 0 else max 0 (min 1 (along p a b / sqDist b a))

variable [IsStrictOrderedRing K] (p a b : K × K)

theorem sqDist_nonneg (p q : K × K) : 0 ≤ sqDist p q :=
  add_nonneg (mul_self_nonneg _) (mul_self_nonneg _)

theorem clampedFrac_mem : 0 ≤ clampedFrac p a b ∧ clampedFrac p a b ≤ 1 := by
  unfold clampedFrac
  split
  · exact ⟨le_rfl, zero_le_one⟩
  · exact ⟨le_max_left _ _, max_le zero_le_one (min_le_left _ _)⟩

omit [LinearOrder K] [IsStrictOrderedRing K] in
/-- The squared distance along a segment is a parabola in the fraction. -/
theorem sqDist_pointAt (v : K) :
    sqDist p (pointAt a b v) = sqDist p a - (v + v) * along p a b + v * v * sqDist b a := by
  unfold sqDist pointAt along
  ring

/-- **The clamped projection is the nearest point of a segment.** -/
theorem sqDist_clamped_le {v : K} (h0 : 0 ≤ v) (h1 : v ≤ 1) :
    sqDist p (pointAt a b (clampedFrac p a b)) ≤ sqDist p (pointAt a b v) := by
  rw [sqDist_pointAt, sqDist_pointAt]
  by_cases hzero : sqDist b a = 0
  · -- the segment is a point
    obtain ⟨hx, hy⟩ := (add_eq_zero_iff_of_nonneg (mul_self_nonneg _) (mul_self_nonneg _)).mp hzero
    have hdot : along p a b = 0 := by
      unfold along
      rw [mul_self_eq_zero.mp hx, mul_self_eq_zero.mp hy, mul_zero, mul_zero, add_zero]
    rw [hdot, hzero]
    simp
  have hpos : 0 < sqDist b a := lt_of_le_of_ne (sqDist_nonneg b a) (Ne.symm hzero)
  unfold clampedFrac
  rw [if_neg hzero]
  rcases le_total (along p a b) 0 with hneg | hnonneg
  · -- before the start
    have hfrac : along p a b / sqDist b a ≤ 0 := div_nonpos_of_nonpos_of_nonneg hneg hpos.le
    rw [min_eq_right (hfrac.trans zero_le_one), max_eq_left hfrac]
    nlinarith [mul_nonneg h0 (neg_nonneg.mpr hneg), mul_nonneg (mul_nonneg h0 h0) hpos.le]
  rcases le_total (sqDist b a) (along p a b) with hpast | hwithin
  · -- past the end
    rw [min_eq_left ((one_le_div hpos).mpr hpast), max_eq_right zero_le_one]
    nlinarith [mul_nonneg (sub_nonneg.mpr h1) (sub_nonneg.mpr hpast),
      mul_nonneg (mul_nonneg (sub_nonneg.mpr h1) (sub_nonneg.mpr h1)) hpos.le]
  · -- in between: the least value of the parabola
    have hle : along p a b / sqDist b a ≤ 1 := (div_le_one hpos).mpr hwithin
    rw [min_eq_right hle, max_eq_right (div_nonneg hnonneg hpos.le)]
    have hcancel : along p a b / sqDist b a * sqDist b a = along p a b :=
      div_mul_cancel₀ _ hzero
    have hsquare := mul_nonneg (mul_self_nonneg (v - along p a b / sqDist b a)) hpos.le
    generalize along p a b / sqDist b a = u at hcancel hsquare
    rw [← hcancel]
    nlinarith

end Segment

/-! ## The nearest points of a list -/

/-- An index of some points that finds the `k` nearest to any point. -/
structure KNearest (pts : List (K × K)) where
  query : K × K → ℕ → List ℕ
  nodup : ∀ p k, (query p k).Nodup
  length_eq : ∀ p k, k ≤ pts.length → (query p k).length = k
  lt_length : ∀ p k, ∀ i ∈ query p k, i < pts.length
  /-- What is not found is no nearer than what is. -/
  nearest : ∀ p k, ∀ i ∈ query p k, ∀ j < pts.length, j ∉ query p k →
    sqDist p (pts.getD i (0, 0)) ≤ sqDist p (pts.getD j (0, 0))

/-- All points are found when as many are asked for. -/
theorem KNearest.mem_query {pts : List (K × K)} (tree : KNearest pts) (p : K × K) {i : ℕ}
    (hi : i < pts.length) : i ∈ tree.query p pts.length := by
  have hsub : tree.query p pts.length ⊆ List.range pts.length :=
    fun j hj => List.mem_range.mpr (tree.lt_length p _ j hj)
  have hperm : (tree.query p pts.length).Perm (List.range pts.length) :=
    (List.Nodup.subperm (tree.nodup p _) hsub).perm_of_length_le (by
      rw [tree.length_eq p _ le_rfl, List.length_range])
  exact hperm.mem_iff.mpr (List.mem_range.mpr hi)

section Sorted

variable (pts : List (K × K)) (p : K × K)

/-- One point of the list is no farther than another. -/
def NoFarther (i j : ℕ) : Prop := sqDist p (pts.getD i (0, 0)) ≤ sqDist p (pts.getD j (0, 0))

instance : DecidableRel (NoFarther pts p) := fun i j =>
  inferInstanceAs (Decidable (sqDist p (pts.getD i (0, 0)) ≤ sqDist p (pts.getD j (0, 0))))

instance : Std.Total (NoFarther pts p) := ⟨fun _ _ => le_total _ _⟩

instance : IsTrans ℕ (NoFarther pts p) := ⟨fun _ _ _ => le_trans⟩

/-- The points from the nearest on. -/
def byDistance : List ℕ := (List.range pts.length).insertionSort (NoFarther pts p)

/-- The index that sorts all points. -/
def sortedIndex : KNearest pts where
  query p k := (byDistance pts p).take k
  nodup p k := (((List.perm_insertionSort _ _).nodup_iff).mpr List.nodup_range).sublist
    (List.take_sublist _ _)
  length_eq p k hk := by
    rw [List.length_take, byDistance, List.length_insertionSort, List.length_range, min_eq_left hk]
  lt_length p k i hi := by
    have hmem := List.mem_of_mem_take hi
    rw [byDistance, List.mem_insertionSort, List.mem_range] at hmem
    exact hmem
  nearest p k i hi j hj hnot := by
    have hsorted : (byDistance pts p).Pairwise (NoFarther pts p) :=
      List.pairwise_insertionSort _ _
    have hjmem : j ∈ byDistance pts p := by
      rw [byDistance, List.mem_insertionSort, List.mem_range]
      exact hj
    rw [← List.take_append_drop k (byDistance pts p)] at hsorted hjmem
    have hdrop := (List.mem_append.mp hjmem).resolve_left hnot
    exact (List.pairwise_append.mp hsorted).2.2 i hi j hdrop

end Sorted

end RoutePlanner.Lib
