import Mathlib.Data.List.Basic

/-!
# The rank of a number in a class

The rank of `n` in a class of numbers is how many numbers of the class come before it. The ranks of
a class are `0, 1, 2, …`, without gaps (`exists_rank_eq`) and without repetition (`rank_inj`).
-/

namespace RoutePlanner.Lib

variable {p : ℕ → Bool}

/-- How many numbers of the class come before `n`. -/
def rank (p : ℕ → Bool) (n : ℕ) : ℕ := (List.range n).countP p

theorem rank_succ (p : ℕ → Bool) (n : ℕ) :
    rank p (n + 1) = rank p n + if p n = true then 1 else 0 := by
  unfold rank
  rw [List.range_succ, List.countP_append, List.countP_singleton]

theorem rank_mono (p : ℕ → Bool) {a b : ℕ} (h : a ≤ b) : rank p a ≤ rank p b := by
  obtain ⟨d, rfl⟩ := Nat.exists_eq_add_of_le h
  clear h
  induction d with
  | zero => exact Nat.le_refl _
  | succ d ih =>
    rw [← Nat.add_assoc, rank_succ]
    omega

theorem rank_lt {a b : ℕ} (ha : p a = true) (h : a < b) : rank p a < rank p b := by
  have hstep : rank p (a + 1) = rank p a + 1 := by
    rw [rank_succ, if_pos ha]
  have hle : rank p (a + 1) ≤ rank p b := rank_mono p h
  omega

/-- **No two members have one rank.** -/
theorem rank_inj {a b : ℕ} (ha : p a = true) (hb : p b = true) (h : rank p a = rank p b) :
    a = b := by
  rcases Nat.lt_trichotomy a b with hab | hab | hab
  · exact absurd h (Nat.ne_of_lt (rank_lt ha hab))
  · exact hab
  · exact absurd h (Nat.ne_of_gt (rank_lt hb hab))

/-- **The ranks have no gaps.** -/
theorem exists_rank_eq {n j : ℕ} (h : j < rank p n) : ∃ a < n, p a = true ∧ rank p a = j := by
  induction n with
  | zero => exact absurd h (Nat.not_lt_zero j)
  | succ n ih =>
    rw [rank_succ] at h
    by_cases hj : j < rank p n
    · obtain ⟨a, ha, hpa, hrank⟩ := ih hj
      exact ⟨a, Nat.lt_succ_of_lt ha, hpa, hrank⟩
    · by_cases hn : p n = true
      · rw [if_pos hn] at h
        exact ⟨n, Nat.lt_succ_self n, hn, by omega⟩
      · rw [if_neg hn] at h
        omega

end RoutePlanner.Lib
