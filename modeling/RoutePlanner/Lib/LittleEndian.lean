import Mathlib.Data.Nat.Digits.Lemmas

/-!
# Little-endian words

A word of `k` bytes is a number below `256 ^ k`, its least byte first.

* `leNat_leBytes`: the bytes of a word read back as the word.
* `leWords_flatMap`: so do the bytes of a sequence of words of one width.
-/

namespace RoutePlanner.Lib

/-- The `k` low bytes of `n`. -/
def leBytes : ℕ → ℕ → List UInt8
  | 0, _ => []
  | k + 1, n => UInt8.ofNat n :: leBytes k (n / 256)

/-- The number that bytes stand for. -/
def leNat (bytes : List UInt8) : ℕ := Nat.ofDigits 256 (bytes.map UInt8.toNat)

/-- The first `n` words of `k` bytes. -/
def leWords (k : ℕ) : ℕ → List UInt8 → List ℕ
  | 0, _ => []
  | n + 1, bytes => leNat (bytes.take k) :: leWords k n (bytes.drop k)

@[simp] theorem length_leBytes (k n : ℕ) : (leBytes k n).length = k := by
  induction k generalizing n with
  | zero => rfl
  | succ k ih => rw [leBytes, List.length_cons, ih]

theorem length_flatMap_leBytes (k : ℕ) (ws : List ℕ) :
    (ws.flatMap (leBytes k)).length = ws.length * k := by
  induction ws with
  | nil => simp
  | cons w ws ih => rw [List.flatMap_cons, List.length_append, ih, length_leBytes,
      List.length_cons, Nat.succ_mul, Nat.add_comm]

theorem leNat_lt (bytes : List UInt8) : leNat bytes < 256 ^ bytes.length := by
  have h : leNat bytes < 256 ^ (bytes.map UInt8.toNat).length := by
    refine Nat.ofDigits_lt_base_pow_length (by decide) fun d hd => ?_
    obtain ⟨b, -, rfl⟩ := List.mem_map.mp hd
    exact b.toNat_lt
  rwa [List.length_map] at h

/-- A word that is read fits its width. -/
theorem lt_of_mem_leWords {k n w : ℕ} {bytes : List UInt8} (h : w ∈ leWords k n bytes) :
    w < 256 ^ k := by
  induction n generalizing bytes with
  | zero => exact absurd h List.not_mem_nil
  | succ n ih =>
    rcases List.mem_cons.mp h with rfl | h
    · exact (leNat_lt _).trans_le (Nat.pow_le_pow_right (by decide) (List.length_take_le k bytes))
    · exact ih h

/-- **A word** survives being written. -/
theorem leNat_leBytes {k n : ℕ} (h : n < 256 ^ k) : leNat (leBytes k n) = n := by
  unfold leNat
  induction k generalizing n with
  | zero =>
    obtain rfl : n = 0 := Nat.lt_one_iff.mp h
    rfl
  | succ k ih =>
    have hdiv : n / 256 < 256 ^ k := by
      rw [Nat.div_lt_iff_lt_mul (by decide), ← Nat.pow_succ]
      exact h
    rw [leBytes, List.map_cons, Nat.ofDigits_cons, ih hdiv, UInt8.toNat_ofNat']
    exact Nat.mod_add_div n 256

/-- **A sequence of words** survives being written. -/
theorem leWords_flatMap {k : ℕ} {ws : List ℕ} (h : ∀ w ∈ ws, w < 256 ^ k) :
    leWords k ws.length (ws.flatMap (leBytes k)) = ws := by
  induction ws with
  | nil => rfl
  | cons w ws ih =>
    have htake : (leBytes k w ++ ws.flatMap (leBytes k)).take k = leBytes k w := by
      rw [List.take_append_of_le_length (length_leBytes k w).ge,
        List.take_of_length_le (length_leBytes k w).le]
    have hdrop : (leBytes k w ++ ws.flatMap (leBytes k)).drop k = ws.flatMap (leBytes k) := by
      rw [List.drop_append_of_le_length (length_leBytes k w).ge,
        List.drop_of_length_le (length_leBytes k w).le, List.nil_append]
    rw [List.flatMap_cons, List.length_cons, leWords, htake, hdrop,
      leNat_leBytes (h w List.mem_cons_self), ih fun v hv => h v (List.mem_cons_of_mem w hv)]

end RoutePlanner.Lib
