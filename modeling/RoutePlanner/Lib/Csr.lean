import Mathlib.Data.List.Basic
import Mathlib.Algebra.BigOperators.Group.List.Basic
import Mathlib.Algebra.Ring.Nat

/-!
# Compressed sparse rows

Rows stored one behind the other in a single array, with a pointer array that has one entry more
than there are rows: row `k` is what lies between the pointers `k` and `k + 1`.

The pointers are made in two ways.

* By counting: `cumsum` of the `histogram` of the keys, when the array is sorted by key
  (`getElem?_cumsum_histogram`, `mem_row_iff`).
* By appending: `appendRows` extends the array row by row and notes its length
  (`appendRows_eq`, `getElem?_flatten_offset`).

`expand` is the way back, from the pointers to the row of each entry (`getElem?_expand_offsets`).
-/

namespace RoutePlanner.Lib

variable {α : Type*}

/-! ## Counting -/

/-- `h[k] += 1` for every key. -/
def histogram (n : ℕ) (keys : List ℕ) : List ℕ :=
  keys.foldl (fun h k => h.modify k (· + 1)) (List.replicate n 0)

/-- Running sums, from `s` on. -/
def cumsum : ℕ → List ℕ → List ℕ
  | _, [] => []
  | s, x :: l => (s + x) :: cumsum (s + x) l

theorem length_foldl_modify (keys h : List ℕ) :
    (keys.foldl (fun h k => h.modify k (· + 1)) h).length = h.length := by
  induction keys generalizing h with
  | nil => rfl
  | cons k keys ih => rw [List.foldl_cons, ih, List.length_modify]

@[simp] theorem length_histogram (n : ℕ) (keys : List ℕ) : (histogram n keys).length = n := by
  rw [histogram, length_foldl_modify, List.length_replicate]

@[simp] theorem length_cumsum (s : ℕ) (l : List ℕ) : (cumsum s l).length = l.length := by
  induction l generalizing s with
  | nil => rfl
  | cons x l ih => rw [cumsum, List.length_cons, List.length_cons, ih]

theorem getElem?_foldl_modify (keys h : List ℕ) (k : ℕ) :
    (keys.foldl (fun h k => h.modify k (· + 1)) h)[k]? = h[k]?.map (· + keys.count k) := by
  induction keys generalizing h with
  | nil =>
    simp
  | cons x keys ih =>
    rw [List.foldl_cons, ih, List.getElem?_modify, List.count_cons]
    cases h[k]? with
    | none => rfl
    | some v =>
      by_cases hx : x = k
      · simp only [Option.map_eq_map, Option.map_some, hx, if_true, beq_self_eq_true]
        exact congrArg some (by omega)
      · have hne : (x == k) = false := by simpa using hx
        simp only [Option.map_eq_map, Option.map_some, hx, if_false, hne, Bool.false_eq_true,
          Nat.add_zero]

theorem getElem?_histogram {n k : ℕ} (keys : List ℕ) (hk : k < n) :
    (histogram n keys)[k]? = some (keys.count k) := by
  rw [histogram, getElem?_foldl_modify, List.getElem?_replicate, if_pos hk, Option.map_some,
    Nat.zero_add]

theorem getElem?_cumsum {s k : ℕ} {l : List ℕ} (hk : k < l.length) :
    (cumsum s l)[k]? = some (s + (l.take (k + 1)).sum) := by
  induction l generalizing s k with
  | nil => exact absurd hk (Nat.not_lt_zero k)
  | cons x l ih =>
    cases k with
    | zero => simp [cumsum]
    | succ k =>
      rw [cumsum, List.getElem?_cons_succ, ih (Nat.lt_of_succ_lt_succ hk), List.take_succ_cons,
        List.sum_cons, Nat.add_assoc]

/-- One key more. -/
theorem countP_lt_succ (keys : List ℕ) (k : ℕ) :
    keys.countP (· < k + 1) = keys.countP (· < k) + keys.count k := by
  induction keys with
  | nil => rfl
  | cons x keys ih =>
    rw [List.countP_cons, List.countP_cons, List.count_cons, ih]
    rcases Nat.lt_trichotomy x k with hx | hx | hx
    · have hlt : x < k + 1 ∧ x < k ∧ x ≠ k := by omega
      simp [hlt]
      omega
    · have hlt : ¬ k < k := Nat.lt_irrefl k
      simp [hx]
      omega
    · have hlt : ¬ x < k + 1 ∧ ¬ x < k ∧ x ≠ k := by omega
      simp [hlt]

/-- The first entries of a histogram count the small keys. -/
theorem sum_take_histogram {n : ℕ} (keys : List ℕ) {k : ℕ} (hk : k < n) :
    ((histogram n keys).take (k + 1)).sum = keys.countP (· < k + 1) := by
  induction k with
  | zero =>
    have hget := getElem?_histogram keys hk
    rw [List.take_one, List.head?_eq_getElem?, hget, countP_lt_succ]
    simp
  | succ k ih =>
    rw [List.take_add_one, List.sum_append, ih (Nat.lt_of_succ_lt hk), getElem?_histogram keys hk,
      countP_lt_succ keys (k + 1)]
    simp

/-- **The pointers made by counting.** -/
theorem getElem?_cumsum_histogram {n k : ℕ} (keys : List ℕ) (hk : k < n) :
    (cumsum 0 (histogram n keys))[k]? = some (keys.countP (· ≤ k)) := by
  rw [getElem?_cumsum (by rwa [length_histogram]), Nat.zero_add, sum_take_histogram keys hk]
  refine congrArg some (List.countP_congr fun x _ => ?_)
  rw [decide_eq_true_eq, decide_eq_true_eq, Nat.lt_succ_iff]

/-- In a sorted list, the entries that satisfy a downward closed property come first. -/
theorem lt_countP_iff {keys : List ℕ} (hs : keys.Pairwise (· ≤ ·)) {p : ℕ → Bool}
    (hp : ∀ x y, x ≤ y → p y = true → p x = true) {i : ℕ} (hi : i < keys.length) :
    i < keys.countP p ↔ p keys[i] = true := by
  induction keys generalizing i with
  | nil => exact absurd hi (Nat.not_lt_zero i)
  | cons x keys ih =>
    rw [List.pairwise_cons] at hs
    rw [List.countP_cons]
    by_cases hx : p x = true
    · rw [if_pos hx]
      cases i with
      | zero => simpa using hx
      | succ i =>
        rw [List.getElem_cons_succ, ← ih hs.2 (Nat.lt_of_succ_lt_succ hi)]
        omega
    · rw [if_neg hx]
      have hnone : keys.countP p = 0 :=
        List.countP_eq_zero.mpr fun y hy hpy => hx (hp x y (hs.1 y hy) hpy)
      rw [hnone]
      refine iff_of_false (Nat.not_lt_zero _) fun hpi => hx ?_
      cases i with
      | zero => exact hpi
      | succ i => exact hp x _ (hs.1 _ (List.getElem_mem _)) hpi

/-- **The rows of a sorted array.** -/
theorem mem_row_iff {keys : List ℕ} (hs : keys.Pairwise (· ≤ ·)) {i k : ℕ}
    (hi : i < keys.length) :
    keys.countP (· < k) ≤ i ∧ i < keys.countP (· ≤ k) ↔ keys[i] = k := by
  have hlt : i < keys.countP (· < k) ↔ keys[i] < k := by
    rw [lt_countP_iff hs (fun x y hxy hy => ?_) hi, decide_eq_true_eq]
    rw [decide_eq_true_eq] at hy ⊢
    omega
  have hle : i < keys.countP (· ≤ k) ↔ keys[i] ≤ k := by
    rw [lt_countP_iff hs (fun x y hxy hy => ?_) hi, decide_eq_true_eq]
    rw [decide_eq_true_eq] at hy ⊢
    omega
  rw [hle, ← Nat.not_lt, hlt]
  omega

/-! ## Appending -/

/-- Rows put one behind the other, with the length after each. -/
def appendRows (rows : List (List α)) : List α × List ℕ :=
  rows.foldl (fun s row => (s.1 ++ row, s.2 ++ [(s.1 ++ row).length])) ([], [0])

/-- Where each row starts, and where the last one ends. -/
def offsets (rows : List (List α)) : List ℕ := 0 :: cumsum 0 (rows.map List.length)

/-- Where row `e` starts. -/
def offset (rows : List (List α)) (e : ℕ) : ℕ := ((rows.take e).map List.length).sum

/-- **The pointers made by appending.** -/
theorem appendRows_eq (rows : List (List α)) : appendRows rows = (rows.flatten, offsets rows) := by
  have hfold : ∀ (rows : List (List α)) (pool : List α) (ptr : List ℕ),
      rows.foldl (fun s row => (s.1 ++ row, s.2 ++ [(s.1 ++ row).length])) (pool, ptr) =
        (pool ++ rows.flatten, ptr ++ cumsum pool.length (rows.map List.length)) := by
    intro rows
    induction rows with
    | nil => simp [cumsum]
    | cons row rows ih =>
      intro pool ptr
      rw [List.foldl_cons, ih]
      simp [cumsum]
  exact hfold rows [] [0]

@[simp] theorem length_offsets (rows : List (List α)) :
    (offsets rows).length = rows.length + 1 := by
  rw [offsets, List.length_cons, length_cumsum, List.length_map]

theorem getElem?_offsets {rows : List (List α)} {e : ℕ} (he : e ≤ rows.length) :
    (offsets rows)[e]? = some (offset rows e) := by
  cases e with
  | zero => rfl
  | succ e =>
    rw [offsets, List.getElem?_cons_succ, getElem?_cumsum (by rwa [List.length_map]), Nat.zero_add,
      offset, List.map_take]

/-- The last pointer is the length of the array. -/
theorem offset_length (rows : List (List α)) : offset rows rows.length = rows.flatten.length := by
  rw [offset, List.take_length, List.length_flatten]

theorem getLast?_offsets (rows : List (List α)) :
    (offsets rows).getLast? = some rows.flatten.length := by
  rw [List.getLast?_eq_getElem?, length_offsets, Nat.add_sub_cancel,
    getElem?_offsets (Nat.le_refl _), offset_length]

/-- A row ends where the next one starts. -/
theorem offset_succ (rows : List (List α)) (e : ℕ) :
    offset rows (e + 1) = offset rows e + (rows.getD e []).length := by
  rw [offset, offset, List.take_add_one, List.map_append, List.sum_append,
    List.getD_eq_getElem?_getD]
  cases rows[e]? with
  | none => rfl
  | some row => rfl

theorem offset_mono (rows : List (List α)) (a b : ℕ) (hab : a ≤ b) :
    offset rows a ≤ offset rows b := by
  obtain ⟨d, rfl⟩ := Nat.exists_eq_add_of_le hab
  clear hab
  induction d with
  | zero => exact Nat.le_refl _
  | succ d ih =>
    rw [← Nat.add_assoc, offset_succ]
    omega

/-- No row starts behind the end. -/
theorem le_of_mem_offsets {rows : List (List α)} {x : ℕ} (h : x ∈ offsets rows) :
    x ≤ rows.flatten.length := by
  obtain ⟨e, hget⟩ := List.mem_iff_getElem?.mp h
  have he : e ≤ rows.length := by
    have hlt := (List.getElem?_eq_some_iff.mp hget).1
    rw [length_offsets] at hlt
    exact Nat.le_of_lt_succ hlt
  rw [getElem?_offsets he, Option.some.injEq] at hget
  rw [← hget, ← offset_length]
  exact offset_mono rows _ _ he

/-- **An entry of a row**, in the array. -/
theorem getElem?_flatten_offset {rows : List (List α)} {e i : ℕ}
    (hi : i < (rows.getD e []).length) :
    rows.flatten[offset rows e + i]? = (rows.getD e [])[i]? := by
  induction rows generalizing e with
  | nil => exact absurd hi (Nat.not_lt_zero i)
  | cons row rows ih =>
    cases e with
    | zero =>
      rw [List.getD_cons_zero] at hi ⊢
      rw [List.flatten_cons, offset, List.take_zero, List.map_nil, List.sum_nil, Nat.zero_add,
        List.getElem?_append_left hi]
    | succ e =>
      rw [List.getD_cons_succ] at hi ⊢
      have hoff : offset (row :: rows) (e + 1) = row.length + offset rows e := by
        rw [offset, List.take_succ_cons, List.map_cons, List.sum_cons]
        rfl
      rw [List.flatten_cons, hoff, List.getElem?_append_right (by omega), ← ih hi]
      exact congrArg (rows.flatten[·]?) (by omega)

/-! ## The row of each entry -/

/-- `np.repeat(np.arange(E), np.diff(ptr))`. -/
def expand (ptr : List ℕ) : List ℕ :=
  (List.range (ptr.length - 1)).flatMap fun e =>
    List.replicate (ptr.getD (e + 1) 0 - ptr.getD e 0) e

/-- The entries of the first rows. -/
theorem length_flatMap_replicate {ptr : ℕ → ℕ} (h0 : ptr 0 = 0)
    (hmono : ∀ a b, a ≤ b → ptr a ≤ ptr b) (n : ℕ) :
    ((List.range n).flatMap fun e => List.replicate (ptr (e + 1) - ptr e) e).length = ptr n := by
  induction n with
  | zero => exact h0.symm
  | succ n ih =>
    have hle := hmono _ _ (Nat.le_succ n)
    rw [List.range_succ, List.flatMap_append, List.length_append, ih, List.flatMap_singleton,
      List.length_replicate]
    exact Nat.add_sub_cancel' hle

/-- **The row of each entry** is the one whose pointers enclose it. -/
theorem getElem?_flatMap_replicate {ptr : ℕ → ℕ} (h0 : ptr 0 = 0)
    (hmono : ∀ a b, a ≤ b → ptr a ≤ ptr b) {n t e : ℕ} (he : e < n) :
    ((List.range n).flatMap fun e => List.replicate (ptr (e + 1) - ptr e) e)[t]? = some e ↔
      ptr e ≤ t ∧ t < ptr (e + 1) := by
  induction n with
  | zero => exact absurd he (Nat.not_lt_zero e)
  | succ n ih =>
    have hlen := length_flatMap_replicate h0 hmono n
    rw [List.range_succ, List.flatMap_append, List.flatMap_singleton]
    by_cases ht : t < ptr n
    · rw [List.getElem?_append_left (by rwa [hlen])]
      rcases Nat.lt_succ_iff_lt_or_eq.mp he with he | rfl
      · exact ih he
      · -- before the last row
        refine iff_of_false (fun h => ?_) fun h => absurd ht (Nat.not_lt.mpr h.1)
        obtain ⟨e', he', hmem⟩ := List.mem_flatMap.mp (List.mem_of_getElem? h)
        rw [(List.mem_replicate.mp hmem).2] at he
        rw [← (List.mem_replicate.mp hmem).2] at he'
        exact absurd (List.mem_range.mp he') (Nat.lt_irrefl _)
    · rw [List.getElem?_append_right (by rw [hlen]; omega), hlen, List.getElem?_replicate]
      have hge := hmono _ _ (Nat.succ_le_of_lt he)
      have hpre := hmono _ _ (Nat.le_of_lt_succ he)
      rcases Nat.lt_succ_iff_lt_or_eq.mp he with he' | rfl
      · -- after the row of `e`
        have hend := hmono _ _ (Nat.succ_le_of_lt he')
        refine iff_of_false (fun h => ?_) fun h => ?_
        · split at h
          · exact absurd (Option.some.inj h) (Nat.ne_of_gt he')
          · exact absurd h (by simp)
        · have hlt := h.2
          simp only [Nat.succ_eq_add_one] at hend
          omega
      · constructor
        · intro h
          split at h
          · omega
          · exact absurd h (by simp)
        · intro h
          rw [if_pos (by omega)]

theorem expand_offsets (rows : List (List α)) :
    expand (offsets rows) = (List.range rows.length).flatMap fun e =>
      List.replicate (offset rows (e + 1) - offset rows e) e := by
  unfold expand
  rw [length_offsets, Nat.add_sub_cancel]
  refine List.flatMap_congr fun e he => ?_
  have he' : e < rows.length := List.mem_range.mp he
  rw [List.getD_eq_getElem?_getD, List.getD_eq_getElem?_getD, getElem?_offsets he',
    getElem?_offsets (Nat.le_of_lt he')]
  rfl

@[simp] theorem length_expand_offsets (rows : List (List α)) :
    (expand (offsets rows)).length = rows.flatten.length := by
  rw [expand_offsets, length_flatMap_replicate rfl (offset_mono rows), offset, List.take_length,
    List.length_flatten]

theorem getElem?_expand_offsets {rows : List (List α)} {t e : ℕ} (he : e < rows.length) :
    (expand (offsets rows))[t]? = some e ↔ offset rows e ≤ t ∧ t < offset rows (e + 1) := by
  rw [expand_offsets]
  exact getElem?_flatMap_replicate rfl (offset_mono rows) he

theorem lt_of_mem_expand {rows : List (List α)} {e : ℕ} (h : e ∈ expand (offsets rows)) :
    e < rows.length := by
  rw [expand_offsets, List.mem_flatMap] at h
  obtain ⟨e', he', hrep⟩ := h
  rw [(List.mem_replicate.mp hrep).2]
  exact List.mem_range.mp he'

/-- **Every entry of the array stands in a row.** -/
theorem exists_row {rows : List (List α)} {t : ℕ} (ht : t < rows.flatten.length) :
    ∃ e i, e < rows.length ∧ i < (rows.getD e []).length ∧ t = offset rows e + i := by
  have hlen : t < (expand (offsets rows)).length := by
    rwa [length_expand_offsets]
  obtain ⟨e, hget⟩ : ∃ e, (expand (offsets rows))[t]? = some e := ⟨_, List.getElem?_eq_getElem hlen⟩
  have hlt : e < rows.length := lt_of_mem_expand (List.mem_of_getElem? hget)
  obtain ⟨hlo, hhi⟩ := (getElem?_expand_offsets hlt).mp hget
  rw [offset_succ] at hhi
  exact ⟨e, t - offset rows e, hlt, by omega, by omega⟩

/-- The rows come in order. -/
theorem expand_sorted (rows : List (List α)) : (expand (offsets rows)).Pairwise (· ≤ ·) := by
  rw [List.pairwise_iff_getElem]
  intro t t' ht ht' hlt
  have hrow : ∀ {t : ℕ} (ht : t < (expand (offsets rows)).length),
      offset rows (expand (offsets rows))[t] ≤ t ∧
        t < offset rows ((expand (offsets rows))[t] + 1) := fun ht =>
    (getElem?_expand_offsets (lt_of_mem_expand (List.getElem_mem ht))).mp
      (List.getElem?_eq_getElem ht)
  by_contra hgt
  have hmono := offset_mono rows _ _ (Nat.succ_le_of_lt (Nat.not_le.mp hgt))
  have h := hrow ht
  have h' := hrow ht'
  simp only [Nat.succ_eq_add_one] at hmono
  omega

end RoutePlanner.Lib
