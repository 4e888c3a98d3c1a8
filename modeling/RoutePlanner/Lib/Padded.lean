import Mathlib.Order.MinMax
import Mathlib.Data.List.GetD
import Mathlib.Data.List.Induction
import RoutePlanner.Lib.Csr
import RoutePlanner.Lib.StableSort

/-!
# Groups in a padded grid

Values are grouped by a key into the rows of a grid, each row filled up with a padding. A program
that works on whole arrays does this without a loop over the groups: it sorts stably by key, counts
each key, numbers the values of a group from `0` on, and writes every value to its row and slot.

* `sortStable_eq`: a stable sort lists the keys' groups one behind the other, each in its old order.
* `scatter_slots`: what is written when the groups come one behind the other.
* `groupPadded_eq`, `mem_groupPadded`: the rows of the grid.
* `mem_repeatPad`: a row padded with its own first value.
-/

namespace RoutePlanner.Lib

variable {α β : Type*}

/-- `l[np.argsort(key(l), kind="stable")]`. -/
def sortStable (key : α → ℕ) (l : List α) : List α := l.insertionSort fun a b => key a ≤ key b

/-- `np.repeat(xs, counts)`. -/
def repeatEach (xs : List α) (counts : List ℕ) : List α :=
  (xs.zip counts).flatMap fun x => List.replicate x.2 x.1

/-- Running sums, each without its own count: where every group starts, from `s` on. -/
def starts : ℕ → List ℕ → List ℕ
  | _, [] => []
  | s, c :: counts => s :: starts (s + c) counts

/-- `grid[row, slot] = value`, cell by cell. -/
def scatter (grid : List (List β)) (cells : List (ℕ × ℕ × β)) : List (List β) :=
  cells.foldl (fun g x => g.modify x.1 fun row => row.set x.2.1 x.2.2) grid

/-- **`_group_padded`**: values grouped by key, the rows padded with `none`. -/
def groupPadded (keys : List ℕ) (values : List α) (numKeys : ℕ) : List (List (Option α)) :=
  let order := sortStable (fun i => keys.getD i 0) (List.range keys.length)
  let count := histogram numKeys keys
  let width := max (count.foldl max 0) 1
  let start := 0 :: (cumsum 0 count).dropLast
  let slot := List.zipWith (· - ·) (List.range order.length) (repeatEach start count)
  scatter (List.replicate numKeys (List.replicate width none))
    ((order.map fun i => keys.getD i 0).zip (slot.zip (order.map fun i => values[i]?)))

/-! ## Sorting by key -/

/-- The elements with one key. -/
def group (key : α → ℕ) (l : List α) (k : ℕ) : List α := l.filter fun a => key a = k

theorem group_cons_self (key : α → ℕ) (a : α) (l : List α) :
    group key (a :: l) (key a) = a :: group key l (key a) :=
  List.filter_cons_of_pos (decide_eq_true rfl)

theorem group_cons_ne {key : α → ℕ} {a : α} {k : ℕ} (l : List α) (h : key a ≠ k) :
    group key (a :: l) k = group key l k :=
  List.filter_cons_of_neg (by simpa using h)

/-- **A stable sort** lists the groups one behind the other. -/
theorem sortStable_eq {key : α → ℕ} {n : ℕ} {l : List α} (h : ∀ a ∈ l, key a < n) :
    sortStable key l = (List.range n).flatMap (group key l) := by
  unfold sortStable
  induction l with
  | nil => simp [group]
  | cons a l ih =>
    have ha : key a < n := h a List.mem_cons_self
    rw [List.insertionSort_cons, ih fun b hb => h b (List.mem_cons_of_mem a hb)]
    -- the groups before that of `a`, its own, and those behind
    obtain ⟨m, rfl⟩ := Nat.exists_eq_add_of_lt ha
    have hrange : List.range (key a + m + 1) =
        List.range (key a) ++ key a :: List.range' (key a + 1) m := by
      rw [Nat.add_assoc, List.range_eq_range', List.range_eq_range', ← List.range'_append_1,
        Nat.zero_add, List.range'_succ]
    have hbefore : (List.range (key a)).flatMap (group key (a :: l)) =
        (List.range (key a)).flatMap (group key l) :=
      List.flatMap_congr fun k hk => group_cons_ne l (Nat.ne_of_gt (List.mem_range.mp hk))
    have hbehind : (List.range' (key a + 1) m).flatMap (group key (a :: l)) =
        (List.range' (key a + 1) m).flatMap (group key l) :=
      List.flatMap_congr fun k hk => group_cons_ne l (by have := List.mem_range'_1.mp hk; omega)
    have hless : ∀ b ∈ (List.range (key a)).flatMap (group key l),
        decide (key a ≤ key b) = false := by
      intro b hb
      obtain ⟨k, hk, hb⟩ := List.mem_flatMap.mp hb
      have hkey : key b = k := of_decide_eq_true (List.mem_filter.mp hb).2
      have hlt := List.mem_range.mp hk
      exact decide_eq_false (by omega)
    have hmore : ∀ b ∈ group key l (key a) ++
        (List.range' (key a + 1) m).flatMap (group key l), decide (key a ≤ key b) = true := by
      intro b hb
      rcases List.mem_append.mp hb with hb | hb
      · have hkey : key b = key a := of_decide_eq_true (List.mem_filter.mp hb).2
        exact decide_eq_true (Nat.le_of_eq hkey.symm)
      · obtain ⟨k, hk, hb⟩ := List.mem_flatMap.mp hb
        have hkey : key b = k := of_decide_eq_true (List.mem_filter.mp hb).2
        have hlt := List.mem_range'_1.mp hk
        exact decide_eq_true (by omega)
    have hinsert := @orderedInsert_append _ (fun a b => decide (key a ≤ key b)) a _ _ hless hmore
    rw [hrange, List.flatMap_append, List.flatMap_append, List.flatMap_cons, List.flatMap_cons,
      group_cons_self, hbefore, hbehind, List.cons_append]
    simpa only [decide_eq_true_eq] using hinsert

/-- Sorting by what is kept. -/
theorem sortStable_keep (keep : α → Bool) (l : List α) :
    sortStable (fun a => if keep a = true then 0 else 1) l =
      l.filter keep ++ l.filter fun a => !keep a := by
  have hlt : ∀ a ∈ l, (if keep a = true then 0 else 1) < 2 := by
    intro a _
    split <;> omega
  have hrange : List.range 2 = [0, 1] := rfl
  rw [sortStable_eq hlt, hrange, List.flatMap_cons, List.flatMap_singleton]
  unfold group
  congr 1
  · refine List.filter_congr fun a _ => ?_
    cases hkeep : keep a <;> simp [hkeep]
  · refine List.filter_congr fun a _ => ?_
    cases hkeep : keep a <;> simp [hkeep]

/-! ## Slots and cells -/

/-- A group of one length takes the numbers from its start on. -/
theorem zipWith_sub_replicate (s n : ℕ) :
    List.zipWith (· - ·) (List.range' s n) (List.replicate n s) = List.range n := by
  refine List.ext_getElem (by simp) fun i h₁ h₂ => ?_
  simp

theorem repeatEach_cons (x : α) (xs : List α) (c : ℕ) (counts : List ℕ) :
    repeatEach (x :: xs) (c :: counts) = List.replicate c x ++ repeatEach xs counts := rfl

/-- The cells of one row. -/
def rowCells (x : List β × ℕ) : List (ℕ × ℕ × β) := x.1.zipIdx.map fun v => (x.2, v.2, v.1)

theorem zip_replicate_range (b : List β) (r : ℕ) :
    (List.replicate b.length r).zip ((List.range b.length).zip b) = rowCells (b, r) := by
  unfold rowCells
  refine List.ext_getElem (by simp) fun i h₁ h₂ => ?_
  simp

/-- **The cells that are written** when the groups come one behind the other. -/
theorem zip_slots (blocks : List (List β)) (r s : ℕ) :
    (repeatEach (List.range' r blocks.length) (blocks.map List.length)).zip
        ((List.zipWith (· - ·) (List.range' s blocks.flatten.length)
          (repeatEach (starts s (blocks.map List.length)) (blocks.map List.length))).zip
          blocks.flatten) =
      (blocks.zipIdx r).flatMap rowCells := by
  induction blocks generalizing r s with
  | nil => rfl
  | cons b blocks ih =>
    rw [List.length_cons, List.range'_succ, List.map_cons, starts, repeatEach_cons,
      repeatEach_cons, List.flatten_cons, List.length_append, ← List.range'_append_1,
      List.zipWith_append (by simp), zipWith_sub_replicate, List.zip_append (by simp),
      List.zip_append (by simp), zip_replicate_range, ih, List.zipIdx_cons, List.flatMap_cons]

/-! ## Writing -/

/-- `row[i:i + len(b)] = b`, value by value. -/
def fillFrom (i : ℕ) (b row : List β) : List β :=
  (b.zipIdx i).foldl (fun row v => row.set v.2 v.1) row

theorem fillFrom_eq {i : ℕ} {b row : List β} (h : i + b.length ≤ row.length) :
    fillFrom i b row = row.take i ++ (b ++ row.drop (i + b.length)) := by
  unfold fillFrom
  induction b generalizing i row with
  | nil => simp
  | cons v b ih =>
    rw [List.length_cons] at h
    have hset : row.set i v = row.take i ++ v :: row.drop (i + 1) := by
      rw [List.set_eq_take_append_cons_drop, if_pos (by omega)]
    have hlen : (row.take i).length = i := by
      rw [List.length_take]
      omega
    rw [List.zipIdx_cons, List.foldl_cons, ih (by rw [List.length_set]; omega), hset,
      List.take_append, hlen, List.take_of_length_le (by omega), Nat.add_sub_cancel_left,
      List.take_succ_cons, List.take_zero, List.append_assoc, List.drop_append, hlen,
      List.drop_of_length_le (by omega), List.nil_append]
    have hpast : i + 1 + b.length - i = b.length + 1 := by omega
    rw [hpast, List.drop_succ_cons, List.drop_drop, List.singleton_append, List.length_cons,
      List.cons_append]
    have hdrop : i + 1 + b.length = i + (b.length + 1) := by omega
    rw [hdrop]

theorem scatter_append (grid : List (List β)) (cells cells' : List (ℕ × ℕ × β)) :
    scatter grid (cells ++ cells') = scatter (scatter grid cells) cells' :=
  List.foldl_append

theorem scatter_rowCells (grid : List (List β)) (b : List β) (r : ℕ) :
    scatter grid (rowCells (b, r)) = grid.modify r (fillFrom 0 b) := by
  unfold rowCells fillFrom
  generalize 0 = i
  induction b generalizing grid i with
  | nil => exact (List.modify_id r grid).symm
  | cons v b ih =>
    rw [List.zipIdx_cons, List.map_cons]
    change scatter (grid.modify r fun row => row.set i v) _ = _
    rw [ih, List.modify_modify_eq]
    rfl

theorem modify_append_cons (done rest : List α) (x : α) (f : α → α) :
    (done ++ x :: rest).modify done.length f = done ++ f x :: rest := by
  induction done with
  | nil => rfl
  | cons y done ih => simp [ih]

/-- **What is written**: the groups, each filled up with the padding. -/
theorem scatter_blocks {w : ℕ} (pad : β) {blocks : List (List β)}
    (hw : ∀ b ∈ blocks, b.length ≤ w) :
    scatter (List.replicate blocks.length (List.replicate w pad))
        ((blocks.zipIdx).flatMap rowCells) =
      blocks.map fun b => b ++ List.replicate (w - b.length) pad := by
  have hrows : ∀ (blocks done : List (List β)), (∀ b ∈ blocks, b.length ≤ w) →
      scatter (done ++ List.replicate blocks.length (List.replicate w pad))
          ((blocks.zipIdx done.length).flatMap rowCells) =
        done ++ blocks.map fun b => b ++ List.replicate (w - b.length) pad := by
    intro blocks
    induction blocks with
    | nil => simp [scatter]
    | cons b blocks ih =>
      intro done hw
      have hb : b.length ≤ w := hw b List.mem_cons_self
      rw [List.zipIdx_cons, List.flatMap_cons, scatter_append, scatter_rowCells, List.length_cons,
        List.replicate_succ, modify_append_cons,
        fillFrom_eq (by rwa [Nat.zero_add, List.length_replicate])]
      have hnext := ih (done ++ [b ++ List.replicate (w - b.length) pad]) fun b' hb' =>
        hw b' (List.mem_cons_of_mem b hb')
      rw [List.length_append, List.length_singleton, List.append_assoc, List.append_assoc] at hnext
      rw [List.take_zero, List.nil_append, Nat.zero_add, List.drop_replicate, List.map_cons]
      exact hnext
  exact hrows blocks [] hw

/-! ## The padded grid -/

theorem concat_cumsum {s : ℕ} {counts : List ℕ} (h : counts ≠ []) :
    s :: (cumsum s counts).dropLast = starts s counts := by
  induction counts generalizing s with
  | nil => exact absurd rfl h
  | cons c counts ih =>
    cases counts with
    | nil => rfl
    | cons c' counts =>
      rw [cumsum, starts, ← ih (List.cons_ne_nil _ _), cumsum, List.dropLast_cons_cons]

theorem repeatEach_range (f : ℕ → ℕ) (n : ℕ) :
    repeatEach (List.range n) ((List.range n).map f) =
      (List.range n).flatMap fun k => List.replicate (f k) k := by
  have hzip : (List.range n).zip ((List.range n).map f) =
      (List.range n).map fun k => (k, f k) := by
    rw [← List.zip_map', List.map_id']
  rw [repeatEach, hzip, List.flatMap_map]

theorem le_foldl_max {K : Type*} [LinearOrder K] {m x : K} {l : List K} (h : x ∈ m :: l) :
    x ≤ l.foldl max m := (List.max?_eq_some_iff.mp List.max?_cons').2 x h

/-- **The grid of some blocks**: each in a row of its own, filled up to the longest. -/
theorem scatter_slots (pad : β) (blocks : List (List β)) {width : ℕ}
    (hwidth : width = max ((blocks.map List.length).foldl max 0) 1) :
    scatter (List.replicate blocks.length (List.replicate width pad))
        ((repeatEach (List.range blocks.length) (blocks.map List.length)).zip
          ((List.zipWith (· - ·) (List.range blocks.flatten.length)
            (repeatEach (starts 0 (blocks.map List.length)) (blocks.map List.length))).zip
            blocks.flatten)) =
      blocks.map fun b => b ++ List.replicate (width - b.length) pad := by
  have hfits : ∀ b ∈ blocks, b.length ≤ width := by
    intro b hb
    rw [hwidth]
    exact (le_foldl_max (List.mem_cons_of_mem 0 (List.mem_map_of_mem hb))).trans
      (Nat.le_max_left _ _)
  rw [List.range_eq_range', List.range_eq_range', zip_slots]
  exact scatter_blocks pad hfits

section Grid

variable {keys : List ℕ} {values : List α} {numKeys : ℕ}

/-- The places of one key. -/
def places (keys : List ℕ) (k : ℕ) : List ℕ :=
  group (fun i => keys.getD i 0) (List.range keys.length) k

theorem mem_places {k i : ℕ} : i ∈ places keys k ↔ keys[i]? = some k := by
  unfold places group
  rw [List.mem_filter, List.mem_range, decide_eq_true_eq]
  beta_reduce
  constructor
  · rintro ⟨hlt, hkey⟩
    rw [List.getD_eq_getElem _ _ hlt] at hkey
    rw [List.getElem?_eq_getElem hlt, hkey]
  · intro h
    obtain ⟨hlt, hkey⟩ := List.getElem?_eq_some_iff.mp h
    refine ⟨hlt, ?_⟩
    rw [List.getD_eq_getElem _ _ hlt, hkey]

theorem map_getD_range (l : List ℕ) : (List.range l.length).map (fun i => l.getD i 0) = l := by
  refine List.ext_getElem (by simp) fun i h₁ h₂ => ?_
  rw [List.getElem_map, List.getElem_range, List.getD_eq_getElem _ _ h₂]

theorem length_places (keys : List ℕ) (k : ℕ) : (places keys k).length = keys.count k := by
  have hcount := congrArg (List.count k) (map_getD_range keys)
  rw [List.count, List.countP_map, List.countP_eq_length_filter] at hcount
  exact hcount

/-- The values of one key. -/
def valuesOf (keys : List ℕ) (values : List α) (k : ℕ) : List (Option α) :=
  (places keys k).map fun i => values[i]?

theorem histogram_eq (n : ℕ) (keys : List ℕ) :
    histogram n keys = (List.range n).map fun k => (places keys k).length := by
  refine List.ext_getElem? fun k => ?_
  by_cases hk : k < n
  · rw [getElem?_histogram keys hk, List.getElem?_map, List.getElem?_range hk, Option.map_some,
      length_places]
  · rw [List.getElem?_eq_none (by rw [length_histogram]; omega),
      List.getElem?_eq_none (by rw [List.length_map, List.length_range]; omega)]

theorem sortStable_places (hkeys : ∀ k ∈ keys, k < numKeys) :
    sortStable (fun i => keys.getD i 0) (List.range keys.length) =
      (List.range numKeys).flatMap (places keys) := by
  refine sortStable_eq fun i hi => hkeys _ ?_
  rw [List.getD_eq_getElem _ _ (List.mem_range.mp hi)]
  exact List.getElem_mem _

/-- The rows that the sorted values go to. -/
theorem map_key_places (keys : List ℕ) (n : ℕ) :
    ((List.range n).flatMap (places keys)).map (fun i => keys.getD i 0) =
      repeatEach (List.range n) (histogram n keys) := by
  rw [histogram_eq, repeatEach_range, List.map_flatMap]
  refine List.flatMap_congr fun k _ => ?_
  refine List.eq_replicate_iff.mpr ⟨List.length_map _, fun x hx => ?_⟩
  obtain ⟨i, hi, rfl⟩ := List.mem_map.mp hx
  exact of_decide_eq_true (List.mem_filter.mp hi).2

/-- **The rows of the grid.** -/
theorem groupPadded_eq (hkeys : ∀ k ∈ keys, k < numKeys) :
    groupPadded keys values numKeys = (List.range numKeys).map fun k =>
      valuesOf keys values k ++ List.replicate
        (max ((histogram numKeys keys).foldl max 0) 1 - (valuesOf keys values k).length) none := by
  have hcounts : ((List.range numKeys).map (valuesOf keys values)).map List.length =
      histogram numKeys keys := by
    rw [histogram_eq, List.map_map]
    exact List.map_congr_left fun k _ => List.length_map _
  have hflat : ((List.range numKeys).flatMap (places keys)).map (fun i => values[i]?) =
      ((List.range numKeys).map (valuesOf keys values)).flatten := by
    rw [List.map_flatMap, ← List.flatMap_def]
    rfl
  have hlen : ((List.range numKeys).flatMap (places keys)).length =
      ((List.range numKeys).map (valuesOf keys values)).flatten.length := by
    rw [← hflat, List.length_map]
  have hstart : repeatEach (0 :: (cumsum 0 (histogram numKeys keys)).dropLast)
      (histogram numKeys keys) =
        repeatEach (starts 0 (histogram numKeys keys)) (histogram numKeys keys) := by
    by_cases hnil : histogram numKeys keys = []
    · rw [hnil]
      rfl
    · rw [concat_cumsum hnil]
  have hgrid := scatter_slots none ((List.range numKeys).map (valuesOf keys values)) rfl
  rw [hcounts, List.length_map, List.length_range, List.map_map] at hgrid
  unfold groupPadded
  simp only
  rw [sortStable_places hkeys, map_key_places, hflat, hlen, hstart]
  exact hgrid

theorem mem_valuesOf {γ : Type*} {l : List γ} {key : γ → ℕ} {val : γ → α} {k : ℕ} {v : α} :
    some v ∈ valuesOf (l.map key) (l.map val) k ↔ ∃ x ∈ l, key x = k ∧ val x = v := by
  unfold valuesOf
  rw [List.mem_map]
  constructor
  · rintro ⟨i, hi, hv⟩
    rw [mem_places, List.getElem?_map, Option.map_eq_some_iff] at hi
    obtain ⟨x, hx, hkey⟩ := hi
    rw [List.getElem?_map, hx, Option.map_some, Option.some.injEq] at hv
    exact ⟨x, List.mem_of_getElem? hx, hkey, hv⟩
  · rintro ⟨x, hx, rfl, rfl⟩
    obtain ⟨i, hi⟩ := List.mem_iff_getElem?.mp hx
    refine ⟨i, ?_, ?_⟩
    · rw [mem_places, List.getElem?_map, hi, Option.map_some]
    · rw [List.getElem?_map, hi, Option.map_some]

/-- **What a row holds**: the values of its key. -/
theorem mem_groupPadded {γ : Type*} {l : List γ} {key : γ → ℕ} {val : γ → α} {k : ℕ} {v : α}
    (hkeys : ∀ x ∈ l, key x < numKeys) :
    some v ∈ (groupPadded (l.map key) (l.map val) numKeys).getD k [] ↔
      ∃ x ∈ l, key x = k ∧ val x = v := by
  have hlt : ∀ k ∈ l.map key, k < numKeys := by
    intro k hk
    obtain ⟨x, hx, rfl⟩ := List.mem_map.mp hk
    exact hkeys x hx
  rw [groupPadded_eq hlt, List.getD_eq_getElem?_getD, List.getElem?_map, ← mem_valuesOf]
  by_cases hk : k < numKeys
  · rw [List.getElem?_range hk, Option.map_some, Option.getD_some, List.mem_append]
    refine or_iff_left fun hpad => ?_
    exact absurd (List.mem_replicate.mp hpad).2 (Option.some_ne_none v)
  · -- no row, and no value
    rw [List.getElem?_eq_none (by rw [List.length_range]; omega), Option.map_none,
      Option.getD_none, mem_valuesOf]
    refine iff_of_false List.not_mem_nil ?_
    rintro ⟨x, hx, rfl, -⟩
    exact hk (hkeys x hx)

end Grid

/-! ## Padding with a repeat -/

/-- A row cut to `depth`, with its first value in place of all from number `kept` on. -/
def repeatPad (row : List α) (kept depth : ℕ) : List α :=
  (row.take depth).zipIdx.map fun x => if kept ≤ x.2 then row.headD x.1 else x.1

/-- **A repeat adds no value.** -/
theorem mem_repeatPad {kept rest : List α} {depth : ℕ} (hne : kept ≠ [])
    (hdepth : kept.length ≤ depth) {x : α} :
    x ∈ repeatPad (kept ++ rest) kept.length depth ↔ x ∈ kept := by
  obtain ⟨a, kept, rfl⟩ := List.exists_cons_of_ne_nil hne
  unfold repeatPad
  rw [List.mem_map]
  constructor
  · rintro ⟨⟨y, i⟩, hmem, rfl⟩
    have hget := List.mem_zipIdx_iff_getElem?.mp hmem
    by_cases hpad : (a :: kept).length ≤ i
    · rw [if_pos hpad]
      exact List.mem_cons_self
    · rw [if_neg hpad]
      rw [List.getElem?_take, if_pos (by omega),
        List.getElem?_append_left (by omega)] at hget
      exact List.mem_of_getElem? hget
  · intro hx
    obtain ⟨i, hi, rfl⟩ := List.getElem_of_mem hx
    refine ⟨((a :: kept)[i], i), List.mem_zipIdx_iff_getElem?.mpr ?_, if_neg (by omega)⟩
    rw [List.getElem?_take, if_pos (by omega), List.getElem?_append_left hi,
      List.getElem?_eq_getElem hi]

/-! ## Writing to places -/

/-- `out[places] = values`. -/
def assignAt {ι : Type*} [DecidableEq ι] (out : ι → β) (places : List ι) (values : List β) :
    ι → β :=
  (places.zip values).foldl (fun o x => Function.update o x.1 x.2) out

theorem assignAt_map {ι : Type*} [DecidableEq ι] (out f : ι → β) (places : List ι) (i : ι) :
    assignAt out places (places.map f) i = if i ∈ places then f i else out i := by
  unfold assignAt
  induction places generalizing out with
  | nil => rfl
  | cons j places ih =>
    rw [List.map_cons, List.zip_cons_cons, List.foldl_cons, ih]
    by_cases hmem : i ∈ places
    · rw [if_pos hmem, if_pos (List.mem_cons_of_mem j hmem)]
    · by_cases hij : i = j
      · subst hij
        rw [if_neg hmem, if_pos List.mem_cons_self, Function.update_self]
      · have hnot : i ∉ j :: places := by
          rw [List.mem_cons]
          exact not_or.mpr ⟨hij, hmem⟩
        rw [if_neg hmem, if_neg hnot, Function.update_of_ne hij]

/-- Several rows of places, each written with values of its own. A place that stands in the row of
its home only keeps what is written there. -/
theorem foldl_assignAt {ι κ : Type*} [DecidableEq ι] [DecidableEq κ] {rows : κ → List ι}
    (home : ι → κ) (hrows : ∀ k, ∀ i ∈ rows k, home i = k) (f : κ → ι → β) (keys : List κ)
    (out : ι → β) (i : ι) :
    keys.foldl (fun out k => assignAt out (rows k) ((rows k).map (f k))) out i =
      if home i ∈ keys ∧ i ∈ rows (home i) then f (home i) i else out i := by
  induction keys generalizing out with
  | nil => simp
  | cons k keys ih =>
    rw [List.foldl_cons, ih, assignAt_map]
    by_cases hk : home i = k
    · subst hk
      by_cases hi : i ∈ rows (home i)
      · simp [hi]
      · simp [hi]
    · have hi : i ∉ rows k := fun hi => hk (hrows k i hi)
      simp only [if_neg hi, List.mem_cons, or_iff_right hk]

end RoutePlanner.Lib
