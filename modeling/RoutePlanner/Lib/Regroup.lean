import Mathlib.Data.List.Dedup
import RoutePlanner.Lib.Padded

/-!
# Sorted pairs, grouped again

Pairs of a group and a value, listed by group. Their groups go into the rows of a grid whose
padding is a value of its own: the groups that occur (`unique`), where each starts in the list and
how often it occurs tell the row and the slot of every value.

* `regroupPadded_eq`: the rows of the grid.
* `mem_unique`, `unique_nodup`: the groups that occur.
-/

namespace RoutePlanner.Lib

variable {α β : Type*}

/-- `np.unique(l)`. -/
def unique (l : List ℕ) : List ℕ := l.dedup.insertionSort (· ≤ ·)

/-- The groups that occur in `ts`, and the values of each, padded with `pad`. -/
def regroupPadded (ts : List ℕ) (vals : List β) (pad : β) : List ℕ × List (List β) :=
  let us := unique ts
  let start := us.map fun u => ts.idxOf u
  let count := us.map fun u => ts.count u
  let depth := max (count.foldl max 0) 1
  let slot := List.zipWith (· - ·) (List.range ts.length) (repeatEach start count)
  (us, scatter (List.replicate us.length (List.replicate depth pad))
    ((repeatEach (List.range us.length) count).zip (slot.zip vals)))

/-! ## The groups that occur -/

@[simp] theorem mem_unique {l : List ℕ} {x : ℕ} : x ∈ unique l ↔ x ∈ l := by
  rw [unique, List.mem_insertionSort, List.mem_dedup]

theorem unique_nodup (l : List ℕ) : (unique l).Nodup :=
  (List.perm_insertionSort _ _).nodup_iff.mpr (List.nodup_dedup l)

theorem unique_eq_filter {l : List ℕ} {n : ℕ} (h : ∀ x ∈ l, x < n) :
    unique l = (List.range n).filter (· ∈ l) := by
  refine List.Perm.eq_of_pairwise' (r := (· ≤ ·)) (List.pairwise_insertionSort _ _)
    ((List.pairwise_le_range).sublist List.filter_sublist) ?_
  refine (List.perm_ext_iff_of_nodup (unique_nodup l) (List.nodup_range.filter _)).mpr fun x => ?_
  rw [mem_unique, List.mem_filter, List.mem_range, decide_eq_true_eq]
  exact ⟨fun hx => ⟨h x hx, hx⟩, fun hx => hx.2⟩

/-- A list in the order of its keys is its groups, one behind the other. -/
theorem flatMap_group_unique {key : α → ℕ} {l : List α}
    (hs : l.Pairwise fun a b => key a ≤ key b) :
    (unique (l.map key)).flatMap (group key l) = l := by
  obtain ⟨n, hn⟩ : ∃ n, ∀ x ∈ l.map key, x < n :=
    ⟨(l.map key).foldl max 0 + 1, fun x hx =>
      Nat.lt_succ_of_le (le_foldl_max (List.mem_cons_of_mem 0 hx))⟩
  have hsort : sortStable key l = l := List.Pairwise.insertionSort_eq hs
  rw [sortStable_eq fun a ha => hn _ (List.mem_map_of_mem ha)] at hsort
  rw [unique_eq_filter hn]
  conv_rhs => rw [← hsort]
  -- the groups left out are empty
  clear hsort hn
  induction n with
  | zero => rfl
  | succ n ih =>
    rw [List.range_succ, List.filter_append, List.flatMap_append, List.flatMap_append, ih]
    congr 1
    by_cases hmem : n ∈ l.map key
    · have hone : [n].filter (· ∈ l.map key) = [n] :=
        List.filter_eq_self.mpr fun x hx => decide_eq_true (List.mem_singleton.mp hx ▸ hmem)
      rw [hone]
    · have hnone : [n].filter (· ∈ l.map key) = [] :=
        List.filter_eq_nil_iff.mpr fun x hx hin =>
          hmem (List.mem_singleton.mp hx ▸ of_decide_eq_true hin)
      rw [hnone, List.flatMap_nil, List.flatMap_singleton]
      refine (List.filter_eq_nil_iff.mpr fun a ha hkey => hmem ?_).symm
      rw [← of_decide_eq_true hkey]
      exact List.mem_map_of_mem ha

/-- Where the groups start. -/
theorem idxOf_starts {us : List ℕ} (hus : us.Nodup) (c : ℕ → ℕ) (hc : ∀ u ∈ us, 0 < c u) (s : ℕ) :
    us.map (fun u => s + (us.flatMap fun u => List.replicate (c u) u).idxOf u) =
      starts s (us.map c) := by
  induction us generalizing s with
  | nil => rfl
  | cons u us ih =>
    obtain ⟨hu, hus⟩ := List.nodup_cons.mp hus
    have hpos := hc u List.mem_cons_self
    rw [List.map_cons, List.map_cons, starts,
      ← ih hus (fun v hv => hc v (List.mem_cons_of_mem u hv))]
    congr 1
    · obtain ⟨m, hm⟩ := Nat.exists_eq_add_one.mpr hpos
      rw [List.flatMap_cons, hm, List.replicate_succ, List.cons_append, List.idxOf_cons_self]
      rfl
    · refine List.map_congr_left fun v hv => ?_
      have hne : v ∉ List.replicate (c u) u := fun h =>
        hu ((List.mem_replicate.mp h).2 ▸ hv)
      rw [List.flatMap_cons, List.idxOf_append_of_notMem hne, List.length_replicate, Nat.add_assoc]

/-! ## The grid -/

/-- The values of one group. -/
def valuesAt (ts : List ℕ) (vals : List β) (u : ℕ) : List β :=
  (group Prod.fst (ts.zip vals) u).map Prod.snd

theorem length_valuesAt {ts : List ℕ} {vals : List β} (h : ts.length = vals.length) (u : ℕ) :
    (valuesAt ts vals u).length = ts.count u := by
  have hts : (ts.zip vals).map Prod.fst = ts := List.map_fst_zip h.le
  unfold valuesAt group
  rw [List.length_map, ← List.countP_eq_length_filter, List.count]
  conv_rhs => rw [← hts, List.countP_map]
  exact List.countP_congr fun x _ => by simp

/-- **The rows of the grid**: each group's values, in order. -/
theorem regroupPadded_eq {ts : List ℕ} {vals : List β} (pad : β) (h : ts.length = vals.length)
    (hs : ts.Pairwise (· ≤ ·)) :
    regroupPadded ts vals pad = (unique ts, (unique ts).map fun u =>
      valuesAt ts vals u ++ List.replicate
        (max (((unique ts).map fun u => ts.count u).foldl max 0) 1 - (valuesAt ts vals u).length)
        pad) := by
  have hts : (ts.zip vals).map Prod.fst = ts := List.map_fst_zip h.le
  have hvals : (ts.zip vals).map Prod.snd = vals := List.map_snd_zip h.ge
  have hsorted : (ts.zip vals).Pairwise fun a b => a.1 ≤ b.1 := by
    rw [← List.pairwise_map, hts]
    exact hs
  have hgroups := flatMap_group_unique hsorted
  rw [hts] at hgroups
  -- the groups and the values as they stand in the list
  have hrep : ts = (unique ts).flatMap fun u => List.replicate (ts.count u) u := by
    conv_lhs => rw [← hts, ← hgroups, List.map_flatMap]
    refine List.flatMap_congr fun u _ => List.eq_replicate_iff.mpr ⟨?_, fun x hx => ?_⟩
    · rw [List.length_map, ← length_valuesAt h u, valuesAt, List.length_map]
    · obtain ⟨a, ha, rfl⟩ := List.mem_map.mp hx
      exact of_decide_eq_true (List.mem_filter.mp ha).2
  have hflat : vals = ((unique ts).map (valuesAt ts vals)).flatten := by
    conv_lhs => rw [← hvals, ← hgroups, List.map_flatMap, List.flatMap_def]
    rfl
  have hcounts : ((unique ts).map (valuesAt ts vals)).map List.length =
      (unique ts).map fun u => ts.count u := by
    rw [List.map_map]
    exact List.map_congr_left fun u _ => length_valuesAt h u
  have hstart : (unique ts).map (fun u => ts.idxOf u) =
      starts 0 ((unique ts).map fun u => ts.count u) := by
    rw [← idxOf_starts (unique_nodup ts) _ (fun u hu => List.count_pos_iff.mpr (mem_unique.mp hu)),
      ← hrep]
    simp only [Nat.zero_add]
  have hgrid := scatter_slots pad ((unique ts).map (valuesAt ts vals)) rfl
  rw [hcounts, ← hflat, List.length_map, ← h, List.map_map] at hgrid
  unfold regroupPadded
  simp only
  rw [hstart, hgrid]
  rfl

end RoutePlanner.Lib
