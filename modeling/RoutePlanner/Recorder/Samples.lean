import Mathlib.Tactic.LinearCombination
import RoutePlanner.Lib.Along
import RoutePlanner.Recorder.Privacy

/-!
# The samples of a line, and the longest clear run of them

`clipArtifact` looks at every vertex of a line and at points every `SAMPLE_STEP_M` between, and
keeps the longest run of clear ones. Distances are taken to be exact along interpolated legs
(`ExactAlong`).

* `mem_samplesFrom`, `samplesFrom_sorted`: the samples are points of the line, in order.
* `vertex_mem_samplesFrom`, `samplesFrom_separated`: every vertex is one, and none is nearer than
  `EPS_M` to another vertex.
* `bestRun_longest`: the run kept is a longest one.
-/

namespace RoutePlanner.Recorder

open RoutePlanner.Lib

variable {K : Type} [Field K]

/-! ## Legs -/

/-- The point at `u` of the way from `p` to `q`. -/
def lerp (p q : Coord K) (u : K) : Coord K := (p.1 + u * (q.1 - p.1), p.2 + u * (q.2 - p.2))

section Distance

variable (distanceM : LatLon K → LatLon K → K)

/-- The distance between two coordinates. -/
def legM (p q : Coord K) : K := distanceM (ll p) (ll q)

variable {distanceM}

/-! ## Cumulative distances -/

theorem cons_cumulativeFrom (s : K) (p : Coord K) (cs : List (Coord K)) :
    s :: cumulativeFrom distanceM s p cs =
      (stations (legM distanceM) s (p :: cs)).map Prod.snd := by
  induction cs generalizing s p with
  | nil => rfl
  | cons c cs ih => exact congrArg (s :: ·) (ih (s + legM distanceM p c) c)

theorem cumulative_eq {coords : List (Coord K)} (hne : coords ≠ []) :
    cumulative distanceM coords = (stations (legM distanceM) 0 coords).map Prod.snd := by
  obtain ⟨p, cs, rfl⟩ := List.exists_cons_of_ne_nil hne
  exact cons_cumulativeFrom 0 p cs

theorem polylineLength_eq {coords : List (Coord K)} (hne : coords ≠ []) :
    polylineLength distanceM coords = lineEnd (legM distanceM) 0 coords := by
  rw [polylineLength, cumulative_eq hne, List.getLast?_map, lineEnd]

/-- `cumulative(sc).map((x) => x + segStart)`. -/
theorem cumulative_add {coords : List (Coord K)} (hne : coords ≠ []) (s : K) :
    (cumulative distanceM coords).map (· + s) =
      (stations (legM distanceM) s coords).map Prod.snd := by
  have hshift := stations_add (legM distanceM) 0 s coords
  rw [zero_add] at hshift
  rw [cumulative_eq hne, hshift, List.map_map, List.map_map]
  rfl

/-- A line and its cumulative distances are its vertices in place. -/
theorem zip_stations (s : K) (coords : List (Coord K)) :
    coords.zip ((stations (legM distanceM) s coords).map Prod.snd) =
      stations (legM distanceM) s coords := by
  have hfst := map_fst_stations (legM distanceM) s coords
  calc coords.zip ((stations (legM distanceM) s coords).map Prod.snd)
      = ((stations (legM distanceM) s coords).map Prod.fst).zip
          ((stations (legM distanceM) s coords).map Prod.snd) := by rw [hfst]
    _ = stations (legM distanceM) s coords := by
      rw [List.zip_map']
      exact List.map_id _

end Distance

variable [LinearOrder K]

/-! ## Exact distances -/

/-- An exact distance that is additive along interpolated legs. -/
structure ExactAlong (distanceM : LatLon K → LatLon K → K) : Prop where
  exact : ∀ (p q : Coord K) (u : K), 0 ≤ u → u ≤ 1 →
    legM distanceM p (lerp p q u) = u * legM distanceM p q
  additive : ∀ (p q : Coord K) (u v : K), 0 ≤ u → u ≤ v → v ≤ 1 →
    legM distanceM p (lerp p q u) + legM distanceM (lerp p q u) (lerp p q v) =
      legM distanceM p (lerp p q v)

theorem ExactAlong.toExact {distanceM : LatLon K → LatLon K → K} (h : ExactAlong distanceM) :
    Exact lerp (legM distanceM) where
  lerp_zero p q := by simp [lerp]
  lerp_one p q := by simp [lerp]
  lerp_lerp p q u v w := by
    refine Prod.ext ?_ ?_
    · simp only [lerp]
      ring
    · simp only [lerp]
      ring
  dist_lerp p q u v hu huv hv := by
    have hsum := h.additive p q u v hu huv hv
    rw [h.exact p q u hu (huv.trans hv), h.exact p q v (hu.trans huv) hv] at hsum
    linear_combination hsum

/-! ## Samples -/

section Samples

variable [IsStrictOrderedRing K] {distanceM : LatLon K → LatLon K → K} {isClear : LatLon K → Bool}

theorem epsM_pos : 0 < (epsM : K) := by
  unfold epsM
  positivity

theorem twoEps_pos : 0 < ((2 : ℕ) : K) * epsM :=
  mul_pos (Nat.cast_pos.mpr Nat.two_pos) epsM_pos

theorem epsM_lt_of_long {len : K} (h : ((2 : ℕ) : K) * epsM < len) : epsM < len := by
  have heps := epsM_pos (K := K)
  push_cast at h
  linarith

theorem epsM_lt_half : (epsM : K) < 1 / 2 := by
  unfold epsM
  norm_num

/-- `p`, `c`, … are more than `2 * EPS_M` apart. -/
def LongLegs (distanceM : LatLon K → LatLon K → K) (coords : List (Coord K)) : Prop :=
  coords.IsChain fun p q => ((2 : ℕ) : K) * epsM < legM distanceM p q

theorem LongLegs.proper {coords : List (Coord K)} (h : LongLegs distanceM coords) :
    Proper (legM distanceM) coords :=
  h.imp fun _ _ hleg => twoEps_pos.trans hleg

omit [IsStrictOrderedRing K] in
theorem LongLegs.cons {p c : Coord K} {cs : List (Coord K)}
    (h : LongLegs distanceM (p :: c :: cs)) :
    ((2 : ℕ) : K) * epsM < legM distanceM p c ∧ LongLegs distanceM (c :: cs) :=
  List.isChain_cons_cons.mp h

variable [FloorRing K]

/-- A sample of a leg, at `u` of the way: its first vertex, or well within it. -/
structure OfLeg (isClear : LatLon K → Bool) (p q : Coord K) (s len : K) (x : Sample K) (u : K) :
    Prop where
  nonneg : 0 ≤ u
  lt_one : u < 1
  pt : x.pt = lerp p q u
  place : x.s = s + u * len
  clear : x.clear = isClear (ll x.pt)
  within : u = 0 ∨ epsM < u * len
  short : epsM < (1 - u) * len

/-- The steps of a leg are half a metre or more, but for a leg of one step. -/
theorem half_le_step {len : K} {n : ℕ} (hn : n = max 1 ⌈len / sampleStepM⌉.toNat) (h2 : 2 ≤ n) :
    1 / 2 < len / n := by
  have hceil : ⌈len / sampleStepM⌉.toNat = n := by omega
  have hlt : ((n - 1 : ℕ) : K) < len := by
    have hlen : len / sampleStepM = len := by rw [sampleStepM, div_one]
    rw [hlen] at hceil
    have hone : ((n - 1 : ℕ) : ℤ) < ⌈len⌉ := by omega
    exact_mod_cast Int.lt_ceil.mp hone
  have hpos : (0 : K) < n := by exact_mod_cast (by omega : 0 < n)
  rw [lt_div_iff₀ hpos]
  have hn2 : (2 : K) ≤ n := by exact_mod_cast h2
  have hcast : ((n - 1 : ℕ) : K) = n - 1 := by
    rw [Nat.cast_sub (by omega), Nat.cast_one]
  rw [hcast] at hlt
  linarith

theorem mem_sampleLeg {p q : Coord K} {s len : K} (hlen : ((2 : ℕ) : K) * epsM < len) {x : Sample K}
    (hx : x ∈ sampleLeg isClear p q s len) : ∃ u, OfLeg isClear p q s len x u := by
  have hlen0 : 0 < len := twoEps_pos.trans hlen
  rcases List.mem_cons.mp hx with rfl | hx
  · refine ⟨0, le_refl 0, zero_lt_one, ?_, ?_, rfl, Or.inl rfl, ?_⟩
    · simp [lerp]
    · rw [zero_mul, add_zero]
    · rw [sub_zero, one_mul]
      exact epsM_lt_of_long hlen
  · obtain ⟨k, hk, rfl⟩ := List.mem_map.mp hx
    generalize hn : max 1 ⌈len / sampleStepM⌉.toNat = n at hk ⊢
    have hk' := List.mem_range.mp hk
    have hstep := half_le_step hn.symm (by omega)
    have hpos : (0 : K) < n := by exact_mod_cast (by omega : 0 < n)
    have heps := epsM_lt_half (K := K)
    have hk1 : (1 : K) ≤ ((k + 1 : ℕ) : K) := by exact_mod_cast (by omega : 1 ≤ k + 1)
    have hkn : ((k + 1 : ℕ) : K) ≤ n - 1 := by
      have hle : ((k + 1 + 1 : ℕ) : K) ≤ n := by exact_mod_cast (by omega : k + 1 + 1 ≤ n)
      push_cast at hle ⊢
      linarith
    have hmul : ((k + 1 : ℕ) : K) / n * len = ((k + 1 : ℕ) : K) * (len / n) := by ring
    have hstep0 : 0 < len / n := div_pos hlen0 hpos
    refine ⟨((k + 1 : ℕ) : K) / n, by positivity, ?_, rfl, rfl, rfl, Or.inr ?_, ?_⟩
    · rw [div_lt_one hpos]
      linarith
    · rw [hmul]
      have := le_mul_of_one_le_left hstep0.le hk1
      linarith
    · have hrest : (1 - ((k + 1 : ℕ) : K) / n) * len = (n - ((k + 1 : ℕ) : K)) * (len / n) := by
        field_simp
      rw [hrest]
      have hone : (1 : K) ≤ n - ((k + 1 : ℕ) : K) := by linarith
      have := le_mul_of_one_le_left hstep0.le hone
      linarith

/-- The samples of a leg stand in order. -/
theorem sampleLeg_sorted {p q : Coord K} {s len : K} (hlen : 0 < len) :
    (sampleLeg isClear p q s len).Pairwise fun x y => x.s < y.s := by
  unfold sampleLeg
  simp only
  generalize max 1 ⌈len / sampleStepM⌉.toNat = n
  have hplace : ∀ {j k : ℕ}, k < n - 1 → j < k + 1 →
      s + ((j : ℕ) : K) / n * len < s + ((k + 1 : ℕ) : K) / n * len := by
    intro j k hk hj
    have hpos : (0 : K) < n := by exact_mod_cast (by omega : 0 < n)
    have hcast : ((j : ℕ) : K) < ((k + 1 : ℕ) : K) := by exact_mod_cast hj
    exact (add_lt_add_iff_left s).mpr
      (mul_lt_mul_of_pos_right (div_lt_div_of_pos_right hcast hpos) hlen)
  refine List.pairwise_cons.mpr ⟨fun y hy => ?_, List.pairwise_map.mpr ?_⟩
  · obtain ⟨k, hk, rfl⟩ := List.mem_map.mp hy
    have hlt := hplace (j := 0) (List.mem_range.mp hk) (Nat.succ_pos k)
    rwa [Nat.cast_zero, zero_div, zero_mul, add_zero] at hlt
  · refine List.pairwise_lt_range.imp_of_mem fun {j k} _ hk hjk => ?_
    exact hplace (List.mem_range.mp hk) (Nat.succ_lt_succ hjk)

/-- **Every sample is a point of the line.** -/
theorem mem_samplesFrom {s : K} {p : Coord K} {cs : List (Coord K)}
    (hlong : LongLegs distanceM (p :: cs)) {x : Sample K}
    (hx : x ∈ samplesFrom distanceM isClear s p cs) :
    OnLine lerp (legM distanceM) s (p :: cs) x.s x.pt ∧ x.clear = isClear (ll x.pt) := by
  induction cs generalizing s p with
  | nil =>
    rw [List.mem_singleton.mp hx]
    exact ⟨⟨rfl, rfl⟩, rfl⟩
  | cons c cs ih =>
    obtain ⟨hleg, hrest⟩ := hlong.cons
    rcases List.mem_append.mp hx with hx | hx
    · obtain ⟨u, hu⟩ := mem_sampleLeg hleg hx
      exact ⟨Or.inl ⟨u, hu.nonneg, hu.lt_one.le, hu.place, hu.pt⟩, hu.clear⟩
    · obtain ⟨hon, hclear⟩ := ih hrest hx
      exact ⟨Or.inr hon, hclear⟩

/-- **The samples stand in order.** -/
theorem samplesFrom_sorted {s : K} {p : Coord K} {cs : List (Coord K)}
    (hlong : LongLegs distanceM (p :: cs)) :
    (samplesFrom distanceM isClear s p cs).Pairwise fun x y => x.s < y.s := by
  induction cs generalizing s p with
  | nil => exact List.pairwise_singleton _ _
  | cons c cs ih =>
    obtain ⟨hleg, hrest⟩ := hlong.cons
    have hpos : 0 < legM distanceM p c := twoEps_pos.trans hleg
    refine List.pairwise_append.mpr ⟨sampleLeg_sorted hpos, ih hrest, fun x hx y hy => ?_⟩
    obtain ⟨u, hu⟩ := mem_sampleLeg hleg hx
    have hy' := le_of_onLine hrest.proper (mem_samplesFrom hrest hy).1
    refine lt_of_lt_of_le ?_ hy'
    rw [hu.place]
    have hmul := mul_lt_mul_of_pos_right hu.lt_one hpos
    rw [one_mul] at hmul
    exact (add_lt_add_iff_left s).mpr hmul

omit [IsStrictOrderedRing K] in
/-- **Every vertex is sampled.** -/
theorem vertex_mem_samplesFrom {s : K} {p : Coord K} {cs : List (Coord K)} {v : Coord K × K}
    (hv : v ∈ stations (legM distanceM) s (p :: cs)) :
    ⟨v.1, v.2, isClear (ll v.1)⟩ ∈ samplesFrom distanceM isClear s p cs := by
  induction cs generalizing s p with
  | nil =>
    rw [List.mem_singleton.mp hv]
    exact List.mem_cons_self
  | cons c cs ih =>
    rcases List.mem_cons.mp hv with rfl | hv
    · exact List.mem_append_left _ List.mem_cons_self
    · exact List.mem_append_right _ (ih hv)

/-- **No sample is almost at a vertex.** -/
theorem samplesFrom_separated {s : K} {p : Coord K} {cs : List (Coord K)}
    (hlong : LongLegs distanceM (p :: cs)) {x : Sample K}
    (hx : x ∈ samplesFrom distanceM isClear s p cs) {v : Coord K × K}
    (hv : v ∈ stations (legM distanceM) s (p :: cs)) :
    v.2 + epsM < x.s ∨ v.2 = x.s ∨ x.s + epsM < v.2 := by
  induction cs generalizing s p with
  | nil =>
    rw [List.mem_singleton.mp hx, List.mem_singleton.mp hv]
    exact Or.inr (Or.inl rfl)
  | cons c cs ih =>
    obtain ⟨hleg, hrest⟩ := hlong.cons
    have heps := epsM_lt_of_long hleg
    rcases List.mem_append.mp hx with hx | hx
    · obtain ⟨u, hu⟩ := mem_sampleLeg hleg hx
      have hplace := hu.place
      rcases List.mem_cons.mp hv with rfl | hv
      · rcases hu.within with hzero | hwithin
        · rw [hzero, zero_mul, add_zero] at hplace
          exact Or.inr (Or.inl hplace.symm)
        · exact Or.inl (by linarith)
      · have hge := le_of_mem_stations hrest.proper hv
        have hshort := hu.short
        rw [sub_mul, one_mul] at hshort
        exact Or.inr (Or.inr (by linarith))
    · have hge : s + legM distanceM p c ≤ x.s :=
        le_of_onLine hrest.proper (mem_samplesFrom hrest hx).1
      rcases List.mem_cons.mp hv with rfl | hv
      · exact Or.inl (by linarith)
      · exact ih hrest hx hv

end Samples

/-! ## The longest run -/

/-- A stretch of a list that satisfies a property is within its first such block, or behind it. -/
theorem infix_takeWhile_or_dropWhile {α : Type} {p : α → Bool} {run l : List α} (h : run <:+: l)
    (hrun : ∀ y ∈ run, p y = true) : run <:+: l.takeWhile p ∨ run <:+: l.dropWhile p := by
  induction l with
  | nil => exact Or.inl h
  | cons y l ih =>
    by_cases hy : p y = true
    · rw [List.takeWhile_cons_of_pos hy, List.dropWhile_cons_of_pos hy]
      rcases List.infix_cons_iff.mp h with hpre | hin
      · obtain ⟨rest, hrest⟩ := hpre
        refine Or.inl (List.IsPrefix.isInfix ?_)
        rw [← List.takeWhile_cons_of_pos hy, ← hrest, List.takeWhile_append_of_pos hrun]
        exact List.prefix_append _ _
      · exact (ih hin).imp_left fun hin => hin.trans (List.suffix_cons y _).isInfix
    · rw [List.dropWhile_cons_of_neg hy]
      exact Or.inr h

/-- A run of consecutive clear samples, from `x` to `j`. -/
structure ClearRun (samples : List (Sample K)) (x j : Sample K) (run : List (Sample K)) : Prop where
  consecutive : run <:+: samples
  clear : ∀ y ∈ run, y.clear = true
  head : run.head? = some x
  last : run.getLast? = some j

omit [Field K] [LinearOrder K] in
theorem ClearRun.mono {samples samples' run : List (Sample K)} {x j : Sample K}
    (h : ClearRun samples x j run) (hin : samples <:+: samples') : ClearRun samples' x j run :=
  ⟨h.consecutive.trans hin, h.clear, h.head, h.last⟩

/-- What is found is a run of two samples or more. -/
theorem bestRun_run (samples : List (Sample K)) (best : Option (Sample K × Sample K)) :
    ∀ r ∈ bestRun samples best, r ∈ best ∨
      ∃ run, ClearRun samples r.1 r.2 run ∧ 2 ≤ run.length := by
  fun_induction bestRun samples best with
  | case1 best => exact fun r hr => Or.inl hr
  | case2 x xs best hx j ih =>
    intro r hr
    have hsuffix : xs.dropWhile Sample.clear <:+: x :: xs :=
      ((List.dropWhile_suffix _).trans (List.suffix_cons x xs)).isInfix
    rcases ih r hr with hbest | ⟨run, hrun, hlen⟩
    · split at hbest
      · rename_i hnew
        obtain rfl := Option.some.inj hbest
        obtain ⟨c, t, ht⟩ := List.exists_cons_of_ne_nil hnew.1
        refine Or.inr ⟨x :: xs.takeWhile Sample.clear, ⟨?_, ?_, rfl, ?_⟩, ?_⟩
        · exact (List.cons_prefix_cons.mpr ⟨rfl, List.takeWhile_prefix _⟩).isInfix
        · exact List.forall_mem_cons.mpr ⟨hx, fun y hy => List.mem_takeWhile_imp hy⟩
        · have hj : j = ((xs.takeWhile Sample.clear).getLast?).getD x := rfl
          rw [hj, ht, List.getLast?_cons_cons, List.getLast?_cons, Option.getD_some]
        · rw [ht]
          exact Nat.le_add_left 2 t.length
      · exact Or.inl hbest
    · exact Or.inr ⟨run, hrun.mono hsuffix, hlen⟩
  | case3 x xs best hx ih =>
    intro r hr
    rcases ih r hr with hbest | ⟨run, hrun, hlen⟩
    · exact Or.inl hbest
    · exact Or.inr ⟨run, hrun.mono (List.suffix_cons x xs).isInfix, hlen⟩

/-- What is found is as long as what was found before. -/
theorem bestRun_ge (samples : List (Sample K)) (best : Option (Sample K × Sample K)) :
    ∀ b ∈ best, ∃ r ∈ bestRun samples best, b.2.s - b.1.s ≤ r.2.s - r.1.s := by
  fun_induction bestRun samples best with
  | case1 best => exact fun b hb => ⟨b, hb, le_refl _⟩
  | case2 x xs best hx j ih =>
    intro b hb
    by_cases hnew : xs.takeWhile Sample.clear ≠ [] ∧ longer best x j = true
    · rw [dif_pos hnew] at ih
      rw [if_pos hnew]
      obtain ⟨r, hr, hle⟩ := ih (x, j) rfl
      refine ⟨r, hr, le_trans ?_ hle⟩
      obtain rfl := Option.mem_def.mp hb
      exact (of_decide_eq_true hnew.2).le
    · rw [dif_neg hnew] at ih
      rw [if_neg hnew]
      exact ih b hb
  | case3 x xs best hx ih => exact ih

omit [Field K] in
/-- The last sample is the farthest. -/
theorem le_of_getLast? {l : List (Sample K)} (hs : l.Pairwise fun x y => x.s < y.s)
    {w : Sample K} (hw : l.getLast? = some w) {y : Sample K} (hy : y ∈ l) : y.s ≤ w.s := by
  obtain ⟨init, rfl⟩ := List.getLast?_eq_some_iff.mp hw
  rcases List.mem_append.mp hy with hy | hy
  · exact ((List.pairwise_append.mp hs).2.2 y hy w List.mem_cons_self).le
  · rw [List.mem_singleton.mp hy]

/-- A run within a block is no longer than the block. -/
theorem ClearRun.le_block [IsStrictOrderedRing K] {x₀ x j : Sample K} {t run : List (Sample K)}
    (h : ClearRun (x₀ :: t) x j run) (hs : (x₀ :: t).Pairwise fun x y => x.s < y.s)
    (hlt : x.s < j.s) : t ≠ [] ∧ j.s - x.s ≤ (t.getLast?.getD x₀).s - x₀.s := by
  have hx := h.consecutive.subset (List.mem_of_mem_head? h.head)
  have hj := h.consecutive.subset (List.mem_of_getLast? h.last)
  constructor
  · rintro rfl
    rw [List.mem_singleton.mp hx, List.mem_singleton.mp hj] at hlt
    exact lt_irrefl _ hlt
  · have hfirst : ∀ y ∈ x₀ :: t, x₀.s ≤ y.s := List.forall_mem_cons.mpr
      ⟨le_refl _, fun y hy => ((List.pairwise_cons.mp hs).1 y hy).le⟩
    exact sub_le_sub (le_of_getLast? hs List.getLast?_cons hj) (hfirst x hx)

/-- **No run is longer.** -/
theorem bestRun_longest [IsStrictOrderedRing K] {samples : List (Sample K)}
    (best : Option (Sample K × Sample K)) (hs : samples.Pairwise fun x y => x.s < y.s)
    {x j : Sample K} {run : List (Sample K)}
    (hrun : ClearRun samples x j run) (hlt : x.s < j.s) :
    ∃ r ∈ bestRun samples best, j.s - x.s ≤ r.2.s - r.1.s := by
  fun_induction bestRun samples best with
  | case1 best =>
    have hnil := List.infix_nil.mp hrun.consecutive
    exact absurd hrun.head (by simp [hnil])
  | case2 x₀ xs best hx₀ j₀ ih =>
    rcases infix_takeWhile_or_dropWhile hrun.consecutive hrun.clear with hin | hin
    · -- within the block that starts at `x₀` and ends at `j₀`
      rw [List.takeWhile_cons_of_pos hx₀] at hin
      have hblock : (x₀ :: xs.takeWhile Sample.clear).Pairwise fun x y => x.s < y.s :=
        hs.sublist (List.cons_prefix_cons.mpr ⟨rfl, List.takeWhile_prefix _⟩).sublist
      obtain ⟨hnew, hle⟩ : xs.takeWhile Sample.clear ≠ [] ∧ j.s - x.s ≤ j₀.s - x₀.s :=
        ClearRun.le_block ⟨hin, hrun.clear, hrun.head, hrun.last⟩ hblock hlt
      by_cases hlonger : longer best x₀ j₀ = true
      · rw [if_pos ⟨hnew, hlonger⟩]
        obtain ⟨r, hr, hge⟩ := bestRun_ge (xs.dropWhile Sample.clear) (some (x₀, j₀)) _ rfl
        exact ⟨r, hr, hle.trans hge⟩
      · rw [if_neg fun h => hlonger h.2]
        cases best with
        | none => exact absurd rfl hlonger
        | some b =>
          have hb : j₀.s - x₀.s ≤ b.2.s - b.1.s :=
            not_lt.mp fun h => hlonger (decide_eq_true h)
          obtain ⟨r, hr, hge⟩ := bestRun_ge (xs.dropWhile Sample.clear) (some b) b rfl
          exact ⟨r, hr, (hle.trans hb).trans hge⟩
    · rw [List.dropWhile_cons_of_pos hx₀] at hin
      exact ih (hs.sublist ((List.dropWhile_suffix _).trans (List.suffix_cons x₀ xs)).sublist)
        ⟨hin, hrun.clear, hrun.head, hrun.last⟩
  | case3 x₀ xs best hx₀ ih =>
    rcases List.infix_cons_iff.mp hrun.consecutive with hpre | hin
    · -- the first of a run is clear
      cases run with
      | nil => exact absurd hrun.head (by simp)
      | cons y t =>
        obtain ⟨rfl, -⟩ := List.cons_prefix_cons.mp hpre
        exact absurd (hrun.clear y List.mem_cons_self) hx₀
    · exact ih hs.of_cons ⟨hin, hrun.clear, hrun.head, hrun.last⟩

end RoutePlanner.Recorder
