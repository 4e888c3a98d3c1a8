import Mathlib.Algebra.Order.Field.Basic
import Mathlib.Tactic.Linarith
import Mathlib.Tactic.Ring
import RoutePlanner.Lib.Polyline

/-!
# Places along a line

A line of points with straight legs, whose distances are right along them (`Exact`). Its vertices
have places (`stations`), and so has every point of a leg (`OnLine`).

* `onLine_unique`: one point for each place.
* `dist_of_onLine`, `onLine_between`: between two places with no vertex between them, distances and
  points are those of a leg.
* `stations_of_covers`, `onLine_of_covers`: a line through points of another, with all its vertices
  between them, has the same places.
-/

namespace RoutePlanner.Lib

variable {P K : Type*} [Field K]

/-- `lerp p q u` is the point at `u` of the way from `p` to `q`; distances along that way are right
and add up. -/
structure Exact [LinearOrder K] (lerp : P → P → K → P) (dist : P → P → K) : Prop where
  lerp_zero : ∀ p q, lerp p q 0 = p
  lerp_one : ∀ p q, lerp p q 1 = q
  lerp_lerp : ∀ p q u v w, lerp (lerp p q u) (lerp p q v) w = lerp p q (u + w * (v - u))
  dist_lerp : ∀ p q u v, 0 ≤ u → u ≤ v → v ≤ 1 →
    dist (lerp p q u) (lerp p q v) = (v - u) * dist p q

section Defs

variable (lerp : P → P → K → P) (dist : P → P → K)

/-- The vertices of a line, with their places; the first is at `s`. -/
def stations (s : K) : List P → List (P × K)
  | [] => []
  | [p] => [(p, s)]
  | p :: c :: cs => (p, s) :: stations (s + dist p c) (c :: cs)

/-- `q` is the point of a line at place `x`; the first vertex is at `s`. -/
def OnLine [LE K] (s : K) : List P → K → P → Prop
  | [], _, _ => False
  | [p], x, q => x = s ∧ q = p
  | p :: c :: cs, x, q =>
    (∃ u, 0 ≤ u ∧ u ≤ 1 ∧ x = s + u * dist p c ∧ q = lerp p c u) ∨
      OnLine (s + dist p c) (c :: cs) x q

/-- Where a line ends that starts at `s`. -/
def lineEnd (s : K) (line : List P) : K := ((stations dist s line).getLast?.map Prod.snd).getD s

/-- The vertices of the pieces of a line, each piece placed where the one before ended. -/
def placed (s : K) : List (List P) → List (List (P × K))
  | [] => []
  | piece :: rest => stations dist s piece :: placed (lineEnd dist s piece) rest

/-- No leg is without length. -/
def Proper [LT K] (line : List P) : Prop := line.IsChain fun p q => 0 < dist p q

end Defs

variable {lerp : P → P → K → P} {dist : P → P → K}

/-! ## Vertices -/

section Stations

variable {s : K} {p c : P} {cs line : List P}

theorem map_fst_stations (dist : P → P → K) (s : K) (line : List P) :
    (stations dist s line).map Prod.fst = line := by
  fun_induction stations dist s line with
  | case1 => rfl
  | case2 => rfl
  | case3 s p c cs ih => rw [List.map_cons, ih]

theorem stations_cons (dist : P → P → K) (s : K) (p : P) (cs : List P) :
    ∃ l, stations dist s (p :: cs) = (p, s) :: l := by
  cases cs with
  | nil => exact ⟨[], rfl⟩
  | cons c cs => exact ⟨_, rfl⟩

/-- A line that starts elsewhere. -/
theorem stations_add (dist : P → P → K) (s t : K) (line : List P) :
    stations dist (s + t) line = (stations dist s line).map fun v => (v.1, v.2 + t) := by
  fun_induction stations dist s line with
  | case1 => rfl
  | case2 => rfl
  | case3 s p c cs ih =>
    rw [stations, List.map_cons, ← ih]
    congr 2
    exact add_right_comm _ _ _

/-- The vertices of a line, up to one of them and from it on. -/
theorem stations_append (dist : P → P → K) (s : K) (pre : List P) (c : P) (post : List P) :
    ∃ init t, stations dist s (pre ++ [c]) = init ++ [(c, t)] ∧
      stations dist s (pre ++ c :: post) = init ++ stations dist t (c :: post) := by
  induction pre generalizing s with
  | nil => exact ⟨[], s, rfl, rfl⟩
  | cons p pre ih =>
    cases pre with
    | nil => exact ⟨[(p, s)], s + dist p c, rfl, rfl⟩
    | cons q pre =>
      obtain ⟨init, t, hfst, hsnd⟩ := ih (s + dist p q)
      refine ⟨(p, s) :: init, t, ?_, ?_⟩
      · exact congrArg ((p, s) :: ·) hfst
      · exact congrArg ((p, s) :: ·) hsnd

/-- **Pieces that tile a line** tile it in place. -/
theorem tiles_placed (dist : P → P → K) (s : K) {pieces : List (List P)}
    (h : Tiles pieces line) : Tiles (placed dist s pieces) (stations dist s line) := by
  induction h generalizing s with
  | one line hne =>
    obtain ⟨p, cs, rfl⟩ := List.exists_cons_of_ne_nil hne
    obtain ⟨l, hl⟩ := stations_cons dist s p cs
    exact Tiles.one _ (by simp [hl])
  | cons pre c post _ ih =>
    obtain ⟨init, t, hpiece, hline⟩ := stations_append dist s pre c post
    obtain ⟨l, hl⟩ := stations_cons dist t c post
    have hend : lineEnd dist s (pre ++ [c]) = t := by
      rw [lineEnd, hpiece, List.getLast?_concat]
      rfl
    have hrest := ih (s := t)
    rw [hl] at hrest
    rw [placed, hpiece, hline, hend, hl]
    exact Tiles.cons init (c, t) l hrest

/-! ## Lengths -/

@[simp] theorem lineEnd_nil (dist : P → P → K) (s : K) : lineEnd dist s [] = s := rfl

@[simp] theorem lineEnd_singleton (dist : P → P → K) (s : K) (p : P) : lineEnd dist s [p] = s := rfl

/-- A line that goes on to one more vertex. -/
theorem lineEnd_concat (dist : P → P → K) (s : K) {p : P} (h : line.getLast? = some p) (q : P) :
    lineEnd dist s (line ++ [q]) = lineEnd dist s line + dist p q := by
  obtain ⟨pre, rfl⟩ := List.getLast?_eq_some_iff.mp h
  obtain ⟨init, t, hline, hmore⟩ := stations_append dist s pre p [q]
  rw [List.append_assoc, List.singleton_append, lineEnd, lineEnd, hline, hmore, stations, stations,
    List.getLast?_concat, List.append_cons, List.getLast?_concat]
  rfl

/-- No part of a line is longer than the line. -/
theorem lineEnd_le_append [PartialOrder K] [IsOrderedAddMonoid K] (hdist : ∀ p q, 0 ≤ dist p q)
    (s : K) (line more : List P) : lineEnd dist s line ≤ lineEnd dist s (line ++ more) := by
  induction more using List.reverseRecOn with
  | nil => rw [List.append_nil]
  | append_singleton more q ih =>
    rw [← List.append_assoc]
    cases hlast : (line ++ more).getLast? with
    | none =>
      rw [List.getLast?_eq_none_iff] at hlast
      obtain ⟨rfl, rfl⟩ := List.append_eq_nil_iff.mp hlast
      rfl
    | some p =>
      rw [lineEnd_concat dist s hlast]
      exact ih.trans (le_add_of_nonneg_right (hdist p q))

variable [LinearOrder K] [IsStrictOrderedRing K]

theorem le_of_mem_stations (hline : Proper dist (p :: cs)) {v : P × K}
    (hv : v ∈ stations dist s (p :: cs)) : s ≤ v.2 := by
  induction cs generalizing s p with
  | nil =>
    rw [List.mem_singleton.mp hv]
  | cons c cs ih =>
    obtain ⟨hleg, hrest⟩ := List.isChain_cons_cons.mp hline
    rcases List.mem_cons.mp hv with rfl | hv
    · exact le_refl _
    · exact (le_add_of_nonneg_right hleg.le).trans (ih hrest hv)

/-- The vertices stand in order. -/
theorem stations_sorted (hline : Proper dist line) :
    (stations dist s line).Pairwise fun v w => v.2 < w.2 := by
  fun_induction stations dist s line with
  | case1 => exact List.Pairwise.nil
  | case2 => exact List.pairwise_singleton _ _
  | case3 s p c cs ih =>
    obtain ⟨hleg, hrest⟩ := List.isChain_cons_cons.mp hline
    refine List.pairwise_cons.mpr ⟨fun v hv => ?_, ih hrest⟩
    exact (lt_add_of_pos_right s hleg).trans_le (le_of_mem_stations hrest hv)

end Stations

/-! ## Points -/

section Points

variable [LinearOrder K] {s x y : K} {p c q r : P} {cs line : List P}

theorem onLine_add {t : K} : OnLine lerp dist (s + t) line (x + t) q ↔
    OnLine lerp dist s line x q := by
  induction line generalizing s with
  | nil => exact Iff.rfl
  | cons p cs ih =>
    cases cs with
    | nil => exact and_congr_left fun _ => add_left_inj t
    | cons c cs =>
      unfold OnLine
      rw [add_right_comm s t, ih]
      refine or_congr_left (exists_congr fun u => ?_)
      rw [add_right_comm s t, add_left_inj]

variable [IsStrictOrderedRing K]

theorem le_of_onLine (hline : Proper dist (p :: cs)) (h : OnLine lerp dist s (p :: cs) x q) :
    s ≤ x := by
  induction cs generalizing s p with
  | nil => exact h.1.ge
  | cons c cs ih =>
    obtain ⟨hleg, hrest⟩ := List.isChain_cons_cons.mp hline
    rcases h with ⟨u, hu, -, rfl, -⟩ | h
    · exact le_add_of_nonneg_right (mul_nonneg hu hleg.le)
    · exact (le_add_of_nonneg_right hleg.le).trans (ih hrest h)

theorem le_end_of_onLine (hline : Proper dist line) (h : OnLine lerp dist s line x q) {v : P × K}
    (hv : v ∈ (stations dist s line).getLast?) : x ≤ v.2 := by
  induction line generalizing s with
  | nil => exact absurd h id
  | cons p cs ih =>
    cases cs with
    | nil =>
      obtain rfl := Option.some.inj hv
      exact h.1.le
    | cons c cs =>
      obtain ⟨hleg, hrest⟩ := List.isChain_cons_cons.mp hline
      obtain ⟨l, hl⟩ := stations_cons dist (s + dist p c) c cs
      have hv' : v ∈ (stations dist (s + dist p c) (c :: cs)).getLast? := by
        rwa [stations, hl, List.getLast?_cons_cons, ← hl] at hv
      rcases h with ⟨u, -, hu, rfl, -⟩ | h
      · have hmem := le_of_mem_stations hrest (List.mem_of_getLast? hv')
        have hmul := mul_le_mul_of_nonneg_right hu hleg.le
        linarith
      · exact ih hrest h hv'

theorem le_lineEnd_of_onLine (hline : Proper dist line) (h : OnLine lerp dist s line x q) :
    x ≤ lineEnd dist s line := by
  cases line with
  | nil => exact absurd h id
  | cons p cs =>
    obtain ⟨l, hl⟩ := stations_cons dist s p cs
    have hlast : (stations dist s (p :: cs)).getLast? = some (l.getLast?.getD (p, s)) := by
      rw [hl]
      exact List.getLast?_cons
    rw [lineEnd, hlast]
    exact le_end_of_onLine hline h hlast

theorem start_le_of_onLine (hline : Proper dist line) (h : OnLine lerp dist s line x q) :
    s ≤ x := by
  cases line with
  | nil => exact absurd h id
  | cons p cs => exact le_of_onLine hline h

variable (hexact : Exact lerp dist)

include hexact

theorem onLine_start : OnLine lerp dist s (p :: cs) s p := by
  cases cs with
  | nil => exact ⟨rfl, rfl⟩
  | cons c cs =>
    refine Or.inl ⟨0, le_refl 0, zero_le_one, ?_, (hexact.lerp_zero p c).symm⟩
    rw [zero_mul, add_zero]

/-- Every vertex is a point of the line. -/
theorem onLine_of_mem_stations {v : P × K} (hv : v ∈ stations dist s line) :
    OnLine lerp dist s line v.2 v.1 := by
  induction line generalizing s with
  | nil => exact absurd hv List.not_mem_nil
  | cons p cs ih =>
    cases cs with
    | nil =>
      rw [List.mem_singleton.mp hv]
      exact ⟨rfl, rfl⟩
    | cons c cs =>
      rcases List.mem_cons.mp hv with rfl | hv
      · exact onLine_start hexact
      · exact Or.inr (ih hv)

/-- Only the first vertex is where the line starts. -/
theorem eq_of_onLine_start (hline : Proper dist (p :: cs))
    (h : OnLine lerp dist s (p :: cs) s q) : q = p := by
  cases cs with
  | nil => exact h.2
  | cons c cs =>
    obtain ⟨hleg, hrest⟩ := List.isChain_cons_cons.mp hline
    rcases h with ⟨u, -, -, hx, rfl⟩ | h
    · have hzero : u * dist p c = 0 := by linarith
      rcases mul_eq_zero.mp hzero with rfl | hd
      · exact hexact.lerp_zero p c
      · exact absurd hd hleg.ne'
    · exact absurd (le_of_onLine hrest h) (not_le.mpr (lt_add_of_pos_right s hleg))

/-- Only the end of a leg is as far along as its end. -/
theorem eq_of_leg_end {u : K} (hleg : 0 < dist p c) (hu : s + u * dist p c = s + dist p c) :
    lerp p c u = c := by
  have hone : u * dist p c = 1 * dist p c := by linarith
  rw [mul_right_cancel₀ hleg.ne' hone, hexact.lerp_one]

/-- **One point for each place.** -/
theorem onLine_unique (hline : Proper dist line) (hq : OnLine lerp dist s line x q)
    (hr : OnLine lerp dist s line x r) : q = r := by
  induction line generalizing s with
  | nil => exact absurd hq id
  | cons p cs ih =>
    cases cs with
    | nil => exact hq.2.trans hr.2.symm
    | cons c cs =>
      obtain ⟨hleg, hrest⟩ := List.isChain_cons_cons.mp hline
      -- a point of the first leg and a later one at its end are both `c`
      have hjoint : ∀ {u : K} {q' : P}, u ≤ 1 → x = s + u * dist p c →
          OnLine lerp dist (s + dist p c) (c :: cs) x q' → lerp p c u = q' := by
        intro u q' hu hx hq'
        have hle := le_of_onLine hrest hq'
        have hmul : u * dist p c ≤ 1 * dist p c := mul_le_mul_of_nonneg_right hu hleg.le
        have hend : x = s + dist p c := by linarith
        rw [hend] at hx hq'
        rw [eq_of_leg_end hexact hleg hx.symm, eq_of_onLine_start hexact hrest hq']
      rcases hq with ⟨u, hu0, hu1, hx, rfl⟩ | hq
      · rcases hr with ⟨v, -, hv1, hx', rfl⟩ | hr
        · have hsame : u * dist p c = v * dist p c := by linarith
          rw [mul_right_cancel₀ hleg.ne' hsame]
        · exact hjoint hu1 hx hr
      · rcases hr with ⟨v, -, hv1, hx', rfl⟩ | hr
        · exact (hjoint hv1 hx' hq).symm
        · exact ih hrest hq hr

/-- The leg that two places share, if no vertex is between them. -/
theorem exists_leg (hline : Proper dist line) (hq : OnLine lerp dist s line x q)
    (hr : OnLine lerp dist s line y r) (hxy : x < y)
    (hnone : ∀ v ∈ stations dist s line, x < v.2 → y ≤ v.2) :
    ∃ p c t, 0 < dist p c ∧
      (∀ u, 0 ≤ u → u ≤ 1 → OnLine lerp dist s line (t + u * dist p c) (lerp p c u)) ∧
      ∃ u v, 0 ≤ u ∧ u ≤ v ∧ v ≤ 1 ∧ x = t + u * dist p c ∧ q = lerp p c u ∧
        y = t + v * dist p c ∧ r = lerp p c v := by
  induction line generalizing s q with
  | nil => exact absurd hq id
  | cons p cs ih =>
    cases cs with
    | nil => exact absurd (hq.1.trans hr.1.symm) hxy.ne
    | cons c cs =>
      obtain ⟨hleg, hrest⟩ := List.isChain_cons_cons.mp hline
      have hvertex : x < s + dist p c → y ≤ s + dist p c := by
        obtain ⟨l, hl⟩ := stations_cons dist (s + dist p c) c cs
        refine hnone (c, s + dist p c) ?_
        rw [stations, hl]
        exact List.mem_cons_of_mem _ List.mem_cons_self
      have hlater : OnLine lerp dist (s + dist p c) (c :: cs) x q →
          OnLine lerp dist (s + dist p c) (c :: cs) y r → ∃ p' c' t, 0 < dist p' c' ∧
            (∀ u, 0 ≤ u → u ≤ 1 →
              OnLine lerp dist s (p :: c :: cs) (t + u * dist p' c') (lerp p' c' u)) ∧
            ∃ u v, 0 ≤ u ∧ u ≤ v ∧ v ≤ 1 ∧ x = t + u * dist p' c' ∧ q = lerp p' c' u ∧
              y = t + v * dist p' c' ∧ r = lerp p' c' v := by
        intro hq hr
        obtain ⟨p', c', t, hpos, hon, huv⟩ :=
          ih hrest hq hr fun v hv => hnone v (List.mem_cons_of_mem _ hv)
        exact ⟨p', c', t, hpos, fun u hu0 hu1 => Or.inr (hon u hu0 hu1), huv⟩
      have hfirst : ∀ u, 0 ≤ u → u ≤ 1 →
          OnLine lerp dist s (p :: c :: cs) (s + u * dist p c) (lerp p c u) :=
        fun u hu0 hu1 => Or.inl ⟨u, hu0, hu1, rfl, rfl⟩
      rcases hq with ⟨u, hu0, hu1, hx, rfl⟩ | hq
      · rcases hr with ⟨v, hv0, hv1, hy, rfl⟩ | hr
        · refine ⟨p, c, s, hleg, hfirst, u, v, hu0, ?_, hv1, hx, rfl, hy, rfl⟩
          have hmul : u * dist p c ≤ v * dist p c := by linarith
          exact le_of_mul_le_mul_right hmul hleg
        · have hge := le_of_onLine hrest hr
          by_cases hend : x < s + dist p c
          · -- the second place is the end of the first leg
            have hy : y = s + dist p c := (hvertex hend).antisymm hge
            rw [hy] at hr
            refine ⟨p, c, s, hleg, hfirst, u, 1, hu0, hu1, le_refl 1, hx, rfl, ?_, ?_⟩
            · rw [hy, one_mul]
            · rw [hexact.lerp_one, eq_of_onLine_start hexact hrest hr]
          · -- the first place is the end of the first leg
            have hmul : u * dist p c ≤ 1 * dist p c := mul_le_mul_of_nonneg_right hu1 hleg.le
            have hx' : x = s + dist p c := by linarith
            have hc : lerp p c u = c := eq_of_leg_end hexact hleg (hx.symm.trans hx')
            rw [hc] at hlater ⊢
            refine hlater ?_ hr
            rw [hx']
            exact onLine_start hexact
      · rcases hr with ⟨v, hv0, hv1, hy, rfl⟩ | hr
        · have hge := le_of_onLine hrest hq
          have hmul : v * dist p c ≤ 1 * dist p c := mul_le_mul_of_nonneg_right hv1 hleg.le
          exact absurd hxy (not_lt.mpr (by linarith))
        · exact hlater hq hr

/-- **Distances** between two places with no vertex between them. -/
theorem dist_of_onLine (hline : Proper dist line) (hq : OnLine lerp dist s line x q)
    (hr : OnLine lerp dist s line y r) (hxy : x < y)
    (hnone : ∀ v ∈ stations dist s line, x < v.2 → y ≤ v.2) : dist q r = y - x := by
  obtain ⟨p, c, t, -, -, u, v, hu, huv, hv, rfl, rfl, rfl, rfl⟩ :=
    exists_leg hexact hline hq hr hxy hnone
  rw [hexact.dist_lerp p c u v hu huv hv]
  ring

/-- **Points** between two places with no vertex between them. -/
theorem onLine_between {z : K} {o : P} (hline : Proper dist line)
    (hq : OnLine lerp dist s line x q) (hr : OnLine lerp dist s line y r) (hxy : x < y)
    (hnone : ∀ v ∈ stations dist s line, x < v.2 → y ≤ v.2) (ho : OnLine lerp dist s line z o)
    (hxz : x ≤ z) (hzy : z ≤ y) :
    ∃ w, 0 ≤ w ∧ w ≤ 1 ∧ z = x + w * dist q r ∧ o = lerp q r w := by
  have hdist := dist_of_onLine hexact hline hq hr hxy hnone
  obtain ⟨p, c, t, hleg, hon, u, v, hu, huv, hv, hx, rfl, hy, rfl⟩ :=
    exists_leg hexact hline hq hr hxy hnone
  have hpos : 0 < y - x := sub_pos.mpr hxy
  have hw0 : 0 ≤ (z - x) / (y - x) := div_nonneg (sub_nonneg.mpr hxz) hpos.le
  have hw1 : (z - x) / (y - x) ≤ 1 := (div_le_one hpos).mpr (by linarith)
  have hz : z = x + (z - x) / (y - x) * (y - x) := by
    rw [div_mul_cancel₀ _ hpos.ne']
    ring
  refine ⟨(z - x) / (y - x), hw0, hw1, by rw [hdist]; exact hz, ?_⟩
  generalize (z - x) / (y - x) = w at hw0 hw1 hz
  rw [hexact.lerp_lerp]
  -- the place of `o` on the leg
  have hz' : z = t + (u + w * (v - u)) * dist p c := by
    rw [hz, hx, hy]
    ring
  have hvu : 0 ≤ v - u := sub_nonneg.mpr huv
  have hnonneg : 0 ≤ u + w * (v - u) := add_nonneg hu (mul_nonneg hw0 hvu)
  have hle : u + w * (v - u) ≤ 1 := by
    have hmul : w * (v - u) ≤ 1 * (v - u) := mul_le_mul_of_nonneg_right hw1 hvu
    linarith
  rw [hz'] at ho
  exact onLine_unique hexact hline ho (hon _ hnonneg hle)

/-! ## Lines along lines -/

/-- `ms` goes on from `m` along a line: through its points, in order, and through every vertex on
the way. -/
structure Covers (lerp : P → P → K → P) (dist : P → P → K) (s : K) (line : List P) (m : P × K)
    (ms : List (P × K)) : Prop where
  onLine : ∀ v ∈ m :: ms, OnLine lerp dist s line v.2 v.1
  sorted : (m :: ms).Pairwise fun v w => v.2 < w.2
  vertices : ∀ v ∈ stations dist s line, m.2 < v.2 → (∃ w ∈ ms, v.2 < w.2) → v ∈ ms

omit hexact [IsStrictOrderedRing K] in
theorem Covers.tail {m m' : P × K} {ms : List (P × K)}
    (h : Covers lerp dist s line m (m' :: ms)) : Covers lerp dist s line m' ms where
  onLine v hv := h.onLine v (List.mem_cons_of_mem m hv)
  sorted := (List.pairwise_cons.mp h.sorted).2
  vertices v hv hlt := by
    rintro ⟨w, hw, hvw⟩
    have hstep := (List.pairwise_cons.mp h.sorted).1 m' List.mem_cons_self
    have hmem := h.vertices v hv (hstep.trans hlt) ⟨w, List.mem_cons_of_mem m' hw, hvw⟩
    rcases List.mem_cons.mp hmem with rfl | hmem
    · exact absurd hlt (lt_irrefl _)
    · exact hmem

omit hexact [IsStrictOrderedRing K] in
/-- No vertex is between two points of a line that covers another. -/
theorem Covers.not_between {m m' : P × K} {ms : List (P × K)}
    (h : Covers lerp dist s line m (m' :: ms)) {v : P × K} (hv : v ∈ stations dist s line)
    (hlt : m.2 < v.2) : m'.2 ≤ v.2 := by
  by_contra hgt
  have hmem := h.vertices v hv hlt ⟨m', List.mem_cons_self, not_le.mp hgt⟩
  rcases List.mem_cons.mp hmem with rfl | hmem
  · exact hgt (le_refl _)
  · have hsorted := List.pairwise_cons.mp (List.pairwise_cons.mp h.sorted).2
    exact hgt (hsorted.1 v hmem).le

theorem Covers.dist_eq {m m' : P × K} {ms : List (P × K)} (hline : Proper dist line)
    (h : Covers lerp dist s line m (m' :: ms)) : dist m.1 m'.1 = m'.2 - m.2 :=
  dist_of_onLine hexact hline (h.onLine m List.mem_cons_self)
    (h.onLine m' (List.mem_cons_of_mem m List.mem_cons_self))
    ((List.pairwise_cons.mp h.sorted).1 m' List.mem_cons_self) fun _ hv => h.not_between hv

/-- **The places of its vertices** are those they have on the other line. -/
theorem stations_of_covers {m : P × K} {ms : List (P × K)} (hline : Proper dist line)
    (h : Covers lerp dist s line m ms) :
    stations dist m.2 ((m :: ms).map Prod.fst) = m :: ms := by
  induction ms generalizing m with
  | nil => rfl
  | cons m' ms ih =>
    have hnext : m.2 + dist m.1 m'.1 = m'.2 := by
      rw [h.dist_eq hexact hline]
      ring
    rw [List.map_cons, List.map_cons, stations, hnext, ← List.map_cons, ih h.tail]

/-- **The points between its ends** are those of the other line. -/
theorem onLine_of_covers {m : P × K} {ms : List (P × K)} (hline : Proper dist line)
    (h : Covers lerp dist s line m ms) (ho : OnLine lerp dist s line x q) (hx : m.2 ≤ x)
    (hend : ∃ w ∈ m :: ms, x ≤ w.2) : OnLine lerp dist m.2 ((m :: ms).map Prod.fst) x q := by
  induction ms generalizing m with
  | nil =>
    obtain ⟨w, hw, hxw⟩ := hend
    rw [List.mem_singleton.mp hw] at hxw
    have hxm : x = m.2 := hxw.antisymm hx
    rw [hxm] at ho
    exact ⟨hxm, onLine_unique hexact hline ho (h.onLine m List.mem_cons_self)⟩
  | cons m' ms ih =>
    have hstep := (List.pairwise_cons.mp h.sorted).1 m' List.mem_cons_self
    by_cases hx' : x ≤ m'.2
    · exact Or.inl (onLine_between hexact hline (h.onLine m List.mem_cons_self)
        (h.onLine m' (List.mem_cons_of_mem m List.mem_cons_self)) hstep
        (fun _ hv => h.not_between hv) ho hx hx')
    · have hgt := not_le.mp hx'
      have hnext : m.2 + dist m.1 m'.1 = m'.2 := by
        rw [h.dist_eq hexact hline]
        ring
      refine Or.inr ?_
      rw [hnext]
      refine ih h.tail hgt.le ?_
      obtain ⟨w, hw, hxw⟩ := hend
      rcases List.mem_cons.mp hw with rfl | hw
      · exact absurd (hxw.trans_lt (hstep.trans hgt)) (lt_irrefl _)
      · exact ⟨w, hw, hxw⟩

/-- **A line cut to a stretch** covers it. -/
theorem covers_cut (hline : Proper dist line) (hq : OnLine lerp dist s line x q)
    (hr : OnLine lerp dist s line y r) (hxy : x < y) :
    Covers lerp dist s line (q, x)
      ((stations dist s line).filter (fun v => decide (x < v.2 ∧ v.2 < y)) ++ [(r, y)]) where
  onLine v hv := by
    rcases List.mem_cons.mp hv with rfl | hv
    · exact hq
    · rcases List.mem_append.mp hv with hv | hv
      · exact onLine_of_mem_stations hexact (List.mem_of_mem_filter hv)
      · rw [List.mem_singleton.mp hv]
        exact hr
  sorted := by
    have hin : ∀ v ∈ (stations dist s line).filter (fun v => decide (x < v.2 ∧ v.2 < y)),
        x < v.2 ∧ v.2 < y := fun v hv => of_decide_eq_true (List.mem_filter.mp hv).2
    refine List.pairwise_cons.mpr ⟨fun v hv => ?_, List.pairwise_append.mpr
      ⟨(stations_sorted hline).sublist List.filter_sublist, List.pairwise_singleton _ _,
        fun v hv w hw => ?_⟩⟩
    · rcases List.mem_append.mp hv with hv | hv
      · exact (hin v hv).1
      · rw [List.mem_singleton.mp hv]
        exact hxy
    · rw [List.mem_singleton.mp hw]
      exact (hin v hv).2
  vertices v hv hlt := by
    rintro ⟨w, hw, hvw⟩
    have hvy : v.2 < y := by
      rcases List.mem_append.mp hw with hw | hw
      · exact hvw.trans (of_decide_eq_true (List.mem_filter.mp hw).2).2
      · rwa [List.mem_singleton.mp hw] at hvw
    exact List.mem_append_left _ (List.mem_filter.mpr ⟨hv, decide_eq_true ⟨hlt, hvy⟩⟩)

end Points

end RoutePlanner.Lib
