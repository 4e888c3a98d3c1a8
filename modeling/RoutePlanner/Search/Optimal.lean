import Mathlib.Algebra.Order.Group.Int
import Mathlib.Data.Fin.VecNotation
import RoutePlanner.Search.Termination

/-!
# `shortest_path` is optimal

Exact arithmetic: costs in an ordered group, `INF = ⊤`. With non-negative arc costs and no
heuristic, or a consistent one, the search returns the cheapest allowed walk over all seeds and
destinations, and nothing exactly when there is no such walk.

The argument follows an arbitrary walk forward through the final state (`Exit.frontier`): as long
as its edges are settled, their labels are at most the walk's; at the first edge that is not, the
stop bound is already below the walk's `f`, which a consistent heuristic carries to the end of the
walk. There the slack (P6) covers the difference between `h` and the adjustment, so the early stop
cuts off no cheaper destination (`best_le_of_stops`).

Main results:
* `search_answer`: what holds of any answer, with no assumption on the heuristic or the costs for
  all parts but one.
* `shortestPath_optimal`.
-/

namespace RoutePlanner.Search

open RoutePlanner.Lib

variable {E T : ℕ} {K : Type}

section Defs

variable [AddMonoid K]

/-- Seed cost, arc costs and adjustment of a walk. -/
def Query.total (q : Query E T K) (g : K) (ts : List (Fin T)) (adj : K) : K :=
  g + (ts.map q.arcCost).sum + adj

/-- An allowed walk from a seed edge to a destination edge, with the seed's cost and the
adjustment that is in force. -/
structure IsJourney (q : Query E T K) (a : Fin E) (g : K) (ts : List (Fin T)) (b : Fin E)
    (adj : K) : Prop where
  route : IsRoute q a g ts b
  dest : q.destAdjust b = some adj

/-- `h` decreases along no allowed turn by more than the turn costs. -/
def Consistent [LE K] (topo : TurnTopo E T) (arcCost : Fin T → K) (h : Fin E → K) : Prop :=
  ∀ t, topo.turnAllowed t = true → h (topo.turnInEdge t) ≤ arcCost t + h (topo.turnOutEdge t)

end Defs

variable [AddCommGroup K] [LinearOrder K] [IsOrderedAddMonoid K]
  {κ : Type} [LinearOrder κ] {key : Entry E K → κ} {Q : MinQueue (Entry E K) key}
  {q : Query E T K} {adjust : Fin E → Option K} {slack : K}

omit [IsOrderedAddMonoid K] in
/-- What `h[e] if h is not None else 0.0` does along an allowed turn. -/
theorem hAt_le (hcost : ∀ t, q.topo.turnAllowed t = true → 0 ≤ q.arcCost t)
    (hcons : ∀ h, q.h = some h → Consistent q.topo q.arcCost h) {t : Fin T}
    (ht : q.topo.turnAllowed t = true) :
    q.hAt (q.topo.turnInEdge t) ≤ q.arcCost t + q.hAt (q.topo.turnOutEdge t) := by
  unfold Query.hAt
  cases hq : q.h with
  | none =>
    simp only [add_zero]
    exact hcost t ht
  | some h => exact hcons h hq t ht

omit [IsOrderedAddMonoid K] in
/-- P6: the slack covers every destination. -/
theorem hAt_sub_le_slack {d : Fin E × K} (hd : d ∈ q.dests) : q.hAt d.1 - d.2 ≤ q.slack := by
  unfold Query.slack
  refine foldl_of_mem (I := fun s => q.hAt d.1 - d.2 ≤ s) hd (fun s => ?_) (fun s d' h => ?_) 0
  · split
    · exact le_rfl
    · exact not_lt.mp ‹_›
  · split
    · exact h.trans (le_of_lt ‹_›)
    · exact h

omit [IsOrderedAddMonoid K] in
theorem stops_mono {best : Option (Fin E × K)} {f f' : K} (hle : f ≤ f')
    (h : stops best slack f = true) : stops best slack f' = true := by
  obtain ⟨e, b, hb, hlt⟩ := stops_eq_true.mp h
  exact stops_eq_true.mpr ⟨e, b, hb, hlt.trans_le hle⟩

/-- **Following a walk through the final state.** The end of the walk has a label at most the
walk's, or some edge on the way is past the stop bound at the walk's `f`. -/
theorem Exit.frontier {st : St E T K Q.Heap} (hX : Exit ⊤ q adjust slack st) {a : Fin E} {g : K}
    (hs : st.dist a ≤ (g : WithTop K)) {ts : List (Fin T)} {b : Fin E}
    (hw : q.topo.graph.IsWalk a ts b) :
    (∃ gb : K, st.dist b = (gb : WithTop K) ∧ gb ≤ ArcGraph.label q.arcCost g ts) ∨
      ∃ p r v, ts = p ++ r ∧ q.topo.graph.IsWalk a p v ∧
        stops st.best slack (ArcGraph.label q.arcCost g p + q.hAt v) = true := by
  induction ts using List.reverseRecOn generalizing b with
  | nil =>
    obtain rfl : a = b := hw
    exact Or.inl (WithTop.le_coe_iff.mp hs)
  | append_singleton ts t ih =>
    obtain ⟨hw', hok, rfl⟩ := ArcGraph.isWalk_concat.mp hw
    rw [ArcGraph.label_concat]
    rcases ih hw' with ⟨gu, hgu, hle⟩ | ⟨p, r, v, rfl, hp, hstop⟩
    · rcases hX.settled _ gu hgu (WithTop.coe_lt_top gu) with hset | hstop
      · -- settled: the turn was relaxed from a label at most the walk's
        have hrel := (hset.turns t rfl hok).resolve_left List.not_mem_nil
        obtain ⟨gb, hgb, hleb⟩ := WithTop.le_coe_iff.mp hrel
        exact Or.inl ⟨gb, hgb, hleb.trans (add_le_add_left hle _)⟩
      · exact Or.inr ⟨ts, [t], _, rfl, hw', stops_mono (add_le_add_left hle _) hstop⟩
    · exact Or.inr ⟨p, r ++ [t], v, List.append_assoc p r [t], hp, hstop⟩

/-- A destination at the end of a walk bounds the best total, unless the walk ran past the stop
bound. -/
theorem Exit.best_le_or {st : St E T K Q.Heap} (hX : Exit ⊤ q adjust slack st) {a b : Fin E}
    {g adj : K} {ts : List (Fin T)} (hr : IsRoute q a g ts b) (hadj : adjust b = some adj) :
    bestFinal ⊤ st.best ≤ ((ArcGraph.label q.arcCost g ts + adj : K) : WithTop K) ∨
      ∃ p r v, ts = p ++ r ∧ q.topo.graph.IsWalk a p v ∧
        stops st.best slack (ArcGraph.label q.arcCost g p + q.hAt v) = true := by
  rcases hX.frontier (hX.seeds _ hr.seed) hr.walk with ⟨gb, hgb, hle⟩ | hpast
  · rcases hX.settled b gb hgb (WithTop.coe_lt_top gb) with hset | hstop
    · exact Or.inl ((hset.dest adj hadj).trans (WithTop.coe_le_coe.mpr (add_le_add_left hle adj)))
    · exact Or.inr ⟨ts, [], b, (List.append_nil ts).symm, hr.walk,
        stops_mono (add_le_add_left hle _) hstop⟩
  · exact Or.inr hpast

/-- **The slack covers the end of a walk**: past the stop bound there, the best total is below the
walk's. -/
theorem best_le_of_stops {best : Option (Fin E × K)} {b : Fin E} {g adj : K}
    (hstop : stops best slack (g + q.hAt b) = true) (hslack : q.hAt b - adj ≤ slack) :
    bestFinal ⊤ best ≤ ((g + adj : K) : WithTop K) := by
  obtain ⟨e, total, hbest, hlt⟩ := stops_eq_true.mp hstop
  rw [hbest]
  refine WithTop.coe_le_coe.mpr (le_of_add_le_add_right (a := slack) (hlt.le.trans ?_))
  calc g + q.hAt b = g + adj + (q.hAt b - adj) := by abel
    _ ≤ g + adj + slack := add_le_add_right hslack _

/-- A heuristic that is consistent along the allowed turns is consistent along a walk. -/
theorem label_add_hAt_le (hh : ∀ t, q.topo.turnAllowed t = true →
      q.hAt (q.topo.turnInEdge t) ≤ q.arcCost t + q.hAt (q.topo.turnOutEdge t))
    {a b : Fin E} {ts : List (Fin T)} (hw : q.topo.graph.IsWalk a ts b) (g : K) :
    g + q.hAt a ≤ ArcGraph.label q.arcCost g ts + q.hAt b := by
  induction ts generalizing a g with
  | nil =>
    obtain rfl : a = b := hw
    exact le_rfl
  | cons t ts ih =>
    obtain ⟨hok, rfl, hw⟩ := hw
    refine le_trans ?_ (ih hw (g + q.arcCost t))
    rw [add_assoc]
    exact add_le_add_right (hh t hok) g

/-! ## Any answer of a search -/

/-- What every answer of a search satisfies. Only `le` needs the heuristic to be consistent. -/
structure Answer (q : Query E T K) (r : Option (PathResult E T K)) : Prop where
  /-- A returned walk serves the query, at no more than the reported total. -/
  sound : ∀ p, r = some p → ∃ g adj, IsJourney q p.firstEdge g p.turnIds p.destEdge adj ∧
    q.total g p.turnIds adj ≤ p.totalCost
  /-- A query that some walk serves is answered. -/
  complete : ∀ a g ts b adj, IsJourney q a g ts b adj → ∃ p, r = some p
  /-- No walk without a turn beats the answer. -/
  nil_le : ∀ p a g adj, r = some p → IsJourney q a g [] a adj → p.totalCost ≤ q.total g [] adj
  /-- No walk beats the answer, for a heuristic that is consistent along the allowed turns. -/
  le : (∀ t, q.topo.turnAllowed t = true →
      q.hAt (q.topo.turnInEdge t) ≤ q.arcCost t + q.hAt (q.topo.turnOutEdge t)) →
    ∀ p a g ts b adj, r = some p → IsJourney q a g ts b adj → p.totalCost ≤ q.total g ts adj

/-- **Every result of a search is an `Answer`**, for any heap ordered by `f` first. -/
theorem search_answer (hkey : ∀ x y : Entry E K, key x ≤ key y → x.f ≤ y.f) {fuel : ℕ}
    {r : Option (PathResult E T K)}
    (h : searchWith Q ⊤ q q.destAdjust q.slack (initSt Q ⊤ q) fuel = some r) : Answer q r := by
  unfold searchWith at h
  obtain ⟨st, hst, hr⟩ := Option.bind_eq_some_iff.mp h
  have hX := exit_loop hkey hst
  have hlabel : ∀ g ts adj, ArcGraph.label q.arcCost g ts + adj = q.total g ts adj := by
    intro g ts adj
    rw [ArcGraph.label_eq_sum]
    rfl
  have hreported : ∀ p g ts adj, r = some p →
      bestFinal ⊤ st.best ≤ ((ArcGraph.label q.arcCost g ts + adj : K) : WithTop K) →
        p.totalCost ≤ q.total g ts adj := by
    rintro p g ts adj rfl hle
    obtain ⟨-, -, -, -, -, hbest⟩ := hX.result_sound hr
    rw [hbest] at hle
    exact (WithTop.coe_le_coe.mp hle).trans_eq (hlabel g ts adj)
  have hslack : ∀ {b adj}, q.destAdjust b = some adj → q.hAt b - adj ≤ q.slack :=
    fun hd => hAt_sub_le_slack (mem_of_dictGet hd)
  refine ⟨?_, ?_, ?_, ?_⟩
  · rintro p rfl
    obtain ⟨g, adj, hroute, hadj, hle, -⟩ := hX.result_sound hr
    exact ⟨g, adj, ⟨hroute, hadj⟩, (hlabel g _ adj).symm.trans_le hle⟩
  · intro a g ts b adj hj
    cases r with
    | some p => exact ⟨p, rfl⟩
    | none =>
      -- no destination was found, so nothing was cut off
      exfalso
      have hnone : st.best = none := by
        rcases readResult_cases (fun e t ht => (hX.pred.turn e t ht).2.1) hr with
          ⟨hnone, -⟩ | ⟨p, hp, -⟩
        · exact hnone
        · cases hp
      rcases hX.best_le_or hj.route hj.dest with hle | ⟨p, r, v, -, -, hstop⟩
      · rw [hnone] at hle
        exact absurd (top_le_iff.mp hle) WithTop.coe_ne_top
      · rw [hnone] at hstop
        exact absurd hstop (by simp [stops])
  · intro p a g adj hp hj
    refine hreported p g [] adj hp ?_
    rcases hX.best_le_or hj.route hj.dest with hle | ⟨p, r, v, hnil, hw, hstop⟩
    · exact hle
    · obtain ⟨rfl, -⟩ := List.append_eq_nil_iff.mp hnil.symm
      obtain rfl : a = v := hw
      exact best_le_of_stops hstop (hslack hj.dest)
  · intro hh p a g ts b adj hp hj
    refine hreported p g ts adj hp ?_
    rcases hX.best_le_or hj.route hj.dest with hle | ⟨p, r, v, rfl, hw, hstop⟩
    · exact hle
    · obtain ⟨m, hp', hr'⟩ := ArcGraph.isWalk_append.mp hj.route.walk
      obtain rfl := hw.end_unique hp'
      refine best_le_of_stops (stops_mono ?_ hstop) (hslack hj.dest)
      rw [ArcGraph.label_append]
      exact label_add_hAt_le hh hr' _

/-- The answer to a query: nothing when no walk serves it, else a cheapest walk. -/
structure IsOptimum (q : Query E T K) (r : Option (PathResult E T K)) : Prop where
  none_iff : r = none ↔ ¬ ∃ a g ts b adj, IsJourney q a g ts b adj
  walk : ∀ p, r = some p → ∃ g adj, IsJourney q p.firstEdge g p.turnIds p.destEdge adj ∧
    q.total g p.turnIds adj = p.totalCost
  le : ∀ p, r = some p → ∀ a g ts b adj, IsJourney q a g ts b adj →
    p.totalCost ≤ q.total g ts adj

omit [IsOrderedAddMonoid K] in
theorem Answer.none_iff {r : Option (PathResult E T K)} (hA : Answer q r) :
    r = none ↔ ¬ ∃ a g ts b adj, IsJourney q a g ts b adj := by
  constructor
  · rintro rfl ⟨a, g, ts, b, adj, hj⟩
    obtain ⟨p, hp⟩ := hA.complete a g ts b adj hj
    exact absurd hp (by simp)
  · intro hno
    cases r with
    | none => rfl
    | some p =>
      obtain ⟨g, adj, hj, -⟩ := hA.sound p rfl
      exact absurd ⟨_, g, _, _, adj, hj⟩ hno

omit [IsOrderedAddMonoid K] in
/-- Any answer is an optimum, for a heuristic that is consistent along the allowed turns. -/
theorem Answer.isOptimum {r : Option (PathResult E T K)} (hA : Answer q r)
    (hh : ∀ t, q.topo.turnAllowed t = true →
      q.hAt (q.topo.turnInEdge t) ≤ q.arcCost t + q.hAt (q.topo.turnOutEdge t)) :
    IsOptimum q r := by
  refine ⟨hA.none_iff, fun p hp => ?_, fun p hp a g ts b adj => hA.le hh p a g ts b adj hp⟩
  obtain ⟨g, adj, hj, hle⟩ := hA.sound p hp
  exact ⟨g, adj, hj, le_antisymm hle (hA.le hh p _ g _ _ adj hp hj)⟩

/-- Non-negative costs lower no label round a cycle. -/
theorem noImproving_of_nonneg (hcost : ∀ t, q.topo.turnAllowed t = true → 0 ≤ q.arcCost t) :
    q.topo.graph.NoImproving q.arcCost :=
  ArcGraph.noImproving_of_le q.arcCost fun t ht _ => le_add_of_nonneg_right (hcost t ht)

/-! ## A cycle of negative cost -/

/-- The cost of a turn, less what the heuristic says it gains. -/
def Query.reducedCost (q : Query E T K) (t : Fin T) : K :=
  q.arcCost t + q.hAt (q.topo.turnOutEdge t) - q.hAt (q.topo.turnInEdge t)

omit [LinearOrder K] in
theorem sum_reducedCost {a b : Fin E} {ts : List (Fin T)} (hw : q.topo.graph.IsWalk a ts b) :
    (ts.map q.reducedCost).sum = (ts.map q.arcCost).sum + q.hAt b - q.hAt a := by
  induction ts generalizing a with
  | nil =>
    obtain rfl : a = b := hw
    simp
  | cons t ts ih =>
    obtain ⟨-, rfl, hw⟩ := hw
    have hstep : q.reducedCost t =
      q.arcCost t + q.hAt (q.topo.turnOutEdge t) - q.hAt (q.topo.turnInEdge t) := rfl
    rw [List.map_cons, List.sum_cons, List.map_cons, List.sum_cons, ih hw, hstep]
    change q.arcCost t + q.hAt (q.topo.turnOutEdge t) - q.hAt (q.topo.turnInEdge t) +
        ((ts.map q.arcCost).sum + q.hAt b - q.hAt (q.topo.turnOutEdge t)) =
      q.arcCost t + (ts.map q.arcCost).sum + q.hAt b - q.hAt (q.topo.turnInEdge t)
    abel

/-- **A search that never ends.** From a point of a negative cycle where no part of the round has a
positive reduced cost, towards that same edge, no state can be the last one. -/
theorem search_diverges (hkey : ∀ x y : Entry E K, key x ≤ key y → x.f ≤ y.f) {u : Fin E}
    {us : List (Fin T)} (hw : q.topo.graph.IsWalk u us u)
    (hneg : (us.map q.reducedCost).sum < 0)
    (hpre : ∀ p r, us = p ++ r → (p.map q.reducedCost).sum ≤ 0)
    (hseeds : ∃ g, (u, g) ∈ q.seeds) (hdests : ∀ d ∈ q.dests, d.1 = u) (fuel : ℕ) :
    searchWith Q ⊤ q q.destAdjust q.slack (initSt Q ⊤ q) fuel = none := by
  unfold searchWith
  rw [Option.bind_eq_none_iff]
  intro st hst
  exfalso
  have hX := exit_loop hkey hst
  obtain ⟨g0, hg0⟩ := hseeds
  obtain ⟨d, hd, -⟩ := WithTop.le_coe_iff.mp (hX.seeds (u, g0) hg0)
  rcases hX.frontier hd.le hw with ⟨g, hg, hle⟩ | ⟨p, r, v, rfl, hp, hstop⟩
  · -- the round would have lowered the label of `u` once more
    rw [hd] at hg
    rw [ArcGraph.label_eq_sum, ← WithTop.coe_inj.mp hg] at hle
    rw [sum_reducedCost hw, add_sub_cancel_right] at hneg
    exact absurd (le_add_iff_nonneg_right d |>.mp hle) (not_le.mpr hneg)
  · -- the stop bound cannot be that low: `u` is the only destination
    obtain ⟨e, b, hb, hlt⟩ := stops_eq_true.mp hstop
    obtain ⟨a, g, ha, hg, -, hle⟩ := hX.pred.best e b hb
    have hmem := mem_of_dictGet ha
    obtain rfl : e = u := hdests _ hmem
    rw [hd] at hg
    obtain rfl := WithTop.coe_inj.mp hg
    have hslack : q.hAt e - a ≤ q.slack := hAt_sub_le_slack hmem
    have hround := hpre p r rfl
    rw [sum_reducedCost hp] at hround
    rw [ArcGraph.label_eq_sum] at hlt
    have hchain : d + q.hAt e < d + q.hAt e := by
      calc d + q.hAt e = d + a + (q.hAt e - a) := by abel
        _ ≤ b + q.slack := add_le_add hle hslack
        _ < d + (p.map q.arcCost).sum + q.hAt v := hlt
        _ = d + ((p.map q.arcCost).sum + q.hAt v) := add_assoc _ _ _
        _ ≤ d + q.hAt e := add_le_add_right (sub_nonpos.mp hround) d
    exact lt_irrefl _ hchain

/-! ## `shortest_path` -/

omit [AddCommGroup K] in
theorem f_le_of_pyKey_le (x y : Entry E K) (h : pyKey x ≤ pyKey y) : x.f ≤ y.f := by
  rcases Prod.Lex.toLex_le_toLex.mp h with h | ⟨h, -⟩
  · exact le_of_lt h
  · exact le_of_eq h

/-- With non-negative arc costs, and a heuristic that is consistent along the allowed turns, the
search ends with an optimum. -/
theorem exists_optimum (Q : MinQueue (Entry E K) pyKey) {q : Query E T K}
    (hcost : ∀ t, q.topo.turnAllowed t = true → 0 ≤ q.arcCost t)
    (hh : ∀ t, q.topo.turnAllowed t = true →
      q.hAt (q.topo.turnInEdge t) ≤ q.arcCost t + q.hAt (q.topo.turnOutEdge t)) :
    ∃ r, Yields (fun n => shortestPath Q ⊤ q n) r ∧ IsOptimum q r := by
  obtain ⟨r, hr⟩ := searchWith_yields Q ⊤ q.destAdjust q.slack (noImproving_of_nonneg hcost)
  obtain ⟨n, hn⟩ := hr.exists_fuel
  have hA : Answer q r := search_answer f_le_of_pyKey_le hn
  exact ⟨r, hr, hA.isOptimum hh⟩

/-- **`shortest_path` returns the optimum.** With non-negative arc costs, and no heuristic or a
consistent one, it ends, and its answer is a cheapest allowed walk from a seed to a destination, or
nothing when there is none. -/
theorem shortestPath_optimal (Q : MinQueue (Entry E K) pyKey) (q : Query E T K)
    (hcost : ∀ t, q.topo.turnAllowed t = true → 0 ≤ q.arcCost t)
    (hcons : ∀ h, q.h = some h → Consistent q.topo q.arcCost h) :
    ∃ r, Yields (fun n => shortestPath Q ⊤ q n) r ∧ IsOptimum q r :=
  exists_optimum Q hcost fun _ ht => hAt_le hcost hcons ht

/-- Four edges: from edge `0` over edge `1` or over edge `2` to edge `3`. -/
def diamond : TurnTopo 4 4 where
  turnPtr := ![0, 2, 3, 4, 4]
  turnOutEdge := ![1, 2, 3, 3]
  turnInEdge := ![0, 0, 1, 2]
  turnAllowed := fun _ => true
  csr := by decide

/-- A query with a consistent heuristic and a destination listed twice. -/
def diamondQuery : Query 4 4 ℤ where
  topo := diamond
  arcCost := ![2, 3, 2, 0]
  h := some ![3, 1, 0, 0]
  seeds := [(0, 1)]
  dests := [(3, -1), (3, -2)]

/-- `shortest_path` on `diamondQuery`. -/
theorem shortestPath_optimal_diamond :
    ∃ r, Yields (fun n => shortestPath (sortedQueue pyKey) ⊤ diamondQuery n) r ∧
      IsOptimum diamondQuery r := by
  refine shortestPath_optimal (sortedQueue pyKey) diamondQuery (by decide) ?_
  rintro h hh
  obtain rfl := Option.some.inj hh
  exact (by decide : ∀ t : Fin 4, diamond.turnAllowed t = true →
    (![3, 1, 0, 0] : Fin 4 → ℤ) (diamond.turnInEdge t) ≤
      (![2, 3, 2, 0] : Fin 4 → ℤ) t + (![3, 1, 0, 0] : Fin 4 → ℤ) (diamond.turnOutEdge t))

example : shortestPath (sortedQueue pyKey) ⊤ diamondQuery 9 =
    some (some ⟨[1, 3], 0, 3, 2⟩) := by decide +kernel

end RoutePlanner.Search
