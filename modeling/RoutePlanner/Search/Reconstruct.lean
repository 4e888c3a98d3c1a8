import RoutePlanner.Search.Engine
import RoutePlanner.Search.Optimal

/-!
# The walk back from the best edge

Both engines end with a `while` loop that follows `pred` from `best_edge` (P7). An inconsistent
heuristic re-opens edges, so `pred` and the labels may change after a destination was recorded.
Still, whatever the heuristic, the chain that the loop follows visits no edge twice and stops at a
seed edge, and the turns along it serve the query within the reported total.

* `PredChain`: the edges that `pred` leads back through, without fuel.
* `PredChain.nodup`: an acyclic `pred` repeats no edge on a chain.
* `search_reconstructs`: both engines, from the first iteration to the result.
-/

namespace RoutePlanner.Search

open RoutePlanner.Lib

variable {E T : ℕ} {K κ : Type}

/-! ## The chain of `pred` -/

/-- `es` lists the edges that the walk back along `pred` visits from `b`, the last of them without
a recorded turn. -/
inductive PredChain (topo : TurnTopo E T) (pred : Fin E → Option (Fin T)) :
    Fin E → List (Fin E) → Prop
  | stop {b : Fin E} (h : pred b = none) : PredChain topo pred b [b]
  | back {b : Fin E} {t : Fin T} {es : List (Fin E)} (h : pred b = some t)
      (hes : PredChain topo pred (topo.turnInEdge t) es) : PredChain topo pred b (b :: es)

namespace PredChain

variable {topo : TurnTopo E T} {pred : Fin E → Option (Fin T)}

/-- Every edge of a chain is its first one or lies behind it. -/
theorem behind {b e : Fin E} {es : List (Fin E)} (h : PredChain topo pred b es) (he : e ∈ es) :
    Relation.ReflTransGen (PredRel topo pred) e b := by
  induction h with
  | stop => exact List.mem_singleton.mp he ▸ .refl
  | back hb _ ih =>
    rcases List.mem_cons.mp he with rfl | he
    · exact .refl
    · exact (ih he).tail ⟨_, hb, rfl⟩

/-- **An acyclic `pred` repeats no edge on a chain.** -/
theorem nodup (hwf : WellFounded (PredRel topo pred)) {b : Fin E} {es : List (Fin E)}
    (h : PredChain topo pred b es) : es.Nodup := by
  induction h with
  | stop => exact List.nodup_singleton _
  | @back b t es hb hes ih =>
    refine List.nodup_cons.mpr ⟨fun hmem => ?_, ih⟩
    have hcycle : Relation.TransGen (PredRel topo pred) b b :=
      Relation.TransGen.tail' (hes.behind hmem) ⟨t, hb, rfl⟩
    exact hwf.transGen.irrefl.irrefl b hcycle

/-- A recorded walk, read backwards, is a chain continued. -/
theorem of_walk {a b : Fin E} {ts : List (Fin T)} (hw : (predGraph topo pred).IsWalk a ts b)
    {es : List (Fin E)} (ha : PredChain topo pred a es) :
    PredChain topo pred b ((ts.map topo.turnOutEdge).reverse ++ es) := by
  induction ts generalizing a es with
  | nil =>
    obtain rfl : a = b := hw
    exact ha
  | cons t ts ih =>
    obtain ⟨hp, rfl, hw⟩ := hw
    have hstep : PredChain topo pred (topo.turnOutEdge t) (topo.turnOutEdge t :: es) :=
      .back hp ha
    have hrest := ih hw hstep
    rw [List.map_cons, List.reverse_cons, List.append_assoc, List.singleton_append]
    exact hrest

end PredChain

/-! ## What a finished search holds -/

/-- **A sound reconstruction** of the result `r` from the final `pred` and best edge. -/
structure Reconstructs [LinearOrder K] [AddMonoid K] (q : Query E T K)
    (pred : Fin E → Option (Fin T)) (bestEdge : Option (Fin E))
    (r : Option (PathResult E T K)) : Prop where
  none_iff : r = none ↔ bestEdge = none
  /-- The chain from the best edge is the returned walk read backwards. It repeats no edge. -/
  chain : ∀ p, r = some p → bestEdge = some p.destEdge ∧
    PredChain q.topo pred p.destEdge (p.edges q.topo.turnOutEdge).reverse ∧
      (p.edges q.topo.turnOutEdge).Nodup
  /-- It starts at a seed, and the walk serves the query within the reported total. -/
  journey : ∀ p, r = some p → ∃ g adj, (p.firstEdge, g) ∈ q.seeds ∧
    IsJourney q p.firstEdge g p.turnIds p.destEdge adj ∧
      q.total g p.turnIds adj ≤ p.totalCost

section MainLoop

variable [LinearOrder K] [Add K] [Sub K] [Zero K] [LinearOrder κ] {key : Entry E K → κ}

/-- The main loop of `shortest_path`. -/
def mainLoop (Q : MinQueue (Entry E K) key) (inf : WithTop K) (q : Query E T K) (fuel : ℕ) :
    Option (St E T K Q.Heap) :=
  loop (step Q inf q q.destAdjust q.slack) fuel (initSt Q inf q)

/-- The main loop of `Engine::shortest_path`. -/
def Engine.mainLoop (C : MinQueue (Entry E K) Engine.fEdge) (kInf : WithTop K) (q : Query E T K)
    (fuel : ℕ) : Option (Engine.Vars E T K C.Heap) :=
  loop (Engine.step C kInf q (Engine.destAdjust kInf q.dests) q.slack) fuel
    (q.seeds.foldl (Engine.seed C q) ⟨fun _ => kInf, fun _ => none, C.empty, kInf, none⟩)

/-- The main loops of the two engines agree over one heap. -/
theorem Engine.mainLoop_eq (C : MinQueue (Entry E K) Engine.fEdge) (kInf : WithTop K)
    (q : Query E T K) (hfin : ∀ d ∈ q.dests, (d.2 : WithTop K) ≠ kInf) (fuel : ℕ) :
    Engine.mainLoop C kInf q fuel = (Search.mainLoop C kInf q fuel).map (Engine.ofSt kInf) := by
  unfold Engine.mainLoop Search.mainLoop
  rw [Engine.init_ofSt, loop_map (Engine.step_ofSt hfin)]

end MainLoop

section Exact

variable [AddCommGroup K] [LinearOrder K] [IsOrderedAddMonoid K] [LinearOrder κ]
  {key : Entry E K → κ} {q : Query E T K}

/-- **A search over any heap that is ordered by `f` first**: its main loop ends, and so does the
walk back. -/
theorem searchWith_reconstructs (Q : MinQueue (Entry E K) key)
    (hkey : ∀ x y : Entry E K, key x ≤ key y → x.f ≤ y.f)
    (hcost : ∀ t, q.topo.turnAllowed t = true → 0 ≤ q.arcCost t) :
    ∃ st r, Yields (mainLoop Q ⊤ q) st ∧
      Yields (fun n => searchWith Q ⊤ q q.destAdjust q.slack (initSt Q ⊤ q) n) r ∧
      Reconstructs q st.pred (st.best.map Prod.fst) r := by
  have hnc := noImproving_of_nonneg hcost
  obtain ⟨st, hst⟩ := mainLoop_yields Q ⊤ q.destAdjust q.slack hnc
  obtain ⟨r, hr⟩ := searchWith_yields Q ⊤ q.destAdjust q.slack hnc
  obtain ⟨N, hN⟩ := hst
  obtain ⟨M, hM⟩ := hr
  -- one fuel for both loops
  have hloop : mainLoop Q ⊤ q (max N M) = some st := hN _ (le_max_left N M)
  have hsearch : searchWith Q ⊤ q q.destAdjust q.slack (initSt Q ⊤ q) (max N M) = some r :=
    hM _ (le_max_right N M)
  have hX := exit_loop hkey hloop
  have hwf := acyclic_loop hnc hloop
  have hread : readResult q.topo (max N M) st.pred st.best = some r := by
    have hbind := hsearch
    unfold searchWith at hbind
    unfold mainLoop at hloop
    rw [hloop] at hbind
    exact hbind
  refine ⟨st, r, ⟨N, hN⟩, ⟨M, hM⟩, ?_⟩
  rcases readResult_cases (fun e t ht => (hX.pred.turn e t ht).2.1) hread with
    ⟨hb, rfl⟩ | ⟨p, rfl, hb, hnone, hw⟩
  · rw [hb]
    exact ⟨iff_of_true rfl rfl, nofun, nofun⟩
  · have hchain : PredChain q.topo st.pred p.destEdge (p.edges q.topo.turnOutEdge).reverse := by
      rw [PathResult.edges, List.reverse_cons]
      exact PredChain.of_walk hw (.stop hnone)
    rw [hb]
    refine ⟨iff_of_false nofun nofun, ?_, ?_⟩
    · rintro _ ⟨⟩
      exact ⟨rfl, hchain, List.nodup_reverse.mp (hchain.nodup hwf)⟩
    · rintro _ ⟨⟩
      obtain ⟨g, adj, hj, hle⟩ := (search_answer hkey hsearch).sound p rfl
      exact ⟨g, adj, hj.route.seed, hj, hle⟩

/-- **The search ends and reconstructs soundly for any heuristic**, in Python and in C++: the main
loop ends, the chain of `pred` from the best edge repeats no edge and stops at a seed edge, and the
returned walk is allowed and costs no more than the reported total. -/
theorem search_reconstructs (P : MinQueue (Entry E K) pyKey)
    (C : MinQueue (Entry E K) Engine.fEdge) (q : Query E T K)
    (hcost : ∀ t, q.topo.turnAllowed t = true → 0 ≤ q.arcCost t) :
    (∃ st r, Yields (mainLoop P ⊤ q) st ∧ Yields (shortestPath P ⊤ q) r ∧
      Reconstructs q st.pred (st.best.map Prod.fst) r) ∧
    ∃ v r, Yields (Engine.mainLoop C ⊤ q) v ∧ Yields (Engine.shortestPath C ⊤ q) r ∧
      Reconstructs q v.pred v.bestEdge r := by
  have hfin : ∀ d ∈ q.dests, (d.2 : WithTop K) ≠ ⊤ := fun _ _ => WithTop.coe_ne_top
  refine ⟨searchWith_reconstructs P f_le_of_pyKey_le hcost, ?_⟩
  obtain ⟨st, r, hst, hr, hrec⟩ := searchWith_reconstructs C Engine.f_le_of_fEdge_le hcost
  refine ⟨Engine.ofSt ⊤ st, r, ?_, ?_, hrec⟩
  · exact (hst.map (Engine.ofSt ⊤)).congr fun n => (Engine.mainLoop_eq C ⊤ q hfin n).symm
  · exact hr.congr fun n => (Engine.engine_eq_searchWith C ⊤ q hfin n).symm

/-- `diamondQuery` with a heuristic that overestimates along one branch. -/
def misledQuery : Query 4 4 ℤ := { diamondQuery with h := some ![0, 0, 9, 0] }

/-- Both engines on `misledQuery`. -/
theorem search_reconstructs_misled :
    (∃ st r, Yields (mainLoop (sortedQueue pyKey) ⊤ misledQuery) st ∧
      Yields (shortestPath (sortedQueue pyKey) ⊤ misledQuery) r ∧
        Reconstructs misledQuery st.pred (st.best.map Prod.fst) r) ∧
    ∃ v r, Yields (Engine.mainLoop (sortedQueue Engine.fEdge) ⊤ misledQuery) v ∧
      Yields (Engine.shortestPath (sortedQueue Engine.fEdge) ⊤ misledQuery) r ∧
        Reconstructs misledQuery v.pred v.bestEdge r :=
  search_reconstructs (sortedQueue pyKey) (sortedQueue Engine.fEdge) misledQuery (by decide)

end Exact

end RoutePlanner.Search
