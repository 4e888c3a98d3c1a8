import RoutePlanner.Search.Termination

/-!
# `core/src/engine.cpp`: the C++ engine

`Engine::shortest_path`, written from the C++ text. It differs from the Python reference in

* the heap, a `std::priority_queue` whose comparison `AfterByFEdge` looks at `(f, e)` only;
* `dest_adjust`, an array over all edges in which `kInf` means "not a destination";
* the variables `best_final` and `best_edge`, kept apart;
* the walk back along `pred`, which appends and reverses at the end.

`engine_eq_searchWith` says that, with finite adjustments, it computes what the search of
`Search.Basic` computes over its own heap. The two heaps are compared in `Search.Parity`.
-/

namespace RoutePlanner.Search.Engine

open RoutePlanner.Lib

variable {E T : ℕ} {K : Type}

/-- The local variables of `Engine::shortest_path`. -/
structure Vars (E T : ℕ) (K Heap : Type) where
  dist : Fin E → WithTop K
  pred : Fin E → Option (Fin T)
  heap : Heap
  bestFinal : WithTop K
  bestEdge : Option (Fin E)

section Defs

variable [LinearOrder K] [Add K] [Sub K] [Zero K]

/-- What `AfterByFEdge` compares. -/
def fEdge (x : Entry E K) : K ×ₗ Fin E := toLex (x.f, x.e)

/-- The array `dest_adjust`. -/
def destAdjust (kInf : WithTop K) (dests : List (Fin E × K)) : Fin E → WithTop K :=
  dests.foldl (fun arr d => Function.update arr d.1 (d.2 : WithTop K)) fun _ => kInf

variable (Q : MinQueue (Entry E K) fEdge) (kInf : WithTop K) (q : Query E T K)

/-- One iteration of the seed loop. -/
def seed (v : Vars E T K Q.Heap) (s : Fin E × K) : Vars E T K Q.Heap :=
  if (s.2 : WithTop K) < v.dist s.1 then
    { v with
      dist := Function.update v.dist s.1 s.2
      heap := Q.push v.heap ⟨s.2 + q.hAt s.1, s.1, s.2⟩ }
  else v

/-- The destination check. -/
def finalize (adjust : Fin E → WithTop K) (e : Fin E) (g : K) (v : Vars E T K Q.Heap) :
    Vars E T K Q.Heap :=
  if adjust e ≠ kInf then
    let finalCost := (g : WithTop K) + adjust e
    if finalCost < v.bestFinal then { v with bestFinal := finalCost, bestEdge := some e } else v
  else v

/-- One turn out of the settled edge. -/
def relax (g : K) (v : Vars E T K Q.Heap) (t : Fin T) : Vars E T K Q.Heap :=
  if q.topo.turnAllowed t = true then
    let e2 := q.topo.turnOutEdge t
    let gNew := g + q.arcCost t
    if (gNew : WithTop K) < v.dist e2 then
      { v with
        dist := Function.update v.dist e2 gNew
        pred := Function.update v.pred e2 (some t)
        heap := Q.push v.heap ⟨gNew + q.hAt e2, e2, gNew⟩ }
    else v
  else v

/-- One iteration of the main loop. -/
def step (adjust : Fin E → WithTop K) (slack : K) (v : Vars E T K Q.Heap) :
    Step (Vars E T K Q.Heap) (Vars E T K Q.Heap) :=
  match Q.pop v.heap with
  | none => .done v
  | some (top, heap) =>
    if v.bestEdge.isSome = true ∧ v.bestFinal + (slack : WithTop K) < (top.f : WithTop K) then
      .done { v with heap := heap }
    else if (top.g : WithTop K) ≠ v.dist top.e then .go { v with heap := heap }
    else .go ((q.topo.turnsFrom top.e).foldl (relax Q q top.g)
      (finalize Q kInf adjust top.e top.g { v with heap := heap }))

/-- One iteration of the walk back. -/
def back (topo : TurnTopo E T) (pred : Fin E → Option (Fin T)) (s : Fin E × List (Fin T)) :
    Step (Fin E × List (Fin T)) (Fin E × List (Fin T)) :=
  match pred s.1 with
  | none => .done s
  | some t => .go (topo.turnInEdge t, s.2 ++ [t])

/-- The `PathOut`, `none` when nothing is found. -/
def pathOut (topo : TurnTopo E T) (fuel : ℕ) (v : Vars E T K Q.Heap) :
    Option (Option (PathResult E T K)) :=
  match v.bestEdge with
  | none => some none
  | some b =>
    (loop (back topo v.pred) fuel (b, [])).map fun s =>
      some ⟨s.2.reverse, s.1, b, v.bestFinal.untopD 0⟩

/-- **`Engine::shortest_path`**, over any heap ordered by `(f, e)`. -/
def shortestPath (fuel : ℕ) : Option (Option (PathResult E T K)) :=
  let adjust := destAdjust kInf q.dests
  let init := q.seeds.foldl (seed Q q) ⟨fun _ => kInf, fun _ => none, Q.empty, kInf, none⟩
  (loop (step Q kInf q adjust q.slack) fuel init).bind (pathOut Q q.topo fuel)

end Defs

/-! ## The same search as `Search.Basic` -/

section Simulation

variable [LinearOrder K] [Add K] [Zero K] {Q : MinQueue (Entry E K) fEdge} {kInf : WithTop K}
  {q : Query E T K} {slack : K}

/-- The variables that hold a state of the search. -/
def ofSt (kInf : WithTop K) (st : St E T K Q.Heap) : Vars E T K Q.Heap where
  dist := st.dist
  pred := st.pred
  heap := st.heap
  bestFinal := bestFinal kInf st.best
  bestEdge := st.best.map Prod.fst

omit [Add K] [Zero K] in
@[simp] theorem ofSt_dist (st : St E T K Q.Heap) : (ofSt kInf st).dist = st.dist := rfl

omit [Add K] [Zero K] in
@[simp] theorem ofSt_heap (st : St E T K Q.Heap) : (ofSt kInf st).heap = st.heap := rfl

omit [LinearOrder K] [Add K] [Zero K] in
/-- The array holds the dictionary. -/
theorem destAdjust_eq (dests : List (Fin E × K)) (e : Fin E) :
    destAdjust kInf dests e = (dictGet dests e).elim kInf fun a => (a : WithTop K) := by
  unfold destAdjust
  induction dests using List.reverseRecOn with
  | nil => rfl
  | append_singleton l d ih =>
    rw [List.foldl_append, List.foldl_cons, List.foldl_nil, dictGet_concat]
    by_cases hd : d.1 = e
    · rw [if_pos hd, hd, Function.update_self]
      rfl
    · rw [if_neg hd, Function.update_of_ne (Ne.symm hd), ih]

theorem seed_ofSt (st : St E T K Q.Heap) (s : Fin E × K) :
    seed Q q (ofSt kInf st) s = ofSt kInf (pushSeed Q q st s) := by
  unfold seed pushSeed
  rw [ofSt_dist]
  by_cases hlt : (s.2 : WithTop K) < st.dist s.1
  · rw [if_pos hlt, if_pos hlt]
    rfl
  · rw [if_neg hlt, if_neg hlt]

theorem relax_ofSt (g : K) (st : St E T K Q.Heap) (t : Fin T) :
    relax Q q g (ofSt kInf st) t = ofSt kInf (relaxTurn Q q g st t) := by
  unfold relax relaxTurn
  by_cases hok : q.topo.turnAllowed t = true
  · rw [if_pos hok, if_pos hok]
    dsimp only
    by_cases hlt : ((g + q.arcCost t : K) : WithTop K) < st.dist (q.topo.turnOutEdge t)
    · refine (if_pos hlt).trans ?_
      rw [if_pos hlt]
      rfl
    · refine (if_neg hlt).trans ?_
      rw [if_neg hlt]
  · rw [if_neg hok, if_neg hok]

omit [Zero K] in
theorem finalize_ofSt (hfin : ∀ d ∈ q.dests, (d.2 : WithTop K) ≠ kInf) (e : Fin E) (g : K)
    (st : St E T K Q.Heap) :
    finalize Q kInf (destAdjust kInf q.dests) e g (ofSt kInf st) =
      ofSt kInf { st with best := Search.finalize kInf (q.destAdjust e) e g st.best } := by
  unfold finalize Search.finalize Query.destAdjust
  rw [destAdjust_eq]
  cases ha : dictGet q.dests e with
  | none => exact if_neg (not_not.mpr rfl)
  | some a =>
    have hne : (a : WithTop K) ≠ kInf := hfin _ (mem_of_dictGet ha)
    refine (if_pos hne).trans ?_
    simp only
    by_cases hlt : ((g + a : K) : WithTop K) < bestFinal kInf st.best
    · rw [if_pos hlt]
      exact if_pos hlt
    · rw [if_neg hlt]
      exact if_neg hlt

omit [Zero K] in
theorem stops_ofSt (st : St E T K Q.Heap) (f : K) :
    ((ofSt kInf st).bestEdge.isSome = true ∧
      (ofSt kInf st).bestFinal + (slack : WithTop K) < (f : WithTop K)) ↔
        stops st.best slack f = true := by
  unfold ofSt stops bestFinal
  cases st.best with
  | none => simp
  | some b =>
    simp only [Option.map_some, Option.isSome_some, true_and, decide_eq_true_eq]
    rw [← WithTop.coe_add, WithTop.coe_lt_coe]

/-- **One iteration of each engine, over one heap.** -/
theorem step_ofSt (hfin : ∀ d ∈ q.dests, (d.2 : WithTop K) ≠ kInf) (st : St E T K Q.Heap) :
    step Q kInf q (destAdjust kInf q.dests) slack (ofSt kInf st) =
      (Search.step Q kInf q q.destAdjust slack st).map (ofSt kInf) (ofSt kInf) := by
  have hfold : ∀ (l : List (Fin T)) (g : K) (st : St E T K Q.Heap),
      l.foldl (relax Q q g) (ofSt kInf st) = ofSt kInf (l.foldl (relaxTurn Q q g) st) := by
    intro l g st
    exact List.foldl_hom (ofSt kInf) fun st t => relax_ofSt g st t
  unfold step Search.step
  rw [ofSt_heap, ofSt_dist]
  cases Q.pop st.heap with
  | none => rfl
  | some p =>
    obtain ⟨x, heap⟩ := p
    simp only
    by_cases hstop : stops st.best slack x.f = true
    · rw [if_pos ((stops_ofSt st x.f).mpr hstop), if_pos hstop]
      rfl
    · rw [if_neg (mt (stops_ofSt st x.f).mp hstop), if_neg hstop]
      by_cases hd : st.dist x.e = (x.g : WithTop K)
      · rw [if_neg (fun h => h hd.symm), if_pos hd]
        refine congrArg Step.go ?_
        unfold expand
        rw [← hfold, ← finalize_ofSt hfin]
        rfl
      · rw [if_pos (fun h => hd h.symm), if_neg hd]
        rfl

/-- Appending and reversing is prepending. -/
theorem back_eq (topo : TurnTopo E T) (pred : Fin E → Option (Fin T)) (fuel : ℕ) (e : Fin E) :
    loop (back topo pred) fuel (e, []) =
      (loop (traceStep topo pred) fuel (e, [])).map fun s => (s.1, s.2.reverse) := by
  refine loop_map (φ := fun s => (s.1, s.2.reverse)) (fun s => ?_) fuel (e, [])
  unfold back traceStep
  simp only
  cases pred s.1 with
  | none => rfl
  | some t =>
    simp only [Step.map, List.reverse_cons]

/-- The seeds leave the variables of the initial state. -/
theorem init_ofSt : q.seeds.foldl (seed Q q) ⟨fun _ => kInf, fun _ => none, Q.empty, kInf, none⟩ =
    ofSt kInf (initSt Q kInf q) := by
  have hseeds : ∀ (l : List (Fin E × K)) (st : St E T K Q.Heap),
      l.foldl (seed Q q) (ofSt kInf st) = ofSt kInf (l.foldl (pushSeed Q q) st) := by
    intro l
    induction l with
    | nil => exact fun st => rfl
    | cons s l ih =>
      intro st
      rw [List.foldl_cons, List.foldl_cons, seed_ofSt, ih]
  exact hseeds q.seeds ⟨fun _ => kInf, fun _ => none, Q.empty, none⟩

end Simulation

theorem f_le_of_fEdge_le [LinearOrder K] (x y : Entry E K) (h : fEdge x ≤ fEdge y) :
    x.f ≤ y.f := by
  rcases Prod.Lex.toLex_le_toLex.mp h with h | ⟨h, -⟩
  · exact le_of_lt h
  · exact le_of_eq h

/-- **The C++ engine computes the search of `Search.Basic` over its own heap**, when the
adjustments are finite. -/
theorem engine_eq_searchWith [LinearOrder K] [Add K] [Sub K] [Zero K]
    (Q : MinQueue (Entry E K) fEdge) (kInf : WithTop K) (q : Query E T K)
    (hfin : ∀ d ∈ q.dests, (d.2 : WithTop K) ≠ kInf) (fuel : ℕ) :
    shortestPath Q kInf q fuel =
      searchWith Q kInf q q.destAdjust q.slack (initSt Q kInf q) fuel := by
  have hout : ∀ st : St E T K Q.Heap,
      pathOut Q q.topo fuel (ofSt kInf st) = readResult q.topo fuel st.pred st.best := by
    intro st
    unfold pathOut readResult ofSt
    cases st.best with
    | none => rfl
    | some b =>
      simp only [Option.map_some]
      rw [back_eq, Option.map_map]
      refine congrFun (congrArg Option.map (funext fun s => ?_)) _
      simp only [Function.comp_apply, List.reverse_reverse, bestFinal]
      rfl
  unfold shortestPath searchWith
  simp only
  rw [init_ofSt, loop_map (step_ofSt hfin) fuel, Option.bind_map]
  exact congrArg _ (funext hout)

end RoutePlanner.Search.Engine
