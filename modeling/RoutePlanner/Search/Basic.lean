import Mathlib.Algebra.Order.Monoid.WithTop
import Mathlib.Data.Fin.Tuple.Basic
import Mathlib.Data.List.FinRange
import Mathlib.Data.Prod.Lex
import RoutePlanner.Lib.Dict
import RoutePlanner.Lib.Fuel
import RoutePlanner.Lib.MinQueue
import RoutePlanner.Lib.Walk

/-!
# `pyref/search.py`: edge-based A* over the turn table

Model of `shortest_path`. The search states are directed edges, the arcs are turns. Costs live in
any type `K` with an addition, a subtraction, a zero and a linear order: nothing here assumes that
the addition is associative, so the definitions cover rounded costs as well as exact ones.

* `INF` is the argument `inf : WithTop K`: `⊤` for exact costs; a cost type with an infinity of
  its own passes that.
* The heap is any `MinQueue`. `heapq` compares the tuples `(f, edge, g)`, which is `pyKey`.
* The main loop and the walk back along `pred` are `loop`s, so a search that never ends has no
  result at any fuel.
* `best` is `best_edge` with `best_final`; `none` is `(-1, INF)`.
-/

namespace RoutePlanner.Search

open RoutePlanner.Lib

/-- `TurnTopo`: `E` directed edges, `T` turns, the turns of edge `e` being
`turnPtr e, …, turnPtr (e + 1) - 1`. -/
structure TurnTopo (E T : ℕ) where
  turnPtr : Fin (E + 1) → ℕ
  turnOutEdge : Fin T → Fin E
  turnInEdge : Fin T → Fin E
  turnAllowed : Fin T → Bool
  /-- `turn_in_edge` is the expansion of `turn_ptr` (`GraphPack.turn_in_edge`). -/
  csr : ∀ t e, turnInEdge t = e ↔ turnPtr e.castSucc ≤ t ∧ (t : ℕ) < turnPtr e.succ

/-- The arguments of one call of `shortest_path`. -/
structure Query (E T : ℕ) (K : Type) where
  topo : TurnTopo E T
  arcCost : Fin T → K
  h : Option (Fin E → K)
  seeds : List (Fin E × K)
  dests : List (Fin E × K)

/-- `PathResult`. -/
structure PathResult (E T : ℕ) (K : Type) where
  turnIds : List (Fin T)
  firstEdge : Fin E
  destEdge : Fin E
  totalCost : K
  deriving DecidableEq, Repr

/-- A heap entry `(f, edge, g)`. -/
structure Entry (E : ℕ) (K : Type) where
  f : K
  e : Fin E
  g : K
  deriving DecidableEq, Repr

/-- The mutable state of the search. -/
structure St (E T : ℕ) (K Heap : Type) where
  dist : Fin E → WithTop K
  pred : Fin E → Option (Fin T)
  heap : Heap
  best : Option (Fin E × K)

variable {E T : ℕ} {K : Type}

/-- `pred[e] = t`. -/
def St.setPred {Heap : Type} (st : St E T K Heap) (e : Fin E) (t : Fin T) : St E T K Heap :=
  { st with pred := Function.update st.pred e (some t) }

/-- The graph of the allowed turns. -/
def TurnTopo.graph (topo : TurnTopo E T) : ArcGraph (Fin E) (Fin T) where
  src := topo.turnInEdge
  dst := topo.turnOutEdge
  ok t := topo.turnAllowed t = true

/-- `range(turn_ptr[e], turn_ptr[e + 1])`. -/
def TurnTopo.turnsFrom (topo : TurnTopo E T) (e : Fin E) : List (Fin T) :=
  (List.finRange T).filter fun t => topo.turnPtr e.castSucc ≤ t ∧ (t : ℕ) < topo.turnPtr e.succ

@[simp] theorem TurnTopo.mem_turnsFrom {topo : TurnTopo E T} {e : Fin E} {t : Fin T} :
    t ∈ topo.turnsFrom e ↔ topo.turnInEdge t = e := by
  simp only [turnsFrom, List.mem_filter, List.mem_finRange, true_and, decide_eq_true_eq]
  exact (topo.csr t e).symm

/-- `PathResult.edges`. -/
def PathResult.edges (r : PathResult E T K) (turnOutEdge : Fin T → Fin E) : List (Fin E) :=
  r.firstEdge :: r.turnIds.map turnOutEdge

section Defs

variable [LinearOrder K] [Add K] [Sub K] [Zero K]

/-- `h[e] if h is not None else 0.0`. -/
def Query.hAt (q : Query E T K) (e : Fin E) : K :=
  match q.h with
  | some h => h e
  | none => 0

/-- P6: the largest `h[d] - adj` over the listed destinations, at least `0`. -/
def Query.slack (q : Query E T K) : K :=
  q.dests.foldl (fun s d => if s < q.hAt d.1 - d.2 then q.hAt d.1 - d.2 else s) 0

/-- `dict(dests).get(e)`. -/
def Query.destAdjust (q : Query E T K) (e : Fin E) : Option K := dictGet q.dests e

/-- `(f, edge, g)` tuples, as `heapq` compares them. -/
def pyKey (x : Entry E K) : K ×ₗ Fin E ×ₗ K := toLex (x.f, toLex (x.e, x.g))

/-- P6: `best_edge >= 0 and f > best_final + slack`. -/
def stops (best : Option (Fin E × K)) (slack f : K) : Bool :=
  match best with
  | none => false
  | some b => decide (b.2 + slack < f)

/-- `best_final`. -/
def bestFinal (inf : WithTop K) (best : Option (Fin E × K)) : WithTop K :=
  match best with
  | none => inf
  | some b => (b.2 : WithTop K)

/-- The destination check of a settled edge `e` at `g`. -/
def finalize (inf : WithTop K) (adjust : Option K) (e : Fin E) (g : K)
    (best : Option (Fin E × K)) : Option (Fin E × K) :=
  match adjust with
  | none => best
  | some a =>
    if ((g + a : K) : WithTop K) < bestFinal inf best then some (e, g + a) else best

variable {κ : Type} [LinearOrder κ] {key : Entry E K → κ} (Q : MinQueue (Entry E K) key)
  (inf : WithTop K) (q : Query E T K)

/-- `dist[e] = g`, and its heap entry. -/
def relabel (st : St E T K Q.Heap) (e : Fin E) (g : K) : St E T K Q.Heap :=
  { st with
    dist := Function.update st.dist e g
    heap := Q.push st.heap ⟨g + q.hAt e, e, g⟩ }

/-- One iteration of the seed loop. -/
def pushSeed (st : St E T K Q.Heap) (s : Fin E × K) : St E T K Q.Heap :=
  if (s.2 : WithTop K) < st.dist s.1 then relabel Q q st s.1 s.2 else st

/-- One turn out of an edge settled at `g` (P3, P5, P7). -/
def relaxTurn (g : K) (st : St E T K Q.Heap) (t : Fin T) : St E T K Q.Heap :=
  if q.topo.turnAllowed t = true then
    let e2 := q.topo.turnOutEdge t
    let gNew := g + q.arcCost t
    if (gNew : WithTop K) < st.dist e2 then
      (relabel Q q st e2 gNew).setPred e2 t
    else st
  else st

/-- The body of the main loop for a popped entry that is neither past the stop bound nor stale:
the destination check, then every turn out of the edge. -/
def expand (adjust : Fin E → Option K) (x : Entry E K) (st : St E T K Q.Heap) :
    St E T K Q.Heap :=
  (q.topo.turnsFrom x.e).foldl (relaxTurn Q q x.g)
    { st with best := finalize inf (adjust x.e) x.e x.g st.best }

/-- One iteration of the main loop. -/
def step (adjust : Fin E → Option K) (slack : K) (st : St E T K Q.Heap) :
    Step (St E T K Q.Heap) (St E T K Q.Heap) :=
  match Q.pop st.heap with
  | none => .done st
  | some (x, heap) =>
    if stops st.best slack x.f = true then .done { st with heap := heap }
    else if st.dist x.e = (x.g : WithTop K) then
      .go (expand Q inf q adjust x { st with heap := heap })
    else .go { st with heap := heap }  -- P4: a stale entry

/-- The state before the main loop. -/
def initSt : St E T K Q.Heap :=
  q.seeds.foldl (pushSeed Q q) ⟨fun _ => inf, fun _ => none, Q.empty, none⟩

/-- One step back along `pred` (P7). Prepending does the work of the final `reverse`. -/
def traceStep (topo : TurnTopo E T) (pred : Fin E → Option (Fin T))
    (s : Fin E × List (Fin T)) : Step (Fin E × List (Fin T)) (Fin E × List (Fin T)) :=
  match pred s.1 with
  | none => .done s
  | some t => .go (topo.turnInEdge t, t :: s.2)

/-- What is read off the final state: nothing, or the walk back from the best edge. -/
def readResult (topo : TurnTopo E T) (fuel : ℕ) (pred : Fin E → Option (Fin T))
    (best : Option (Fin E × K)) : Option (Option (PathResult E T K)) :=
  match best with
  | none => some none
  | some b =>
    (loop (traceStep topo pred) fuel (b.1, [])).map fun s =>
      some ⟨s.2, s.1, b.1, b.2⟩

/-- The search over a given heap and destination lookup. -/
def searchWith (adjust : Fin E → Option K) (slack : K) (st : St E T K Q.Heap) (fuel : ℕ) :
    Option (Option (PathResult E T K)) :=
  (loop (step Q inf q adjust slack) fuel st).bind fun st =>
    readResult q.topo fuel st.pred st.best

/-- **`shortest_path`**, over any heap ordered by the tuples `(f, edge, g)`. -/
def shortestPath (Q : MinQueue (Entry E K) pyKey) (inf : WithTop K) (q : Query E T K)
    (fuel : ℕ) : Option (Option (PathResult E T K)) :=
  searchWith Q inf q q.destAdjust q.slack (initSt Q inf q) fuel

end Defs

/-- An allowed walk from a seed edge to a destination edge, with the seed's cost. -/
structure IsRoute (q : Query E T K) (a : Fin E) (g : K) (ts : List (Fin T)) (b : Fin E) : Prop where
  seed : (a, g) ∈ q.seeds
  walk : q.topo.graph.IsWalk a ts b

end RoutePlanner.Search
