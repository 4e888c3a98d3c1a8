import Mathlib.Data.Rat.Floor
import RoutePlanner.Ingestion.Built
import RoutePlanner.Search.Basic

/-!
# The representation invariant of a pack

What `build_pack` makes of a street graph: sorted edges, node pointers, a geometry pool, a reverse
map and a turn table that agree with each other (`Represents`), for every multigraph with parallel
edges, self-loops and isolated nodes.

* `Built.represents`: a pack that was built is `Represents`, if its node pointers are right.
* `buildPack_ok_iff`: when a pack is built at all.
* `buildPack_represents_iff`: exactly when both. A node may have the largest `int32` as its index;
  the pointers are wrong if an edge leaves it.
* `Represents.topo`: such a pack is a turn topology of the search.
-/

namespace RoutePlanner.Ingestion

open RoutePlanner.Lib

variable {K : Type}

/-- **What a pack must be of its graph.** -/
structure Represents (G : MultiDiGraph K) (p : GraphPack K) : Prop where
  valid : p.validate = true
  /-- The edges are those of the graph. -/
  edges : ((p.edgeTail.zip (p.edgeHead.zip p.edgeOsmWay)).map fun r =>
      (p.nodeOsmid.getD r.1 0, p.nodeOsmid.getD r.2.1 0, r.2.2)).Perm
    (G.edges.map fun e => (e.u, e.v, wayId e.data.osmid))
  /-- Row `n` of the node pointers is the outgoing edges of node `n`. -/
  out_rows : ∀ n < p.numNodes, ∀ e,
    p.nodeOutPtr.getD n 0 ≤ e ∧ e < p.nodeOutPtr.getD (n + 1) 0 ↔ p.edgeTail[e]? = some n
  geometry : ∀ e < p.numEdges, p.edgeGeomPtr.getD e 0 + 2 ≤ p.edgeGeomPtr.getD (e + 1) 0
  reverse : Matched p.edgeTail p.edgeHead p.edgeOsmWay p.edgeReverse
  /-- The turns of an edge follow each other, in the order of the edges. -/
  turn_rows : ∀ e < p.numEdges, ∀ t,
    p.turnInEdge[t]? = some e ↔ p.turnPtr.getD e 0 ≤ t ∧ t < p.turnPtr.getD (e + 1) 0
  turns_sorted : p.turnInEdge.Pairwise (· ≤ ·)
  /-- Every turn leaves from the head of its in-edge. -/
  turns_sound : ∀ t < p.numTurns, ∃ e e2 n : ℕ, p.turnInEdge[t]? = some e ∧
    p.turnOutEdge[t]? = some e2 ∧ p.edgeHead[e]? = some n ∧ p.edgeTail[e2]? = some n
  /-- Every pair of edges that meet is listed, once. -/
  turns_complete : ∀ e e2 n : ℕ, p.edgeHead[e]? = some n → p.edgeTail[e2]? = some n →
    ∃! t : ℕ, p.turnInEdge[t]? = some e ∧ p.turnOutEdge[t]? = some e2

/-! ## What the arrays can hold -/

/-- Everything fits the arrays. -/
structure Fits (G : MultiDiGraph K) : Prop where
  ids : ∀ id ∈ G.nodes, -2 ^ 63 ≤ id ∧ id < 2 ^ 63
  indices : ∀ e ∈ G.edges, nodeIndex G e.u < 2 ^ 31 ∧ nodeIndex G e.v < 2 ^ 31
  ways : ∀ e ∈ G.edges, -2 ^ 63 ≤ wayId e.data.osmid ∧ wayId e.data.osmid < 2 ^ 63
  points : (G.edges.map fun e => (edgePoints G (rawEdge G e)).length).sum < 2 ^ 31
  turns : (G.edges.map fun e => G.edges.countP fun e2 => e2.u = e.v).sum < 2 ^ 31

section Arrays

variable (G : MultiDiGraph K)

theorem nodeIndex_inj {a b : ℤ} (ha : a ∈ G.nodes) (hb : b ∈ G.nodes) :
    nodeIndex G a = nodeIndex G b ↔ a = b := by
  refine ⟨fun h => ?_, fun h => h ▸ rfl⟩
  rw [← getD_nodeIndex G ha, h, getD_nodeIndex G hb]

theorem length_points : ((rawEdges G).map (edgePoints G)).flatten.length =
    (G.edges.map fun e => (edgePoints G (rawEdge G e)).length).sum := by
  rw [List.length_flatten, List.map_map]
  have hperm := (rawEdges_perm G).map (List.length ∘ edgePoints G)
  rw [hperm.sum_eq, List.map_map]
  rfl

/-- The pairs of edges that meet. -/
theorem sum_pairs : (((rawEdges G).map RawEdge.head).map
      ((rawEdges G).map RawEdge.tail).count).sum =
    (G.edges.map fun e => G.edges.countP fun e2 => e2.u = e.v).sum := by
  have hheads := ((rawEdges_perm G).map RawEdge.head).map ((rawEdges G).map RawEdge.tail).count
  have htails := (rawEdges_perm G).map RawEdge.tail
  rw [hheads.sum_eq, List.map_map, List.map_map]
  refine congrArg List.sum (List.map_congr_left fun e he => ?_)
  rw [Function.comp_apply, Function.comp_apply, htails.count_eq, List.map_map, List.count,
    List.countP_map]
  refine List.countP_congr fun e2 he2 => ?_
  rw [Function.comp_apply, Function.comp_apply, beq_iff_eq, decide_eq_true_eq]
  exact nodeIndex_inj G (G.u_mem e2 he2) (G.v_mem e he)

variable {G}

/-- The last node whose next index is a pointer: an edge may leave it only where the index that
wraps round comes out right. -/
theorem tailsFit_iff (hindices : ∀ e ∈ G.edges, nodeIndex G e.u < 2 ^ 31) :
    TailsFit (nodeIds G).length ((rawEdges G).map RawEdge.tail) ↔
      (∀ e ∈ G.edges, nodeIndex G e.u ≠ 2 ^ 31 - 1) ∨ G.nodes.length = 2 ^ 32 - 1 := by
  have hlen : (nodeIds G).length = G.nodes.length := List.length_mergeSort _
  have hmem : ∀ t, t ∈ (rawEdges G).map RawEdge.tail ↔ ∃ e ∈ G.edges, nodeIndex G e.u = t := by
    intro t
    rw [((rawEdges_perm G).map RawEdge.tail).mem_iff, List.map_map, List.mem_map]
    rfl
  constructor
  · intro hfit
    by_contra hnot
    obtain ⟨hleaves, hcount⟩ := not_or.mp hnot
    refine hleaves fun e he hmax => hcount ?_
    have hlt := nodeIndex_lt G (G.u_mem e he)
    have hsucc := hfit _ ((hmem _).mpr ⟨e, he, rfl⟩)
    rw [succIndex_max (by omega) (by omega)] at hsucc
    omega
  · intro hcond t ht
    obtain ⟨e, he, rfl⟩ := (hmem t).mp ht
    rcases Nat.lt_or_eq_of_le (Nat.succ_le_of_lt (hindices e he)) with hlt | hmax
    · exact succIndex_eq _ hlt
    · rcases hcond with hleaves | hcount
      · exact absurd (show nodeIndex G e.u = 2 ^ 31 - 1 by omega) (hleaves e he)
      · rw [succIndex_max hmax (by omega)]
        omega

end Arrays

/-! ## The pack that was built -/

section Built

variable [Field K] [LinearOrder K] [FloorRing K] {G : MultiDiGraph K}

namespace Built

variable {p : GraphPack K} (h : Built G p)

include h

theorem numNodes : p.numNodes = (nodeIds G).length := h.lat

theorem length_tails : p.edgeTail.length = p.numEdges := by
  rw [GraphPack.numEdges, h.tails, h.heads, List.length_map, List.length_map]

theorem edges : ((p.edgeTail.zip (p.edgeHead.zip p.edgeOsmWay)).map fun r =>
      (p.nodeOsmid.getD r.1 0, p.nodeOsmid.getD r.2.1 0, r.2.2)).Perm
    (G.edges.map fun e => (e.u, e.v, wayId e.data.osmid)) := by
  rw [h.tails, h.heads, h.ways, h.osmid, List.zip_map', List.zip_map', List.map_map]
  refine ((rawEdges_perm G).map _).trans ?_
  rw [List.map_map]
  refine List.Perm.of_eq (List.map_congr_left fun e he => ?_)
  simp only [Function.comp_apply, rawEdge]
  rw [getD_nodeIndex G (G.u_mem e he), getD_nodeIndex G (G.v_mem e he)]

theorem tail_lt_numNodes {t : ℕ} (ht : t ∈ p.edgeTail) : t < p.numNodes := by
  rw [h.tails] at ht
  obtain ⟨r, hr, rfl⟩ := List.mem_map.mp ht
  rw [h.numNodes]
  exact (rawEdge_lt G hr).1

theorem head_lt_numNodes {e n : ℕ} (he : p.edgeHead[e]? = some n) : n < p.numNodes := by
  rw [h.heads] at he
  obtain ⟨r, hr, rfl⟩ := List.mem_map.mp (List.mem_of_getElem? he)
  rw [h.numNodes]
  exact (rawEdge_lt G hr).2

/-- The geometry of each edge. -/
theorem geometry {e : ℕ} (he : e < p.numEdges) :
    p.edgeGeomPtr.getD e 0 + 2 ≤ p.edgeGeomPtr.getD (e + 1) 0 := by
  have hlen : e < ((rawEdges G).map (edgePoints G)).length := by
    rw [GraphPack.numEdges, h.heads, List.length_map] at he
    rwa [List.length_map]
  rw [h.geomPtr, List.getD_eq_getElem?_getD, List.getD_eq_getElem?_getD,
    getElem?_offsets hlen.le, getElem?_offsets hlen, Option.getD_some, Option.getD_some,
    offset_succ]
  have hrow : 2 ≤ (((rawEdges G).map (edgePoints G)).getD e []).length := by
    rw [List.getD_eq_getElem?_getD, List.getElem?_eq_getElem hlen, Option.getD_some,
      List.getElem_map]
    exact two_le_edgePoints G _
  omega

/-- There are more points than edges, and the geometry pointers count them. -/
theorem numEdges_lt : p.numEdges < 2 ^ 31 := by
  have hcount : ∀ e ≤ p.numEdges, e ≤ p.edgeGeomPtr.getD e 0 := by
    intro e
    induction e with
    | zero => exact fun _ => Nat.zero_le _
    | succ e ih =>
      intro he
      have hprev := ih (Nat.le_of_succ_le he)
      have hstep := h.geometry (Nat.lt_of_succ_le he)
      omega
  have hlen : p.numEdges < p.edgeGeomPtr.length := by
    rw [h.geomPtr, length_offsets, List.length_map, GraphPack.numEdges, h.heads, List.length_map]
    exact Nat.lt_succ_self _
  refine (hcount p.numEdges le_rfl).trans_lt (h.geom_lt _ ?_)
  rw [List.getD_eq_getElem?_getD, List.getElem?_eq_getElem hlen]
  exact List.getElem_mem hlen

theorem length_outPtr : p.nodeOutPtr.length = p.numNodes + 1 := by
  rw [h.outPtr, length_nodeOutPtr, h.numNodes]

theorem length_geomPtr : p.edgeGeomPtr.length = p.numEdges + 1 := by
  rw [h.geomPtr, length_offsets, List.length_map, GraphPack.numEdges, h.heads, List.length_map]

theorem length_turnPtr : p.turnPtr.length = p.numEdges + 1 := by
  rw [h.turnPtr, length_offsets, p.length_turnTable]

theorem numTurns : p.numTurns = p.turnTable.flatten.length := by
  rw [GraphPack.numTurns, h.turnOutEdge, List.length_map]

theorem length_turnInEdge : p.turnInEdge.length = p.numTurns := by
  rw [GraphPack.turnInEdge, h.turnPtr, length_expand_offsets, h.numTurns]

/-- The turn pointers enclose the turns of each edge. -/
theorem turn_rows {e : ℕ} (he : e < p.numEdges) (t : ℕ) :
    p.turnInEdge[t]? = some e ↔ p.turnPtr.getD e 0 ≤ t ∧ t < p.turnPtr.getD (e + 1) 0 := by
  have hlen : e < p.turnTable.length := by rwa [p.length_turnTable]
  rw [GraphPack.turnInEdge, h.turnPtr, List.getD_eq_getElem?_getD, List.getD_eq_getElem?_getD,
    getElem?_offsets hlen.le, getElem?_offsets hlen]
  exact getElem?_expand_offsets hlen

theorem numTurns_lt : p.numTurns < 2 ^ 31 := by
  have hlast := getLast?_offsets p.turnTable
  rw [← h.turnPtr, ← h.numTurns] at hlast
  exact h.turn_lt _ (List.mem_of_getLast? hlast)

/-- The turns of an edge, one by one. -/
theorem getElem?_turn {e n i : ℕ} (he : p.edgeHead[e]? = some n)
    (hi : i < p.nodeOutPtr.getD (succIndex p.nodeOutPtr.length n) 0 - p.nodeOutPtr.getD n 0) :
    p.turnInEdge[offset p.turnTable e + i]? = some e ∧
      p.turnOutEdge[offset p.turnTable e + i]? = some (p.nodeOutPtr.getD n 0 + i) := by
  rw [GraphPack.turnInEdge, h.turnPtr, h.turnOutEdge]
  exact getElem?_turnRows _ _ _ _ _ he hi

section Turns

variable (hfit : TailsFit (nodeIds G).length p.edgeTail)

include hfit

/-- The edges that leave the head of an edge, between the pointers the turn table reads. -/
theorem mem_headRow {e n : ℕ} (he : p.edgeHead[e]? = some n) (e2 : ℕ) :
    p.nodeOutPtr.getD n 0 ≤ e2 ∧
        e2 < p.nodeOutPtr.getD (succIndex p.nodeOutPtr.length n) 0 ↔ p.edgeTail[e2]? = some n := by
  have hsorted : p.edgeTail.Pairwise (· ≤ ·) := h.tails ▸ tails_sorted G
  have hn : n < (nodeIds G).length := h.numNodes ▸ h.head_lt_numNodes he
  rw [h.outPtr, length_nodeOutPtr]
  exact mem_headRow_iff hsorted hfit h.tail_lt hn (h.head_lt n (List.mem_of_getElem? he)) e2

/-- **Every turn leaves from the head of its in-edge.** -/
theorem turns_sound {t : ℕ} (ht : t < p.numTurns) : ∃ e e2 n : ℕ, p.turnInEdge[t]? = some e ∧
    p.turnOutEdge[t]? = some e2 ∧ p.edgeHead[e]? = some n ∧ p.edgeTail[e2]? = some n := by
  rw [h.numTurns] at ht
  obtain ⟨e, n, i, he, hi, rfl⟩ := turn_cases _ _ _ _ _ ht
  obtain ⟨hin, hout⟩ := h.getElem?_turn he hi
  refine ⟨e, _, n, hin, hout, he, (h.mem_headRow hfit he _).mp ⟨Nat.le_add_right _ i, ?_⟩⟩
  omega

/-- **Every pair of edges that meet is listed, once.** -/
theorem turns_complete {e e2 n : ℕ} (hhead : p.edgeHead[e]? = some n)
    (htail : p.edgeTail[e2]? = some n) :
    ∃! t : ℕ, p.turnInEdge[t]? = some e ∧ p.turnOutEdge[t]? = some e2 := by
  obtain ⟨hlo, hhi⟩ := (h.mem_headRow hfit hhead e2).mpr htail
  obtain ⟨hin, hout⟩ := h.getElem?_turn hhead (i := e2 - p.nodeOutPtr.getD n 0) (by omega)
  rw [Nat.add_sub_cancel' hlo] at hout
  refine ⟨_, ⟨hin, hout⟩, ?_⟩
  rintro t ⟨hin', hout'⟩
  -- the place in the row of `e` is read off the out-edge
  have ht : t < p.numTurns := (List.getElem?_eq_some_iff.mp hout').1
  rw [h.numTurns] at ht
  obtain ⟨e', n', i, he', hi, rfl⟩ := turn_cases _ _ _ _ _ ht
  obtain ⟨hin₂, hout₂⟩ := h.getElem?_turn he' hi
  obtain rfl : e' = e := Option.some.inj (hin₂.symm.trans hin')
  obtain rfl : n' = n := Option.some.inj (he'.symm.trans hhead)
  have hsum : p.nodeOutPtr.getD n' 0 + i = e2 := Option.some.inj (hout₂.symm.trans hout')
  have hi' : e2 - p.nodeOutPtr.getD n' 0 = i := by omega
  rw [hi']
  rfl

/-- The node pointers end at the number of edges. -/
theorem getLast?_outPtr : p.nodeOutPtr.getLast? = some p.numEdges := by
  rw [List.getLast?_eq_getElem?, h.length_outPtr, Nat.add_sub_cancel, h.outPtr, h.numNodes,
    getElem?_nodeOutPtr le_rfl, ← h.length_tails, Option.some.injEq, List.countP_eq_length]
  intro t ht
  have hlt := h.tail_lt_numNodes ht
  rw [h.numNodes] at hlt
  rw [hfit t ht, decide_eq_true_eq]
  exact hlt

/-- **The pack passes `validate`.** -/
theorem validate : p.validate = true := by
  refine decide_eq_true ⟨h.length_outPtr, h.length_turnPtr, h.length_geomPtr,
    h.getLast?_outPtr hfit, ?_, ?_, h.geomLat.trans h.geomLon.symm, h.numEdges_lt, h.numTurns_lt,
    fun e2 he2 => ?_, List.ext_getElem? fun t => ?_⟩
  · rw [h.turnPtr, getLast?_offsets, h.numTurns]
  · rw [h.geomPtr, getLast?_offsets, h.geomLat]
  · obtain ⟨t, ht⟩ := List.mem_iff_getElem?.mp he2
    obtain ⟨_, e2', n, -, hout, -, htail⟩ :=
      h.turns_sound hfit (List.getElem?_eq_some_iff.mp ht).1
    obtain rfl := Option.some.inj (hout.symm.trans ht)
    rw [← h.length_tails]
    exact (List.getElem?_eq_some_iff.mp htail).1
  · rw [List.getElem?_map, List.getElem?_map]
    by_cases ht : t < p.numTurns
    · obtain ⟨e, e2, n, hin, hout, hhead, htail⟩ := h.turns_sound hfit ht
      rw [hin, hout, Option.map_some, Option.map_some, hhead, htail]
    · rw [List.getElem?_eq_none (Nat.le_of_not_lt ht),
        List.getElem?_eq_none (h.length_turnInEdge ▸ Nat.le_of_not_lt ht)]
      rfl

/-- **A pack that was built.** -/
theorem represents : Represents G p where
  valid := h.validate hfit
  edges := h.edges
  out_rows n hn e := by
    have hsorted : p.edgeTail.Pairwise (· ≤ ·) := h.tails ▸ tails_sorted G
    rw [h.outPtr]
    exact mem_outRow_iff hsorted hfit (h.numNodes ▸ hn) e
  geometry _ he := h.geometry he
  reverse := h.reverse ▸ edgeReverse_matched _ _ _
  turn_rows _ he t := h.turn_rows he t
  turns_sorted := by
    rw [GraphPack.turnInEdge, h.turnPtr]
    exact expand_sorted _
  turns_sound _ ht := h.turns_sound hfit ht
  turns_complete _ _ _ hhead htail := h.turns_complete hfit hhead htail

end Turns

/-- What is represented has the right node pointers. -/
theorem tailsFit (hrep : Represents G p) : TailsFit (nodeIds G).length p.edgeTail := by
  refine tailsFit_of_rows h.tail_lt (fun t ht => h.numNodes ▸ h.tail_lt_numNodes ht)
    fun n hn e => ?_
  rw [← h.outPtr]
  exact hrep.out_rows n (h.numNodes ▸ hn) e

end Built

/-- The turns of the table are the pairs of edges that meet. -/
theorem length_turns {numNodes : ℕ} {heads tails : List ℕ} (rev : List (Option ℕ))
    (bearingIn bearingOut : List K) (hfit : TailsFit numNodes tails)
    (htails : ∀ t ∈ tails, t < 2 ^ 31) (hheads : ∀ t ∈ heads, t < numNodes ∧ t < 2 ^ 31) :
    (turnRows heads rev (nodeOutPtr numNodes tails) bearingIn bearingOut).flatten.length =
      (heads.map tails.count).sum := by
  rw [List.length_flatten]
  refine congrArg List.sum (List.ext_getElem ?_ fun e he he' => ?_)
  · rw [List.length_map, length_turnRows, List.length_map]
  · have hlt : e < heads.length := by rwa [List.length_map] at he'
    obtain ⟨hnode, hmax⟩ := hheads _ (List.getElem_mem hlt)
    have hget : heads.getD e 0 = heads[e] := by
      rw [List.getD_eq_getElem?_getD, List.getElem?_eq_getElem hlt, Option.getD_some]
    rw [List.getElem_map, List.getElem_map]
    simp only [turnRows, List.getElem_map, List.getElem_range]
    rw [length_turnsOf, hget, length_nodeOutPtr, headRow_eq hfit htails hnode hmax]

/-! ## When a pack is built -/

section Ok

variable (initialBearingDeg : K × K → K × K → K)

/-- The turn table of a graph. -/
def packTurns (G : MultiDiGraph K) : List (List (Turn K)) :=
  let tails := (rawEdges G).map RawEdge.tail
  let heads := (rawEdges G).map RawEdge.head
  let rows := (rawEdges G).map (edgePoints G)
  let bearings := edgeBearings initialBearingDeg rows.flatten (offsets rows)
  turnRows heads (edgeReverse tails heads ((rawEdges G).map RawEdge.way))
    (nodeOutPtr (nodeIds G).length tails) bearings.1 bearings.2

theorem asI32_eq {l : List ℕ} (h : ∀ x ∈ l, x < 2 ^ 31) : asI32 l = .ok l := if_pos h

theorem asI64_eq {l : List ℤ} (h : ∀ x ∈ l, -2 ^ 63 ≤ x ∧ x < 2 ^ 63) : asI64 l = .ok l := if_pos h

/-- A pack is built when its turns fit. -/
theorem exists_ok (hids : ∀ id ∈ G.nodes, -2 ^ 63 ≤ id ∧ id < 2 ^ 63)
    (hindices : ∀ e ∈ G.edges, nodeIndex G e.u < 2 ^ 31 ∧ nodeIndex G e.v < 2 ^ 31)
    (hways : ∀ e ∈ G.edges, -2 ^ 63 ≤ wayId e.data.osmid ∧ wayId e.data.osmid < 2 ^ 63)
    (hpoints : (G.edges.map fun e => (edgePoints G (rawEdge G e)).length).sum < 2 ^ 31)
    (hturns : (packTurns initialBearingDeg G).flatten.length < 2 ^ 31) :
    ∃ p, buildPack initialBearingDeg G = .ok p := by
  have hraw : ∀ r ∈ rawEdges G, r.tail < 2 ^ 31 ∧ r.head < 2 ^ 31 ∧
      -2 ^ 63 ≤ r.way ∧ r.way < 2 ^ 63 := by
    intro r hr
    obtain ⟨e, he, rfl⟩ := (mem_rawEdges G).mp hr
    exact ⟨(hindices e he).1, (hindices e he).2, hways e he⟩
  have htails : asI32 ((rawEdges G).map RawEdge.tail) = .ok ((rawEdges G).map RawEdge.tail) :=
    asI32_eq (List.forall_mem_map.mpr fun r hr => (hraw r hr).1)
  have hheads : asI32 ((rawEdges G).map RawEdge.head) = .ok ((rawEdges G).map RawEdge.head) :=
    asI32_eq (List.forall_mem_map.mpr fun r hr => (hraw r hr).2.1)
  have hways' : asI64 ((rawEdges G).map RawEdge.way) = .ok ((rawEdges G).map RawEdge.way) :=
    asI64_eq (List.forall_mem_map.mpr fun r hr => (hraw r hr).2.2)
  have hgeom : asI32 (offsets ((rawEdges G).map (edgePoints G))) =
      .ok (offsets ((rawEdges G).map (edgePoints G))) :=
    asI32_eq fun x hx => (le_of_mem_offsets hx).trans_lt (length_points G ▸ hpoints)
  have hturn : asI32 (offsets (packTurns initialBearingDeg G)) =
      .ok (offsets (packTurns initialBearingDeg G)) :=
    asI32_eq fun x hx => (le_of_mem_offsets hx).trans_lt hturns
  unfold buildPack
  rw [asI64_eq fun id hid => hids id ((mem_nodeIds G).mp hid), ok_bind]
  simp only [htails, hheads, hways', ok_bind, appendRows_eq, hgeom, buildTurnTable_eq]
  simp only [packTurns] at hturn
  rw [hturn]
  exact ⟨_, rfl⟩

/-- What was built fits. -/
theorem Built.fits {p : GraphPack K} (h : Built G p)
    (hfit : TailsFit (nodeIds G).length p.edgeTail) : Fits G where
  ids id hid := h.osmid_fits id (h.osmid ▸ (mem_nodeIds G).mpr hid)
  indices e he := by
    have hraw := (mem_rawEdges G).mpr ⟨e, he, rfl⟩
    exact ⟨h.tail_lt _ (h.tails ▸ List.mem_map_of_mem hraw),
      h.head_lt _ (h.heads ▸ List.mem_map_of_mem hraw)⟩
  ways e he := h.way_fits _ (h.ways ▸ List.mem_map_of_mem ((mem_rawEdges G).mpr ⟨e, he, rfl⟩))
  points := by
    have hlast := getLast?_offsets ((rawEdges G).map (edgePoints G))
    rw [← h.geomPtr, length_points] at hlast
    exact h.geom_lt _ (List.mem_of_getLast? hlast)
  turns := by
    have hcount := h.numTurns
    rw [GraphPack.turnTable, h.outPtr,
      length_turns _ _ _ hfit h.tail_lt fun t ht => ⟨?_, h.head_lt t ht⟩, h.heads, h.tails,
      sum_pairs] at hcount
    · exact hcount ▸ h.numTurns_lt
    · obtain ⟨e, he⟩ := List.mem_iff_getElem?.mp ht
      exact h.numNodes ▸ h.head_lt_numNodes he

/-- **When the pack of a graph is built and represents it.** -/
theorem buildPack_represents_iff :
    (∃ p, buildPack initialBearingDeg G = .ok p ∧ Represents G p) ↔ Fits G ∧
      ((∀ e ∈ G.edges, nodeIndex G e.u ≠ 2 ^ 31 - 1) ∨ G.nodes.length = 2 ^ 32 - 1) := by
  constructor
  · rintro ⟨p, hok, hrep⟩
    have hbuilt := built_of_ok hok
    have hfit := hbuilt.tailsFit hrep
    have hfits := hbuilt.fits hfit
    rw [hbuilt.tails, tailsFit_iff fun e he => (hfits.indices e he).1] at hfit
    exact ⟨hfits, hfit⟩
  · rintro ⟨hfits, hcond⟩
    have hfit := (tailsFit_iff fun e he => (hfits.indices e he).1).mpr hcond
    have hraw : ∀ r ∈ rawEdges G, r.tail < 2 ^ 31 ∧ r.head < 2 ^ 31 := by
      intro r hr
      obtain ⟨e, he, rfl⟩ := (mem_rawEdges G).mp hr
      exact hfits.indices e he
    have hturns : (packTurns initialBearingDeg G).flatten.length < 2 ^ 31 := by
      unfold packTurns
      rw [length_turns _ _ _ hfit (List.forall_mem_map.mpr fun r hr => (hraw r hr).1)
        (List.forall_mem_map.mpr fun r hr => ⟨(rawEdge_lt G hr).2, (hraw r hr).2⟩), sum_pairs]
      exact hfits.turns
    obtain ⟨p, hok⟩ :=
      exists_ok initialBearingDeg hfits.ids hfits.indices hfits.ways hfits.points hturns
    have hbuilt := built_of_ok hok
    exact ⟨p, hok, hbuilt.represents (hbuilt.tails ▸ hfit)⟩

end Ok

end Built

/-! ## The street that leaves the last node -/

/-- A street that leaves the last of `n + 1` nodes and comes back. -/
def loopAtLast (n : ℕ) : MultiDiGraph ℚ where
  nodes := (List.range (n + 1)).map Int.ofNat
  y _ := 0
  x _ := 0
  edges := [⟨n, n, 0, ⟨.absent, 1, none⟩⟩]
  nodes_nodup := List.nodup_range.map fun _ _ h => Int.ofNat.inj h
  u_mem := by
    intro e he
    rw [List.mem_singleton.mp he]
    exact List.mem_map.mpr ⟨n, List.mem_range.mpr (Nat.lt_succ_self n), rfl⟩
  v_mem := by
    intro e he
    rw [List.mem_singleton.mp he]
    exact List.mem_map.mpr ⟨n, List.mem_range.mpr (Nat.lt_succ_self n), rfl⟩

section Loop

variable (n : ℕ)

theorem nodeIds_loopAtLast : nodeIds (loopAtLast n) = (List.range (n + 1)).map Int.ofNat := by
  refine List.mergeSort_of_pairwise (List.pairwise_map.mpr (List.pairwise_lt_range.imp ?_))
  intro a b hab
  exact decide_eq_true (Int.ofNat_le.mpr hab.le)

theorem length_nodeIds_loopAtLast : (nodeIds (loopAtLast n)).length = n + 1 := by
  rw [nodeIds_loopAtLast, List.length_map, List.length_range]

theorem nodeIndex_loopAtLast : nodeIndex (loopAtLast n) n = n := by
  have hlt : n < (nodeIds (loopAtLast n)).length := by
    rw [length_nodeIds_loopAtLast]
    exact Nat.lt_succ_self n
  have hget : (nodeIds (loopAtLast n))[n] = n := by
    simp only [nodeIds_loopAtLast, List.getElem_map, List.getElem_range, Int.ofNat_eq_natCast]
  have hnodup : (nodeIds (loopAtLast n)).Nodup :=
    (List.mergeSort_perm _ _).nodup_iff.mpr (loopAtLast n).nodes_nodup
  have hidx := hnodup.idxOf_getElem n hlt
  rwa [hget] at hidx

theorem rawEdges_loopAtLast : rawEdges (loopAtLast n) = [⟨n, n, 0, 0, ⟨.absent, 1, none⟩⟩] := by
  have hperm : (rawEdges (loopAtLast n)).Perm
      [rawEdge (loopAtLast n) ⟨n, n, 0, ⟨.absent, 1, none⟩⟩] := rawEdges_perm (loopAtLast n)
  rw [List.perm_singleton.mp hperm, rawEdge, nodeIndex_loopAtLast]
  rfl

/-- No turn of the street is listed where the index of the node is too large. -/
theorem exists_ok_loopAtLast (hn : n < 2 ^ 31) :
    ∃ p, buildPack (fun _ _ => (0 : ℚ)) (loopAtLast n) = .ok p := by
  have hedge : ∀ e ∈ (loopAtLast n).edges, e = ⟨n, n, 0, ⟨.absent, 1, none⟩⟩ :=
    fun e he => List.mem_singleton.mp he
  refine exists_ok _ (fun id hid => ?_) (fun e he => ?_) (fun e he => ?_) ?_ ?_
  · obtain ⟨i, hi, rfl⟩ := List.mem_map.mp hid
    have hlt := List.mem_range.mp hi
    simp only [Int.ofNat_eq_natCast]
    omega
  · rw [hedge e he, nodeIndex_loopAtLast]
    exact ⟨hn, hn⟩
  · rw [hedge e he]
    show (-2 ^ 63 : ℤ) ≤ 0 ∧ (0 : ℤ) < 2 ^ 63
    decide
  · rw [← length_points, rawEdges_loopAtLast]
    show 2 < 2 ^ 31
    decide
  · rw [packTurns, rawEdges_loopAtLast]
    simp only [turnRows, List.map_cons, List.map_nil, List.length_singleton, List.range_one,
      List.flatten_cons, List.flatten_nil, List.append_nil]
    rw [length_turnsOf]
    refine (Nat.sub_le _ _).trans_lt ((getD_nodeOutPtr_le _ _ _).trans_lt ?_)
    rw [List.length_singleton]
    decide

end Loop

/-- A street that leaves the node of index `2 ^ 31 - 1` gets a pack that does not represent it. -/
theorem loopAtLast_not_represents : ∃ p,
    buildPack (fun _ _ => (0 : ℚ)) (loopAtLast (2 ^ 31 - 1)) = .ok p ∧
      ¬ Represents (loopAtLast (2 ^ 31 - 1)) p := by
  obtain ⟨p, hok⟩ := exists_ok_loopAtLast (2 ^ 31 - 1) (by omega)
  refine ⟨p, hok, fun hrep => ?_⟩
  have hbuilt := built_of_ok hok
  have hfit := hbuilt.tailsFit hrep
  rw [hbuilt.tails, rawEdges_loopAtLast, length_nodeIds_loopAtLast] at hfit
  have hsucc := hfit (2 ^ 31 - 1) (List.mem_singleton.mpr rfl)
  rw [succIndex_max (by omega) (by omega)] at hsucc
  omega

/-! ## The turn topology -/

namespace Represents

variable {G : MultiDiGraph K} {p : GraphPack K} (h : Represents G p)

include h

theorem turnInEdge_lt {t : ℕ} (ht : t < p.numTurns) : p.turnInEdge.getD t 0 < p.numEdges := by
  obtain ⟨e, _, _, hin, -, hhead, -⟩ := h.turns_sound t ht
  rw [List.getD_eq_getElem?_getD, hin, Option.getD_some]
  exact (List.getElem?_eq_some_iff.mp hhead).1

theorem turnOutEdge_lt {t : ℕ} (ht : t < p.numTurns) : p.turnOutEdge.getD t 0 < p.numEdges := by
  rw [List.getD_eq_getElem?_getD, List.getElem?_eq_getElem ht, Option.getD_some]
  exact (of_decide_eq_true h.valid).2.2.2.2.2.2.2.2.2.1 _ (List.getElem_mem ht)

theorem turnInEdge_eq_some {t : ℕ} (ht : t < p.numTurns) (e : ℕ) :
    p.turnInEdge[t]? = some e ↔ p.turnInEdge.getD t 0 = e := by
  obtain ⟨e', _, _, hin, -, -, -⟩ := h.turns_sound t ht
  rw [List.getD_eq_getElem?_getD, hin, Option.getD_some, Option.some.injEq]

omit h in
theorem turnOutEdge_eq_some {t : ℕ} (ht : t < p.numTurns) (e : ℕ) :
    p.turnOutEdge[t]? = some e ↔ p.turnOutEdge.getD t 0 = e := by
  rw [List.getD_eq_getElem?_getD, List.getElem?_eq_getElem ht, Option.getD_some,
    Option.some.injEq]

/-- The turn table as the search reads it. -/
def topo : Search.TurnTopo p.numEdges p.numTurns where
  turnPtr i := p.turnPtr.getD i 0
  turnOutEdge t := ⟨p.turnOutEdge.getD t 0, h.turnOutEdge_lt t.isLt⟩
  turnInEdge t := ⟨p.turnInEdge.getD t 0, h.turnInEdge_lt t.isLt⟩
  turnAllowed t := p.turnAllowed.getD t false
  csr t e := by
    rw [Fin.ext_iff, ← h.turnInEdge_eq_some t.isLt]
    exact h.turn_rows e e.isLt t

/-- **One edge follows another** when there is a turn between them, and there is one then. -/
theorem existsUnique_turn_iff (e e2 : Fin p.numEdges) :
    (∃! t, h.topo.turnInEdge t = e ∧ h.topo.turnOutEdge t = e2) ↔
      p.edgeTail[(e2 : ℕ)]? = p.edgeHead[(e : ℕ)]? := by
  have hturn : ∀ t : Fin p.numTurns, h.topo.turnInEdge t = e ∧ h.topo.turnOutEdge t = e2 ↔
      p.turnInEdge[(t : ℕ)]? = some (e : ℕ) ∧ p.turnOutEdge[(t : ℕ)]? = some (e2 : ℕ) := by
    intro t
    rw [h.turnInEdge_eq_some t.isLt, turnOutEdge_eq_some t.isLt, Fin.ext_iff, Fin.ext_iff]
    rfl
  constructor
  · rintro ⟨t, ht, -⟩
    obtain ⟨hin, hout⟩ := (hturn t).mp ht
    obtain ⟨e', e2', n, hin', hout', hhead, htail⟩ := h.turns_sound t t.isLt
    obtain rfl := Option.some.inj (hin'.symm.trans hin)
    obtain rfl := Option.some.inj (hout'.symm.trans hout)
    rw [hhead, htail]
  · intro hmeet
    have hhead : p.edgeHead[(e : ℕ)]? = some p.edgeHead[(e : ℕ)] := List.getElem?_eq_getElem e.isLt
    obtain ⟨t, ⟨hin, hout⟩, huniq⟩ := h.turns_complete e e2 _ hhead (hmeet.trans hhead)
    have ht : t < p.numTurns := (List.getElem?_eq_some_iff.mp hout).1
    refine ⟨⟨t, ht⟩, (hturn ⟨t, ht⟩).mpr ⟨hin, hout⟩, fun t' ht' => Fin.ext ?_⟩
    exact huniq t' ((hturn t').mp ht')

end Represents

end RoutePlanner.Ingestion
