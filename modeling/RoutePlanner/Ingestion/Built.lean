import RoutePlanner.Ingestion.Reverse
import RoutePlanner.Lib.Fallible

/-!
# The arrays of a pack, one by one

`build_pack` sorts the edges, counts them into node pointers, appends their lines to one pool and
lists the turns of each. What each array holds is said here, before they are put together.

* `getD_nodeOutPtr`, `mem_outRow_iff`: the node pointers enclose the edges that leave each node,
  when no edge leaves a node whose next index wraps round (`TailsFit`).
* `getElem?_turnRows`, `turn_cases`: the turn table, row by row.
* `Built`, `built_of_ok`: all that is used of a pack that was built.
-/

namespace RoutePlanner.Ingestion

open RoutePlanner.Lib

variable {K : Type}

/-! ## Nodes and edges -/

section Rows

variable (G : MultiDiGraph K)

@[simp] theorem mem_nodeIds {osmid : ℤ} : osmid ∈ nodeIds G ↔ osmid ∈ G.nodes :=
  List.mem_mergeSort

theorem nodeIndex_lt {osmid : ℤ} (h : osmid ∈ G.nodes) :
    nodeIndex G osmid < (nodeIds G).length :=
  List.idxOf_lt_length_of_mem ((mem_nodeIds G).mpr h)

/-- The index of a node leads back to it. -/
theorem getD_nodeIndex {osmid : ℤ} (h : osmid ∈ G.nodes) :
    (nodeIds G).getD (nodeIndex G osmid) 0 = osmid := by
  rw [List.getD_eq_getElem?_getD, List.getElem?_eq_getElem (nodeIndex_lt G h), Option.getD_some]
  exact List.getElem_idxOf (nodeIndex_lt G h)

/-- The row of an edge. -/
def rawEdge (e : Edge K) : RawEdge K :=
  ⟨nodeIndex G e.u, nodeIndex G e.v, wayId e.data.osmid, e.key, e.data⟩

theorem rawEdges_perm : (rawEdges G).Perm (G.edges.map (rawEdge G)) := List.mergeSort_perm _ _

theorem mem_rawEdges {r : RawEdge K} : r ∈ rawEdges G ↔ ∃ e ∈ G.edges, rawEdge G e = r := by
  rw [(rawEdges_perm G).mem_iff, List.mem_map]

theorem rawEdge_lt {r : RawEdge K} (h : r ∈ rawEdges G) :
    r.tail < (nodeIds G).length ∧ r.head < (nodeIds G).length := by
  obtain ⟨e, he, rfl⟩ := (mem_rawEdges G).mp h
  exact ⟨nodeIndex_lt G (G.u_mem e he), nodeIndex_lt G (G.v_mem e he)⟩

/-- The edges are sorted by tail. -/
theorem tails_sorted : ((rawEdges G).map RawEdge.tail).Pairwise (· ≤ ·) := by
  have hsorted : (rawEdges G).Pairwise fun a b => decide (a.sortKey ≤ b.sortKey) = true :=
    List.pairwise_mergeSort
      (fun a b c hab hbc => decide_eq_true ((of_decide_eq_true hab).trans (of_decide_eq_true hbc)))
      (fun a b => by simpa using le_total a.sortKey b.sortKey) _
  refine List.pairwise_map.mpr (hsorted.imp fun {a b} hab => ?_)
  rcases Prod.Lex.toLex_le_toLex.mp (of_decide_eq_true hab) with hlt | ⟨heq, -⟩
  · exact hlt.le
  · exact heq.le

/-- Every edge has two points or more. -/
theorem two_le_edgePoints (r : RawEdge K) : 2 ≤ (edgePoints G r).length := by
  unfold edgePoints
  cases r.data.geometry with
  | none => exact le_rfl
  | some line =>
    rw [List.length_map]
    exact line.two_le

end Rows

/-! ## The node pointers -/

section Pointers

variable {numNodes : ℕ} {tails : List ℕ}

@[simp] theorem length_nodeOutPtr : (nodeOutPtr numNodes tails).length = numNodes + 1 := by
  rw [nodeOutPtr, length_cumsum, length_histogram]

theorem getElem?_nodeOutPtr {n : ℕ} (hn : n ≤ numNodes) : (nodeOutPtr numNodes tails)[n]? =
    some (tails.countP fun t => succIndex (numNodes + 1) t ≤ n) := by
  rw [nodeOutPtr, getElem?_cumsum_histogram _ (Nat.lt_succ_of_le hn), List.countP_map,
    Function.comp_def]

/-- No pointer is past the last edge. -/
theorem getD_nodeOutPtr_le (numNodes : ℕ) (tails : List ℕ) (n : ℕ) :
    (nodeOutPtr numNodes tails).getD n 0 ≤ tails.length := by
  rw [List.getD_eq_getElem?_getD]
  by_cases hn : n ≤ numNodes
  · rw [getElem?_nodeOutPtr hn]
    exact List.countP_le_length
  · rw [List.getElem?_eq_none (by rw [length_nodeOutPtr]; omega)]
    exact Nat.zero_le _

/-- No edge leaves a node whose next index wraps round to another. -/
def TailsFit (numNodes : ℕ) (tails : List ℕ) : Prop :=
  ∀ t ∈ tails, succIndex (numNodes + 1) t = t + 1

/-- Then the pointers count the edges of the nodes before. -/
theorem getD_nodeOutPtr (hfit : TailsFit numNodes tails) {n : ℕ} (hn : n ≤ numNodes) :
    (nodeOutPtr numNodes tails).getD n 0 = tails.countP (· < n) := by
  rw [List.getD_eq_getElem?_getD, getElem?_nodeOutPtr hn, Option.getD_some]
  refine List.countP_congr fun t ht => ?_
  rw [hfit t ht, decide_eq_true_eq, decide_eq_true_eq]
  exact Nat.succ_le_iff

/-- **Row `n` of the node pointers** holds the edges that leave node `n`. -/
theorem mem_outRow_iff (hs : tails.Pairwise (· ≤ ·)) (hfit : TailsFit numNodes tails) {n : ℕ}
    (hn : n < numNodes) (e : ℕ) :
    (nodeOutPtr numNodes tails).getD n 0 ≤ e ∧ e < (nodeOutPtr numNodes tails).getD (n + 1) 0 ↔
      tails[e]? = some n := by
  rw [getD_nodeOutPtr hfit hn.le, getD_nodeOutPtr hfit hn]
  have hle : tails.countP (· < n + 1) = tails.countP (· ≤ n) :=
    List.countP_congr fun t _ => by rw [decide_eq_true_eq, decide_eq_true_eq, Nat.lt_succ_iff]
  rw [hle]
  by_cases he : e < tails.length
  · rw [mem_row_iff hs he, List.getElem?_eq_getElem he, Option.some.injEq]
  · rw [List.getElem?_eq_none (Nat.le_of_not_lt he)]
    refine iff_of_false (fun h => he ?_) (by simp)
    exact h.2.trans_le List.countP_le_length

/-- The row `build_turn_table` reads for a node is as long as there are edges that leave it, also
where the index wraps round: nothing leaves that node. -/
theorem headRow_eq (hfit : TailsFit numNodes tails) (hlt : ∀ t ∈ tails, t < 2 ^ 31) {head : ℕ}
    (hhead : head < numNodes) (hmax : head < 2 ^ 31) :
    (nodeOutPtr numNodes tails).getD (succIndex (numNodes + 1) head) 0 -
        (nodeOutPtr numNodes tails).getD head 0 = tails.count head := by
  by_cases hsucc : succIndex (numNodes + 1) head = head + 1
  · rw [hsucc, getD_nodeOutPtr hfit hhead.le, getD_nodeOutPtr hfit hhead, countP_lt_succ]
    exact Nat.add_sub_cancel_left _ _
  · have hlast : head + 1 = 2 ^ 31 := by
      by_contra hne
      exact hsucc (succIndex_eq _ (by omega))
    have hnone : head ∉ tails := fun hmem => hsucc (hfit head hmem)
    have hall : (nodeOutPtr numNodes tails).getD head 0 = tails.length := by
      rw [getD_nodeOutPtr hfit hhead.le, List.countP_eq_length]
      intro t ht
      have hne : t ≠ head := fun h => hnone (h ▸ ht)
      have := hlt t ht
      exact decide_eq_true (by omega)
    have hle := getD_nodeOutPtr_le numNodes tails (succIndex (numNodes + 1) head)
    rw [hall, List.count_eq_zero.mpr hnone]
    omega

/-- That row holds the edges that leave the node. -/
theorem mem_headRow_iff (hs : tails.Pairwise (· ≤ ·)) (hfit : TailsFit numNodes tails)
    (hlt : ∀ t ∈ tails, t < 2 ^ 31) {head : ℕ} (hhead : head < numNodes) (hmax : head < 2 ^ 31)
    (e : ℕ) :
    (nodeOutPtr numNodes tails).getD head 0 ≤ e ∧
        e < (nodeOutPtr numNodes tails).getD (succIndex (numNodes + 1) head) 0 ↔
      tails[e]? = some head := by
  rw [← mem_outRow_iff hs hfit hhead e]
  have hrow := headRow_eq hfit hlt hhead hmax
  have hnext : (nodeOutPtr numNodes tails).getD (head + 1) 0 -
      (nodeOutPtr numNodes tails).getD head 0 = tails.count head := by
    rw [getD_nodeOutPtr hfit hhead.le, getD_nodeOutPtr hfit hhead, countP_lt_succ]
    exact Nat.add_sub_cancel_left _ _
  omega

/-- Where an edge leaves a node whose next index wraps round, the row of that node is empty. -/
theorem tailsFit_of_rows (hlt : ∀ t ∈ tails, t < 2 ^ 31) (hnode : ∀ t ∈ tails, t < numNodes)
    (hrows : ∀ n < numNodes, ∀ e, (nodeOutPtr numNodes tails).getD n 0 ≤ e ∧
      e < (nodeOutPtr numNodes tails).getD (n + 1) 0 ↔ tails[e]? = some n) :
    TailsFit numNodes tails := by
  intro t ht
  by_contra hne
  have hlast : t + 1 = 2 ^ 31 := by
    by_contra hsucc
    exact hne (succIndex_eq _ (by have := hlt t ht; omega))
  obtain ⟨e, he⟩ := List.mem_iff_getElem?.mp ht
  have hrow := (hrows t (hnode t ht) e).mpr he
  -- no edge is counted at the entry after `t`
  have hsame : (nodeOutPtr numNodes tails).getD (t + 1) 0 =
      (nodeOutPtr numNodes tails).getD t 0 := by
    rw [List.getD_eq_getElem?_getD, List.getD_eq_getElem?_getD,
      getElem?_nodeOutPtr (hnode t ht), getElem?_nodeOutPtr (hnode t ht).le, Option.getD_some,
      Option.getD_some]
    refine List.countP_congr fun t' ht' => ?_
    have hskip : succIndex (numNodes + 1) t' ≠ t + 1 := by
      intro h
      rcases Nat.lt_or_eq_of_le (Nat.succ_le_of_lt (hlt t' ht')) with hlt' | heq
      · rw [succIndex_eq _ hlt'] at h
        omega
      · obtain rfl : t' = t := by omega
        exact hne h
    rw [decide_eq_true_eq, decide_eq_true_eq]
    omega
  omega

end Pointers

/-! ## The turn table -/

section Table

variable [Field K] [LinearOrder K] [FloorRing K] (heads : List ℕ) (rev : List (Option ℕ))
  (outPtr : List ℕ) (bearingIn bearingOut : List K)

/-- The rows of the turn table. -/
def turnRows : List (List (Turn K)) :=
  (List.range heads.length).map (turnsOf heads rev outPtr bearingIn bearingOut)

theorem buildTurnTable_eq : buildTurnTable heads rev outPtr bearingIn bearingOut =
    ((turnRows heads rev outPtr bearingIn bearingOut).flatten,
      offsets (turnRows heads rev outPtr bearingIn bearingOut)) :=
  appendRows_eq _

@[simp] theorem length_turnRows :
    (turnRows heads rev outPtr bearingIn bearingOut).length = heads.length := by
  rw [turnRows, List.length_map, List.length_range]

theorem getD_turnRows {e : ℕ} (he : e < heads.length) :
    (turnRows heads rev outPtr bearingIn bearingOut).getD e [] =
      turnsOf heads rev outPtr bearingIn bearingOut e := by
  rw [List.getD_eq_getElem?_getD, turnRows, List.getElem?_map, List.getElem?_range he]
  rfl

/-- The turns of an edge lead to the edges between two pointers, one by one. -/
theorem map_outEdge_turnsOf (e : ℕ) :
    (turnsOf heads rev outPtr bearingIn bearingOut e).map Turn.outEdge =
      List.range' (outPtr.getD (heads.getD e 0) 0)
        (outPtr.getD (succIndex outPtr.length (heads.getD e 0)) 0 -
          outPtr.getD (heads.getD e 0) 0) := by
  unfold turnsOf
  simp only [List.map_map, Function.comp_def, List.map_id']

theorem length_turnsOf (e : ℕ) : (turnsOf heads rev outPtr bearingIn bearingOut e).length =
    outPtr.getD (succIndex outPtr.length (heads.getD e 0)) 0 -
      outPtr.getD (heads.getD e 0) 0 := by
  rw [← List.length_map Turn.outEdge, map_outEdge_turnsOf, List.length_range']

/-- **A row of the table**, entry by entry. -/
theorem getElem?_turnRows {e n i : ℕ} (he : heads[e]? = some n)
    (hi : i < outPtr.getD (succIndex outPtr.length n) 0 - outPtr.getD n 0) :
    (expand (offsets (turnRows heads rev outPtr bearingIn bearingOut)))[offset
        (turnRows heads rev outPtr bearingIn bearingOut) e + i]? = some e ∧
    ((turnRows heads rev outPtr bearingIn bearingOut).flatten.map Turn.outEdge)[offset
        (turnRows heads rev outPtr bearingIn bearingOut) e + i]? = some (outPtr.getD n 0 + i) := by
  obtain ⟨hlt, -⟩ := List.getElem?_eq_some_iff.mp he
  have hget : heads.getD e 0 = n := by
    rw [List.getD_eq_getElem?_getD, he, Option.getD_some]
  have hrow := getD_turnRows heads rev outPtr bearingIn bearingOut hlt
  have hlen := length_turnsOf heads rev outPtr bearingIn bearingOut e
  rw [hget] at hlen
  constructor
  · refine (getElem?_expand_offsets ?_).mpr ⟨Nat.le_add_right _ _, ?_⟩
    · rwa [length_turnRows]
    · rw [offset_succ, hrow, hlen]
      omega
  · rw [List.getElem?_map, getElem?_flatten_offset (by rwa [hrow, hlen]), hrow,
      ← List.getElem?_map, map_outEdge_turnsOf, hget, List.getElem?_range' hi, Nat.one_mul]

/-- **Every entry of the table stands in a row.** -/
theorem turn_cases {t : ℕ}
    (ht : t < (turnRows heads rev outPtr bearingIn bearingOut).flatten.length) :
    ∃ e n i, heads[e]? = some n ∧
      i < outPtr.getD (succIndex outPtr.length n) 0 - outPtr.getD n 0 ∧
      t = offset (turnRows heads rev outPtr bearingIn bearingOut) e + i := by
  obtain ⟨e, i, he, hi, rfl⟩ := exists_row ht
  rw [length_turnRows] at he
  have hget : heads[e]? = some (heads.getD e 0) := by
    rw [List.getD_eq_getElem?_getD, List.getElem?_eq_getElem he, Option.getD_some]
  rw [getD_turnRows heads rev outPtr bearingIn bearingOut he, length_turnsOf] at hi
  exact ⟨e, _, i, hget, hi, rfl⟩

end Table

/-! ## The pack -/

section Built

variable [Field K] [LinearOrder K] [FloorRing K] (initialBearingDeg : K × K → K × K → K)
  (G : MultiDiGraph K)

/-- The turn table of a pack, from its other arrays. -/
def GraphPack.turnTable (p : GraphPack K) : List (List (Turn K)) :=
  turnRows p.edgeHead p.edgeReverse p.nodeOutPtr p.edgeBearingIn p.edgeBearingOut

theorem GraphPack.length_turnTable (p : GraphPack K) : p.turnTable.length = p.numEdges :=
  length_turnRows _ _ _ _ _

/-- The arrays of a pack, as `build_pack` leaves them. -/
structure Built (p : GraphPack K) : Prop where
  osmid : p.nodeOsmid = nodeIds G
  lat : p.nodeLat.length = (nodeIds G).length
  tails : p.edgeTail = (rawEdges G).map RawEdge.tail
  heads : p.edgeHead = (rawEdges G).map RawEdge.head
  ways : p.edgeOsmWay = (rawEdges G).map RawEdge.way
  osmid_fits : ∀ id ∈ p.nodeOsmid, -2 ^ 63 ≤ id ∧ id < 2 ^ 63
  way_fits : ∀ id ∈ p.edgeOsmWay, -2 ^ 63 ≤ id ∧ id < 2 ^ 63
  tail_lt : ∀ t ∈ p.edgeTail, t < 2 ^ 31
  head_lt : ∀ t ∈ p.edgeHead, t < 2 ^ 31
  outPtr : p.nodeOutPtr = nodeOutPtr (nodeIds G).length p.edgeTail
  reverse : p.edgeReverse = edgeReverse p.edgeTail p.edgeHead p.edgeOsmWay
  geomPtr : p.edgeGeomPtr = offsets ((rawEdges G).map (edgePoints G))
  geomLat : p.geomLat.length = ((rawEdges G).map (edgePoints G)).flatten.length
  geomLon : p.geomLon.length = ((rawEdges G).map (edgePoints G)).flatten.length
  geom_lt : ∀ x ∈ p.edgeGeomPtr, x < 2 ^ 31
  turnPtr : p.turnPtr = offsets p.turnTable
  turnOutEdge : p.turnOutEdge = p.turnTable.flatten.map Turn.outEdge
  turn_lt : ∀ x ∈ p.turnPtr, x < 2 ^ 31

theorem asI32_ok {l l' : List ℕ} (h : asI32 l = .ok l') : l' = l ∧ ∀ x ∈ l, x < 2 ^ 31 := by
  unfold asI32 at h
  split at h
  · rename_i hl
    exact ⟨(Except.ok.inj h).symm, hl⟩
  · exact absurd h (by simp)

theorem asI64_ok {l l' : List ℤ} (h : asI64 l = .ok l') :
    l' = l ∧ ∀ x ∈ l, -2 ^ 63 ≤ x ∧ x < 2 ^ 63 := by
  unfold asI64 at h
  split at h
  · rename_i hl
    exact ⟨(Except.ok.inj h).symm, hl⟩
  · exact absurd h (by simp)

variable {initialBearingDeg G}

theorem built_of_ok {p : GraphPack K} (h : buildPack initialBearingDeg G = .ok p) : Built G p := by
  unfold buildPack at h
  obtain ⟨_, hosmid, h⟩ := bind_ok h
  obtain ⟨_, htails, h⟩ := bind_ok h
  obtain ⟨_, hheads, h⟩ := bind_ok h
  obtain ⟨_, hways, h⟩ := bind_ok h
  obtain ⟨_, hgeom, h⟩ := bind_ok h
  obtain ⟨_, hturn, h⟩ := bind_ok h
  obtain ⟨rfl, hosmid_fits⟩ := asI64_ok hosmid
  obtain ⟨rfl, htail_lt⟩ := asI32_ok htails
  obtain ⟨rfl, hhead_lt⟩ := asI32_ok hheads
  obtain ⟨rfl, hway_fits⟩ := asI64_ok hways
  obtain ⟨rfl, hgeom_lt⟩ := asI32_ok hgeom
  obtain ⟨rfl, hturn_lt⟩ := asI32_ok hturn
  have hpool := appendRows_eq ((rawEdges G).map (edgePoints G))
  rw [← Except.ok.inj h]
  refine ⟨rfl, List.length_map _, rfl, rfl, rfl, hosmid_fits, hway_fits, htail_lt, hhead_lt, rfl,
    rfl, congrArg Prod.snd hpool, ?_, ?_, hgeom_lt, ?_, ?_, hturn_lt⟩
  · rw [List.length_map, hpool]
  · rw [List.length_map, hpool]
  · exact congrArg Prod.snd (buildTurnTable_eq _ _ _ _ _)
  · exact congrArg (List.map Turn.outEdge) (congrArg Prod.fst (buildTurnTable_eq _ _ _ _ _))

end Built

end RoutePlanner.Ingestion
