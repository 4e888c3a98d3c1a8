import Mathlib.Tactic.IntervalCases
import RoutePlanner.Ingestion.Invariant
import RoutePlanner.Lib.Rank
import RoutePlanner.Lib.StableSort

/-!
# Which edge the reverse map pairs with which

The loop of `build_pack` looks at the ends and the way of an edge only. Among several edges of one
way between the same two nodes it goes by position: the `i`-th edge from `u` to `v` gets the `i`-th
from `v` to `u` (`Partner`), and of the loops at one node the first gets the second, the third the
fourth, and so on.

* `edgeReverse_eq_some_iff`: the map is exactly that.
* `reverse_counterpart_iff`: so it pairs the two directions of every street just when they come at
  the same position.
* `twoStreets_crossed`: two parallel streets of one way, that come in the other order on the way
  back.
-/

namespace RoutePlanner.Ingestion

open RoutePlanner.Lib

/-! ## Positions -/

section Partner

variable (tails heads : List ℕ) (ways : List ℤ)

/-- The edges with the given ends and way. -/
def sameEnds (k : ℕ × ℕ × ℤ) (e : ℕ) : Bool := decide (endpoints tails heads ways e = k)

/-- The position of an edge among those with its ends and way. -/
def place (e : ℕ) : ℕ := rank (sameEnds tails heads ways (endpoints tails heads ways e)) e

/-- An edge from a node to itself. -/
def IsLoop (e : ℕ) : Prop := tails.getD e 0 = heads.getD e 0

instance (e : ℕ) : Decidable (IsLoop tails heads e) :=
  inferInstanceAs (Decidable (tails.getD e 0 = heads.getD e 0))

/-- The two positions go together. -/
def SamePlace (e r : ℕ) : Prop :=
  if IsLoop tails heads e then place tails heads ways e / 2 = place tails heads ways r / 2
  else place tails heads ways e = place tails heads ways r

instance (e r : ℕ) : Decidable (SamePlace tails heads ways e r) :=
  inferInstanceAs (Decidable (ite _ _ _))

/-- Opposite edges, at positions that go together. -/
def Partner (e r : ℕ) : Prop := Opposite tails heads ways e r ∧ SamePlace tails heads ways e r

end Partner

variable {tails heads : List ℕ} {ways : List ℤ}

/-- Where the other direction of an edge is filed. -/
def oppositeEnds (tails heads : List ℕ) (ways : List ℤ) (e : ℕ) : ℕ × ℕ × ℤ :=
  (heads.getD e 0, tails.getD e 0, ways.getD e 0)

theorem Opposite.endpoints_eq {e r : ℕ} (h : Opposite tails heads ways e r) :
    endpoints tails heads ways r = oppositeEnds tails heads ways e := by
  rw [endpoints, h.tail, h.head, h.way, oppositeEnds]

theorem opposite_of_endpoints {e r : ℕ} (hne : r ≠ e) (he : e < heads.length)
    (hr : r < heads.length)
    (h : endpoints tails heads ways r = oppositeEnds tails heads ways e) :
    Opposite tails heads ways e r := by
  obtain ⟨htail, hrest⟩ := Prod.mk.inj h
  obtain ⟨hhead, hway⟩ := Prod.mk.inj hrest
  exact ⟨hne, he, hr, htail, hhead, hway⟩

theorem IsLoop.endpoints_eq {e : ℕ} (h : IsLoop tails heads e) :
    endpoints tails heads ways e = oppositeEnds tails heads ways e := by
  unfold IsLoop at h
  rw [endpoints, oppositeEnds, h]

theorem Opposite.isLoop_iff {e r : ℕ} (h : Opposite tails heads ways e r) :
    IsLoop tails heads e ↔ IsLoop tails heads r := by
  unfold IsLoop
  rw [h.tail, h.head, eq_comm]

theorem Partner.symm {e r : ℕ} (h : Partner tails heads ways e r) :
    Partner tails heads ways r e := by
  refine ⟨h.1.symm, ?_⟩
  have hplace := h.2
  unfold SamePlace at hplace ⊢
  by_cases hl : IsLoop tails heads e
  · rw [if_pos hl] at hplace
    rw [if_pos (h.1.isLoop_iff.mp hl), hplace]
  · rw [if_neg hl] at hplace
    rw [if_neg fun hr => hl (h.1.isLoop_iff.mpr hr), hplace]

/-- Two edges with the same ends and way, at the same position. -/
theorem eq_of_place {a b : ℕ} (hends : endpoints tails heads ways a = endpoints tails heads ways b)
    (h : place tails heads ways a = place tails heads ways b) : a = b := by
  unfold place at h
  rw [hends] at h
  exact rank_inj (decide_eq_true hends) (decide_eq_true rfl) h

/-- Every position before that of an edge is taken. -/
theorem exists_place {e i : ℕ} (h : i < place tails heads ways e) :
    ∃ a < e, endpoints tails heads ways a = endpoints tails heads ways e ∧
      place tails heads ways a = i := by
  obtain ⟨a, ha, hends, hrank⟩ := exists_rank_eq h
  have hends' := of_decide_eq_true hends
  refine ⟨a, ha, hends', ?_⟩
  unfold place
  rw [hends']
  exact hrank

/-- **An edge has one partner at most.** -/
theorem Partner.unique {e r r' : ℕ} (h : Partner tails heads ways e r)
    (h' : Partner tails heads ways e r') : r = r' := by
  have hends := h.1.endpoints_eq.trans h'.1.endpoints_eq.symm
  refine eq_of_place hends ?_
  have hplace := h.2
  have hplace' := h'.2
  unfold SamePlace at hplace hplace'
  by_cases hl : IsLoop tails heads e
  · rw [if_pos hl] at hplace hplace'
    -- all three are loops at one node, and neither partner stands where `e` does
    have hself : endpoints tails heads ways e = oppositeEnds tails heads ways e := hl.endpoints_eq
    have hne : place tails heads ways r ≠ place tails heads ways e := fun heq =>
      h.1.ne (eq_of_place (h.1.endpoints_eq.trans hself.symm) heq)
    have hne' : place tails heads ways r' ≠ place tails heads ways e := fun heq =>
      h'.1.ne (eq_of_place (h'.1.endpoints_eq.trans hself.symm) heq)
    omega
  · rw [if_neg hl] at hplace hplace'
    rw [← hplace, ← hplace']

/-- Two loops at one node that make up a pair. -/
theorem partner_of_loop {a b : ℕ} (hl : IsLoop tails heads a) (ha : a < heads.length)
    (hb : b < heads.length)
    (hends : endpoints tails heads ways b = endpoints tails heads ways a)
    (hdiv : place tails heads ways a / 2 = place tails heads ways b / 2)
    (hne : place tails heads ways a ≠ place tails heads ways b) :
    Partner tails heads ways a b := by
  refine ⟨opposite_of_endpoints (fun heq => hne (by rw [heq])) ha hb
    (hends.trans hl.endpoints_eq), ?_⟩
  unfold SamePlace
  rwa [if_pos hl]

/-- Two directions of a street, at one position. -/
theorem partner_of_street {a b : ℕ} (hl : ¬ IsLoop tails heads a) (ha : a < heads.length)
    (hb : b < heads.length)
    (hends : endpoints tails heads ways b = oppositeEnds tails heads ways a)
    (heq : place tails heads ways a = place tails heads ways b) :
    Partner tails heads ways a b := by
  have hne : b ≠ a := by
    rintro rfl
    exact hl (Prod.mk.inj hends).1
  refine ⟨opposite_of_endpoints hne ha hb hends, ?_⟩
  unfold SamePlace
  rwa [if_neg hl]

/-! ## The loop -/

/-- The edges before `n` have been given their partners. -/
structure PairedTo (tails heads : List ℕ) (ways : List ℤ) (n : ℕ) (rev : List (Option ℕ)) :
    Prop where
  length : rev.length = heads.length
  pairs : ∀ e r, rev.getD e none = some r ↔ Partner tails heads ways e r ∧ (e < n ∨ r < n)

/-- An edge that may be given to `n`. -/
structure FreeCand (tails heads : List ℕ) (ways : List ℤ) (rev : List (Option ℕ)) (n j : ℕ) :
    Prop where
  opposite : Opposite tails heads ways n j
  free : rev.getD j none = none

section Loop

variable {n : ℕ} {rev : List (Option ℕ)} (h : PairedTo tails heads ways n rev)

include h

/-- A free edge has no partner among those that have been. -/
theorem PairedTo.not_lt_of_free {e r : ℕ} (hfree : rev.getD e none = none)
    (hp : Partner tails heads ways e r) : ¬ (e < n ∨ r < n) := by
  intro hlt
  rw [(h.pairs e r).mpr ⟨hp, hlt⟩] at hfree
  cases hfree

/-- The partner of a free `n` is free. -/
theorem PairedTo.freeCand_of_partner (hn : rev.getD n none = none) {r : ℕ}
    (hp : Partner tails heads ways n r) : FreeCand tails heads ways rev n r := by
  refine ⟨hp.1, ?_⟩
  cases hr : rev.getD r none with
  | none => rfl
  | some x =>
    obtain ⟨hpx, hlt⟩ := (h.pairs r x).mp hr
    obtain rfl := hpx.unique hp.symm
    exact absurd hlt.symm (h.not_lt_of_free hn hp)

/-- At a loop. -/
theorem PairedTo.partner_or_lt_loop (hn : rev.getD n none = none) {j : ℕ}
    (hj : FreeCand tails heads ways rev n j) (hl : IsLoop tails heads n) :
    Partner tails heads ways n j ∨ ∃ r < j, Partner tails heads ways n r := by
  have hnl := hj.opposite.fst_lt
  have hjl := hj.opposite.snd_lt
  have hl' := hj.opposite.isLoop_iff.mp hl
  have hends : endpoints tails heads ways j = endpoints tails heads ways n :=
    hj.opposite.endpoints_eq.trans hl.endpoints_eq.symm
  have hne : place tails heads ways j ≠ place tails heads ways n := fun heq =>
    hj.opposite.ne (eq_of_place hends heq)
  -- `n` is the first of its pair: the second one is never free
  have heven : place tails heads ways n % 2 = 0 := by
    by_contra hodd
    have hpos : place tails heads ways n - 1 < place tails heads ways n := by omega
    obtain ⟨r, hr, hra, hplace⟩ := exists_place hpos
    have hp := partner_of_loop hl hnl (hr.trans hnl) hra (by omega) (by omega)
    exact h.not_lt_of_free hn hp (Or.inr hr)
  rcases Nat.lt_or_gt_of_ne hne with hlt | hgt
  · -- a pair before that of `n` has been made
    exfalso
    by_cases hodd : place tails heads ways j % 2 = 0
    · have hpos : place tails heads ways j + 1 < place tails heads ways n := by omega
      obtain ⟨r, hr, hra, hplace⟩ := exists_place hpos
      have hp := partner_of_loop hl' hjl (hr.trans hnl) (hra.trans hends.symm) (by omega)
        (by omega)
      exact h.not_lt_of_free hj.free hp (Or.inr hr)
    · have hpos : place tails heads ways j - 1 < place tails heads ways j := by omega
      obtain ⟨r, hr, hra, hplace⟩ := exists_place hpos
      have hjn : j < n := by
        by_contra hge
        have hmono : place tails heads ways n ≤ place tails heads ways j := by
          unfold place
          rw [hends]
          exact rank_mono _ (Nat.le_of_not_lt hge)
        omega
      have hp := partner_of_loop hl' hjl (hr.trans hjl) hra (by omega) (by omega)
      exact h.not_lt_of_free hj.free hp (Or.inl hjn)
  · by_cases hnext : place tails heads ways j = place tails heads ways n + 1
    · exact Or.inl (partner_of_loop hl hnl hjl hends (by omega) (by omega))
    · have hpos : place tails heads ways n + 1 < place tails heads ways j := by omega
      obtain ⟨r, hr, hra, hplace⟩ := exists_place hpos
      exact Or.inr ⟨r, hr, partner_of_loop hl hnl (hr.trans hjl) (hra.trans hends) (by omega)
        (by omega)⟩

/-- On a street. -/
theorem PairedTo.partner_or_lt_street {j : ℕ} (hj : FreeCand tails heads ways rev n j)
    (hl : ¬ IsLoop tails heads n) :
    Partner tails heads ways n j ∨ ∃ r < j, Partner tails heads ways n r := by
  have hnl := hj.opposite.fst_lt
  have hjl := hj.opposite.snd_lt
  have hends := hj.opposite.endpoints_eq
  rcases Nat.lt_trichotomy (place tails heads ways j) (place tails heads ways n) with
    hlt | heq | hgt
  · -- the edge beside `n` at the position of `j` has been, and took it
    obtain ⟨r, hr, hra, hplace⟩ := exists_place hlt
    have hl' : ¬ IsLoop tails heads j := fun hj' => hl (hj.opposite.isLoop_iff.mpr hj')
    have hp := partner_of_street hl' hjl (hr.trans hnl)
      (hra.trans hj.opposite.symm.endpoints_eq) hplace.symm
    exact absurd (Or.inr hr) (h.not_lt_of_free hj.free hp)
  · exact Or.inl (partner_of_street hl hnl hjl hends heq.symm)
  · obtain ⟨r, hr, hra, hplace⟩ := exists_place hgt
    exact Or.inr ⟨r, hr, partner_of_street hl hnl (hr.trans hjl) (hra.trans hends) hplace.symm⟩

/-- **What is free stands at the position of `n`, or behind it.** -/
theorem PairedTo.partner_or_lt (hn : rev.getD n none = none) {j : ℕ}
    (hj : FreeCand tails heads ways rev n j) :
    Partner tails heads ways n j ∨ ∃ r < j, Partner tails heads ways n r := by
  by_cases hl : IsLoop tails heads n
  · exact h.partner_or_lt_loop hn hj hl
  · exact h.partner_or_lt_street hj hl

omit h in
theorem freeCand_iff {j : ℕ} (hlt : n < heads.length) :
    (j ∈ reverseCands tails heads ways n ∧ j ≠ n ∧ rev.getD j none = none) ↔
      FreeCand tails heads ways rev n j := by
  constructor
  · rintro ⟨hmem, hne, hfree⟩
    exact ⟨opposite_of_mem hlt hmem hne, hfree⟩
  · rintro ⟨hopp, hfree⟩
    exact ⟨List.mem_filter.mpr ⟨List.mem_range.mpr hopp.snd_lt,
      decide_eq_true hopp.endpoints_eq⟩, hopp.ne, hfree⟩

omit h in
/-- The loop takes the first candidate that is free. -/
theorem first_freeCand {j : ℕ} (hlt : n < heads.length)
    (hfind : ((reverseCands tails heads ways n).find? fun e2 =>
      decide (e2 ≠ n ∧ rev.getD e2 none = none)) = some j) :
    FreeCand tails heads ways rev n j ∧ ∀ r < j, ¬ FreeCand tails heads ways rev n r := by
  have hmem := List.mem_of_find?_eq_some hfind
  have hfound := List.find?_some hfind
  obtain ⟨hne, hfree⟩ := of_decide_eq_true hfound
  refine ⟨(freeCand_iff hlt).mp ⟨hmem, hne, hfree⟩, fun r hr hcand => ?_⟩
  rw [reverseCands, List.find?_filter, List.find?_range_eq_some] at hfind
  obtain ⟨hrmem, hrne, hrfree⟩ := (freeCand_iff hlt).mpr hcand
  have hbefore := hfind.2.2 r hr
  rw [decide_eq_true ⟨(List.mem_filter.mp hrmem).2, decide_eq_true ⟨hrne, hrfree⟩⟩] at hbefore
  cases hbefore

/-- Nothing is left to do for an `n` whose partner, if it has one, has been. -/
theorem PairedTo.skip (hdone : ∀ r, Partner tails heads ways n r → r < n) :
    PairedTo tails heads ways (n + 1) rev := by
  refine ⟨h.length, fun e r => (h.pairs e r).trans (and_congr_right fun hp => ?_)⟩
  constructor
  · omega
  · intro hor
    by_cases he : e = n
    · subst he
      exact Or.inr (hdone r hp)
    · by_cases hr : r = n
      · subst hr
        exact Or.inl (hdone e hp.symm)
      · omega

/-- `n` and its partner are given to each other. -/
theorem PairedTo.pair {j : ℕ} (hp : Partner tails heads ways n j) :
    PairedTo tails heads ways (n + 1) ((rev.set n (some j)).set j (some n)) := by
  have hget := @getD_set_set rev _ _ (h.length ▸ hp.1.fst_lt) (h.length ▸ hp.1.snd_lt)
  refine ⟨by rw [List.length_set, List.length_set, h.length], fun e r => ?_⟩
  rw [hget]
  by_cases he : j = e
  · subst he
    rw [if_pos rfl, Option.some.injEq]
    constructor
    · rintro rfl
      exact ⟨hp.symm, Or.inr (Nat.lt_succ_self _)⟩
    · exact fun hpr => hp.symm.unique hpr.1
  · rw [if_neg he]
    by_cases hn : n = e
    · subst hn
      rw [if_pos rfl, Option.some.injEq]
      constructor
      · rintro rfl
        exact ⟨hp, Or.inl (Nat.lt_succ_self _)⟩
      · exact fun hpr => hp.unique hpr.1
    · rw [if_neg hn, h.pairs]
      refine and_congr_right fun hpr => ?_
      have hr : r ≠ n := by
        rintro rfl
        exact he (hp.unique hpr.symm)
      omega

/-- **One turn of the loop.** -/
theorem PairedTo.step (hlt : n < heads.length) :
    PairedTo tails heads ways (n + 1) (matchReverse tails heads ways rev n) := by
  unfold matchReverse
  by_cases hn : rev.getD n none = none
  · rw [if_neg (not_not.mpr hn)]
    cases hfind : (reverseCands tails heads ways n).find? fun e2 =>
      decide (e2 ≠ n ∧ rev.getD e2 none = none) with
    | none =>
      refine h.skip fun r hp => ?_
      obtain ⟨hmem, hne, hfree⟩ := (freeCand_iff hlt).mpr (h.freeCand_of_partner hn hp)
      exact absurd (decide_eq_true ⟨hne, hfree⟩) (List.find?_eq_none.mp hfind r hmem)
    | some j =>
      obtain ⟨hj, hbefore⟩ := first_freeCand hlt hfind
      rcases h.partner_or_lt hn hj with hp | ⟨r, hr, hp⟩
      · exact h.pair hp
      · exact absurd (h.freeCand_of_partner hn hp) (hbefore r hr)
  · rw [if_pos hn]
    refine h.skip fun r hp => ?_
    obtain ⟨x, hx⟩ := Option.ne_none_iff_exists'.mp hn
    obtain ⟨hpx, hor⟩ := (h.pairs n x).mp hx
    rw [hp.unique hpx]
    exact hor.resolve_left (Nat.lt_irrefl n)

end Loop

/-- **The reverse map goes by position.** -/
theorem edgeReverse_eq_some_iff (e r : ℕ) :
    (edgeReverse tails heads ways).getD e none = some r ↔ Partner tails heads ways e r := by
  have hrun : ∀ n ≤ heads.length, PairedTo tails heads ways n
      ((List.range n).foldl (matchReverse tails heads ways)
        (List.replicate heads.length none)) := by
    intro n
    induction n with
    | zero =>
      refine fun _ => ⟨List.length_replicate, fun e r => ?_⟩
      rw [List.range_zero, List.foldl_nil, List.getD_eq_getElem?_getD, List.getElem?_replicate]
      refine iff_of_false (fun h => ?_) fun h => absurd h.2 (by omega)
      split at h <;> cases h
    | succ n ih =>
      intro hn
      rw [List.range_succ, List.foldl_append]
      exact (ih (Nat.le_of_succ_le hn)).step hn
  refine ((hrun _ (Nat.le_refl _)).pairs e r).trans ?_
  exact and_iff_left_of_imp fun hp => Or.inl hp.1.fst_lt

/-! ## The two directions of a street -/

variable {K : Type}

/-- Two edges of a street graph that are the two directions of one street: opposite ends, one way,
and the line of one is that of the other, reversed. Edges are rows of `raw_edges`. -/
structure Counterpart (G : MultiDiGraph K) (e r : ℕ) : Prop where
  ne : r ≠ e
  rows : ∃ a b : RawEdge K, (rawEdges G)[e]? = some a ∧ (rawEdges G)[r]? = some b ∧
    b.tail = a.head ∧ b.head = a.tail ∧ b.way = a.way ∧ edgePoints G b = (edgePoints G a).reverse

/-- Each edge has one counterpart at most. -/
def OneCounterpart (G : MultiDiGraph K) : Prop :=
  ∀ e r r', Counterpart G e r → Counterpart G e r' → r = r'

/-- The two directions come at the same position among the edges of their way between the two
nodes; those of a loop come one after the other, from an even position on. -/
def CounterpartInPlace (G : MultiDiGraph K) : Prop :=
  ∀ e r, Counterpart G e r → SamePlace ((rawEdges G).map RawEdge.tail)
    ((rawEdges G).map RawEdge.head) ((rawEdges G).map RawEdge.way) e r

theorem getD_map {α β : Type*} (f : α → β) (d : β) {l : List α} {e : ℕ} {a : α}
    (h : l[e]? = some a) : (l.map f).getD e d = f a := by
  rw [List.getD_eq_getElem?_getD, List.getElem?_map, h]
  rfl

theorem Counterpart.opposite {G : MultiDiGraph K} {e r : ℕ} (h : Counterpart G e r) :
    Opposite ((rawEdges G).map RawEdge.tail) ((rawEdges G).map RawEdge.head)
      ((rawEdges G).map RawEdge.way) e r := by
  obtain ⟨a, b, ha, hb, htail, hhead, hway, -⟩ := h.rows
  refine ⟨h.ne, ?_, ?_, ?_, ?_, ?_⟩
  · rw [List.length_map]
    exact (List.getElem?_eq_some_iff.mp ha).1
  · rw [List.length_map]
    exact (List.getElem?_eq_some_iff.mp hb).1
  · rw [getD_map _ _ ha, getD_map _ _ hb, htail]
  · rw [getD_map _ _ ha, getD_map _ _ hb, hhead]
  · rw [getD_map _ _ ha, getD_map _ _ hb, hway]

section Build

variable [Field K] [LinearOrder K] [FloorRing K] {initialBearingDeg : K × K → K × K → K}

/-- **When reverse edges are the same street.** The pack built of a graph maps every edge to its
counterpart just when the counterparts come at the same position. -/
theorem reverse_counterpart_iff (G : MultiDiGraph K) (p : GraphPack K)
    (hok : buildPack initialBearingDeg G = .ok p) :
    (∀ e r, Counterpart G e r → p.edgeReverse.getD e none = some r) ↔ CounterpartInPlace G := by
  have hbuilt := built_of_ok hok
  refine forall₂_congr fun e r => forall_congr' fun hc => ?_
  rw [hbuilt.reverse, edgeReverse_eq_some_iff, hbuilt.tails, hbuilt.heads, hbuilt.ways]
  exact and_iff_right hc.opposite

end Build

/-! ## Two streets of one way -/

/-- A street of way `7` from node `u` to node `v`, by way of `via`. -/
def bend (u v : ℤ) (key : ℕ) (via : ℚ × ℚ) : Edge ℚ :=
  ⟨u, v, key, ⟨.way 7, 1, some ⟨[((u : ℚ), 0), via, ((v : ℚ), 0)], by simp⟩⟩⟩

/-- A street by the north and one by the south, of one way. On the way back the one by the north
comes first, or the one by the south. -/
def twoStreets (southFirst : Bool) : MultiDiGraph ℚ where
  nodes := [0, 2]
  y _ := 0
  x n := n
  edges := [bend 0 2 0 (1, 1), bend 0 2 1 (1, -1),
    bend 2 0 0 (1, if southFirst then -1 else 1), bend 2 0 1 (1, if southFirst then 1 else -1)]
  nodes_nodup := by decide
  u_mem := by cases southFirst <;> decide
  v_mem := by cases southFirst <;> decide

section TwoStreets

variable (southFirst : Bool)

theorem nodeIds_twoStreets : nodeIds (twoStreets southFirst) = [0, 2] :=
  List.mergeSort_of_pairwise (by cases southFirst <;> decide)

theorem rawEdges_twoStreets : rawEdges (twoStreets southFirst) =
    [⟨0, 1, 7, 0, (bend 0 2 0 (1, 1)).data⟩, ⟨0, 1, 7, 1, (bend 0 2 1 (1, -1)).data⟩,
      ⟨1, 0, 7, 0, (bend 2 0 0 (1, if southFirst then -1 else 1)).data⟩,
      ⟨1, 0, 7, 1, (bend 2 0 1 (1, if southFirst then 1 else -1)).data⟩] := by
  have hindex : nodeIndex (twoStreets southFirst) 0 = 0 ∧
      nodeIndex (twoStreets southFirst) 2 = 1 := by
    unfold nodeIndex
    rw [nodeIds_twoStreets]
    decide
  unfold rawEdges
  simp only [twoStreets, bend, List.map_cons, List.map_nil] at hindex ⊢
  rw [hindex.1, hindex.2]
  exact List.mergeSort_of_pairwise (by cases southFirst <;> decide)

theorem exists_ok_twoStreets :
    ∃ p, buildPack (fun _ _ => (0 : ℚ)) (twoStreets southFirst) = .ok p := by
  refine exists_ok _ (by cases southFirst <;> decide) (fun e he => ?_)
    (by cases southFirst <;> decide) ?_ ?_
  · have hu := nodeIndex_lt _ ((twoStreets southFirst).u_mem e he)
    have hv := nodeIndex_lt _ ((twoStreets southFirst).v_mem e he)
    rw [nodeIds_twoStreets, List.length_cons, List.length_singleton] at hu hv
    omega
  · rw [← length_points, rawEdges_twoStreets]
    cases southFirst <;> decide
  · rw [packTurns, rawEdges_twoStreets, nodeIds_twoStreets]
    cases southFirst <;> decide +kernel

theorem counterpart_twoStreets {e r : ℕ} (h : Counterpart (twoStreets southFirst) e r) :
    (e, r) ∈ if southFirst then [(0, 3), (3, 0), (1, 2), (2, 1)]
      else [(0, 2), (2, 0), (1, 3), (3, 1)] := by
  obtain ⟨hne, a, b, ha, hb, htail, hhead, -, hline⟩ := h
  rw [rawEdges_twoStreets] at ha hb
  have he : e < 4 := (List.getElem?_eq_some_iff.mp ha).1
  have hr : r < 4 := (List.getElem?_eq_some_iff.mp hb).1
  cases southFirst <;> interval_cases e <;> interval_cases r <;>
    obtain rfl := Option.some.inj ha <;> obtain rfl := Option.some.inj hb
  all_goals first
    | decide
    | exact absurd htail (by decide)
    | exact absurd hline (by decide)

end TwoStreets

/-- Both directions in one order: each edge gets its counterpart. -/
theorem reverse_counterpart_iff_inOrder :
    ∃ p, buildPack (fun _ _ => (0 : ℚ)) (twoStreets false) = .ok p ∧
      ∀ e r, Counterpart (twoStreets false) e r → p.edgeReverse.getD e none = some r := by
  obtain ⟨p, hok⟩ := exists_ok_twoStreets false
  refine ⟨p, hok, (reverse_counterpart_iff _ p hok).mpr fun e r h => ?_⟩
  have hmem := counterpart_twoStreets false h
  rw [rawEdges_twoStreets]
  simp only [Bool.false_eq_true, if_false, List.mem_cons, Prod.mk.injEq, List.not_mem_nil,
    or_false] at hmem
  rcases hmem with ⟨rfl, rfl⟩ | ⟨rfl, rfl⟩ | ⟨rfl, rfl⟩ | ⟨rfl, rfl⟩ <;> decide

/-- In the other order, the way back by the south is taken for the way out by the north. -/
theorem twoStreets_crossed : ∃ p, buildPack (fun _ _ => (0 : ℚ)) (twoStreets true) = .ok p ∧
    OneCounterpart (twoStreets true) ∧ Counterpart (twoStreets true) 0 3 ∧
      p.edgeReverse.getD 0 none = some 2 := by
  obtain ⟨p, hok⟩ := exists_ok_twoStreets true
  refine ⟨p, hok, fun e r r' h h' => ?_, ⟨by decide, ?_⟩, ?_⟩
  · have hr := counterpart_twoStreets true h
    have hr' := counterpart_twoStreets true h'
    simp at hr hr'
    omega
  · rw [rawEdges_twoStreets]
    exact ⟨_, _, rfl, rfl, rfl, rfl, rfl, rfl⟩
  · have hbuilt := built_of_ok hok
    rw [hbuilt.reverse, hbuilt.tails, hbuilt.heads, hbuilt.ways, rawEdges_twoStreets]
    decide

end RoutePlanner.Ingestion
