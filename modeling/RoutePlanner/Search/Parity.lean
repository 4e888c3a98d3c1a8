import Mathlib.Data.List.MinMax
import RoutePlanner.Search.Engine
import RoutePlanner.Search.Optimal

/-!
# The parity contract: both engines compute one search

P2 claims that the order of pops does not depend on the heap. The abstract search of this module
has no heap at all: it keeps the set of *open* edges, those whose current label is not expanded
yet, and always expands the open edge with the least `(f, edge)`.

A heap-driven search follows it step by step (`searchWith_yields_iff`), for every heap whose order
refines `(f, edge)`: a stale entry is a step of its own that changes nothing, an edge has at most
one live entry (each push strictly improves the label), and the live entry popped is the least
among the open edges, because all of them are in the heap. A stale entry may end the loop, but
then every open edge is past the stop bound too.

Nothing is assumed of the addition, so this holds for rounded costs, where two entries may share
`(f, edge)`.

Main result: `engines_agree`.
-/

namespace RoutePlanner.Search

open RoutePlanner.Lib

variable {E T : ℕ} {K κ : Type} [LinearOrder K] [Add K] [Zero K] [LinearOrder κ]
  {key : Entry E K → κ} {Q : MinQueue (Entry E K) key} {inf : WithTop K} {q : Query E T K}
  {adjust : Fin E → Option K} {slack : K}

/-! ## The search without a heap -/

/-- The state of the search, with the open edges in place of the heap. -/
structure Core (E T : ℕ) (K : Type) where
  dist : Fin E → WithTop K
  pred : Fin E → Option (Fin T)
  best : Option (Fin E × K)
  openEdges : Finset (Fin E)

/-- The label of an open edge. -/
def Core.label (c : Core E T K) (e : Fin E) : K := (c.dist e).untopD 0

/-- `(f, edge)` of an open edge. -/
def Core.rank (q : Query E T K) (c : Core E T K) (e : Fin E) : K ×ₗ Fin E :=
  toLex (c.label e + q.hAt e, e)

/-- The open edge to expand next. -/
def Core.next (q : Query E T K) (c : Core E T K) : Option (Fin E) :=
  ((List.finRange E).filter (· ∈ c.openEdges)).argmin (c.rank q)

def coreSeed (c : Core E T K) (s : Fin E × K) : Core E T K :=
  if (s.2 : WithTop K) < c.dist s.1 then
    { c with
      dist := Function.update c.dist s.1 s.2
      openEdges := insert s.1 c.openEdges }
  else c

def coreRelax (q : Query E T K) (g : K) (c : Core E T K) (t : Fin T) : Core E T K :=
  if q.topo.turnAllowed t = true then
    if ((g + q.arcCost t : K) : WithTop K) < c.dist (q.topo.turnOutEdge t) then
      { c with
        dist := Function.update c.dist (q.topo.turnOutEdge t) (g + q.arcCost t : K)
        pred := Function.update c.pred (q.topo.turnOutEdge t) (some t)
        openEdges := insert (q.topo.turnOutEdge t) c.openEdges }
    else c
  else c

def coreExpand (inf : WithTop K) (q : Query E T K) (adjust : Fin E → Option K) (e : Fin E)
    (c : Core E T K) : Core E T K :=
  (q.topo.turnsFrom e).foldl (coreRelax q (c.label e))
    { c with
      best := finalize inf (adjust e) e (c.label e) c.best
      openEdges := c.openEdges.erase e }

/-- One expansion, or the end. -/
def coreStep (inf : WithTop K) (q : Query E T K) (adjust : Fin E → Option K) (slack : K)
    (c : Core E T K) :
    Step (Core E T K) ((Fin E → Option (Fin T)) × Option (Fin E × K)) :=
  match c.next q with
  | none => .done (c.pred, c.best)
  | some e =>
    if stops c.best slack (c.label e + q.hAt e) = true then .done (c.pred, c.best)
    else .go (coreExpand inf q adjust e c)

def coreInit (inf : WithTop K) (q : Query E T K) : Core E T K :=
  q.seeds.foldl coreSeed ⟨fun _ => inf, fun _ => none, none, ∅⟩

/-- **The search without a heap.** -/
def coreSearch (inf : WithTop K) (q : Query E T K) (adjust : Fin E → Option K) (slack : K)
    (fuel : ℕ) : Option (Option (PathResult E T K)) :=
  (loop (coreStep inf q adjust slack) fuel (coreInit inf q)).bind fun r =>
    readResult q.topo fuel r.1 r.2

theorem mem_of_next {c : Core E T K} {e : Fin E} (h : c.next q = some e) : e ∈ c.openEdges := by
  have hm := List.argmin_mem h
  simpa using hm

theorem next_eq_none {c : Core E T K} (h : ∀ e, e ∉ c.openEdges) : c.next q = none := by
  unfold Core.next
  rw [List.filter_eq_nil_iff.mpr fun e _ => by simpa using h e, List.argmin_nil]

/-- The least open edge is the next one. -/
theorem next_eq_some {c : Core E T K} {e : Fin E} (he : e ∈ c.openEdges)
    (hmin : ∀ e' ∈ c.openEdges, c.rank q e ≤ c.rank q e') : c.next q = some e := by
  have hmem : e ∈ (List.finRange E).filter (· ∈ c.openEdges) := by simpa using he
  cases hn : c.next q with
  | none =>
    rw [List.argmin_eq_none.mp hn] at hmem
    exact absurd hmem List.not_mem_nil
  | some e' =>
    have hle : c.rank q e' ≤ c.rank q e := List.le_of_mem_argmin hmem hn
    have heq := le_antisymm hle (hmin e' (mem_of_next hn))
    exact congrArg some (congrArg (fun k => (ofLex k).2) heq)

/-! ## What the heap holds -/

/-- Every entry has its own label, none below the current one. -/
structure HeapInv (q : Query E T K) (st : St E T K Q.Heap) : Prop where
  entry : ∀ x ∈ Q.items st.heap, x = q.entry x.e x.g ∧ st.dist x.e ≤ (x.g : WithTop K)
  nodup : (Q.items st.heap).Nodup

open Classical in
/-- The state without its heap: an edge is open when the entry of its label is in the heap. -/
noncomputable def core (q : Query E T K) (st : St E T K Q.Heap) : Core E T K where
  dist := st.dist
  pred := st.pred
  best := st.best
  openEdges := Finset.univ.filter fun e =>
    ∃ g : K, st.dist e = (g : WithTop K) ∧ q.entry e g ∈ Q.items st.heap

omit [LinearOrder K] in
theorem mem_core {st : St E T K Q.Heap} {e : Fin E} :
    e ∈ (core q st).openEdges ↔
      ∃ g : K, st.dist e = (g : WithTop K) ∧ q.entry e g ∈ Q.items st.heap := by
  simp only [core, Finset.mem_filter, Finset.mem_univ, true_and]

omit [LinearOrder K] in
theorem core_label {st : St E T K Q.Heap} {e : Fin E} {g : K}
    (h : st.dist e = (g : WithTop K)) : (core q st).label e = g := by
  unfold Core.label
  exact (congrArg (WithTop.untopD 0) h).trans (WithTop.untopD_coe 0 g)

/-- **A push opens its edge.** -/
theorem HeapInv.relabel {st : St E T K Q.Heap} (hI : HeapInv q st) {e : Fin E} {g : K}
    (hlt : (g : WithTop K) < st.dist e) :
    HeapInv q (relabel Q q st e g) ∧
      (core q (Search.relabel Q q st e g)).openEdges = insert e (core q st).openEdges := by
  have hnew : q.entry e g ∉ Q.items st.heap := fun hm =>
    absurd (hI.entry _ hm).2 (not_le.mpr hlt)
  refine ⟨⟨fun x hx => ?_, ?_⟩, ?_⟩
  · rcases mem_relabel.mp hx with rfl | hx
    · exact ⟨rfl, (relabel_dist_self st e g).le⟩
    · exact ⟨(hI.entry x hx).1, (relabel_dist_le hlt x.e).trans (hI.entry x hx).2⟩
  · unfold Search.relabel
    rw [Q.items_push]
    exact Multiset.nodup_cons.mpr ⟨hnew, hI.nodup⟩
  · ext e'
    rw [Finset.mem_insert, mem_core, mem_core]
    by_cases he : e' = e
    · rw [he]
      exact ⟨fun _ => Or.inl rfl,
        fun _ => ⟨g, relabel_dist_self st e g, mem_relabel.mpr (Or.inl rfl)⟩⟩
    · rw [relabel_dist_of_ne st he]
      constructor
      · rintro ⟨g', hd, hm⟩
        refine Or.inr ⟨g', hd, (mem_relabel.mp hm).resolve_left fun h => ?_⟩
        exact he (congrArg Entry.e h)
      · rintro (h | ⟨g', hd, hm⟩)
        · exact absurd h he
        · exact ⟨g', hd, mem_relabel.mpr (Or.inr hm)⟩

theorem HeapInv.pop {st : St E T K Q.Heap} (hI : HeapInv q st) {x : Entry E K} {heap : Q.Heap}
    (hp : Q.pop st.heap = some (x, heap)) (best : Option (Fin E × K)) :
    HeapInv (Q := Q) q { st with heap := heap, best := best } := by
  refine ⟨fun y hy => hI.entry y ((Q.mem_of_pop hp).mpr (Or.inr hy)), ?_⟩
  have hnd := hI.nodup
  rw [Q.pop_some _ _ _ hp] at hnd
  exact (Multiset.nodup_cons.mp hnd).2

/-- **Popping a live entry closes its edge.** -/
theorem openEdges_pop_live {st : St E T K Q.Heap} (hI : HeapInv q st) {x : Entry E K}
    {heap : Q.Heap} (hp : Q.pop st.heap = some (x, heap)) (hd : st.dist x.e = (x.g : WithTop K))
    (best : Option (Fin E × K)) :
    (core (Q := Q) q { st with heap := heap, best := best }).openEdges =
      (core q st).openEdges.erase x.e := by
  have hx := (hI.entry x ((Q.mem_of_pop hp).mpr (Or.inl rfl))).1
  have hnd := hI.nodup
  rw [Q.pop_some _ _ _ hp] at hnd
  ext e
  rw [Finset.mem_erase, mem_core, mem_core]
  constructor
  · rintro ⟨g, hg, hm⟩
    refine ⟨?_, g, hg, (Q.mem_of_pop hp).mpr (Or.inr hm)⟩
    rintro rfl
    rw [WithTop.coe_inj.mp (hg.symm.trans hd), ← hx] at hm
    exact (Multiset.nodup_cons.mp hnd).1 hm
  · rintro ⟨hne, g, hg, hm⟩
    refine ⟨g, hg, ((Q.mem_of_pop hp).mp hm).resolve_left fun h => ?_⟩
    exact hne (congrArg Entry.e h)

omit [LinearOrder K] in
/-- **A stale entry is invisible.** -/
theorem core_pop_stale {st : St E T K Q.Heap} {x : Entry E K} {heap : Q.Heap}
    (hp : Q.pop st.heap = some (x, heap)) (hd : st.dist x.e ≠ (x.g : WithTop K)) :
    core (Q := Q) q { st with heap := heap } = core q st := by
  have hopen : (core (Q := Q) q { st with heap := heap }).openEdges =
      (core q st).openEdges := by
    ext e
    rw [mem_core, mem_core]
    refine exists_congr fun g => and_congr_right fun hg => ⟨fun hm => ?_, fun hm => ?_⟩
    · exact (Q.mem_of_pop hp).mpr (Or.inr hm)
    · refine ((Q.mem_of_pop hp).mp hm).resolve_left fun h => ?_
      subst h
      exact hd hg
  calc core (Q := Q) q { st with heap := heap }
      = ⟨st.dist, st.pred, st.best, (core (Q := Q) q { st with heap := heap }).openEdges⟩ := rfl
    _ = core q st := by rw [hopen]; rfl

/-! ## The heap-driven search follows -/

theorem core_pushSeed {st : St E T K Q.Heap} (hI : HeapInv q st) (s : Fin E × K) :
    HeapInv q (pushSeed Q q st s) ∧ core q (pushSeed Q q st s) = coreSeed (core q st) s := by
  rcases pushSeed_cases (Q := Q) (q := q) st s with ⟨hlt, h⟩ | ⟨hle, h⟩
  · rw [h]
    obtain ⟨hI', hopen⟩ := hI.relabel hlt
    refine ⟨hI', (Eq.trans (if_pos hlt) ?_).symm⟩
    rw [← hopen]
    rfl
  · rw [h]
    exact ⟨hI, (if_neg (not_lt.mpr hle)).symm⟩

theorem core_relaxTurn {st : St E T K Q.Heap} (hI : HeapInv q st) (g : K) (t : Fin T) :
    HeapInv q (relaxTurn Q q g st t) ∧
      core q (relaxTurn Q q g st t) = coreRelax q g (core q st) t := by
  unfold coreRelax
  rcases relaxTurn_cases (Q := Q) (q := q) g st t with ⟨hok, hlt, h⟩ | ⟨hle, h⟩
  · rw [h, if_pos hok]
    obtain ⟨hI', hopen⟩ := hI.relabel hlt
    refine ⟨⟨hI'.entry, hI'.nodup⟩, (Eq.trans (if_pos hlt) ?_).symm⟩
    rw [← hopen]
    rfl
  · rw [h]
    refine ⟨hI, ?_⟩
    by_cases hok : q.topo.turnAllowed t = true
    · rw [if_pos hok]
      exact (if_neg (not_lt.mpr (hle hok))).symm
    · rw [if_neg hok]

/-- A fold whose steps the search without a heap follows. -/
theorem core_foldl {α : Type} {f : St E T K Q.Heap → α → St E T K Q.Heap}
    {g : Core E T K → α → Core E T K}
    (hstep : ∀ st a, HeapInv q st → HeapInv q (f st a) ∧ core q (f st a) = g (core q st) a)
    (l : List α) {st : St E T K Q.Heap} (hI : HeapInv q st) :
    HeapInv q (l.foldl f st) ∧ core q (l.foldl f st) = l.foldl g (core q st) := by
  induction l generalizing st with
  | nil => exact ⟨hI, rfl⟩
  | cons a l ih =>
    obtain ⟨hI', heq⟩ := hstep st a hI
    rw [List.foldl_cons, List.foldl_cons, ← heq]
    exact ih hI'

/-- The two searches start alike. -/
theorem core_initSt (inf : WithTop K) :
    HeapInv q (initSt Q inf q) ∧ core q (initSt Q inf q) = coreInit inf q := by
  have hblank : HeapInv (Q := Q) q ⟨fun _ => inf, fun _ => none, Q.empty, none⟩ := by
    refine ⟨fun x hx => ?_, ?_⟩
    · rw [Q.items_empty] at hx
      exact absurd hx (Multiset.notMem_zero x)
    · rw [Q.items_empty]
      exact Multiset.nodup_zero
  have hempty : (core (Q := Q) q ⟨fun _ => inf, fun _ => none, Q.empty, none⟩).openEdges = ∅ := by
    ext e
    rw [mem_core, Q.items_empty]
    simp
  obtain ⟨hI, heq⟩ := core_foldl (fun _ s hI => core_pushSeed hI s) q.seeds hblank
  refine ⟨hI, heq.trans (congrArg (fun c => q.seeds.foldl coreSeed c) ?_)⟩
  rw [← hempty]
  rfl

/-- **The expansion of a live entry** is the expansion of its edge. -/
theorem core_expand (inf : WithTop K) (adjust : Fin E → Option K) {st : St E T K Q.Heap}
    (hI : HeapInv q st) {x : Entry E K} {heap : Q.Heap}
    (hp : Q.pop st.heap = some (x, heap)) (hd : st.dist x.e = (x.g : WithTop K)) :
    HeapInv q (expand Q inf q adjust x { st with heap := heap }) ∧
      core q (expand Q inf q adjust x { st with heap := heap }) =
        coreExpand inf q adjust x.e (core q st) := by
  have hopen := openEdges_pop_live hI hp hd (finalize inf (adjust x.e) x.e x.g st.best)
  obtain ⟨hI', heq⟩ := core_foldl (fun _ t hI => core_relaxTurn hI x.g t) (q.topo.turnsFrom x.e)
    (hI.pop hp (finalize inf (adjust x.e) x.e x.g st.best))
  refine ⟨hI', heq.trans ?_⟩
  unfold coreExpand
  rw [core_label hd, ← hopen]
  rfl

variable (hkey : ∀ x y : Entry E K, key x ≤ key y →
  (toLex (x.f, x.e) : K ×ₗ Fin E) ≤ toLex (y.f, y.e))

include hkey

/-- **The live entry popped is the next open edge.** -/
theorem next_of_pop {st : St E T K Q.Heap} (hI : HeapInv q st) {x : Entry E K} {heap : Q.Heap}
    (hp : Q.pop st.heap = some (x, heap)) (hd : st.dist x.e = (x.g : WithTop K)) :
    (core q st).next q = some x.e := by
  have hm : x ∈ Q.items st.heap := (Q.mem_of_pop hp).mpr (Or.inl rfl)
  have hx := (hI.entry x hm).1
  refine next_eq_some (mem_core.mpr ⟨x.g, hd, hx ▸ hm⟩) fun e he => ?_
  obtain ⟨g, hg, hmg⟩ := mem_core.mp he
  unfold Core.rank
  rw [core_label hd, core_label hg]
  have hle := hkey _ _ (Q.pop_min _ _ _ hp _ hmg)
  rw [hx] at hle
  exact hle

/-- An entry past the stop bound leaves no open edge below it. -/
theorem coreStep_of_stops {st : St E T K Q.Heap} {x : Entry E K} {heap : Q.Heap}
    (hp : Q.pop st.heap = some (x, heap)) (hs : stops st.best slack x.f = true) :
    coreStep inf q adjust slack (core q st) = .done (st.pred, st.best) := by
  unfold coreStep
  cases hn : (core q st).next q with
  | none => rfl
  | some e =>
    obtain ⟨g, hg, hm⟩ := mem_core.mp (mem_of_next hn)
    have hle : x.f ≤ g + q.hAt e := by
      rcases Prod.Lex.toLex_le_toLex.mp (hkey _ _ (Q.pop_min _ _ _ hp _ hm)) with h | ⟨h, -⟩
      · exact le_of_lt h
      · exact le_of_eq h
    obtain ⟨e', b, hb, hlt⟩ := stops_eq_true.mp hs
    simp only
    rw [core_label hg]
    exact if_pos (stops_eq_true.mpr ⟨e', b, hb, hlt.trans_le hle⟩)

/-- **A heap-driven main loop yields what the search without a heap yields.** -/
theorem mainLoop_yields_iff {r : (Fin E → Option (Fin T)) × Option (Fin E × K)} :
    Yields (fun n => (loop (step Q inf q adjust slack) n (initSt Q inf q)).map
        fun st => (st.pred, st.best)) r ↔
      Yields (fun n => loop (coreStep inf q adjust slack) n (coreInit inf q)) r := by
  have hinit : HeapInv q (initSt Q inf q) ∧ core q (initSt Q inf q) = coreInit inf q :=
    core_initSt inf
  rw [← hinit.2]
  refine loop_refines (I := HeapInv q) (fun st => (Q.items st.heap).card) ?_ ?_ hinit.1
  · intro st r hI h
    rcases step_cases Q inf q adjust slack st with ⟨hp, hs⟩ | ⟨x, heap, hp, hs | hs | hs⟩
    · obtain rfl := Step.done.inj (hs.symm.trans h)
      unfold coreStep
      rw [next_eq_none fun e he => ?_]
      · rfl
      · obtain ⟨g, -, hm⟩ := mem_core.mp he
        rw [Q.pop_none _ hp] at hm
        exact Multiset.notMem_zero _ hm
    · obtain ⟨hstop, hs⟩ := hs
      obtain rfl := Step.done.inj (hs.symm.trans h)
      exact coreStep_of_stops hkey hp hstop
    · exact absurd (hs.2.2.symm.trans h) (by simp)
    · exact absurd (hs.2.2.symm.trans h) (by simp)
  · intro st st' hI h
    rcases step_cases Q inf q adjust slack st with ⟨hp, hs⟩ | ⟨x, heap, hp, hs | hs | hs⟩
    · exact absurd (hs.symm.trans h) (by simp)
    · exact absurd (hs.2.symm.trans h) (by simp)
    · -- a live entry: the abstract search takes the same step
      obtain ⟨hstop, hd, hs⟩ := hs
      obtain rfl := Step.go.inj (hs.symm.trans h)
      obtain ⟨hI', heq⟩ := core_expand inf adjust hI hp hd
      refine ⟨hI', Or.inl ?_⟩
      have hx := (hI.entry x ((Q.mem_of_pop hp).mpr (Or.inl rfl))).1
      unfold coreStep
      rw [next_of_pop hkey hI hp hd, heq]
      simp only
      rw [core_label hd]
      rw [hx] at hstop
      exact if_neg (Bool.eq_false_iff.mp hstop)
    · -- a stale entry: the abstract search waits
      obtain ⟨-, hd, hs⟩ := hs
      obtain rfl := Step.go.inj (hs.symm.trans h)
      refine ⟨hI.pop hp st.best, Or.inr ⟨core_pop_stale hp hd, ?_⟩⟩
      have hcard := Q.card_pop hp
      simp only
      omega

/-- **The heap does not matter**: a heap-driven search yields what the search without a heap
yields. -/
theorem searchWith_yields_iff {r : Option (PathResult E T K)} :
    Yields (fun n => searchWith Q inf q adjust slack (initSt Q inf q) n) r ↔
      Yields (fun n => coreSearch inf q adjust slack n) r := by
  have hsplit : ∀ n, searchWith Q inf q adjust slack (initSt Q inf q) n =
      ((loop (step Q inf q adjust slack) n (initSt Q inf q)).map fun st => (st.pred, st.best)).bind
        fun r => readResult q.topo n r.1 r.2 := by
    intro n
    unfold searchWith
    rw [Option.bind_map]
    rfl
  have hread : ∀ p : (Fin E → Option (Fin T)) × Option (Fin E × K),
      FuelMono fun n => readResult q.topo n p.1 p.2 := fun p => readResult_mono _ _ _
  simp only [hsplit, coreSearch]
  rw [yields_bind_iff ((loop_mono _ _).map _), yields_bind_iff (loop_mono _ _)]
  simp only [mainLoop_yields_iff hkey]

omit hkey

/-- **The engines agree.** For any addition and any two heaps, each minimal in its own order, the
Python search and the C++ engine yield the same results. When the addition is monotone and has the
neutral `0`, and the arc costs are non-negative, both do yield one. -/
theorem engines_agree [Sub K] [AddLeftMono K] [AddRightMono K]
    (P : MinQueue (Entry E K) pyKey) (C : MinQueue (Entry E K) Engine.fEdge) (inf : WithTop K)
    (q : Query E T K) (hcost : ∀ t, 0 ≤ q.arcCost t)
    (hfin : ∀ d ∈ q.dests, (d.2 : WithTop K) ≠ inf) :
    (∀ r, Yields (fun n => shortestPath P inf q n) r ↔
      Yields (fun n => Engine.shortestPath C inf q n) r) ∧
    ((∀ g : K, g + 0 = g) → ∃ r, Yields (fun n => shortestPath P inf q n) r ∧
      Yields (fun n => Engine.shortestPath C inf q n) r) := by
  have hpy : ∀ x y : Entry E K, pyKey x ≤ pyKey y →
      (toLex (x.f, x.e) : K ×ₗ Fin E) ≤ toLex (y.f, y.e) := by
    intro x y h
    rcases Prod.Lex.toLex_le_toLex.mp h with h | ⟨hf, h⟩
    · exact Prod.Lex.toLex_le_toLex.mpr (Or.inl h)
    · refine Prod.Lex.toLex_le_toLex.mpr (Or.inr ⟨hf, ?_⟩)
      rcases Prod.Lex.toLex_le_toLex.mp h with h | ⟨he, -⟩
      · exact le_of_lt h
      · exact le_of_eq he
  have hcpp : ∀ x y : Entry E K, Engine.fEdge x ≤ Engine.fEdge y →
      (toLex (x.f, x.e) : K ×ₗ Fin E) ≤ toLex (y.f, y.e) := fun _ _ h => h
  have hiff : ∀ r, Yields (fun n => shortestPath P inf q n) r ↔
      Yields (fun n => Engine.shortestPath C inf q n) r := by
    intro r
    simp only [shortestPath, Engine.engine_eq_searchWith C inf q hfin]
    rw [searchWith_yields_iff hpy, searchWith_yields_iff hcpp]
  refine ⟨hiff, fun hzero => ?_⟩
  have hnc : q.topo.graph.NoImproving q.arcCost := by
    refine ArcGraph.noImproving_of_le q.arcCost fun t _ g => ?_
    calc g = g + 0 := (hzero g).symm
      _ ≤ g + q.arcCost t := add_le_add_right (hcost t) g
  obtain ⟨r, hr⟩ := searchWith_yields P inf q.destAdjust q.slack hnc
  exact ⟨r, hr, (hiff r).mp hr⟩

/-- Both engines on `diamondQuery`. -/
theorem engines_agree_diamond :
    (∀ r, Yields (fun n => shortestPath (sortedQueue pyKey) ⊤ diamondQuery n) r ↔
      Yields (fun n => Engine.shortestPath (sortedQueue Engine.fEdge) ⊤ diamondQuery n) r) ∧
    ((∀ g : ℤ, g + 0 = g) →
      ∃ r, Yields (fun n => shortestPath (sortedQueue pyKey) ⊤ diamondQuery n) r ∧
        Yields (fun n => Engine.shortestPath (sortedQueue Engine.fEdge) ⊤ diamondQuery n) r) :=
  engines_agree (sortedQueue pyKey) (sortedQueue Engine.fEdge) ⊤ diamondQuery (by decide)
    fun _ _ => WithTop.coe_ne_top

end RoutePlanner.Search
