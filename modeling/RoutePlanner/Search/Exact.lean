import RoutePlanner.Lib.LabelTree
import RoutePlanner.Search.Optimal

/-!
# The total reported is the cost of the walk returned

With non-negative arc costs, for any heuristic at all. An inconsistent one re-opens edges, so a
label on the way back may have gone down since `best_final` was recorded. That edge would be open
below the stop bound, and the loop would not have ended (`Lib.LabelTree`).

* `exactInv_step`: one iteration keeps the tree of `pred` and the record of the best total.
* `search_exact`: the returned walk costs what was reported.
-/

namespace RoutePlanner.Search

open RoutePlanner.Lib

variable {E T : ℕ} {K : Type} [AddCommGroup K] [LinearOrder K]
  {κ : Type} [LinearOrder κ] {key : Entry E K → κ} {Q : MinQueue (Entry E K) key}
  {q : Query E T K} {adjust : Fin E → Option K} {slack : K}

/-- The labels of a state. -/
def St.labels {Heap : Type} (st : St E T K Heap) : Labels (Fin E) (Fin T) K := ⟨st.dist, st.pred⟩

/-- The entry of the current label is in the heap. -/
def Live (q : Query E T K) (st : St E T K Q.Heap) (e : Fin E) : Prop :=
  ∃ g : K, st.dist e = (g : WithTop K) ∧ q.entry e g ∈ Q.items st.heap

/-- The best edge, and where the search stops. -/
def bestWatch (slack : K) (best : Option (Fin E × K)) : Option (Fin E × WithTop K) :=
  best.map fun b => (b.1, ((b.2 + slack : K) : WithTop K))

omit [LinearOrder K] in
theorem bestWatch_eq_some {best : Option (Fin E × K)} {b : Fin E} {β : WithTop K}
    (h : bestWatch slack best = some (b, β)) :
    ∃ total, best = some (b, total) ∧ β = ((total + slack : K) : WithTop K) := by
  unfold bestWatch at h
  obtain ⟨⟨e, total⟩, hbest, heq⟩ := Option.map_eq_some_iff.mp h
  obtain ⟨rfl, rfl⟩ := Prod.mk.inj heq
  exact ⟨total, hbest, rfl⟩

/-- The best total is that of the best edge's label, or that edge is open again. -/
def BestExact (q : Query E T K) (adjust : Fin E → Option K) (st : St E T K Q.Heap) : Prop :=
  ∀ b total, st.best = some (b, total) → ∃ a, adjust b = some a ∧
    (st.dist b + (a : WithTop K) = total ∨ Live q st b)

/-- The invariant of the main loop: the tree of `pred`, and the record of the best total. -/
structure ExactInv (q : Query E T K) (adjust : Fin E → Option K) (slack : K)
    (st : St E T K Q.Heap) : Prop where
  tree : st.labels.Tree q.topo.turnInEdge q.arcCost q.hAt (Live q st) (bestWatch slack st.best)
  best : BestExact q adjust st

/-- The same while `z` is expanded from the label `g`: it counts as open. -/
structure ExactExpand (q : Query E T K) (adjust : Fin E → Option K) (slack : K) (z : Fin E) (g : K)
    (st : St E T K Q.Heap) : Prop where
  dist_eq : st.dist z = (g : WithTop K)
  tree : st.labels.Tree q.topo.turnInEdge q.arcCost q.hAt (fun e => e = z ∨ Live q st e)
    (bestWatch slack st.best)
  front : st.labels.Front q.topo.turnInEdge q.arcCost q.hAt (fun e => e = z ∨ Live q st e)
    (bestWatch slack st.best) z
  best : BestExact q adjust st

/-! ## One relaxation -/

omit [LinearOrder K] in
theorem live_relabel {st : St E T K Q.Heap} {e w : Fin E} {g : K} :
    Live q (relabel Q q st w g) e ↔ Live q st e ∨ e = w := by
  unfold Live
  by_cases he : e = w
  · subst he
    refine iff_of_true ⟨g, relabel_dist_self st e g, mem_relabel.mpr (Or.inl rfl)⟩ (Or.inr rfl)
  · rw [relabel_dist_of_ne st he, or_iff_left he]
    refine exists_congr fun g' => and_congr_right fun _ => ?_
    rw [mem_relabel]
    exact or_iff_right fun h => he (congrArg Entry.e h)

omit [LinearOrder K] in
/-- An improving relaxation is a relabelling along its turn. -/
theorem labels_relax {st : St E T K Q.Heap} {t : Fin T} {g : K}
    (hd : st.dist (q.topo.turnInEdge t) = (g : WithTop K)) :
    ((relabel Q q st (q.topo.turnOutEdge t) (g + q.arcCost t)).setPred (q.topo.turnOutEdge t)
      t).labels =
      st.labels.relabel q.topo.turnInEdge q.arcCost (q.topo.turnOutEdge t) t := by
  have hdist : st.labels.dist (q.topo.turnInEdge t) = (g : WithTop K) := hd
  unfold Labels.relabel
  rw [hdist]
  rfl

/-- **A relaxation** keeps what holds while an edge is expanded. -/
theorem ExactExpand.relaxTurn [IsOrderedAddMonoid K]
    (hcost : ∀ t, q.topo.turnAllowed t = true → 0 ≤ q.arcCost t)
    {z : Fin E} {g : K} {st : St E T K Q.Heap} {t : Fin T}
    (hx : ExactExpand q adjust slack z g st) (ht : q.topo.turnInEdge t = z) :
    ExactExpand q adjust slack z g (relaxTurn Q q g st t) := by
  subst ht
  rcases relaxTurn_cases (Q := Q) (q := q) g st t with ⟨hok, hlt, h⟩ | ⟨-, h⟩
  · rw [h]
    have hlt' : st.labels.dist (q.topo.turnInEdge t) + (q.arcCost t : WithTop K) <
        st.labels.dist (q.topo.turnOutEdge t) := by
      have hdist : st.labels.dist (q.topo.turnInEdge t) = (g : WithTop K) := hx.dist_eq
      rw [hdist]
      exact hlt
    have hne := Labels.src_ne (hcost t hok) hlt'
    have hlive : (fun e => e = q.topo.turnInEdge t ∨ Live q ((relabel Q q st
        (q.topo.turnOutEdge t) (g + q.arcCost t)).setPred (q.topo.turnOutEdge t) t) e) =
          fun e => (e = q.topo.turnInEdge t ∨ Live q st e) ∨ e = q.topo.turnOutEdge t := by
      funext e
      rw [or_assoc]
      exact propext (or_congr_right live_relabel)
    refine ⟨?_, ?_, ?_, ?_⟩
    · rw [setPred_dist, relabel_dist_of_ne st hne]
      exact hx.dist_eq
    · rw [labels_relax hx.dist_eq, hlive]
      exact hx.tree.relabel hx.front (hcost t hok) hlt'
    · rw [labels_relax hx.dist_eq, hlive]
      exact hx.tree.relabel_front hx.front (hcost t hok) hlt'
    · intro b total hb
      obtain ⟨a, ha, hcase⟩ := hx.best b total hb
      refine ⟨a, ha, ?_⟩
      by_cases hbw : b = q.topo.turnOutEdge t
      · exact Or.inr (live_relabel.mpr (Or.inr hbw))
      · rw [setPred_dist, relabel_dist_of_ne st hbw]
        exact hcase.imp_right fun hl => live_relabel.mpr (Or.inl hl)
  · rw [h]
    exact hx

/-! ## One iteration -/

omit [LinearOrder K] in
theorem prio_of_entry {st : St E T K Q.Heap} {x : Entry E K} (hx : x = q.entry x.e x.g)
    (hd : st.dist x.e = (x.g : WithTop K)) :
    st.labels.prio q.hAt x.e = (x.f : WithTop K) := by
  have hf : x.f = x.g + q.hAt x.e := congrArg Entry.f hx
  have hdist : st.labels.dist x.e = (x.g : WithTop K) := hd
  unfold Labels.prio
  rw [hdist, hf]
  rfl

/-- An open edge is no nearer than the entry that is popped. -/
theorem le_prio_of_live (hkey : ∀ x y : Entry E K, key x ≤ key y → x.f ≤ y.f)
    {st : St E T K Q.Heap} {x : Entry E K} {heap : Q.Heap} (hp : Q.pop st.heap = some (x, heap))
    {y : Fin E} (hy : Live q st y) : (x.f : WithTop K) ≤ st.labels.prio q.hAt y := by
  obtain ⟨g, hg, hmem⟩ := hy
  have hdist : st.labels.dist y = (g : WithTop K) := hg
  unfold Labels.prio
  rw [hdist]
  exact WithTop.coe_le_coe.mpr (hkey _ _ (Q.pop_min _ _ _ hp _ hmem))

omit [LinearOrder K] in
/-- Popping the current entry of an edge closes that edge only. -/
theorem live_pop {st : St E T K Q.Heap} {x : Entry E K} {heap : Q.Heap}
    {best : Option (Fin E × K)} (hp : Q.pop st.heap = some (x, heap))
    (hx : x = q.entry x.e x.g) (hd : st.dist x.e = (x.g : WithTop K)) :
    (fun e => e = x.e ∨ Live (Q := Q) q { st with heap := heap, best := best } e) = Live q st := by
  funext e
  refine propext ⟨?_, ?_⟩
  · rintro (rfl | ⟨g, hg, hmem⟩)
    · exact ⟨x.g, hd, hx ▸ (Q.mem_of_pop hp).mpr (Or.inl rfl)⟩
    · exact ⟨g, hg, (Q.mem_of_pop hp).mpr (Or.inr hmem)⟩
  · rintro ⟨g, hg, hmem⟩
    rcases (Q.mem_of_pop hp).mp hmem with heq | hmem
    · exact Or.inl (congrArg Entry.e heq)
    · exact Or.inr ⟨g, hg, hmem⟩

/-- **The destination check** of the edge that is taken opens its expansion. -/
theorem ExactInv.pop_live [IsOrderedAddMonoid K]
    (hkey : ∀ x y : Entry E K, key x ≤ key y → x.f ≤ y.f)
    (hslack : ∀ b a, adjust b = some a → q.hAt b - a ≤ slack) {st : St E T K Q.Heap}
    {x : Entry E K} {heap : Q.Heap} (hX : ExactInv q adjust slack st)
    (hI : Inv ⊤ q adjust st) (hp : Q.pop st.heap = some (x, heap))
    (hstop : stops st.best slack x.f = false) (hd : st.dist x.e = (x.g : WithTop K)) :
    ExactExpand (Q := Q) q adjust slack x.e x.g
      { st with heap := heap, best := finalize ⊤ (adjust x.e) x.e x.g st.best } := by
  have hx := (hI.queue.entry x ((Q.mem_of_pop hp).mpr (Or.inl rfl))).1
  have hprio := prio_of_entry hx hd
  have hself : Live q st x.e := ⟨x.g, hd, hx ▸ (Q.mem_of_pop hp).mpr (Or.inl rfl)⟩
  have hF : st.labels.Front q.topo.turnInEdge q.arcCost q.hAt (Live q st)
      (bestWatch slack st.best) x.e := by
    refine hX.tree.front hself (fun y hy => ?_) fun b β hb => ?_
    · rw [hprio]
      exact le_prio_of_live hkey hp hy
    · obtain ⟨total, hbest, rfl⟩ := bestWatch_eq_some hb
      rw [hprio]
      refine WithTop.coe_le_coe.mpr (not_lt.mp fun hlt => ?_)
      rw [stops_eq_true.mpr ⟨b, total, hbest, hlt⟩] at hstop
      exact Bool.noConfusion hstop
  have hset : (fun e => e = x.e ∨ Live (Q := Q) q
      { st with heap := heap, best := finalize ⊤ (adjust x.e) x.e x.g st.best } e) = Live q st :=
    live_pop hp hx hd
  have hfin : st.labels.Tree q.topo.turnInEdge q.arcCost q.hAt (Live q st)
        (bestWatch slack (finalize ⊤ (adjust x.e) x.e x.g st.best)) ∧
      st.labels.Front q.topo.turnInEdge q.arcCost q.hAt (Live q st)
        (bestWatch slack (finalize ⊤ (adjust x.e) x.e x.g st.best)) x.e := by
    unfold finalize
    cases hadj : adjust x.e with
    | none => exact ⟨hX.tree, hF⟩
    | some a =>
      simp only
      split
      · refine hX.tree.retarget hF ?_
        have hf : x.f = x.g + q.hAt x.e := congrArg Entry.f hx
        rw [hprio, hf]
        refine WithTop.coe_le_coe.mpr ?_
        calc x.g + q.hAt x.e = x.g + a + (q.hAt x.e - a) := by abel
          _ ≤ x.g + a + slack := add_le_add_right (hslack _ a hadj) _
      · exact ⟨hX.tree, hF⟩
  refine ⟨hd, ?_, ?_, fun b total hb => ?_⟩
  · rw [hset]
    exact hfin.1
  · rw [hset]
    exact hfin.2
  · rcases finalize_eq_some hb with hold | ⟨a, ha, rfl, rfl⟩
    · obtain ⟨a, ha, hcase⟩ := hX.best b total hold
      refine ⟨a, ha, hcase.elim Or.inl fun hl => ?_⟩
      rw [← hset] at hl
      rcases hl with rfl | hl
      · -- its label was checked, and did not improve the total
        left
        have hle : bestFinal ⊤ (finalize ⊤ (adjust x.e) x.e x.g st.best) ≤
            ((x.g + a : K) : WithTop K) := by
          rw [ha]
          exact bestFinal_finalize_le
        simp only at hb
        rw [hb] at hle
        obtain ⟨a', g, ha', hg, -, hge⟩ := hI.pred.best _ _ hold
        obtain rfl := Option.some.inj (ha.symm.trans ha')
        obtain rfl := WithTop.coe_inj.mp (hd.symm.trans hg)
        change st.dist x.e + (a : WithTop K) = total
        rw [hd]
        exact WithTop.coe_inj.mpr (hge.antisymm (WithTop.coe_le_coe.mp hle))
      · exact Or.inr hl
    · refine ⟨a, ha, Or.inl ?_⟩
      change st.dist x.e + (a : WithTop K) = _
      rw [hd]
      rfl

/-- An expanded edge has no stale turn: each was relaxed from its label. -/
theorem ExactExpand.close {z : Fin E} {g : K} {st : St E T K Q.Heap}
    (hx : ExactExpand q adjust slack z g st) (hI : Inv ⊤ q adjust st) :
    ExactInv q adjust slack st := by
  refine ⟨hx.tree.close (z := z) (fun e he => Or.inr he) (fun e he hne => he.resolve_left hne) ?_,
    hx.best⟩
  rcases hI.queue.live z g hx.dist_eq (WithTop.coe_lt_top g) with hmem | hset
  · exact Or.inl ⟨g, hx.dist_eq, hmem⟩
  · right
    rintro c t hsrc ⟨hpred, hstale⟩
    obtain ⟨hok, rfl, -, -⟩ := hI.pred.turn c t hpred
    have hle := (hset.turns t hsrc hok).resolve_left List.not_mem_nil
    change st.dist (q.topo.turnInEdge t) + (q.arcCost t : WithTop K) <
      st.dist (q.topo.turnOutEdge t) at hstale
    rw [hsrc, hx.dist_eq] at hstale
    exact hstale.not_ge hle

/-- A stale entry is of no current label. -/
theorem ExactInv.pop_stale {st : St E T K Q.Heap} {x : Entry E K} {heap : Q.Heap}
    (hX : ExactInv q adjust slack st) (hp : Q.pop st.heap = some (x, heap))
    (hd : st.dist x.e ≠ (x.g : WithTop K)) :
    ExactInv (Q := Q) q adjust slack { st with heap := heap } := by
  have hlive : Live (Q := Q) q { st with heap := heap } = Live q st := by
    funext e
    refine propext (exists_congr fun g => and_congr_right fun hg => ?_)
    rw [Q.mem_of_pop hp]
    refine (or_iff_right fun heq => hd ?_).symm
    rw [← heq]
    exact hg
  refine ⟨?_, fun b total hb => ?_⟩
  · rw [hlive]
    exact hX.tree
  · rw [hlive]
    exact hX.best b total hb

/-- **One iteration keeps the invariant.** -/
theorem exactInv_step [IsOrderedAddMonoid K] (hkey : ∀ x y : Entry E K, key x ≤ key y → x.f ≤ y.f)
    (hcost : ∀ t, q.topo.turnAllowed t = true → 0 ≤ q.arcCost t)
    (hslack : ∀ b a, adjust b = some a → q.hAt b - a ≤ slack) {st st' : St E T K Q.Heap}
    (hX : ExactInv q adjust slack st) (hI : Inv ⊤ q adjust st)
    (h : step Q ⊤ q adjust slack st = .go st') : ExactInv q adjust slack st' := by
  rcases step_cases Q ⊤ q adjust slack st with ⟨-, hs⟩ | ⟨x, heap, hp, hs | hs | hs⟩
  · exact absurd (hs.symm.trans h) (by simp)
  · exact absurd (hs.2.symm.trans h) (by simp)
  · obtain ⟨hstop, hd, hs⟩ := hs
    obtain rfl := Step.go.inj (hs.symm.trans h)
    obtain ⟨hI', hx⟩ := expand_rule (P := ExactExpand (Q := Q) q adjust slack x.e x.g) hI hp hd
      (hX.pop_live hkey hslack hI hp hstop hd)
      fun s t _ _ _ ht hs => hs.relaxTurn hcost ht
    exact hx.close hI'
  · obtain ⟨-, hd, hs⟩ := hs
    obtain rfl := Step.go.inj (hs.symm.trans h)
    exact hX.pop_stale hp hd

/-! ## The whole search -/

/-- The initial state has no turns recorded. -/
theorem initSt_blank : (∀ e, (initSt Q ⊤ q).pred e = none) ∧ (initSt Q ⊤ q).best = none := by
  refine initSt_rule (P := fun st => (∀ e, st.pred e = none) ∧ st.best = none)
    ⟨fun _ => rfl, rfl⟩ fun st s _ hst => ?_
  rcases pushSeed_cases (Q := Q) (q := q) st s with ⟨-, h⟩ | ⟨-, h⟩
  · rw [h]
    exact hst
  · rw [h]
    exact hst

theorem exactInv_initSt : ExactInv (Q := Q) q adjust slack (initSt Q ⊤ q) := by
  obtain ⟨hpred, hbest⟩ := initSt_blank (Q := Q) (q := q)
  have hnone : ∀ {c t}, (initSt Q ⊤ q).labels.pred c ≠ some t := by
    intro c t h
    exact absurd ((hpred c).symm.trans h) (by simp)
  have hwatch : bestWatch slack (initSt Q ⊤ q).best = none := by
    rw [hbest]
    rfl
  refine ⟨⟨⟨fun c t h => absurd h hnone, fun c t h => absurd h hnone, fun c t h => absurd h hnone⟩,
    fun b β hb => ?_, fun y β _ c t _ hst => absurd hst.1 hnone, ?_⟩, fun b total hb => ?_⟩
  · rw [hwatch] at hb
    exact absurd hb (by simp)
  · intro y β hw q' _ _ p hp _
    -- without a turn, a chain is a single edge
    obtain rfl : p = y := by
      rcases hp.cases_tail with rfl | ⟨_, -, t, ht, -⟩
      · rfl
      · exact absurd ht hnone
    rcases hw with ⟨-, rfl⟩ | hb
    · exact le_max_left _ _
    · rw [hwatch] at hb
      exact absurd hb (by simp)
  · rw [hbest] at hb
    exact absurd hb (by simp)

/-- What the loop leaves behind: the best total is that of its edge, whose way back has no stale
turn. -/
structure ExactExit (q : Query E T K) (adjust : Fin E → Option K) (st : St E T K Q.Heap) :
    Prop where
  pred : PredInv ⊤ q adjust st
  best : ∀ b total, st.best = some (b, total) → ∃ a, adjust b = some a ∧
    st.dist b + (a : WithTop K) = total ∧
      st.labels.Rooted q.topo.turnInEdge q.arcCost b

/-- Where everything open is past the stop bound, the best total is exact. -/
theorem ExactInv.exit {st : St E T K Q.Heap} (hX : ExactInv q adjust slack st)
    (hI : Inv ⊤ q adjust st) (hpast : ∀ b total, st.best = some (b, total) →
      ∀ y, Live q st y → ((total + slack : K) : WithTop K) < st.labels.prio q.hAt y) :
    ExactExit q adjust st := by
  refine ⟨hI.pred, fun b total hb => ?_⟩
  have hwatch : bestWatch slack st.best = some (b, ((total + slack : K) : WithTop K)) := by
    rw [hb]
    rfl
  obtain ⟨a, ha, hcase⟩ := hX.best b total hb
  refine ⟨a, ha, hcase.resolve_right fun hl => ?_, ?_⟩
  · exact (hpast b total hb b hl).not_ge (hX.tree.best_le b _ hwatch)
  · exact hX.tree.rooted_of_best hwatch fun y hy => (hpast b total hb y hy).le

theorem exactExit_step (hkey : ∀ x y : Entry E K, key x ≤ key y → x.f ≤ y.f)
    {st r : St E T K Q.Heap} (hX : ExactInv q adjust slack st) (hI : Inv ⊤ q adjust st)
    (h : step Q ⊤ q adjust slack st = .done r) : ExactExit q adjust r := by
  rcases step_cases Q ⊤ q adjust slack st with ⟨hp, hs⟩ | ⟨x, heap, hp, hs | hs | hs⟩
  · obtain rfl := Step.done.inj (hs.symm.trans h)
    refine hX.exit hI fun _ _ _ y hy => ?_
    obtain ⟨g, -, hmem⟩ := hy
    rw [Q.pop_none _ hp] at hmem
    exact absurd hmem (Multiset.notMem_zero _)
  · obtain ⟨hstop, hs⟩ := hs
    obtain rfl := Step.done.inj (hs.symm.trans h)
    have hexit := hX.exit hI fun b total hb y hy => by
      obtain ⟨e, t, hbest, hlt⟩ := stops_eq_true.mp hstop
      obtain ⟨rfl, rfl⟩ := Prod.mk.inj (Option.some.inj (hb.symm.trans hbest))
      exact (WithTop.coe_lt_coe.mpr hlt).trans_le (le_prio_of_live hkey hp hy)
    exact ⟨⟨hexit.pred.root, hexit.pred.turn, hexit.pred.best⟩, hexit.best⟩
  · exact absurd (hs.2.2.symm.trans h) (by simp)
  · exact absurd (hs.2.2.symm.trans h) (by simp)

/-- A recorded walk without stale turns has the label it led to. -/
theorem label_of_rooted {st : St E T K Q.Heap} (hI : PredInv ⊤ q adjust st) {a b : Fin E}
    {ts : List (Fin T)} (hw : (predGraph q.topo st.pred).IsWalk a ts b)
    (hroot : st.labels.Rooted q.topo.turnInEdge q.arcCost b) {g : K}
    (hd : st.dist b = (g : WithTop K)) :
    ∃ g0 : K, st.dist a = (g0 : WithTop K) ∧ ArcGraph.label q.arcCost g0 ts = g ∧
      st.labels.OnChain q.topo.turnInEdge q.arcCost a b := by
  induction ts generalizing a with
  | nil =>
    obtain rfl : a = b := hw
    exact ⟨g, hd, rfl, .refl⟩
  | cons t ts ih =>
    obtain ⟨hp, rfl, hw⟩ := hw
    obtain ⟨g1, hg1, hlabel, hchain⟩ := ih hw
    obtain ⟨-, -, -, g0, hg0, -, hle⟩ := hI.turn _ t hp
    have heq : st.dist (q.topo.turnInEdge t) + (q.arcCost t : WithTop K) =
        st.dist (q.topo.turnOutEdge t) := by
      refine le_antisymm ?_ (not_lt.mp fun hlt => hroot _ t hchain ⟨hp, hlt⟩)
      rw [hg0]
      exact hle
    have hsum : g0 + q.arcCost t = g1 := by
      have hcoe := heq
      rw [hg0] at hcoe
      exact WithTop.coe_inj.mp (hcoe.trans hg1)
    refine ⟨g0, hg0, ?_, Relation.ReflTransGen.head ⟨t, hp, rfl, heq⟩ hchain⟩
    rw [ArcGraph.label_cons, hsum]
    exact hlabel

/-- **The total reported is the cost of the walk returned**: non-negative arc costs, any
heuristic. -/
theorem search_exact [IsOrderedAddMonoid K] (hkey : ∀ x y : Entry E K, key x ≤ key y → x.f ≤ y.f)
    (hcost : ∀ t, q.topo.turnAllowed t = true → 0 ≤ q.arcCost t) {fuel : ℕ}
    {r : PathResult E T K}
    (h : searchWith Q ⊤ q q.destAdjust q.slack (initSt Q ⊤ q) fuel = some (some r)) :
    ∃ g adj, IsJourney q r.firstEdge g r.turnIds r.destEdge adj ∧
      q.total g r.turnIds adj = r.totalCost := by
  unfold searchWith at h
  obtain ⟨st, hst, hr⟩ := Option.bind_eq_some_iff.mp h
  have hslack : ∀ b a, q.destAdjust b = some a → q.hAt b - a ≤ q.slack :=
    fun b a hd => hAt_sub_le_slack (mem_of_dictGet hd)
  have hX : ExactExit q q.destAdjust st :=
    loop_invariant (I := fun st => ExactInv q q.destAdjust q.slack st ∧ Inv ⊤ q q.destAdjust st)
      (fun _ _ hI hs => ⟨exactInv_step hkey hcost hslack hI.1 hI.2 hs, inv_step hI.2 hs⟩)
      (fun _ _ hI hs => exactExit_step hkey hI.1 hI.2 hs) ⟨exactInv_initSt, inv_initSt⟩ hst
  rcases readResult_cases (fun e t ht => (hX.pred.turn e t ht).2.1) hr with
    ⟨-, hr⟩ | ⟨p, hp, hb, hnone, hw⟩
  · cases hr
  · obtain rfl := Option.some.inj hp
    obtain ⟨a, ha, htotal, hroot⟩ := hX.best _ _ hb
    obtain ⟨-, g, -, hg, hfin, -⟩ := hX.pred.best _ _ hb
    obtain ⟨hw', -⟩ := hX.pred.walk hw hg hfin
    obtain ⟨g0, hg0, hlabel, -⟩ := label_of_rooted hX.pred hw hroot hg
    have hseed := hX.pred.root _ g0 hg0 (WithTop.coe_lt_top g0) hnone
    refine ⟨g0, a, ⟨⟨hseed, hw'⟩, ha⟩, ?_⟩
    rw [ArcGraph.label_eq_sum] at hlabel
    rw [hg] at htotal
    unfold Query.total
    rw [hlabel]
    exact WithTop.coe_inj.mp htotal

end RoutePlanner.Search
