import Mathlib.Algebra.BigOperators.Group.Finset.Basic
import Mathlib.Algebra.Order.BigOperators.Group.Finset
import RoutePlanner.Search.Invariant

/-!
# The search ends

Lazy deletion never closes an edge: a label that improves is pushed again. The search ends when no
allowed closed walk lowers a label (`ArcGraph.NoImproving`), whatever the heuristic, the heap and
the order of pops.

* `Reached` is the history of a heap entry: its label was summed along an allowed walk from a seed
  that repeats no turn, and the labels along that walk only went down since. A repeated turn would
  close a walk that lowers a label (`Reached.extend`).
* So there are finitely many labels in play, and every push spends one: `potential` counts, over
  the edges, the labels below the current one.
* `pred` stays acyclic for the same reason (`wf_setPred`), so the walk back ends too.

Main result: `searchWith_yields`.
-/

namespace RoutePlanner.Search

open RoutePlanner.Lib

variable {E T : ℕ} {K κ : Type} [LinearOrder K] [Add K] [Zero K] [LinearOrder κ]
  {key : Entry E K → κ} {Q : MinQueue (Entry E K) key} {inf : WithTop K} {q : Query E T K}
  {adjust : Fin E → Option K} {slack : K}

/-! ## The history of a label -/

/-- The label `g` of `e` was summed along an allowed walk from a seed without a repeated turn, and
every label on the way is at most what the walk gave. -/
def Reached (q : Query E T K) (dist : Fin E → WithTop K) (e : Fin E) (g : K) : Prop :=
  ∃ s ∈ q.seeds, ∃ ts, q.topo.graph.IsWalk s.1 ts e ∧ g = ArcGraph.label q.arcCost s.2 ts ∧
    ts.Nodup ∧ ∀ p r, ts = p ++ r → ∀ v, q.topo.graph.IsWalk s.1 p v →
      dist v ≤ ((ArcGraph.label q.arcCost s.2 p : K) : WithTop K)

omit [Zero K] in
theorem Reached.anti {dist dist' : Fin E → WithTop K} (hle : ∀ e, dist' e ≤ dist e) {e : Fin E}
    {g : K} (h : Reached q dist e g) : Reached q dist' e g := by
  obtain ⟨s, hs, ts, hw, hg, hnd, hpre⟩ := h
  exact ⟨s, hs, ts, hw, hg, hnd, fun p r hpr v hv => (hle v).trans (hpre p r hpr v hv)⟩

omit [Zero K] in
theorem Reached.seed {dist : Fin E → WithTop K} {s : Fin E × K} (hs : s ∈ q.seeds)
    (hle : dist s.1 ≤ (s.2 : WithTop K)) : Reached q dist s.1 s.2 := by
  refine ⟨s, hs, [], rfl, rfl, List.nodup_nil, fun p r hpr v hv => ?_⟩
  obtain ⟨rfl, rfl⟩ := List.append_eq_nil_iff.mp hpr.symm
  obtain rfl : s.1 = v := hv
  exact hle

omit [Zero K] in
/-- **A strict improvement along `t` extends the history by a fresh turn.** -/
theorem Reached.extend {dist : Fin E → WithTop K} {t : Fin T} {g : K}
    (hnc : q.topo.graph.NoImproving q.arcCost) (h : Reached q dist (q.topo.turnInEdge t) g)
    (hok : q.topo.turnAllowed t = true)
    (hlt : ((g + q.arcCost t : K) : WithTop K) < dist (q.topo.turnOutEdge t))
    {dist' : Fin E → WithTop K} (hle : ∀ e, dist' e ≤ dist e)
    (hnew : dist' (q.topo.turnOutEdge t) ≤ ((g + q.arcCost t : K) : WithTop K)) :
    Reached q dist' (q.topo.turnOutEdge t) (g + q.arcCost t) := by
  obtain ⟨s, hs, ts, hw, hg, hnd, hpre⟩ := h
  have hfresh : t ∉ ts := by
    intro hmem
    obtain ⟨p, r, rfl⟩ := List.append_of_mem hmem
    -- the walk would run from the out-edge of `t` round to it again
    obtain ⟨m, hp, hok', hsrc, hr⟩ := ArcGraph.isWalk_append.mp hw
    have hpt : q.topo.graph.IsWalk s.1 (p ++ [t]) (q.topo.turnOutEdge t) :=
      ArcGraph.isWalk_concat.mpr ⟨hsrc ▸ hp, hok, rfl⟩
    have hcyc : q.topo.graph.IsWalk (q.topo.turnOutEdge t) (r ++ [t]) (q.topo.turnOutEdge t) :=
      ArcGraph.isWalk_concat.mpr ⟨hr, hok, rfl⟩
    have hround := hnc _ _ hcyc (ArcGraph.label q.arcCost s.2 (p ++ [t]))
    have hsum : ArcGraph.label q.arcCost (ArcGraph.label q.arcCost s.2 (p ++ [t])) (r ++ [t]) =
        g + q.arcCost t := by
      rw [ArcGraph.label_concat, ← ArcGraph.label_append, hg, List.append_assoc,
        List.singleton_append]
    rw [hsum] at hround
    have hold := hpre (p ++ [t]) r (by simp) _ hpt
    exact absurd (hold.trans (WithTop.coe_le_coe.mpr hround)) (not_le.mpr hlt)
  refine ⟨s, hs, ts ++ [t], ArcGraph.isWalk_concat.mpr ⟨hw, hok, rfl⟩, ?_,
    List.nodup_append.mpr ⟨hnd, List.nodup_singleton t, ?_⟩, ?_⟩
  · rw [ArcGraph.label_concat, ← hg]
  · rintro a ha b hb rfl
    exact hfresh (List.mem_singleton.mp hb ▸ ha)
  · intro p r hpr v hv
    rcases List.eq_nil_or_concat r with rfl | ⟨r, u, rfl⟩
    · -- the whole walk
      rw [List.append_nil] at hpr
      subst hpr
      obtain ⟨-, -, rfl⟩ := ArcGraph.isWalk_concat.mp hv
      rw [ArcGraph.label_concat, ← hg]
      exact hnew
    · rw [List.concat_eq_append, ← List.append_assoc] at hpr
      obtain ⟨rfl, -⟩ := List.append_inj' hpr rfl
      exact (hle v).trans (hpre p r rfl v hv)

/-! ## The labels still in play -/

/-- The labels of the walks that repeat no turn. -/
def labels (q : Query E T K) : Finset K :=
  (q.seeds.toFinset ×ˢ ArcGraph.nodupLists (Fin T)).image fun p =>
    ArcGraph.label q.arcCost p.1.2 p.2

omit [Zero K] in
theorem Reached.mem_labels {dist : Fin E → WithTop K} {e : Fin E} {g : K}
    (h : Reached q dist e g) : g ∈ labels q := by
  obtain ⟨s, hs, ts, -, hg, hnd, -⟩ := h
  unfold labels
  rw [Finset.mem_image]
  exact ⟨(s, ts), Finset.mem_product.mpr
    ⟨List.mem_toFinset.mpr hs, ArcGraph.mem_nodupLists.mpr hnd⟩, hg.symm⟩

/-- How often the labels can still improve. -/
def potential (q : Query E T K) (dist : Fin E → WithTop K) : ℕ :=
  ∑ e, ((labels q).filter fun l : K => (l : WithTop K) < dist e).card

/-- **Every improvement spends a label.** -/
theorem potential_relabel {st : St E T K Q.Heap} {e : Fin E} {g : K} (hg : g ∈ labels q)
    (hlt : (g : WithTop K) < st.dist e) :
    potential q (relabel Q q st e g).dist < potential q st.dist := by
  unfold potential
  refine Finset.sum_lt_sum (fun e' _ => Finset.card_le_card ?_)
    ⟨e, Finset.mem_univ e, Finset.card_lt_card ?_⟩
  · intro l hl
    rw [Finset.mem_filter] at hl ⊢
    exact ⟨hl.1, hl.2.trans_le (relabel_dist_le hlt e')⟩
  · rw [Finset.ssubset_iff_of_subset]
    · refine ⟨g, Finset.mem_filter.mpr ⟨hg, hlt⟩, fun hm => ?_⟩
      have := (Finset.mem_filter.mp hm).2
      rw [relabel_dist_self] at this
      exact lt_irrefl _ this
    · intro l hl
      rw [Finset.mem_filter] at hl ⊢
      exact ⟨hl.1, hl.2.trans_le (relabel_dist_le hlt e)⟩

/-! ## `pred` has no cycle -/

/-- `a` is the edge that `pred` leads back to from `b`. -/
def PredRel (topo : TurnTopo E T) (pred : Fin E → Option (Fin T)) (a b : Fin E) : Prop :=
  ∃ t, pred b = some t ∧ topo.turnInEdge t = a

omit [LinearOrder K] [Add K] [Zero K] [LinearOrder κ] in
/-- A new turn into `e` closes no cycle when no recorded walk leads from `e` to its in-edge. -/
theorem wf_setPred {topo : TurnTopo E T} {pred : Fin E → Option (Fin T)}
    (hwf : WellFounded (PredRel topo pred))
    (hout : ∀ e t, pred e = some t → topo.turnOutEdge t = e) {e : Fin E} {t : Fin T}
    (hno : ∀ ts, ¬ (predGraph topo pred).IsWalk e ts (topo.turnInEdge t)) :
    WellFounded (PredRel topo (Function.update pred e (some t))) := by
  have hsame : ∀ {a v}, v ≠ e → PredRel topo (Function.update pred e (some t)) a v →
      PredRel topo pred a v := by
    rintro a v hv ⟨u, hu, hin⟩
    rw [Function.update_of_ne hv] at hu
    exact ⟨u, hu, hin⟩
  -- first the edges on recorded walks to the in-edge of `t`: none of them is `e`
  have hback : ∀ v, (∃ ts, (predGraph topo pred).IsWalk v ts (topo.turnInEdge t)) →
      Acc (PredRel topo (Function.update pred e (some t))) v := by
    intro v
    induction v using hwf.induction with
    | _ v ih =>
      rintro ⟨ts, hw⟩
      have hv : v ≠ e := fun h => hno ts (h ▸ hw)
      refine Acc.intro v fun a ha => ?_
      obtain ⟨u, hu, hin⟩ := hsame hv ha
      have hdst := hout v u hu
      refine ih a ⟨u, hu, hin⟩ ⟨u :: ts, (congrArg pred hdst).trans hu, hin, ?_⟩
      change (predGraph topo pred).IsWalk (topo.turnOutEdge u) ts (topo.turnInEdge t)
      rw [hdst]
      exact hw
  have he : Acc (PredRel topo (Function.update pred e (some t))) e := by
    refine Acc.intro e fun a ha => ?_
    obtain ⟨u, hu, hin⟩ := ha
    rw [Function.update_self] at hu
    obtain rfl := Option.some.inj hu
    exact hin ▸ hback _ ⟨[], rfl⟩
  refine ⟨fun v => ?_⟩
  induction v using hwf.induction with
  | _ v ih =>
    by_cases hv : v = e
    · rw [hv]
      exact he
    · exact Acc.intro v fun a ha => ih a (hsame hv ha)

omit [LinearOrder K] [Add K] [Zero K] [LinearOrder κ] in
/-- The walk back along an acyclic `pred` ends. -/
theorem trace_yields {topo : TurnTopo E T} {pred : Fin E → Option (Fin T)}
    (hwf : WellFounded (PredRel topo pred)) (s : Fin E × List (Fin T)) :
    ∃ r, Yields (fun n => loop (traceStep topo pred) n s) r := by
  refine loop_yields (I := fun _ => True) (InvImage.wf Prod.fst hwf) (fun s s' _ h => ?_) trivial
  refine ⟨trivial, ?_⟩
  unfold traceStep at h
  split at h
  · exact absurd h (by simp)
  · rename_i t ht
    obtain rfl := Step.go.inj h
    exact ⟨t, ht, rfl⟩

/-! ## The run -/

/-- What termination needs of a state, beyond `Inv`. -/
structure Finite (q : Query E T K) (st : St E T K Q.Heap) : Prop where
  reached : ∀ x ∈ Q.items st.heap, Reached q st.dist x.e x.g
  acyclic : WellFounded (PredRel q.topo st.pred)

/-- The measure of the main loop. -/
def work (q : Query E T K) (st : St E T K Q.Heap) : ℕ :=
  potential q st.dist + (Q.items st.heap).card

variable [AddRightMono K]

/-- **A relaxation keeps the histories and the order of `pred`, and adds no work.** -/
theorem Finite.relaxTurn (hnc : q.topo.graph.NoImproving q.arcCost) {x : Entry E K} {t : Fin T}
    {st : St E T K Q.Heap} (hF : Finite q st) (hr : Reached q st.dist x.e x.g)
    (hI : PredInv inf q adjust st) (hx : Expanding q x st) (hxinf : (x.g : WithTop K) < inf)
    (ht : q.topo.turnInEdge t = x.e) :
    Finite q (relaxTurn Q q x.g st t) ∧ Reached q (relaxTurn Q q x.g st t).dist x.e x.g ∧
      work q (relaxTurn Q q x.g st t) ≤ work q st := by
  rcases relaxTurn_cases (Q := Q) (q := q) x.g st t with ⟨hok, hlt, h⟩ | ⟨-, h⟩
  · rw [h]
    have hanti := relabel_dist_le (Q := Q) (q := q) hlt
    have hnew : Reached q (relabel Q q st (q.topo.turnOutEdge t) (x.g + q.arcCost t)).dist
        (q.topo.turnOutEdge t) (x.g + q.arcCost t) :=
      Reached.extend hnc (ht.symm ▸ hr) hok hlt hanti (relabel_dist_self ..).le
    refine ⟨⟨?_, wf_setPred hF.acyclic (fun e u hu => (hI.turn e u hu).2.1) ?_⟩,
      hr.anti hanti, ?_⟩
    · intro y hy
      rcases mem_relabel.mp hy with rfl | hy
      · exact hnew
      · exact (hF.reached y hy).anti hanti
    · -- a recorded walk back from the in-edge to the out-edge would have lowered a label
      intro ts hw
      obtain ⟨gx, hgx, hle⟩ := WithTop.le_coe_iff.mp ((ht ▸ hx.le : st.dist _ ≤ _))
      obtain ⟨hw', g0, hg0, -, hle0⟩ :=
        hI.walk hw hgx ((WithTop.coe_le_coe.mpr hle).trans_lt hxinf)
      have hround := hnc _ _ (ArcGraph.isWalk_concat.mpr ⟨hw', hok, rfl⟩) g0
      rw [ArcGraph.label_concat] at hround
      have hle1 : g0 ≤ x.g + q.arcCost t :=
        hround.trans (add_le_add_left (hle0.trans hle) _)
      rw [hg0] at hlt
      exact absurd (WithTop.coe_lt_coe.mp hlt) (not_lt.mpr hle1)
    · have hpot := potential_relabel hnew.mem_labels hlt
      have hcard : (Q.items (relabel Q q st (q.topo.turnOutEdge t)
          (x.g + q.arcCost t)).heap).card = (Q.items st.heap).card + 1 := by
        unfold relabel
        rw [Q.items_push, Multiset.card_cons]
      unfold work
      rw [setPred_dist, setPred_heap, hcard]
      omega
  · rw [h]
    exact ⟨hF, hr, le_rfl⟩

/-- **Every iteration uses up work.** -/
theorem finite_step (hnc : q.topo.graph.NoImproving q.arcCost) {st st' : St E T K Q.Heap}
    (hI : Inv inf q adjust st) (hF : Finite q st)
    (h : step Q inf q adjust slack st = .go st') : Finite q st' ∧ work q st' < work q st := by
  rcases step_cases Q inf q adjust slack st with ⟨-, hs⟩ | ⟨x, heap, hp, hs | hs | hs⟩
  · exact absurd (hs.symm.trans h) (by simp)
  · exact absurd (hs.2.symm.trans h) (by simp)
  · obtain ⟨-, hd, hs⟩ := hs
    obtain rfl := Step.go.inj (hs.symm.trans h)
    have hmem : x ∈ Q.items st.heap := (Q.mem_of_pop hp).mpr (Or.inl rfl)
    have hcard := Q.card_pop hp
    have hrule := expand_rule (P := fun s => Finite q s ∧ Reached q s.dist x.e x.g ∧
        work q s < work q st) hI hp hd ?_ ?_
    · exact ⟨hrule.2.1, hrule.2.2.2⟩
    · refine ⟨⟨fun y hy => hF.reached y ((Q.mem_of_pop hp).mpr (Or.inr hy)), hF.acyclic⟩,
        hF.reached x hmem, ?_⟩
      unfold work
      simp only
      omega
    · rintro s t - hpred hx ht ⟨hFs, hr, hw⟩
      obtain ⟨hF', hr', hle⟩ :=
        hFs.relaxTurn hnc hr hpred hx (hI.queue.entry x hmem).2.2 ht
      exact ⟨hF', hr', hle.trans_lt hw⟩
  · obtain ⟨-, -, hs⟩ := hs
    obtain rfl := Step.go.inj (hs.symm.trans h)
    have hcard := Q.card_pop hp
    refine ⟨⟨fun y hy => hF.reached y ((Q.mem_of_pop hp).mpr (Or.inr hy)), hF.acyclic⟩, ?_⟩
    unfold work
    simp only
    omega

omit [AddRightMono K] in
theorem finite_initSt : Finite q (initSt Q inf q) := by
  refine initSt_rule (P := Finite q) ⟨?_, ?_⟩ ?_
  · intro x hx
    rw [Q.items_empty] at hx
    exact absurd hx (Multiset.notMem_zero x)
  · exact ⟨fun e => Acc.intro e fun a ⟨t, ht, _⟩ => absurd ht (by simp)⟩
  · intro st s hs hF
    rcases pushSeed_cases (Q := Q) (q := q) st s with ⟨hlt, h⟩ | ⟨-, h⟩
    · rw [h]
      refine ⟨fun x hx => ?_, hF.acyclic⟩
      rcases mem_relabel.mp hx with rfl | hx
      · exact Reached.seed hs (relabel_dist_self ..).le
      · exact (hF.reached x hx).anti (relabel_dist_le hlt)
    · rw [h]
      exact hF

/-- Over the whole run, `pred` stays acyclic. -/
theorem acyclic_loop (hnc : q.topo.graph.NoImproving q.arcCost) {fuel : ℕ} {r : St E T K Q.Heap}
    (h : loop (step Q inf q adjust slack) fuel (initSt Q inf q) = some r) :
    WellFounded (PredRel q.topo r.pred) := by
  refine loop_invariant (I := fun st => Inv inf q adjust st ∧ Finite q st)
    (Q := fun r => WellFounded (PredRel q.topo r.pred)) ?_ ?_ ⟨inv_initSt, finite_initSt⟩ h
  · rintro s s' ⟨hI, hF⟩ hs
    exact ⟨inv_step hI hs, (finite_step hnc hI hF hs).1⟩
  · rintro s r ⟨-, hF⟩ hs
    rcases step_cases Q inf q adjust slack s with ⟨-, hs'⟩ | ⟨x, heap, -, hs' | hs' | hs'⟩
    · exact Step.done.inj (hs'.symm.trans hs) ▸ hF.acyclic
    · exact Step.done.inj (hs'.2.symm.trans hs) ▸ hF.acyclic
    · exact absurd (hs'.2.2.symm.trans hs) (by simp)
    · exact absurd (hs'.2.2.symm.trans hs) (by simp)

/-- **The main loop ends** when no closed walk lowers a label. -/
theorem mainLoop_yields (Q : MinQueue (Entry E K) key) (inf : WithTop K)
    (adjust : Fin E → Option K) (slack : K) (hnc : q.topo.graph.NoImproving q.arcCost) :
    ∃ r, Yields (fun n => loop (step Q inf q adjust slack) n (initSt Q inf q)) r := by
  refine loop_yields (I := fun st => Inv inf q adjust st ∧ Finite q st)
    (InvImage.wf (work q) wellFounded_lt) ?_ ⟨inv_initSt, finite_initSt⟩
  rintro s s' ⟨hI, hF⟩ hs
  obtain ⟨hF', hlt⟩ := finite_step hnc hI hF hs
  exact ⟨⟨inv_step hI hs, hF'⟩, hlt⟩

omit [Zero K] [LinearOrder K] [Add K] [AddRightMono K] in
theorem readResult_mono (topo : TurnTopo E T) (pred : Fin E → Option (Fin T))
    (best : Option (Fin E × K)) : FuelMono fun n => readResult topo n pred best := by
  unfold readResult
  cases best with
  | none => exact fun n m a _ h => h
  | some b => exact (loop_mono _ _).map _

omit [AddRightMono K] in
theorem searchWith_mono (st : St E T K Q.Heap) :
    FuelMono fun n => searchWith Q inf q adjust slack st n := by
  unfold searchWith
  exact (loop_mono _ _).bind fun r => readResult_mono _ _ _

/-- **The search ends** when no allowed closed walk lowers a label: for any heap, heuristic, seeds
and destinations. -/
theorem searchWith_yields (Q : MinQueue (Entry E K) key) (inf : WithTop K)
    (adjust : Fin E → Option K) (slack : K) (hnc : q.topo.graph.NoImproving q.arcCost) :
    ∃ r, Yields (fun n => searchWith Q inf q adjust slack (initSt Q inf q) n) r := by
  obtain ⟨st, hst⟩ := mainLoop_yields Q inf adjust slack hnc
  obtain ⟨n, hn⟩ := hst.exists_fuel
  have hwf := acyclic_loop hnc hn
  have hread : ∃ r, Yields (fun n => readResult q.topo n st.pred st.best) r := by
    cases st.best with
    | none => exact ⟨none, yields_pure none⟩
    | some b =>
      obtain ⟨s, hs⟩ := trace_yields hwf (b.1, [])
      exact ⟨_, hs.map fun s => some (PathResult.mk s.2 s.1 b.1 b.2)⟩
  obtain ⟨r, hr⟩ := hread
  exact ⟨r, hst.bind hr⟩

end RoutePlanner.Search
