import RoutePlanner.Lib.Run
import RoutePlanner.Search.Basic

/-!
# The invariant of the search

What holds at every iteration of the main loop, for any arc costs (negative ones included), any
heuristic and any heap. Only the monotonicity of the addition in its left argument is used.

`QueueInv` says where the open work is: a labelled edge either has the entry of its current label
in the heap, or is settled, its turns relaxed and its destination check done. While an edge is
being expanded, `todo` lists its turns still to be relaxed.

`PredInv` says that `pred` points back along turns that explain the labels, down to the seeds, and
that `best` is backed by a label.

Main results:
* `inv_initSt`, `inv_step`: both hold initially and are kept by every iteration.
* `PredInv.walk`: walking back along `pred` gives an allowed walk from a seed whose label is
  at most the label of the edge.
-/

namespace RoutePlanner.Search

open RoutePlanner.Lib

section SetPred

variable {E T : ℕ} {K Heap : Type} (st : St E T K Heap) (e : Fin E) (t : Fin T)

@[simp] theorem setPred_dist : (st.setPred e t).dist = st.dist := rfl

@[simp] theorem setPred_heap : (st.setPred e t).heap = st.heap := rfl

@[simp] theorem setPred_pred_self : (st.setPred e t).pred e = some t := Function.update_self ..

theorem setPred_pred_of_ne {e' : Fin E} (h : e' ≠ e) : (st.setPred e t).pred e' = st.pred e' :=
  Function.update_of_ne h ..

end SetPred

variable {E T : ℕ} {K κ : Type} [LinearOrder K] [Add K] [Zero K] [LinearOrder κ]
  {key : Entry E K → κ} {Q : MinQueue (Entry E K) key} {inf : WithTop K} {q : Query E T K}
  {adjust : Fin E → Option K} {slack : K}

/-! ## What one operation can do -/

/-- The heap entry of the label `g` of `e`. -/
def Query.entry (q : Query E T K) (e : Fin E) (g : K) : Entry E K := ⟨g + q.hAt e, e, g⟩

omit [LinearOrder K] in
theorem mem_relabel {st : St E T K Q.Heap} {e : Fin E} {g : K} {x : Entry E K} :
    x ∈ Q.items (relabel Q q st e g).heap ↔ x = q.entry e g ∨ x ∈ Q.items st.heap :=
  Q.mem_push

omit [LinearOrder K] in
@[simp] theorem relabel_dist_self (st : St E T K Q.Heap) (e : Fin E) (g : K) :
    (relabel Q q st e g).dist e = (g : WithTop K) := Function.update_self ..

omit [LinearOrder K] in
theorem relabel_dist_of_ne (st : St E T K Q.Heap) {e e' : Fin E} (h : e' ≠ e) (g : K) :
    (relabel Q q st e g).dist e' = st.dist e' := Function.update_of_ne h ..

omit [LinearOrder K] in
@[simp] theorem relabel_pred (st : St E T K Q.Heap) (e : Fin E) (g : K) :
    (relabel Q q st e g).pred = st.pred := rfl

/-- Labels only go down. -/
theorem relabel_dist_le {st : St E T K Q.Heap} {e : Fin E} {g : K}
    (h : (g : WithTop K) < st.dist e) (e' : Fin E) :
    (relabel Q q st e g).dist e' ≤ st.dist e' := by
  by_cases he : e' = e
  · rw [he, relabel_dist_self]
    exact h.le
  · rw [relabel_dist_of_ne st he]

/-- **A relaxation** improves the label of the turn's out-edge, or leaves the state alone. -/
theorem relaxTurn_cases (g : K) (st : St E T K Q.Heap) (t : Fin T) :
    (q.topo.turnAllowed t = true ∧
      ((g + q.arcCost t : K) : WithTop K) < st.dist (q.topo.turnOutEdge t) ∧
      relaxTurn Q q g st t =
        (relabel Q q st (q.topo.turnOutEdge t) (g + q.arcCost t)).setPred
          (q.topo.turnOutEdge t) t) ∨
    ((q.topo.turnAllowed t = true →
        st.dist (q.topo.turnOutEdge t) ≤ ((g + q.arcCost t : K) : WithTop K)) ∧
      relaxTurn Q q g st t = st) := by
  unfold relaxTurn
  by_cases hok : q.topo.turnAllowed t = true
  · rw [if_pos hok]
    by_cases hlt : ((g + q.arcCost t : K) : WithTop K) < st.dist (q.topo.turnOutEdge t)
    · exact Or.inl ⟨hok, hlt, if_pos hlt⟩
    · exact Or.inr ⟨fun _ => not_lt.mp hlt, if_neg hlt⟩
  · rw [if_neg hok]
    exact Or.inr ⟨fun h => absurd h hok, rfl⟩

/-- **One iteration** stops, expands the popped edge, or drops a stale entry. -/
theorem step_cases (Q : MinQueue (Entry E K) key) (inf : WithTop K) (q : Query E T K)
    (adjust : Fin E → Option K) (slack : K) (st : St E T K Q.Heap) :
    (Q.pop st.heap = none ∧ step Q inf q adjust slack st = .done st) ∨
    ∃ x heap, Q.pop st.heap = some (x, heap) ∧
      ((stops st.best slack x.f = true ∧
          step Q inf q adjust slack st = .done { st with heap := heap }) ∨
        (stops st.best slack x.f = false ∧ st.dist x.e = (x.g : WithTop K) ∧
          step Q inf q adjust slack st =
            .go (expand Q inf q adjust x { st with heap := heap })) ∨
        (stops st.best slack x.f = false ∧ st.dist x.e ≠ (x.g : WithTop K) ∧
          step Q inf q adjust slack st = .go { st with heap := heap })) := by
  unfold step
  cases hp : Q.pop st.heap with
  | none => exact Or.inl ⟨rfl, rfl⟩
  | some p =>
    obtain ⟨x, heap⟩ := p
    refine Or.inr ⟨x, heap, rfl, ?_⟩
    simp only
    by_cases hs : stops st.best slack x.f = true
    · exact Or.inl ⟨hs, if_pos hs⟩
    · rw [if_neg hs]
      have hs' : stops st.best slack x.f = false := Bool.eq_false_iff.mpr hs
      by_cases hd : st.dist x.e = (x.g : WithTop K)
      · exact Or.inr (Or.inl ⟨hs', hd, if_pos hd⟩)
      · exact Or.inr (Or.inr ⟨hs', hd, if_neg hd⟩)

theorem stops_eq_true {best : Option (Fin E × K)} {f : K} :
    stops best slack f = true ↔ ∃ e b, best = some (e, b) ∧ b + slack < f := by
  unfold stops
  cases best with
  | none => simp
  | some b => simp [Prod.ext_iff]

omit [Zero K] in
/-- The destination check leaves a best total at most the checked one. -/
theorem bestFinal_finalize_le {best : Option (Fin E × K)} {e : Fin E} {g a : K} :
    bestFinal inf (finalize inf (some a) e g best) ≤ ((g + a : K) : WithTop K) := by
  unfold finalize
  simp only
  split
  · exact le_rfl
  · rename_i h
    exact not_lt.mp h

omit [Zero K] in
/-- The best total only goes down. -/
theorem bestFinal_finalize_le_self {best : Option (Fin E × K)} {e : Fin E} {g : K}
    {adj : Option K} : bestFinal inf (finalize inf adj e g best) ≤ bestFinal inf best := by
  unfold finalize
  cases adj with
  | none => exact le_rfl
  | some a =>
    simp only
    split
    · rename_i h
      exact h.le
    · exact le_rfl

omit [Zero K] in
theorem finalize_eq_some {best : Option (Fin E × K)} {e e' : Fin E} {g b : K} {adj : Option K}
    (h : finalize inf adj e g best = some (e', b)) :
    best = some (e', b) ∨ ∃ a, adj = some a ∧ e' = e ∧ b = g + a := by
  unfold finalize at h
  cases adj with
  | none => exact Or.inl h
  | some a =>
    simp only at h
    split at h
    · simp only [Option.some.injEq, Prod.mk.injEq] at h
      exact Or.inr ⟨a, rfl, h.1.symm, h.2.symm⟩
    · exact Or.inl h

/-! ## Where the open work is -/

/-- The edge `e`, labelled `g`, is settled up to the turns in `todo`. -/
structure Settled (inf : WithTop K) (q : Query E T K) (adjust : Fin E → Option K)
    (todo : List (Fin T)) (dist : Fin E → WithTop K) (best : Option (Fin E × K)) (e : Fin E)
    (g : K) : Prop where
  turns : ∀ t, q.topo.turnInEdge t = e → q.topo.turnAllowed t = true →
    t ∈ todo ∨ dist (q.topo.turnOutEdge t) ≤ ((g + q.arcCost t : K) : WithTop K)
  dest : ∀ a, adjust e = some a → bestFinal inf best ≤ ((g + a : K) : WithTop K)

/-- Every label has an entry in the heap or belongs to a settled edge. -/
structure QueueInv (inf : WithTop K) (q : Query E T K) (adjust : Fin E → Option K)
    (todo : List (Fin T)) (st : St E T K Q.Heap) : Prop where
  le_inf : ∀ e, st.dist e ≤ inf
  entry : ∀ x ∈ Q.items st.heap,
    x = q.entry x.e x.g ∧ st.dist x.e ≤ (x.g : WithTop K) ∧ (x.g : WithTop K) < inf
  live : ∀ e (g : K), st.dist e = (g : WithTop K) → (g : WithTop K) < inf →
    q.entry e g ∈ Q.items st.heap ∨ Settled inf q adjust todo st.dist st.best e g

/-- While `x` is expanded: its edge keeps the label it was popped with, or has the entry of a
lower one in the heap. -/
structure Expanding (q : Query E T K) (x : Entry E K) (st : St E T K Q.Heap) : Prop where
  le : st.dist x.e ≤ (x.g : WithTop K)
  live : ∀ g : K, st.dist x.e = (g : WithTop K) → g ≠ x.g → q.entry x.e g ∈ Q.items st.heap

theorem QueueInv.relabel {todo : List (Fin T)} {st : St E T K Q.Heap}
    (hI : QueueInv inf q adjust todo st) {e : Fin E} {g : K} (hlt : (g : WithTop K) < st.dist e) :
    QueueInv inf q adjust todo (relabel Q q st e g) := by
  refine ⟨fun e' => (relabel_dist_le hlt e').trans (hI.le_inf e'), ?_, ?_⟩
  · intro x hx
    rcases mem_relabel.mp hx with rfl | hx
    · exact ⟨rfl, (relabel_dist_self st e g).le, hlt.trans_le (hI.le_inf e)⟩
    · obtain ⟨hxe, hle, hinf⟩ := hI.entry x hx
      exact ⟨hxe, (relabel_dist_le hlt x.e).trans hle, hinf⟩
  · intro e' g' hd hinf
    by_cases he : e' = e
    · -- the new label has the entry just pushed
      rw [he, relabel_dist_self] at hd
      rw [he, ← WithTop.coe_inj.mp hd]
      exact Or.inl (mem_relabel.mpr (Or.inl rfl))
    · rw [relabel_dist_of_ne st he] at hd
      rcases hI.live e' g' hd hinf with hx | hs
      · exact Or.inl (mem_relabel.mpr (Or.inr hx))
      · refine Or.inr ⟨fun t ht hok => ?_, hs.dest⟩
        exact (hs.turns t ht hok).imp_right fun h => (relabel_dist_le hlt _).trans h

theorem Expanding.relabel {x : Entry E K} {st : St E T K Q.Heap} (hx : Expanding q x st)
    {e : Fin E} {g : K} (hlt : (g : WithTop K) < st.dist e) :
    Expanding q x (relabel Q q st e g) := by
  refine ⟨(relabel_dist_le hlt x.e).trans hx.le, fun g' hd hne => ?_⟩
  by_cases he : x.e = e
  · rw [he, relabel_dist_self] at hd
    rw [he, ← WithTop.coe_inj.mp hd]
    exact mem_relabel.mpr (Or.inl rfl)
  · rw [relabel_dist_of_ne st he] at hd
    exact mem_relabel.mpr (Or.inr (hx.live g' hd hne))

/-- The turn at the head of `todo` is done once its out-edge is relaxed from the expanded edge. -/
theorem QueueInv.finish {x : Entry E K} {t : Fin T} {todo : List (Fin T)}
    {st : St E T K Q.Heap} (hI : QueueInv inf q adjust (t :: todo) st) (hx : Expanding q x st)
    (ht : q.topo.turnInEdge t = x.e)
    (hle : q.topo.turnAllowed t = true →
      st.dist (q.topo.turnOutEdge t) ≤ ((x.g + q.arcCost t : K) : WithTop K)) :
    QueueInv inf q adjust todo st := by
  refine ⟨hI.le_inf, hI.entry, fun e g hd hinf => ?_⟩
  rcases hI.live e g hd hinf with hm | hs
  · exact Or.inl hm
  · by_cases hg : e = x.e ∧ g ≠ x.g
    · obtain ⟨rfl, hg⟩ := hg
      exact Or.inl (hx.live g hd hg)
    · refine Or.inr ⟨fun u hu hok => ?_, hs.dest⟩
      rcases hs.turns u hu hok with hm | h
      · rcases List.mem_cons.mp hm with rfl | hm
        · -- the turn just relaxed, from the label `x` was popped with
          have hgx : g = x.g := not_not.mp fun hne => hg ⟨hu.symm.trans ht, hne⟩
          rw [hgx]
          exact Or.inr (hle hok)
        · exact Or.inl hm
      · exact Or.inr h

/-- **A relaxation keeps the open work accounted for.** -/
theorem QueueInv.relaxTurn {x : Entry E K} {t : Fin T} {todo : List (Fin T)}
    {st : St E T K Q.Heap} (hI : QueueInv inf q adjust (t :: todo) st) (hx : Expanding q x st)
    (ht : q.topo.turnInEdge t = x.e) :
    QueueInv inf q adjust todo (relaxTurn Q q x.g st t) ∧
      Expanding q x (relaxTurn Q q x.g st t) := by
  rcases relaxTurn_cases (Q := Q) (q := q) x.g st t with ⟨hok, hlt, h⟩ | ⟨hle, h⟩
  · rw [h]
    have hI' := hI.relabel hlt
    have hx' := hx.relabel hlt
    have hfin := hI'.finish hx' ht fun _ => (relabel_dist_self ..).le
    exact ⟨⟨hfin.le_inf, hfin.entry, hfin.live⟩, ⟨hx'.le, hx'.live⟩⟩
  · rw [h]
    exact ⟨hI.finish hx ht hle, hx⟩

/-- Popping a live entry and checking its destination opens the expansion of its edge. -/
theorem QueueInv.pop_live {x : Entry E K} {heap : Q.Heap} {st : St E T K Q.Heap}
    (hI : QueueInv inf q adjust [] st) (hp : Q.pop st.heap = some (x, heap))
    (hd : st.dist x.e = (x.g : WithTop K)) :
    QueueInv (Q := Q) inf q adjust (q.topo.turnsFrom x.e)
        { st with heap := heap, best := finalize inf (adjust x.e) x.e x.g st.best } ∧
      Expanding (Q := Q) q x
        { st with heap := heap, best := finalize inf (adjust x.e) x.e x.g st.best } := by
  refine ⟨⟨hI.le_inf, fun y hy => hI.entry y ((Q.mem_of_pop hp).mpr (Or.inr hy)), ?_⟩,
    hd.le, fun g hg hne => absurd (WithTop.coe_inj.mp (hg.symm.trans hd)) hne⟩
  intro e g hg hinf
  by_cases he : e = x.e
  · -- the edge being expanded: its turns are all still to do
    subst he
    have hgx : g = x.g := WithTop.coe_inj.mp (hg.symm.trans hd)
    refine Or.inr ⟨fun t ht _ => Or.inl (TurnTopo.mem_turnsFrom.mpr ht), fun a ha => ?_⟩
    simp only
    rw [ha, hgx]
    exact bestFinal_finalize_le
  · rcases hI.live e g hg hinf with hm | hs
    · rcases (Q.mem_of_pop hp).mp hm with hx | hm
      · exact absurd (congrArg Entry.e hx) he
      · exact Or.inl hm
    · refine Or.inr ⟨fun t ht hok => ?_, fun a ha => ?_⟩
      · exact Or.inr ((hs.turns t ht hok).resolve_left List.not_mem_nil)
      · exact bestFinal_finalize_le_self.trans (hs.dest a ha)

/-- Dropping a stale entry loses no label. -/
theorem QueueInv.pop_stale {x : Entry E K} {heap : Q.Heap} {todo : List (Fin T)}
    {st : St E T K Q.Heap} (hI : QueueInv inf q adjust todo st)
    (hp : Q.pop st.heap = some (x, heap)) (hd : st.dist x.e ≠ (x.g : WithTop K)) :
    QueueInv (Q := Q) inf q adjust todo { st with heap := heap } := by
  refine ⟨hI.le_inf, fun y hy => hI.entry y ((Q.mem_of_pop hp).mpr (Or.inr hy)), ?_⟩
  intro e g hg hinf
  refine (hI.live e g hg hinf).imp_left fun hm => ?_
  rcases (Q.mem_of_pop hp).mp hm with hx | hm
  · subst hx
    exact absurd hg hd
  · exact hm

/-! ## What `pred` and `best` record -/

/-- The graph of the turns recorded in `pred`. -/
def predGraph (topo : TurnTopo E T) (pred : Fin E → Option (Fin T)) : ArcGraph (Fin E) (Fin T) where
  src := topo.turnInEdge
  dst := topo.turnOutEdge
  ok t := pred (topo.turnOutEdge t) = some t

/-- `pred` explains the labels and a label backs `best`. -/
structure PredInv (inf : WithTop K) (q : Query E T K) (adjust : Fin E → Option K)
    (st : St E T K Q.Heap) : Prop where
  /-- A label without a turn is a seed cost. -/
  root : ∀ e (g : K), st.dist e = (g : WithTop K) → (g : WithTop K) < inf → st.pred e = none →
    (e, g) ∈ q.seeds
  /-- A label is at least the recorded turn away from the label of the turn's in-edge. -/
  turn : ∀ e t, st.pred e = some t → q.topo.turnAllowed t = true ∧ q.topo.turnOutEdge t = e ∧
    st.dist e < inf ∧ ∃ g : K, st.dist (q.topo.turnInEdge t) = (g : WithTop K) ∧
      (g : WithTop K) < inf ∧ ((g + q.arcCost t : K) : WithTop K) ≤ st.dist e
  best : ∀ e b, st.best = some (e, b) → ∃ a g, adjust e = some a ∧
    st.dist e = ((g : K) : WithTop K) ∧ (g : WithTop K) < inf ∧ g + a ≤ b

/-- **A relaxation keeps the explanation.** -/
theorem PredInv.relaxTurn [AddRightMono K] {x : Entry E K} {t : Fin T} {st : St E T K Q.Heap}
    (hI : PredInv inf q adjust st) (hle_inf : ∀ e, st.dist e ≤ inf) (hx : Expanding q x st)
    (hxinf : (x.g : WithTop K) < inf) (ht : q.topo.turnInEdge t = x.e) :
    PredInv inf q adjust (relaxTurn Q q x.g st t) := by
  rcases relaxTurn_cases (Q := Q) (q := q) x.g st t with ⟨hok, hlt, h⟩ | ⟨-, h⟩
  · rw [h]
    have hanti := relabel_dist_le (Q := Q) (q := q) hlt
    have hself := relabel_dist_self (q := q) st (q.topo.turnOutEdge t) (x.g + q.arcCost t)
    have hginf : ((x.g + q.arcCost t : K) : WithTop K) < inf := hlt.trans_le (hle_inf _)
    -- a label that was finite is finite, and no larger
    have hfin : ∀ e (g : K), st.dist e = (g : WithTop K) → ∃ g' : K,
        (relabel Q q st (q.topo.turnOutEdge t) (x.g + q.arcCost t)).dist e = (g' : WithTop K) ∧
          g' ≤ g := by
      intro e g hg
      obtain ⟨g', hg', hle⟩ := WithTop.le_coe_iff.mp ((hanti e).trans_eq hg)
      exact ⟨g', hg', hle⟩
    refine ⟨?_, ?_, ?_⟩
    · intro e g hd hinf hp
      by_cases he : e = q.topo.turnOutEdge t
      · rw [he] at hp
        exact absurd hp (by simp)
      · rw [setPred_pred_of_ne _ _ _ he, relabel_pred] at hp
        rw [setPred_dist, relabel_dist_of_ne st he] at hd
        exact hI.root e g hd hinf hp
    · intro e u hp
      by_cases he : e = q.topo.turnOutEdge t
      · subst he
        rw [setPred_pred_self] at hp
        obtain rfl := Option.some.inj hp
        obtain ⟨gx, hgx, hle⟩ := WithTop.le_coe_iff.mp ((ht ▸ hx.le : st.dist _ ≤ _))
        obtain ⟨g', hg', hle'⟩ := hfin _ gx hgx
        have hgle : g' ≤ x.g := hle'.trans hle
        refine ⟨hok, rfl, ?_, g', hg', ?_, ?_⟩
        · exact hself.trans_lt hginf
        · exact (WithTop.coe_le_coe.mpr hgle).trans_lt hxinf
        · exact (WithTop.coe_le_coe.mpr (add_le_add_left hgle _)).trans_eq hself.symm
      · rw [setPred_pred_of_ne _ _ _ he, relabel_pred] at hp
        obtain ⟨hoku, hout, hlt', g, hg, hinf, hle⟩ := hI.turn e u hp
        obtain ⟨g', hg', hle'⟩ := hfin _ g hg
        refine ⟨hoku, hout, (hanti e).trans_lt hlt', g', hg',
          (WithTop.coe_le_coe.mpr hle').trans_lt hinf, ?_⟩
        rw [setPred_dist, relabel_dist_of_ne st he]
        exact (WithTop.coe_le_coe.mpr (add_le_add_left hle' _)).trans hle
    · intro e b hb
      obtain ⟨a, g, ha, hg, hinf, hle⟩ := hI.best e b hb
      obtain ⟨g', hg', hle'⟩ := hfin e g hg
      exact ⟨a, g', ha, hg', (WithTop.coe_le_coe.mpr hle').trans_lt hinf,
        (add_le_add_left hle' a).trans hle⟩
  · rw [h]
    exact hI

omit [Zero K] in
/-- The destination check keeps the explanation. -/
theorem PredInv.pop_live {x : Entry E K} {heap : Q.Heap} {st : St E T K Q.Heap}
    (hI : PredInv inf q adjust st) (hd : st.dist x.e = (x.g : WithTop K))
    (hxinf : (x.g : WithTop K) < inf) :
    PredInv (Q := Q) inf q adjust
      { st with heap := heap, best := finalize inf (adjust x.e) x.e x.g st.best } := by
  refine ⟨hI.root, hI.turn, fun e b hb => ?_⟩
  rcases finalize_eq_some hb with hb | ⟨a, ha, rfl, rfl⟩
  · exact hI.best e b hb
  · exact ⟨a, x.g, ha, hd, hxinf, le_rfl⟩

/-! ## Over the whole run -/

/-- **The invariant of the main loop.** -/
structure Inv (inf : WithTop K) (q : Query E T K) (adjust : Fin E → Option K)
    (st : St E T K Q.Heap) : Prop where
  queue : QueueInv inf q adjust [] st
  pred : PredInv inf q adjust st
  /-- Every seed was offered. -/
  seeds : ∀ s ∈ q.seeds, st.dist s.1 ≤ (s.2 : WithTop K)

/-- **The expansion rule.** What the destination check establishes and every relaxation keeps,
with the invariant at hand, holds after an expansion. -/
theorem expand_rule [AddRightMono K] {P : St E T K Q.Heap → Prop} {x : Entry E K}
    {st : St E T K Q.Heap} {heap : Q.Heap} (hI : Inv inf q adjust st)
    (hp : Q.pop st.heap = some (x, heap)) (hd : st.dist x.e = (x.g : WithTop K))
    (hP : P { st with heap := heap, best := finalize inf (adjust x.e) x.e x.g st.best })
    (hrelax : ∀ s t, (∀ e, s.dist e ≤ inf) → PredInv inf q adjust s → Expanding q x s →
      q.topo.turnInEdge t = x.e → P s → P (relaxTurn Q q x.g s t)) :
    Inv inf q adjust (expand Q inf q adjust x { st with heap := heap }) ∧
      P (expand Q inf q adjust x { st with heap := heap }) := by
  have hxinf : (x.g : WithTop K) < inf :=
    (hI.queue.entry x ((Q.mem_of_pop hp).mpr (Or.inl rfl))).2.2
  have hfold : ∀ (l : List (Fin T)) (s : St E T K Q.Heap), (∀ t ∈ l, q.topo.turnInEdge t = x.e) →
      QueueInv inf q adjust l s → Expanding q x s → PredInv inf q adjust s →
      (∀ s' ∈ q.seeds, s.dist s'.1 ≤ (s'.2 : WithTop K)) → P s →
      Inv inf q adjust (l.foldl (relaxTurn Q q x.g) s) ∧ P (l.foldl (relaxTurn Q q x.g) s) := by
    intro l
    induction l with
    | nil => exact fun s _ hQ _ hpred hseeds hPs => ⟨⟨hQ, hpred, hseeds⟩, hPs⟩
    | cons t l ih =>
      intro s hl hQ hx hpred hseeds hPs
      have ht := hl t List.mem_cons_self
      obtain ⟨hQ', hx'⟩ := hQ.relaxTurn hx ht
      refine ih _ (fun u hu => hl u (List.mem_cons_of_mem t hu)) hQ' hx'
        (hpred.relaxTurn hQ.le_inf hx hxinf ht) ?_ (hrelax s t hQ.le_inf hpred hx ht hPs)
      intro s' hs'
      refine le_trans ?_ (hseeds s' hs')
      rcases relaxTurn_cases (Q := Q) (q := q) x.g s t with ⟨-, hlt, h⟩ | ⟨-, h⟩
      · rw [h, setPred_dist]
        exact relabel_dist_le (q := q) hlt s'.1
      · rw [h]
  obtain ⟨hQ, hx⟩ := hI.queue.pop_live hp hd
  exact hfold _ _ (fun t ht => TurnTopo.mem_turnsFrom.mp ht) hQ hx (hI.pred.pop_live hd hxinf)
    hI.seeds hP

/-- **One iteration keeps the invariant.** -/
theorem inv_step [AddRightMono K] {st st' : St E T K Q.Heap} (hI : Inv inf q adjust st)
    (h : step Q inf q adjust slack st = .go st') : Inv inf q adjust st' := by
  rcases step_cases Q inf q adjust slack st with ⟨-, hs⟩ | ⟨x, heap, hp, hs | hs | hs⟩
  · exact absurd (hs.symm.trans h) (by simp)
  · exact absurd (hs.2.symm.trans h) (by simp)
  · obtain ⟨-, hd, hs⟩ := hs
    obtain rfl := Step.go.inj (hs.symm.trans h)
    exact (expand_rule (P := fun _ => True) hI hp hd trivial fun _ _ _ _ _ _ _ => trivial).1
  · obtain ⟨-, hd, hs⟩ := hs
    obtain rfl := Step.go.inj (hs.symm.trans h)
    exact ⟨hI.queue.pop_stale hp hd, ⟨hI.pred.root, hI.pred.turn, hI.pred.best⟩, hI.seeds⟩

/-- **The seed rule.** What holds of the blank state and every seed keeps holds of the initial
state. -/
theorem initSt_rule {P : St E T K Q.Heap → Prop}
    (h0 : P ⟨fun _ => inf, fun _ => none, Q.empty, none⟩)
    (hseed : ∀ st s, s ∈ q.seeds → P st → P (pushSeed Q q st s)) : P (initSt Q inf q) := by
  unfold initSt
  exact foldl_invariant hseed h0

theorem pushSeed_cases (st : St E T K Q.Heap) (s : Fin E × K) :
    ((s.2 : WithTop K) < st.dist s.1 ∧ pushSeed Q q st s = relabel Q q st s.1 s.2) ∨
      (st.dist s.1 ≤ (s.2 : WithTop K) ∧ pushSeed Q q st s = st) := by
  unfold pushSeed
  by_cases hlt : (s.2 : WithTop K) < st.dist s.1
  · exact Or.inl ⟨hlt, if_pos hlt⟩
  · exact Or.inr ⟨not_lt.mp hlt, if_neg hlt⟩

theorem pushSeed_dist_le (st : St E T K Q.Heap) (s : Fin E × K) (e : Fin E) :
    (pushSeed Q q st s).dist e ≤ st.dist e := by
  rcases pushSeed_cases (Q := Q) (q := q) st s with ⟨hlt, h⟩ | ⟨-, h⟩
  · rw [h]
    exact relabel_dist_le hlt e
  · rw [h]

/-- The seed loop offers every seed. -/
theorem initSt_seeds_le : ∀ s ∈ q.seeds, (initSt Q inf q).dist s.1 ≤ (s.2 : WithTop K) := by
  intro s hs
  unfold initSt
  refine foldl_of_mem (I := fun st : St E T K Q.Heap => st.dist s.1 ≤ (s.2 : WithTop K)) hs
    (fun st => ?_) (fun st s' h => ?_) _
  · rcases pushSeed_cases (Q := Q) (q := q) st s with ⟨-, h⟩ | ⟨hle, h⟩
    · rw [h, relabel_dist_self]
    · rwa [h]
  · exact (pushSeed_dist_le st s' s.1).trans h

/-- **The initial state satisfies the invariant.** -/
theorem inv_initSt : Inv inf q adjust (initSt Q inf q) := by
  have hbase : QueueInv inf q adjust [] (initSt Q inf q) ∧ (initSt Q inf q).best = none ∧
      (∀ e, (initSt Q inf q).pred e = none) ∧
      ∀ e (g : K), (initSt Q inf q).dist e = (g : WithTop K) → (g : WithTop K) < inf →
        (e, g) ∈ q.seeds := by
    refine initSt_rule (P := fun st => QueueInv inf q adjust [] st ∧ st.best = none ∧
      (∀ e, st.pred e = none) ∧ ∀ e (g : K), st.dist e = (g : WithTop K) →
        (g : WithTop K) < inf → (e, g) ∈ q.seeds) ?_ ?_
    · refine ⟨⟨fun _ => le_rfl, ?_, fun e g hd hinf => absurd hd hinf.ne'⟩, rfl, fun _ => rfl,
        fun e g hd hinf => absurd hd hinf.ne'⟩
      intro x hx
      rw [Q.items_empty] at hx
      exact absurd hx (Multiset.notMem_zero x)
    · rintro st s hs ⟨hQ, hb, hp, hr⟩
      rcases pushSeed_cases (Q := Q) (q := q) st s with ⟨hlt, h⟩ | ⟨-, h⟩
      · rw [h]
        refine ⟨hQ.relabel hlt, hb, hp, fun e g hd hinf => ?_⟩
        by_cases he : e = s.1
        · rw [he, relabel_dist_self] at hd
          rw [he, ← WithTop.coe_inj.mp hd]
          exact hs
        · rw [relabel_dist_of_ne st he] at hd
          exact hr e g hd hinf
      · rw [h]
        exact ⟨hQ, hb, hp, hr⟩
  obtain ⟨hQ, hb, hp, hr⟩ := hbase
  refine ⟨hQ, ⟨fun e g hd hinf _ => hr e g hd hinf, fun e t h => ?_, fun e b h => ?_⟩, ?_⟩
  · exact absurd ((hp e).symm.trans h) (by simp)
  · exact absurd (hb.symm.trans h) (by simp)
  · exact initSt_seeds_le

/-- **What the main loop leaves behind.** Every labelled edge is settled, or its `f` is past the
stop bound. -/
structure Exit (inf : WithTop K) (q : Query E T K) (adjust : Fin E → Option K) (slack : K)
    (st : St E T K Q.Heap) : Prop where
  le_inf : ∀ e, st.dist e ≤ inf
  pred : PredInv inf q adjust st
  seeds : ∀ s ∈ q.seeds, st.dist s.1 ≤ (s.2 : WithTop K)
  settled : ∀ e (g : K), st.dist e = (g : WithTop K) → (g : WithTop K) < inf →
    Settled inf q adjust [] st.dist st.best e g ∨ stops st.best slack (g + q.hAt e) = true

/-- A stopping iteration leaves an `Exit` state, when the heap order refines the order of `f`. -/
theorem exit_step (hkey : ∀ x y : Entry E K, key x ≤ key y → x.f ≤ y.f)
    {st r : St E T K Q.Heap} (hI : Inv inf q adjust st)
    (h : step Q inf q adjust slack st = .done r) : Exit inf q adjust slack r := by
  rcases step_cases Q inf q adjust slack st with ⟨hp, hs⟩ | ⟨x, heap, hp, hs | hs | hs⟩
  · obtain rfl := Step.done.inj (hs.symm.trans h)
    refine ⟨hI.queue.le_inf, hI.pred, hI.seeds, fun e g hd hinf => Or.inl ?_⟩
    refine (hI.queue.live e g hd hinf).resolve_left fun hm => ?_
    rw [Q.pop_none _ hp] at hm
    exact Multiset.notMem_zero _ hm
  · obtain ⟨hstop, hs⟩ := hs
    obtain rfl := Step.done.inj (hs.symm.trans h)
    refine ⟨hI.queue.le_inf, ⟨hI.pred.root, hI.pred.turn, hI.pred.best⟩, hI.seeds,
      fun e g hd hinf => ?_⟩
    rcases hI.queue.live e g hd hinf with hm | hs
    · -- the entries left in the heap have no smaller `f` than the one that stopped the loop
      obtain ⟨e', b, hb, hlt⟩ := stops_eq_true.mp hstop
      exact Or.inr (stops_eq_true.mpr
        ⟨e', b, hb, hlt.trans_le (hkey _ _ (Q.pop_min _ _ _ hp _ hm))⟩)
    · exact Or.inl hs
  · exact absurd (hs.2.2.symm.trans h) (by simp)
  · exact absurd (hs.2.2.symm.trans h) (by simp)

/-- **Partial correctness of the main loop.** -/
theorem exit_loop [AddRightMono K] (hkey : ∀ x y : Entry E K, key x ≤ key y → x.f ≤ y.f) {fuel : ℕ}
    {r : St E T K Q.Heap}
    (h : loop (step Q inf q adjust slack) fuel (initSt Q inf q) = some r) :
    Exit inf q adjust slack r :=
  loop_invariant (fun _ _ => inv_step) (fun _ _ => exit_step hkey) inv_initSt h

/-! ## Walking back along `pred` -/

omit [Zero K] in
/-- A recorded walk to a labelled edge is allowed, starts at a labelled edge and explains the
label. -/
theorem PredInv.walk [AddRightMono K] {st : St E T K Q.Heap} (hI : PredInv inf q adjust st)
    {a b : Fin E} {ts : List (Fin T)} (hw : (predGraph q.topo st.pred).IsWalk a ts b) {g : K}
    (hd : st.dist b = (g : WithTop K)) (hinf : (g : WithTop K) < inf) :
    q.topo.graph.IsWalk a ts b ∧ ∃ g0 : K, st.dist a = (g0 : WithTop K) ∧
      (g0 : WithTop K) < inf ∧ ArcGraph.label q.arcCost g0 ts ≤ g := by
  induction ts generalizing a with
  | nil =>
    obtain rfl : a = b := hw
    exact ⟨rfl, g, hd, hinf, le_rfl⟩
  | cons t ts ih =>
    obtain ⟨hp, hsrc, hw⟩ := hw
    obtain ⟨hw', g1, hg1, -, hle1⟩ := ih hw
    obtain ⟨hok, -, -, g0, hg0, hinf0, hle0⟩ := hI.turn _ t hp
    refine ⟨⟨hok, hsrc, hw'⟩, g0, ?_, hinf0, ?_⟩
    · rw [← hg0]
      exact congrArg st.dist hsrc.symm
    · have hle : g0 + q.arcCost t ≤ g1 := WithTop.coe_le_coe.mp (hle0.trans_eq hg1)
      exact (ArcGraph.label_mono q.arcCost hle ts).trans hle1

omit [LinearOrder K] [Add K] [Zero K] [LinearOrder κ] in
/-- **Reconstruction** ends at an edge without a recorded turn, after a recorded walk. -/
theorem trace_sound {topo : TurnTopo E T} {pred : Fin E → Option (Fin T)}
    (hout : ∀ e t, pred e = some t → topo.turnOutEdge t = e) {b : Fin E} {fuel : ℕ}
    {s : Fin E × List (Fin T)} (h : loop (traceStep topo pred) fuel (b, []) = some s) :
    pred s.1 = none ∧ (predGraph topo pred).IsWalk s.1 s.2 b := by
  refine loop_invariant (I := fun s => (predGraph topo pred).IsWalk s.1 s.2 b)
    (Q := fun s => pred s.1 = none ∧ (predGraph topo pred).IsWalk s.1 s.2 b) ?_ ?_ ?_ h
  · intro s s' hw hs
    unfold traceStep at hs
    split at hs
    · exact absurd hs (by simp)
    · rename_i t ht
      obtain rfl := Step.go.inj hs
      have hdst := hout _ t ht
      refine ⟨(congrArg pred hdst).trans ht, rfl, ?_⟩
      change (predGraph topo pred).IsWalk (topo.turnOutEdge t) s.2 b
      rw [hdst]
      exact hw
  · intro s r hw hs
    unfold traceStep at hs
    split at hs
    · rename_i hnone
      obtain rfl := Step.done.inj hs
      exact ⟨hnone, hw⟩
    · exact absurd hs (by simp)
  · exact ArcGraph.isWalk_nil.mpr rfl

omit [LinearOrder K] [Add K] [Zero K] [LinearOrder κ] in
/-- **The result**: nothing without a best edge, else a recorded walk to it that starts where no
turn is recorded. -/
theorem readResult_cases {topo : TurnTopo E T} {pred : Fin E → Option (Fin T)}
    (hout : ∀ e t, pred e = some t → topo.turnOutEdge t = e) {best : Option (Fin E × K)}
    {fuel : ℕ} {r : Option (PathResult E T K)} (h : readResult topo fuel pred best = some r) :
    (best = none ∧ r = none) ∨ ∃ p, r = some p ∧ best = some (p.destEdge, p.totalCost) ∧
      pred p.firstEdge = none ∧ (predGraph topo pred).IsWalk p.firstEdge p.turnIds p.destEdge := by
  unfold readResult at h
  cases best with
  | none => exact Or.inl ⟨rfl, (Option.some.inj h).symm⟩
  | some b =>
    obtain ⟨s, hs, hr⟩ := Option.map_eq_some_iff.mp h
    obtain ⟨hnone, hw⟩ := trace_sound hout hs
    exact Or.inr ⟨_, hr.symm, rfl, hnone, hw⟩

/-- **Soundness of a result**, for any arc costs: the walk is allowed, leads from a seed edge to a
destination edge, and its label plus the adjustment is at most the reported total. -/
theorem Exit.result_sound [AddRightMono K] {st : St E T K Q.Heap}
    (hX : Exit inf q adjust slack st) {fuel : ℕ} {r : PathResult E T K}
    (h : readResult q.topo fuel st.pred st.best = some (some r)) :
    ∃ g a, IsRoute q r.firstEdge g r.turnIds r.destEdge ∧ adjust r.destEdge = some a ∧
      ArcGraph.label q.arcCost g r.turnIds + a ≤ r.totalCost ∧
      st.best = some (r.destEdge, r.totalCost) := by
  rcases readResult_cases (fun e t ht => (hX.pred.turn e t ht).2.1) h with
    ⟨-, hr⟩ | ⟨p, hp, hb, hroot, hw⟩
  · cases hr
  · obtain rfl := Option.some.inj hp
    obtain ⟨a, g, ha, hg, hinf, hle⟩ := hX.pred.best _ _ hb
    obtain ⟨hw', g0, hg0, hinf0, hle0⟩ := hX.pred.walk hw hg hinf
    exact ⟨g0, a, ⟨hX.pred.root _ g0 hg0 hinf0 hroot, hw'⟩, ha,
      (add_le_add_left hle0 a).trans hle, hb⟩

end RoutePlanner.Search
