import Mathlib.Algebra.Order.Group.Defs
import Mathlib.Algebra.Order.Monoid.WithTop
import Mathlib.Logic.Relation

/-!
# The tree of a label-correcting search

A search that always takes the open vertex of least priority, `dist + h`, where `h` is anything. A
vertex may be given a smaller label after labels were derived from it; the arcs out of it in the
tree are then stale until it is taken again.

`Tree` is what holds all along. A vertex is watched up to a bound: an open one up to its own
priority, the best target so far up to where the search stops.

* `Tree.relabel`: a label derived from the vertex being expanded keeps it.
* `Tree.front`: the vertex that is taken has no stale arc on its chain.
* `Tree.rooted_of_best`: where nothing is open below the bound, the best target has none either.

Arc costs are non-negative. Nothing is assumed of `h`.
-/

namespace RoutePlanner.Lib

/-- The cost found for each vertex, and the last arc of the way it was found by. -/
structure Labels (V A K : Type*) where
  dist : V → WithTop K
  pred : V → Option A

namespace Labels

variable {V A K : Type*} [AddCommGroup K] [LinearOrder K] (src : A → V) (cost : A → K) (h : V → K)
  (L : Labels V A K)

/-- The label of `c` is the one derived from the label of `w`. -/
def Link (w c : V) : Prop := ∃ t, L.pred c = some t ∧ src t = w ∧ L.dist w + cost t = L.dist c

/-- The arc into `c` would give it a smaller label now. -/
def Stale (t : A) (c : V) : Prop := L.pred c = some t ∧ L.dist (src t) + cost t < L.dist c

/-- `p` is on the way to `y`, back to the first stale arc. -/
abbrev OnChain : V → V → Prop := Relation.ReflTransGen (L.Link src cost)

/-- No arc on the way to `y` is stale. -/
def Rooted (y : V) : Prop := ∀ c t, L.OnChain src cost c y → ¬ L.Stale src cost t c

def prio (e : V) : WithTop K := L.dist e + h e

/-- Each label is at least the one its arc would give. -/
structure Explained : Prop where
  le : ∀ c t, L.pred c = some t → L.dist (src t) + cost t ≤ L.dist c
  finite : ∀ c t, L.pred c = some t → L.dist c ≠ ⊤
  nonneg : ∀ c t, L.pred c = some t → 0 ≤ cost t

/-- The label of `w` derived along `t`. -/
def relabel [DecidableEq V] (w : V) (t : A) : Labels V A K :=
  ⟨Function.update L.dist w (L.dist (src t) + cost t), Function.update L.pred w (some t)⟩

/-- `y` is watched up to `β`. -/
def Watch (live : V → Prop) (best : Option (V × WithTop K)) (y : V) (β : WithTop K) : Prop :=
  (live y ∧ β = L.prio h y) ∨ best = some (y, β)

/-- **The invariant.** -/
structure Tree (live : V → Prop) (best : Option (V × WithTop K)) : Prop where
  explained : L.Explained src cost
  best_le : ∀ b β, best = some (b, β) → L.prio h b ≤ β
  /-- A stale arc on a watched chain comes from an open vertex below the bound. -/
  stale : ∀ y β, L.Watch h live best y β → ∀ c t, L.OnChain src cost c y →
    L.Stale src cost t c → live (src t) ∧ L.prio h (src t) < β
  /-- Where a watched chain and the chain of an open vertex part, one of the two ends is no nearer
  than the vertices of the first. -/
  order : ∀ y β, L.Watch h live best y β → ∀ q, live q → L.Rooted src cost q → ∀ p,
    L.OnChain src cost p y → ¬ L.OnChain src cost p q → L.prio h p ≤ max β (L.prio h q)

/-- While `z` is expanded: it was the nearest, but for the vertices labelled from it. -/
structure Front (live : V → Prop) (best : Option (V × WithTop K)) (z : V) : Prop where
  open_self : live z
  rooted : L.Rooted src cost z
  least : ∀ y β, L.Watch h live best y β → L.prio h z ≤ β ∨ L.Link src cost z y

variable {src cost h L}

theorem Watch.prio_le {live : V → Prop} {best : Option (V × WithTop K)} {y : V} {β : WithTop K}
    (hbest : ∀ b β, best = some (b, β) → L.prio h b ≤ β) (hw : L.Watch h live best y β) :
    L.prio h y ≤ β := by
  rcases hw with ⟨-, rfl⟩ | hb
  · exact le_rfl
  · exact hbest y β hb

omit [LinearOrder K] in
/-- The last step of a chain. -/
theorem OnChain.cases_last {p y : V} (hp : L.OnChain src cost p y) {t : A}
    (hpred : L.pred y = some t) : p = y ∨ L.OnChain src cost p (src t) := by
  rcases hp.cases_tail with rfl | ⟨b, hpb, t', ht', rfl, -⟩
  · exact Or.inl rfl
  · rw [hpred, Option.some.injEq] at ht'
    exact Or.inr (ht' ▸ hpb)

/-- Labels grow along a chain. -/
theorem Explained.dist_le [IsOrderedAddMonoid K] (hE : L.Explained src cost) {p y : V}
    (hp : L.OnChain src cost p y) : L.dist p ≤ L.dist y := by
  induction hp with
  | refl => exact le_rfl
  | tail _ hlink ih =>
    obtain ⟨t, hpred, rfl, heq⟩ := hlink
    refine ih.trans (le_of_le_of_eq ?_ heq)
    exact le_add_of_nonneg_right (WithTop.coe_nonneg.mpr (hE.nonneg _ t hpred))

section Relabel

variable [DecidableEq V] {w : V} {t : A} (hE : L.Explained src cost) (hcost : 0 ≤ cost t)
  (hlt : L.dist (src t) + cost t < L.dist w)

omit [LinearOrder K] in
@[simp] theorem relabel_dist_self : (L.relabel src cost w t).dist w = L.dist (src t) + cost t :=
  Function.update_self ..

omit [LinearOrder K] in
theorem relabel_dist_of_ne {e : V} (he : e ≠ w) : (L.relabel src cost w t).dist e = L.dist e :=
  Function.update_of_ne he ..

omit [LinearOrder K] in
@[simp] theorem relabel_pred_self : (L.relabel src cost w t).pred w = some t :=
  Function.update_self ..

omit [LinearOrder K] in
theorem relabel_pred_of_ne {e : V} (he : e ≠ w) : (L.relabel src cost w t).pred e = L.pred e :=
  Function.update_of_ne he ..

omit [LinearOrder K] in
theorem relabel_prio_of_ne {e : V} (he : e ≠ w) :
    (L.relabel src cost w t).prio h e = L.prio h e := by
  unfold prio
  rw [relabel_dist_of_ne he]

include hlt

theorem relabel_dist_le (e : V) : (L.relabel src cost w t).dist e ≤ L.dist e := by
  by_cases he : e = w
  · subst he
    rw [relabel_dist_self]
    exact hlt.le
  · rw [relabel_dist_of_ne he]

variable [IsOrderedAddMonoid K]

theorem relabel_prio_lt : (L.relabel src cost w t).prio h w < L.prio h w := by
  unfold prio
  rw [relabel_dist_self]
  exact WithTop.add_lt_add_right WithTop.coe_ne_top hlt

include hcost

omit [DecidableEq V] in
/-- The vertex being expanded is not on its own way. -/
theorem lt_of_relabel : L.dist (src t) < L.dist w :=
  lt_of_le_of_lt (le_add_of_nonneg_right (WithTop.coe_nonneg.mpr hcost)) hlt

omit [DecidableEq V] in
theorem src_ne : src t ≠ w := fun heq => (heq ▸ lt_of_relabel hcost hlt).false

theorem link_relabel : (L.relabel src cost w t).Link src cost (src t) w :=
  ⟨t, relabel_pred_self, rfl, by
    rw [relabel_dist_of_ne (src_ne hcost hlt), relabel_dist_self]⟩

include hE

/-- Everything derived from the old label of `w` is stale. -/
theorem not_link_relabel {c : V} : ¬ (L.relabel src cost w t).Link src cost w c := by
  rintro ⟨u, hpred, hsrc, heq⟩
  by_cases hc : c = w
  · subst hc
    rw [relabel_pred_self, Option.some.injEq] at hpred
    rw [← hpred] at hsrc
    exact src_ne hcost hlt hsrc
  · rw [relabel_pred_of_ne hc] at hpred
    rw [relabel_dist_of_ne hc, relabel_dist_self] at heq
    have hle := hE.le c u hpred
    rw [hsrc, ← heq] at hle
    exact (WithTop.add_lt_add_right (WithTop.coe_ne_top (a := cost u)) hlt).not_ge hle

/-- A chain to another vertex is a part of the old one, without `w`. -/
theorem onChain_of_relabel {p y : V} (hy : y ≠ w)
    (hp : (L.relabel src cost w t).OnChain src cost p y) :
    L.OnChain src cost p y ∧ p ≠ w := by
  induction hp with
  | refl => exact ⟨.refl, hy⟩
  | tail _ hlink ih =>
    rename_i b c _
    have hb : b ≠ w := by
      rintro rfl
      exact not_link_relabel hE hcost hlt hlink
    obtain ⟨hchain, hpw⟩ := ih hb
    obtain ⟨u, hpred, rfl, heq⟩ := hlink
    rw [relabel_pred_of_ne hy] at hpred
    rw [relabel_dist_of_ne hy, relabel_dist_of_ne hb] at heq
    exact ⟨hchain.tail ⟨u, hpred, rfl, heq⟩, hpw⟩

/-- A chain without stale arcs is still there. -/
theorem onChain_relabel {p q : V} (hq : q ≠ w)
    (hroot : (L.relabel src cost w t).Rooted src cost q) (hp : L.OnChain src cost p q) :
    (L.relabel src cost w t).OnChain src cost p q := by
  induction hp using Relation.ReflTransGen.head_induction_on with
  | refl => exact .refl
  | head hlink _ ih =>
    rename_i p c _
    have hc := (onChain_of_relabel hE hcost hlt hq ih).2
    obtain ⟨u, hpred, rfl, heq⟩ := hlink
    have hpred' : (L.relabel src cost w t).pred c = some u := (relabel_pred_of_ne hc).trans hpred
    have hdist : (L.relabel src cost w t).dist c = L.dist c := relabel_dist_of_ne hc
    have hle : (L.relabel src cost w t).dist (src u) + cost u ≤
        (L.relabel src cost w t).dist c := by
      rw [hdist, ← heq]
      exact add_le_add_left (relabel_dist_le hlt _) _
    refine Relation.ReflTransGen.head ⟨u, hpred', rfl, hle.antisymm ?_⟩ ih
    exact not_lt.mp fun hstale => hroot c u ih ⟨hpred', hstale⟩

/-- A chain without stale arcs had none before. -/
theorem rooted_of_relabel {q : V} (hq : q ≠ w)
    (hroot : (L.relabel src cost w t).Rooted src cost q) : L.Rooted src cost q := by
  rintro c u hc ⟨hpred, hstale⟩
  have hc' := onChain_relabel hE hcost hlt hq hroot hc
  have hcw := (onChain_of_relabel hE hcost hlt hq hc').2
  refine hroot c u hc' ⟨(relabel_pred_of_ne hcw).trans hpred, ?_⟩
  rw [relabel_dist_of_ne hcw]
  exact (add_le_add_left (relabel_dist_le hlt _) _).trans_lt hstale

/-- The chain of the vertex being expanded stays without stale arcs. -/
theorem rooted_src (hroot : L.Rooted src cost (src t)) :
    (L.relabel src cost w t).Rooted src cost (src t) := by
  rintro c u hc ⟨hpred, hstale⟩
  obtain ⟨hold, hcw⟩ := onChain_of_relabel hE hcost hlt (src_ne hcost hlt) hc
  rw [relabel_pred_of_ne hcw] at hpred
  rw [relabel_dist_of_ne hcw] at hstale
  have heq : L.dist (src u) + cost u = L.dist c :=
    (hE.le c u hpred).antisymm (not_lt.mp fun hlt' => hroot c u hold ⟨hpred, hlt'⟩)
  have hu : src u ≠ w := by
    intro hu
    have hle := hE.dist_le (Relation.ReflTransGen.head ⟨u, hpred, rfl, heq⟩ hold)
    rw [hu] at hle
    exact (lt_of_relabel hcost hlt).not_ge hle
  rw [relabel_dist_of_ne hu, heq] at hstale
  exact hstale.false

theorem explained_relabel : (L.relabel src cost w t).Explained src cost := by
  refine ⟨fun c u hpred => ?_, fun c u hpred => ?_, fun c u hpred => ?_⟩ <;> by_cases hc : c = w
  · subst hc
    rw [relabel_pred_self, Option.some.injEq] at hpred
    rw [← hpred, relabel_dist_self, relabel_dist_of_ne (src_ne hcost hlt)]
  · rw [relabel_pred_of_ne hc] at hpred
    rw [relabel_dist_of_ne hc]
    exact (add_le_add_left (relabel_dist_le hlt _) _).trans (hE.le c u hpred)
  · subst hc
    rw [relabel_dist_self]
    exact (hlt.trans_le le_top).ne
  · rw [relabel_pred_of_ne hc] at hpred
    rw [relabel_dist_of_ne hc]
    exact hE.finite c u hpred
  · subst hc
    rw [relabel_pred_self, Option.some.injEq] at hpred
    rwa [← hpred]
  · rw [relabel_pred_of_ne hc] at hpred
    exact hE.nonneg c u hpred

end Relabel

/-! ## The steps of a search -/

variable {live live' : V → Prop} {best : Option (V × WithTop K)}

/-- **The vertex that is taken** has no stale arc on its chain: its source would have been
nearer. -/
theorem Tree.front (hT : L.Tree src cost h live best) {z : V} (hz : live z)
    (hmin : ∀ y, live y → L.prio h z ≤ L.prio h y)
    (hbest : ∀ b β, best = some (b, β) → L.prio h z ≤ β) : L.Front src cost h live best z := by
  refine ⟨hz, fun c t hc hstale => ?_, ?_⟩
  · obtain ⟨hopen, hlt⟩ := hT.stale z _ (Or.inl ⟨hz, rfl⟩) c t hc hstale
    exact hlt.not_ge (hmin _ hopen)
  · rintro y β (⟨hy, rfl⟩ | hb)
    · exact Or.inl (hmin y hy)
    · exact Or.inl (hbest y β hb)

/-- The vertex that is taken becomes the best target. -/
theorem Tree.retarget (hT : L.Tree src cost h live best) {z : V}
    (hF : L.Front src cost h live best z) {β : WithTop K} (hβ : L.prio h z ≤ β) :
    L.Tree src cost h live (some (z, β)) ∧ L.Front src cost h live (some (z, β)) z := by
  have hself : L.Watch h live best z (L.prio h z) := Or.inl ⟨hF.open_self, rfl⟩
  refine ⟨⟨hT.explained, ?_, ?_, ?_⟩, hF.open_self, hF.rooted, ?_⟩
  · rintro b β' hb
    obtain ⟨rfl, rfl⟩ := Prod.mk.inj (Option.some.inj hb)
    exact hβ
  · rintro y β' (hy | hb) c t hc hstale
    · exact hT.stale y β' (Or.inl hy) c t hc hstale
    · obtain ⟨rfl, rfl⟩ := Prod.mk.inj (Option.some.inj hb)
      exact absurd hstale (hF.rooted c t hc)
  · rintro y β' (hy | hb) q hq hroot p hp hpq
    · exact hT.order y β' (Or.inl hy) q hq hroot p hp hpq
    · obtain ⟨rfl, rfl⟩ := Prod.mk.inj (Option.some.inj hb)
      exact (hT.order z _ hself q hq hroot p hp hpq).trans (max_le_max_right _ hβ)
  · rintro y β' (hy | hb)
    · exact hF.least y β' (Or.inl hy)
    · obtain ⟨rfl, rfl⟩ := Prod.mk.inj (Option.some.inj hb)
      exact Or.inl hβ

/-- A vertex without stale arcs out of it may be closed. -/
theorem Tree.close (hT : L.Tree src cost h live best) {z : V}
    (hsub : ∀ e, live' e → live e) (hkeep : ∀ e, live e → e ≠ z → live' e)
    (hz : live' z ∨ ∀ c t, src t = z → ¬ L.Stale src cost t c) :
    L.Tree src cost h live' best := by
  have hwatch : ∀ {y β}, L.Watch h live' best y β → L.Watch h live best y β :=
    fun hw => hw.imp_left fun hy => ⟨hsub _ hy.1, hy.2⟩
  refine ⟨hT.explained, hT.best_le, fun y β hw c t hc hstale => ?_,
    fun y β hw q hq => hT.order y β (hwatch hw) q (hsub q hq)⟩
  obtain ⟨hopen, hlt⟩ := hT.stale y β (hwatch hw) c t hc hstale
  refine ⟨?_, hlt⟩
  by_cases hsrc : src t = z
  · rcases hz with hz | hno
    · rwa [hsrc]
    · exact absurd hstale (hno c t hsrc)
  · exact hkeep _ hopen hsrc

/-- Where nothing is open below the bound, the best target has no stale arc on its chain. -/
theorem Tree.rooted_of_best (hT : L.Tree src cost h live best) {b : V} {β : WithTop K}
    (hb : best = some (b, β)) (hno : ∀ y, live y → β ≤ L.prio h y) : L.Rooted src cost b := by
  intro c t hc hstale
  obtain ⟨hopen, hlt⟩ := hT.stale b β (Or.inr hb) c t hc hstale
  exact hlt.not_ge (hno _ hopen)

omit [LinearOrder K] in
/-- A vertex labelled from another hangs right under it. -/
theorem Link.chain_cases {z p y : V} (hlink : L.Link src cost z y) (hp : L.OnChain src cost p y) :
    p = y ∨ L.OnChain src cost p z := by
  obtain ⟨u, hpred, hsrc, -⟩ := hlink
  exact hsrc ▸ OnChain.cases_last hp hpred

section Relabel

variable [DecidableEq V] (hT : L.Tree src cost h live best) {w : V} {t : A}
  (hF : L.Front src cost h live best (src t)) (hcost : 0 ≤ cost t)
  (hlt : L.dist (src t) + cost t < L.dist w)

omit [LinearOrder K] in
/-- A vertex other than the relabelled one is watched as before. -/
theorem Watch.of_relabel {y : V} {β : WithTop K} (hy : y ≠ w)
    (hw : (L.relabel src cost w t).Watch h (fun e => live e ∨ e = w) best y β) :
    L.Watch h live best y β := by
  rcases hw with ⟨hlive, rfl⟩ | hb
  · exact Or.inl ⟨hlive.resolve_right hy, relabel_prio_of_ne hy⟩
  · exact Or.inr hb

include hT hlt

variable [IsOrderedAddMonoid K]

theorem Tree.relabel_best_le {b : V} {β : WithTop K} (hb : best = some (b, β)) :
    (L.relabel src cost w t).prio h b ≤ β :=
  (add_le_add_left (relabel_dist_le hlt b) _).trans (hT.best_le b β hb)

include hcost

omit [DecidableEq V] in
theorem Tree.not_onChain_src : ¬ L.OnChain src cost w (src t) := fun hw =>
  (lt_of_relabel hcost hlt).not_ge (hT.explained.dist_le hw)

include hF

omit [DecidableEq V] in
/-- A vertex that is relabelled was no farther than the bound of the chains it was on. -/
theorem Tree.prio_le_of_onChain {y : V} {β : WithTop K} (hw : L.Watch h live best y β)
    (hy : y ≠ w) (hwy : L.OnChain src cost w y) : L.prio h w ≤ β := by
  have hwz := hT.not_onChain_src hcost hlt
  have hmax := hT.order y β hw _ hF.open_self hF.rooted w hwy hwz
  rcases hF.least y β hw with hz | hlink
  · rwa [max_eq_left hz] at hmax
  · rcases hlink.chain_cases hwy with hwy | hwy
    · exact absurd hwy.symm hy
    · exact absurd hwy hwz

/-- Stale arcs of a watched chain after a relabelling. -/
theorem Tree.relabel_stale {y : V} {β : WithTop K}
    (hw : (L.relabel src cost w t).Watch h (fun e => live e ∨ e = w) best y β) {c : V} {u : A}
    (hc : (L.relabel src cost w t).OnChain src cost c y)
    (hst : (L.relabel src cost w t).Stale src cost u c) :
    (live (src u) ∨ src u = w) ∧ (L.relabel src cost w t).prio h (src u) < β := by
  have hE := hT.explained
  have hprio := relabel_prio_lt (h := h) hlt
  obtain ⟨hpred, hstale⟩ := hst
  by_cases hy : y = w
  · -- the chain of `w` is that of the vertex being expanded
    subst hy
    rcases OnChain.cases_last hc relabel_pred_self with rfl | hc
    · obtain ⟨u', hpred', hsrc, heq⟩ := link_relabel hcost hlt
      rw [hpred, Option.some.injEq] at hpred'
      rw [hpred', hsrc, heq] at hstale
      exact absurd hstale (lt_irrefl _)
    · exact absurd ⟨hpred, hstale⟩ (rooted_src hE hcost hlt hF.rooted c u hc)
  · have hw' := hw.of_relabel hy
    obtain ⟨hold, hcw⟩ := onChain_of_relabel hE hcost hlt hy hc
    rw [relabel_pred_of_ne hcw] at hpred
    rw [relabel_dist_of_ne hcw] at hstale
    by_cases hu : src u = w
    · refine ⟨Or.inr hu, ?_⟩
      rw [hu]
      rcases (hE.le c u hpred).lt_or_eq with hwas | heq
      · have hbelow := (hT.stale y β hw' c u hold ⟨hpred, hwas⟩).2
        rw [hu] at hbelow
        exact hprio.trans hbelow
      · have hlink : L.Link src cost w c := ⟨u, hpred, hu, hu ▸ heq⟩
        exact hprio.trans_le (hT.prio_le_of_onChain hF hcost hlt hw' hy
          (Relation.ReflTransGen.head hlink hold))
    · rw [relabel_dist_of_ne hu] at hstale
      obtain ⟨hopen, hbelow⟩ := hT.stale y β hw' c u hold ⟨hpred, hstale⟩
      rw [relabel_prio_of_ne hu]
      exact ⟨Or.inl hopen, hbelow⟩

/-- Where two chains part, after a relabelling. -/
theorem Tree.relabel_order {y : V} {β : WithTop K}
    (hw : (L.relabel src cost w t).Watch h (fun e => live e ∨ e = w) best y β) {q : V}
    (hq : live q ∨ q = w) (hqroot : (L.relabel src cost w t).Rooted src cost q) {p : V}
    (hp : (L.relabel src cost w t).OnChain src cost p y)
    (hpq : ¬ (L.relabel src cost w t).OnChain src cost p q) :
    (L.relabel src cost w t).prio h p ≤ max β ((L.relabel src cost w t).prio h q) := by
  have hE := hT.explained
  have hz := src_ne hcost hlt
  by_cases hpw : p = w
  · subst hpw
    have hy : y = p := by
      by_contra hy
      exact (onChain_of_relabel hE hcost hlt hy hp).2 rfl
    rw [hy] at hw
    exact (hw.prio_le fun b β hb => hT.relabel_best_le hlt hb).trans (le_max_left _ _)
  rw [relabel_prio_of_ne hpw]
  by_cases hy : y = w
  · -- `p` is on the chain of the vertex being expanded, which is no farther than `q`
    subst hy
    have hpz := (OnChain.cases_last hp relabel_pred_self).resolve_left hpw
    have hqy : q ≠ y := by
      rintro rfl
      exact hpq (hpz.tail (link_relabel hcost hlt))
    rw [relabel_prio_of_ne hqy]
    have hold := (onChain_of_relabel hE hcost hlt hz hpz).1
    have hpq' : ¬ L.OnChain src cost p q := mt (onChain_relabel hE hcost hlt hqy hqroot) hpq
    have hlive := hq.resolve_right hqy
    have hmax := hT.order (src t) _ (Or.inl ⟨hF.open_self, rfl⟩) q hlive
      (rooted_of_relabel hE hcost hlt hqy hqroot) p hold hpq'
    rcases hF.least q _ (Or.inl ⟨hlive, rfl⟩) with hle | hlink
    · rw [max_eq_right hle] at hmax
      exact hmax.trans (le_max_right _ _)
    · exact absurd (hold.tail hlink) hpq'
  · have hw' := hw.of_relabel hy
    have hold := (onChain_of_relabel hE hcost hlt hy hp).1
    by_cases hqw : q = w
    · -- the chain of `q` is that of the vertex being expanded, which is no farther than the bound
      subst hqw
      have hpz : ¬ L.OnChain src cost p (src t) := fun hpz =>
        hpq ((onChain_relabel hE hcost hlt hz (rooted_src hE hcost hlt hF.rooted) hpz).tail
          (link_relabel hcost hlt))
      refine le_trans ?_ (le_max_left _ _)
      rcases hF.least y β hw' with hle | hlink
      · have hmax := hT.order y β hw' _ hF.open_self hF.rooted p hold hpz
        rwa [max_eq_left hle] at hmax
      · rcases hlink.chain_cases hold with rfl | hpz'
        · exact hw'.prio_le hT.best_le
        · exact absurd hpz' hpz
    · rw [relabel_prio_of_ne hqw]
      exact hT.order y β hw' q (hq.resolve_right hqw)
        (rooted_of_relabel hE hcost hlt hqw hqroot) p hold
        (mt (onChain_relabel hE hcost hlt hqw hqroot) hpq)

/-- The vertex being expanded is still the nearest, but for those labelled from it. -/
theorem Tree.relabel_front :
    (L.relabel src cost w t).Front src cost h (fun e => live e ∨ e = w) best (src t) := by
  refine ⟨Or.inl hF.open_self, rooted_src hT.explained hcost hlt hF.rooted, fun y β hw => ?_⟩
  by_cases hy : y = w
  · subst hy
    exact Or.inr (link_relabel hcost hlt)
  · rw [relabel_prio_of_ne (src_ne hcost hlt)]
    refine (hF.least y β (hw.of_relabel hy)).imp_right ?_
    rintro ⟨u, hpred, hsrc, heq⟩
    refine ⟨u, (relabel_pred_of_ne hy).trans hpred, hsrc, ?_⟩
    rw [relabel_dist_of_ne (src_ne hcost hlt), relabel_dist_of_ne hy]
    exact heq

/-- **A label derived from the vertex being expanded keeps the invariant.** -/
theorem Tree.relabel :
    (L.relabel src cost w t).Tree src cost h (fun e => live e ∨ e = w) best :=
  ⟨explained_relabel hT.explained hcost hlt, fun _ _ hb => hT.relabel_best_le hlt hb,
    fun _ _ hw _ _ hc hst => hT.relabel_stale hF hcost hlt hw hc hst,
    fun _ _ hw _ hq hqroot _ hp hpq => hT.relabel_order hF hcost hlt hw hq hqroot hp hpq⟩

end Relabel

end Labels

end RoutePlanner.Lib
