import RoutePlanner.Planner.Ceiling

/-!
# Replaying the preference of a route labelled safe

`reroute` under the preference of a route labelled safe searches as the safe slot did, without its
reruns and without the budget filter, so it returns what the slot proposed. The route labelled safe
may be another one: what the reruns led to, or the balanced slot's, where the safe slot's was
dropped as a duplicate or for the budget.

* `shown_of_reruns`, `shown_of_balanced`: which route carries the label.
* `computeSingle_eq_candidate`: what the replay returns.
* `reroute_replays`: exactly when the replay has no more counted turns than the artifact, and in
  terms of walks when it is bound to.
-/

namespace RoutePlanner.Planner

open RoutePlanner.Lib RoutePlanner.Search

variable {E T : ℕ} {K : Type} [Field K] [LinearOrder K] {Departure : Type} {pack : Pack E T K}

section Slot

variable {run : Run E T K} {cfg : AltCfg K} {pl : Endpoints pack} {b : K}

/-- The safe slot of a sweep: the state it finds, its search's answer, its proposal with the arc
costs its reruns inflate, and the route these end with. -/
structure SafeSlot (run : Run E T K) (cfg : AltCfg K) (pl : Endpoints pack) (b : K)
    (s : Sweep E T K) (w cand : PathResult E T K) (ac : Fin T → K) (result : PathResult E T K) :
    Prop where
  before : afterBalanced run cfg pl b = some s
  found : runOn run pl (pl.qc.arcCost cfg.lambdaSafe) = some (some w)
  candidate : slotCandidate run cfg pl .safe cfg.lambdaSafe
    (s.fastTimeS.getD (pl.travelTimeS w)) b w = some (cand, ac)
  rerun : diversify run cfg pl s.kept cfg.maxReruns cand ac = some result

/-- The safe slot's route is kept, and is within the budget. -/
def ShowsReruns (cfg : AltCfg K) (pl : Endpoints pack) (b : K) (s : Sweep E T K)
    (w cand result : PathResult E T K) : Prop :=
  Admitted cfg pl s.kept cand result ∧
    pl.travelTimeS result ≤ (1 + b) * s.fastTimeS.getD (pl.travelTimeS w)

/-- A route has no more counted turns than the one shown in the safe slot's place: that of the
reruns or, where they are not shown, the balanced slot's. -/
def SafeAsShown (cfg : AltCfg K) (pl : Endpoints pack) (b : K) (s : Sweep E T K)
    (w cand result r : PathResult E T K) : Prop :=
  (ShowsReruns cfg pl b s w cand result → pl.qc.unsafeCount r ≤ pl.qc.unsafeCount result) ∧
  (¬ ShowsReruns cfg pl b s w cand result → ∀ a ∈ s.kept, a.kind = .balanced →
    pl.qc.unsafeCount r ≤ pl.qc.unsafeCount a.result)

/-- The first slot keeps one route, the second at most one more. -/
theorem afterBalanced_kept {s : Sweep E T K} {first : PathResult E T K}
    (hfirst : runOn run pl (pl.qc.arcCost cfg.lambdaFast) = some (some first))
    (h : afterBalanced run cfg pl b = some s) :
    s.kept = [⟨.fast, cfg.lambdaFast, first⟩] ∨
      ∃ r, s.kept = [⟨.fast, cfg.lambdaFast, first⟩, ⟨.balanced, cfg.lambdaBalanced, r⟩] := by
  unfold afterBalanced at h
  simp only [List.foldlM_cons, List.foldlM_nil] at h
  obtain ⟨s1, hs1, h⟩ := Option.bind_eq_some_iff.mp h
  obtain ⟨s2, hs2, h⟩ := Option.bind_eq_some_iff.mp h
  obtain rfl : s2 = s := Option.some.inj h
  have hhead := (led_of_fast hfirst hs1).head
  have hone : s1.kept = [⟨.fast, cfg.lambdaFast, first⟩] := by
    rcases sweepSlot_cases hs1 with ⟨-, rfl⟩ | ⟨_, _, _, _, -, -, -, ⟨-, rfl⟩ | ⟨-, rfl⟩⟩
    · exact absurd hhead (by simp)
    · exact absurd hhead (by simp)
    · simpa using hhead
  rcases sweepSlot_cases hs2 with ⟨-, rfl⟩ | ⟨_, _, _, r, -, -, -, ⟨-, rfl⟩ | ⟨-, rfl⟩⟩
  · exact Or.inl hone
  · exact Or.inl hone
  · refine Or.inr ⟨r, ?_⟩
    simp only [hone, List.singleton_append]

end Slot

section Shown

variable {run : Run E T K} {cfg : AltCfg K} {pl : Endpoints pack} {b : K} {s s' : Sweep E T K}
  {w cand result : PathResult E T K} {ac : Fin T → K} {a : Alternative E T K}

/-- **What the reruns lead to is labelled safe**, when it is kept within the budget. -/
theorem shown_of_reruns (hslot : SafeSlot run cfg pl b s w cand ac result)
    (hs' : sweepSlot run cfg pl b s (.safe, cfg.lambdaSafe) = some s')
    (hshows : ShowsReruns cfg pl b s w cand result)
    (ha : a ∈ relabel true (withinBudget pl b s')) (hak : a.kind = .safe) :
    a.result = result := by
  rw [sweepSlot_safe hslot.found hslot.candidate hslot.rerun hshows.1 hs'] at ha
  obtain ⟨init, hinit, hkinds⟩ :=
    relabel_safe s.kept ⟨.safe, cfg.lambdaSafe, result⟩ rfl hshows.2
  rw [hinit] at ha
  rcases List.mem_append.mp ha with ha | ha
  · exact absurd hak (hkinds a ha)
  · rw [List.mem_singleton.mp ha]

/-- The routes behind the leading one are kept ones within the budget. -/
theorem mem_of_relabel {first : PathResult E T K} (hL : Led cfg pl first s')
    (ha : a ∈ relabel true (withinBudget pl b s')) (hak : a.kind = .safe) :
    ∃ x ∈ s'.kept.tail, x.result = a.result ∧
      pl.travelTimeS x.result ≤ (1 + b) * pl.travelTimeS first := by
  obtain ⟨rest, heq, hle⟩ := withinBudget_led (b := b) hL
  have hsub : (withinBudget pl b s').tail.Sublist s'.kept.tail := (withinBudget_sublist _ s').tail
  rw [heq, List.tail_cons] at hsub
  obtain ⟨rest', hrel, hkinds⟩ := relabel_head true ⟨.fast, cfg.lambdaFast, first⟩ rest rfl
  rw [heq, hrel] at ha
  rcases List.mem_cons.mp ha with rfl | ha
  · exact absurd hak (by simp)
  · obtain ⟨-, x, hx, hresult⟩ := hkinds rfl a ha
    exact ⟨x, hsub.subset hx, hresult, hle x hx⟩

/-- **Else the balanced slot's route is labelled safe**: it is the only other one. -/
theorem shown_of_balanced {first : PathResult E T K}
    (hfirst : runOn run pl (pl.qc.arcCost cfg.lambdaFast) = some (some first))
    (hslot : SafeSlot run cfg pl b s w cand ac result)
    (hs' : sweepSlot run cfg pl b s (.safe, cfg.lambdaSafe) = some s')
    (hshows : ¬ ShowsReruns cfg pl b s w cand result)
    (ha : a ∈ relabel true (withinBudget pl b s')) (hak : a.kind = .safe) :
    (∃ x ∈ s.kept, x.kind = .balanced) ∧
      ∀ x ∈ s.kept, x.kind = .balanced → x.result = a.result := by
  obtain ⟨hL, -⟩ := afterBalanced_led hfirst hslot.before
  obtain ⟨x, hx, hxa, hle⟩ := mem_of_relabel (hL.slot hs') ha hak
  have hmem : x ∈ s.kept.tail := by
    rcases sweepSlot_cases hs' with ⟨-, rfl⟩ | ⟨w', cand', ac', result', hw', hcand', hres', hcase⟩
    · exact hx
    · obtain rfl : w = w' := Option.some.inj (Option.some.inj (hslot.found.symm.trans hw'))
      obtain ⟨rfl, rfl⟩ := Prod.mk.inj (Option.some.inj (hslot.candidate.symm.trans hcand'))
      obtain rfl : result = result' := Option.some.inj (hslot.rerun.symm.trans hres')
      rcases hcase with ⟨-, rfl⟩ | ⟨hadm, rfl⟩
      · exact hx
      · -- kept, so over the budget
        obtain ⟨kept', hkept⟩ := List.head?_eq_some_iff.mp hL.head
        simp only [hkept, List.cons_append, List.tail_cons] at hx ⊢
        rcases List.mem_append.mp hx with hx | hx
        · exact hx
        · rw [List.mem_singleton.mp hx] at hle
          refine absurd ⟨hadm, ?_⟩ hshows
          rw [hL.fast_time]
          exact hle
  rcases afterBalanced_kept hfirst hslot.before with hone | ⟨r, htwo⟩
  · rw [hone] at hmem
    exact absurd hmem List.not_mem_nil
  · rw [htwo, List.tail_cons] at hmem
    rw [List.mem_singleton.mp hmem] at hxa
    rw [htwo]
    refine ⟨⟨_, List.mem_cons_of_mem _ List.mem_cons_self, rfl⟩, fun y hy hyk => ?_⟩
    rcases List.mem_cons.mp hy with rfl | hy
    · exact absurd hyk (by simp)
    · rw [List.mem_singleton.mp hy]
      exact hxa

/-- **When a route is no less safe than the one labelled safe.** -/
theorem count_le_iff_safeAsShown {first : PathResult E T K}
    (hfirst : runOn run pl (pl.qc.arcCost cfg.lambdaFast) = some (some first))
    (hslot : SafeSlot run cfg pl b s w cand ac result)
    (hs' : sweepSlot run cfg pl b s (.safe, cfg.lambdaSafe) = some s')
    (ha : a ∈ relabel true (withinBudget pl b s')) (hak : a.kind = .safe)
    (r : PathResult E T K) :
    pl.qc.unsafeCount r ≤ pl.qc.unsafeCount a.result ↔
      SafeAsShown cfg pl b s w cand result r := by
  unfold SafeAsShown
  by_cases hshows : ShowsReruns cfg pl b s w cand result
  · rw [shown_of_reruns hslot hs' hshows ha hak]
    exact ⟨fun h => ⟨fun _ => h, fun hno => absurd hshows hno⟩, fun h => h.1 hshows⟩
  · obtain ⟨⟨x, hx, hxk⟩, hall⟩ := shown_of_balanced hfirst hslot hs' hshows ha hak
    constructor
    · refine fun h => ⟨fun hyes => absurd hyes hshows, fun _ y hy hyk => ?_⟩
      rw [hall y hy hyk]
      exact h
    · intro h
      rw [← hall x hx hxk]
      exact h.2 hshows x hx hxk

end Shown

/-! ## What the replay returns -/

section Candidate

variable {run : Run E T K} {cfg : AltCfg K} {pl : Endpoints pack}

/-- **A safe reroute is the safe slot without its reruns.** -/
theorem computeSingle_eq_candidate {lam b : K} {w first cand : PathResult E T K} {ac : Fin T → K}
    (hw : runOn run pl (pl.qc.arcCost lam) = some (some w))
    (h0 : runOn run pl (pl.qc.arcCost 0) = some (some first))
    (hcand : slotCandidate run cfg pl .safe lam (pl.travelTimeS first) b w = some (cand, ac)) :
    computeSingle run cfg pl .safe lam (some b) = some (some cand) := by
  unfold computeSingle
  simp only [hw, Option.bind_some, Option.getD_some, true_and]
  unfold slotCandidate at hcand
  simp only [true_and] at hcand
  by_cases hc : 0 < b ∧ 0 < pl.qc.unsafeCount w
  · rw [if_pos hc] at hcand ⊢
    obtain ⟨o, ho, hcand⟩ := Option.map_eq_some_iff.mp hcand
    rw [h0, Option.bind_some]
    simp only
    rw [ho, Option.map_some]
    cases o with
    | none => rw [(Prod.mk.inj hcand).1]
    | some clean =>
      obtain rfl : clean = (cand, ac) := hcand
      rfl
  · rw [if_neg hc] at hcand ⊢
    rw [(Prod.mk.inj (Option.some.inj hcand)).1]

/-- Whether the slot's search ends does not depend on the time the budget is measured against. -/
theorem slotCandidate_of_time {lam b t : K} {w : PathResult E T K}
    {c : PathResult E T K × (Fin T → K)}
    (h : slotCandidate run cfg pl .safe lam t b w = some c) (t' : K) :
    ∃ c', slotCandidate run cfg pl .safe lam t' b w = some c' := by
  unfold slotCandidate at h ⊢
  by_cases hc : Level.safe = .safe ∧ 0 < b ∧ 0 < pl.qc.unsafeCount w
  · rw [if_pos hc] at h ⊢
    obtain ⟨o, ho, -⟩ := Option.map_eq_some_iff.mp h
    have hany := any_flagged pl hc.2.2
    cases ha : runOn run pl (avoidCost cfg pl lam) with
    | none =>
      unfold avoidWithinBudget at ho
      rw [if_neg (by rw [hany]; simp), ha] at ho
      exact absurd ho (by simp)
    | some ra =>
      rw [avoidWithinBudget_eq cfg pl hany ha]
      exact ⟨_, rfl⟩
  · rw [if_neg hc]
    exact ⟨_, rfl⟩

theorem slotCandidate_mono (impl : Impl E K) (cfg : AltCfg K) (pl : Endpoints pack) (lam t b : K)
    (w : PathResult E T K) :
    FuelMono fun n => slotCandidate (impl.run pack n) cfg pl .safe lam t b w := by
  unfold slotCandidate
  split
  · exact (avoidWithinBudget_mono impl cfg pl _ _ _ _).map _
  · exact fun _ _ _ _ h => h

end Candidate

variable [IsStrictOrderedRing K]

/-! ## In terms of walks -/

section Walks

variable (R : Router E T K Departure) (rq : Request K Departure) (qc : QueryCosts R.pack)

/-- No affordable walk has fewer counted turns. -/
def SafestAffordable (budget : K) (ts : List (Fin T)) : Prop :=
  ∀ oc dc ts', Serves R rq oc dc ts' → Affordable R rq qc budget (qc.walkTimeS oc dc ts') →
    ts.countP qc.flagged ≤ ts'.countP qc.flagged

/-- Every walk of least cost at the carried lambda is safest among the affordable ones or, on a
positive budget, every walk of least surcharged cost is, and is affordable. -/
def ProposesSafest (surchargeS lam budget : K) : Prop :=
  (∀ oc dc ts, Cheapest R rq (qc.carriedCostS lam) oc dc ts →
    SafestAffordable R rq qc budget ts) ∨
  0 < budget ∧ ∀ oc dc ts, Cheapest R rq (qc.surchargedCostS surchargeS lam) oc dc ts →
    SafestAffordable R rq qc budget ts ∧ Affordable R rq qc budget (qc.walkTimeS oc dc ts)

end Walks

section Replay

variable (R : Router E T K Departure) {rq : Request K Departure}

/-- `reroute` describes what the single search finds. -/
theorem reroute_yields {p : Plan R.pack Departure} (hp : R.resolve rq = .ok p)
    (hsame : p.sameEdge = none) {level : Level} {lam budget : K} {r : PathResult E T K}
    (h : Yields (fun n => computeSingle (R.run n) R.alternatives p.endpoints level lam
      (some budget)) (some r)) :
    Yields (fun n => R.reroute n rq level lam budget)
      (.ok (R.describe p level r lam budget rq.departure)) := by
  unfold Router.reroute
  simp only [hp]
  unfold Router.reroutePlan
  simp only [hsame]
  exact h.map _

/-- **The replay ends** with what the safe slot proposes when the budget is measured against the
walk found at lambda `0`. -/
theorem replay_yields {p : Plan R.pack Departure} (hp : R.resolve rq = .ok p)
    (hsame : p.sameEdge = none) {fuel : ℕ} {b t : K} {w : PathResult E T K}
    (hw : runOn (R.run fuel) p.endpoints (p.endpoints.qc.arcCost R.alternatives.lambdaSafe) =
      some (some w)) {c : PathResult E T K × (Fin T → K)}
    (hcand : slotCandidate (R.run fuel) R.alternatives p.endpoints .safe
      R.alternatives.lambdaSafe t b w = some c) :
    ∃ fast again ac,
      Yields (fun n => runOn (R.run n) p.endpoints (p.endpoints.qc.arcCost 0)) (some fast) ∧
      slotCandidate (R.run fuel) R.alternatives p.endpoints .safe R.alternatives.lambdaSafe
        (p.endpoints.travelTimeS fast) b w = some (again, ac) ∧
      Yields (fun n => R.reroute n rq .safe R.alternatives.lambdaSafe b)
        (.ok (R.describe p .safe again R.alternatives.lambdaSafe b rq.departure)) := by
  obtain ⟨o, ho⟩ := runOn_yields R.impl p.endpoints
    (noImproving_of_nonneg_cost (p.endpoints.qc.arcCost_nonneg le_rfl))
  obtain ⟨N, hN⟩ := id ho
  obtain ⟨fast, rfl⟩ := answer_of_answer R hp (runOn_answer R.impl p.endpoints hw)
    (runOn_answer R.impl p.endpoints (hN N le_rfl))
  obtain ⟨⟨again, ac⟩, hagain⟩ := slotCandidate_of_time hcand (p.endpoints.travelTimeS fast)
  refine ⟨fast, again, ac, ho, hagain, reroute_yields R hp hsame ?_⟩
  let n := max fuel N
  have hw' := runOn_mono R.impl p.endpoints _ fuel n _ (le_max_left _ _) hw
  have hagain' := slotCandidate_mono R.impl R.alternatives p.endpoints _ _ _ w fuel n _
    (le_max_left _ _) hagain
  exact (computeSingle_mono R.impl R.alternatives p.endpoints _ _ _).yields
    (computeSingle_eq_candidate hw' (hN n (le_max_right _ _)) hagain')

/-- **Where a cheapest walk is safest, no affordable answer is safer than the proposal.** -/
theorem count_le_of_proposesSafest {p : Plan R.pack Departure} (hp : R.resolve rq = .ok p)
    (hh : ∀ h, p.endpoints.h = some h → Consistent R.pack.topo (p.endpoints.qc.arcCost 0) h)
    {lam b : K} (hlam : 0 ≤ lam) (hb : 0 ≤ b) {fuel : ℕ} {w fast cand x : PathResult E T K}
    {ac ac' : Fin T → K}
    (hw : runOn (R.run fuel) p.endpoints (p.endpoints.qc.arcCost lam) = some (some w))
    (hfast : runOn (R.run fuel) p.endpoints (p.endpoints.qc.arcCost 0) = some (some fast))
    (hcand : slotCandidate (R.run fuel) R.alternatives p.endpoints .safe lam
      (p.endpoints.travelTimeS fast) b w = some (cand, ac))
    (hx : Answer (p.endpoints.query ac') (some x))
    (hxle : p.endpoints.travelTimeS x ≤ (1 + b) * p.endpoints.travelTimeS fast)
    (hsafest : ProposesSafest R rq p.endpoints.qc R.alternatives.avoidSurchargeS lam b) :
    p.endpoints.qc.unsafeCount cand ≤ p.endpoints.qc.unsafeCount x := by
  have hof := optimum_of_run R hh (fun _ => le_rfl) hfast
  obtain ⟨ocx, dcx, hsx, -, -, hxtime⟩ := answer_serves R hp hx
  have hxaff : Affordable R rq p.endpoints.qc b (p.endpoints.qc.walkTimeS ocx dcx x.turnIds) := by
    rw [affordable_iff R hp hb hof, ← hxtime]
    exact hxle
  obtain ⟨ocw, dcw, hcw, -⟩ := cheapest_of_optimum R hp
    (fun oc dc ts => total_eq R p oc dc ts lam)
    (optimum_of_run R hh (arcCost_zero_le_arcCost p.endpoints.qc hlam) hw)
  rcases slotCandidate_safe_cases hcand with ⟨hc, rfl⟩ | ⟨-, ra, hra, hcase⟩
  · rcases hsafest with hplain | ⟨hpos, -⟩
    · exact hplain _ _ _ hcw _ _ _ hsx hxaff
    · have hzero : p.endpoints.qc.unsafeCount cand = 0 :=
        Nat.eq_zero_of_not_pos fun hcount => hc ⟨hpos, hcount⟩
      rw [hzero]
      exact Nat.zero_le _
  · have hoa := optimum_of_run R hh
      (arcCost_zero_le_avoidCost R.alternatives p.endpoints hlam) hra
    obtain ⟨a, rfl⟩ := some_of_optimum R hp hoa ⟨ocx, dcx, _, hsx⟩
    obtain ⟨oca, dca, hca, hatime⟩ := cheapest_of_optimum R hp
      (fun oc dc ts => total_surcharged R p oc dc ts lam) hoa
    rcases hcase with ⟨a', ha', hacc, rfl⟩ | ⟨hno, rfl⟩
    · obtain rfl := Option.some.inj ha'
      rcases hsafest with hplain | ⟨-, havoid⟩
      · exact hacc.1.le.trans (hplain _ _ _ hcw _ _ _ hsx hxaff)
      · exact (havoid _ _ _ hca).1 _ _ _ hsx hxaff
    · rcases hsafest with hplain | ⟨-, havoid⟩
      · exact hplain _ _ _ hcw _ _ _ hsx hxaff
      · -- refused although affordable: the plain answer is at least as safe
        obtain ⟨hle, haff⟩ := havoid _ _ _ hca
        rw [affordable_iff R hp hb hof, ← hatime] at haff
        exact (not_lt.mp fun hlt => hno a rfl ⟨hlt, haff⟩).trans (hle _ _ _ hsx hxaff)

end Replay

/-- Four streets: 100 s at penalty 200, 120 s at penalty 100, 200 s at penalty 40 with a counted
left, 210 s at penalty 36. -/
def fourStreets : Router 6 8 ℚ Unit :=
  fanRouter ![90, 110, 190, 200] (by decide) ![200, 100, 40, 36] ![false, false, true, false]

end RoutePlanner.Planner
