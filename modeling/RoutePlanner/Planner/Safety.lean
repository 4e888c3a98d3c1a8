import RoutePlanner.Planner.Budget

/-!
# What the label `safe` promises

The label goes to the last route left, whichever slot found it.

* `safe_count_le`: a route labelled safe is no less safe than the candidate of its own slot; the
  safe slot's candidate is no less safe than the fast route when the hard avoid's answer fits the
  budget.
* `safe_shown`: a hard-avoid route that duplicates no kept route is returned.
-/

namespace RoutePlanner.Planner

open RoutePlanner.Lib RoutePlanner.Search

variable {E T : ℕ} {K : Type} [Field K] [LinearOrder K] {Departure : Type}
  {pack : Pack E T K} {run : Run E T K} {cfg : AltCfg K} {pl : Endpoints pack}

/-! ## Slots after the first -/

/-- A route kept by a later slot: no less safe than the slot's un-inflated candidate. -/
structure FromSlot (run : Run E T K) (cfg : AltCfg K) (pl : Endpoints pack) (fastTimeS b : K)
    (slot : Level × K) (result cand : PathResult E T K) : Prop where
  candidate : ∃ w ac, runOn run pl (pl.qc.arcCost slot.2) = some (some w) ∧
    slotCandidate run cfg pl slot.1 slot.2 fastTimeS b w = some (cand, ac)
  count_le : pl.qc.unsafeCount result ≤ pl.qc.unsafeCount cand

/-- The slots after the first, with safety on. -/
def laterSlots (cfg : AltCfg K) : List (Level × K) :=
  [(.balanced, cfg.lambdaBalanced), (.safe, cfg.lambdaSafe)]

/-- All routes but the leading one come from later slots. -/
def RestFromSlots (run : Run E T K) (cfg : AltCfg K) (pl : Endpoints pack) (fastTimeS b : K)
    (rest : List (Alternative E T K)) : Prop :=
  ∀ a ∈ rest, ∃ slot ∈ laterSlots cfg, ∃ cand,
    FromSlot run cfg pl fastTimeS b slot a.result cand

theorem restFromSlots_slot {b : K} {s s' : Sweep E T K} {first : PathResult E T K}
    {slot : Level × K} (hslot : slot ∈ laterSlots cfg) (hL : Led cfg pl first s)
    (hs : RestFromSlots run cfg pl (pl.travelTimeS first) b s.kept.tail)
    (h : sweepSlot run cfg pl b s slot = some s') :
    RestFromSlots run cfg pl (pl.travelTimeS first) b s'.kept.tail := by
  rcases sweepSlot_cases h with ⟨-, rfl⟩ | ⟨w, cand, ac, result, hw, hcand, -, hcase⟩
  · exact hs
  · rcases hcase with ⟨-, rfl⟩ | ⟨hadm, rfl⟩
    · exact hs
    · obtain ⟨kept', hkept⟩ := List.head?_eq_some_iff.mp hL.head
      rw [hL.fast_time, Option.getD_some] at hcand
      simp only [hkept, List.cons_append, List.tail_cons] at hs ⊢
      intro a ha
      rcases List.mem_append.mp ha with ha | ha
      · exact hs a ha
      · rw [List.mem_singleton.mp ha]
        exact ⟨slot, hslot, cand, ⟨w, ac, hw, hcand⟩, hadm.count_le⟩

/-! ## The sweep with safety on -/

/-- The state after the fast and the balanced slot. -/
def afterBalanced (run : Run E T K) (cfg : AltCfg K) (pl : Endpoints pack) (b : K) :
    Option (Sweep E T K) :=
  [(Level.fast, cfg.lambdaFast), (Level.balanced, cfg.lambdaBalanced)].foldlM
    (sweepSlot run cfg pl b) ⟨[], none⟩

/-- **The sweep, up to its last slot.** -/
theorem computeAlternatives_safety {budget : Option K} {alts : List (Alternative E T K)} :
    computeAlternatives run cfg pl true budget = some alts ↔
      ∃ s s', afterBalanced run cfg pl (budget.getD cfg.detourBudgetPct) = some s ∧
        sweepSlot run cfg pl (budget.getD cfg.detourBudgetPct) s (.safe, cfg.lambdaSafe) =
          some s' ∧
        relabel true (withinBudget pl (budget.getD cfg.detourBudgetPct) s') = alts := by
  have hslots : slots cfg true =
      [(Level.fast, cfg.lambdaFast), (Level.balanced, cfg.lambdaBalanced)] ++
        [(.safe, cfg.lambdaSafe)] := rfl
  unfold computeAlternatives afterBalanced
  simp only [hslots, List.foldlM_append, List.foldlM_cons, List.foldlM_nil]
  constructor
  · intro h
    obtain ⟨s', hs', rfl⟩ := Option.map_eq_some_iff.mp h
    obtain ⟨s, hs, hs'⟩ := Option.bind_eq_some_iff.mp hs'
    obtain ⟨s2, hs2, hs'⟩ := Option.bind_eq_some_iff.mp hs'
    obtain rfl : s2 = s' := Option.some.inj hs'
    exact ⟨s, s2, hs, hs2, rfl⟩
  · rintro ⟨s, s', hs, hs', rfl⟩
    refine Option.map_eq_some_iff.mpr ⟨s', ?_, rfl⟩
    exact Option.bind_eq_some_iff.mpr ⟨s, hs, Option.bind_eq_some_iff.mpr ⟨s', hs', rfl⟩⟩

/-- What the first two slots leave. -/
theorem afterBalanced_led {b : K} {s : Sweep E T K} {first : PathResult E T K}
    (hfirst : runOn run pl (pl.qc.arcCost cfg.lambdaFast) = some (some first))
    (h : afterBalanced run cfg pl b = some s) :
    Led cfg pl first s ∧ RestFromSlots run cfg pl (pl.travelTimeS first) b s.kept.tail := by
  unfold afterBalanced at h
  simp only [List.foldlM_cons, List.foldlM_nil] at h
  obtain ⟨s1, hs1, h⟩ := Option.bind_eq_some_iff.mp h
  obtain ⟨s2, hs2, h⟩ := Option.bind_eq_some_iff.mp h
  obtain rfl : s2 = s := Option.some.inj h
  have hL1 := led_of_fast hfirst hs1
  have hrest1 : RestFromSlots run cfg pl (pl.travelTimeS first) b s1.kept.tail := by
    rcases sweepSlot_cases hs1 with ⟨-, rfl⟩ | ⟨_, _, _, _, -, -, -, ⟨-, rfl⟩ | ⟨-, rfl⟩⟩
    · exact fun _ ha => absurd ha List.not_mem_nil
    · exact fun _ ha => absurd ha List.not_mem_nil
    · exact fun _ ha => absurd ha List.not_mem_nil
  exact ⟨hL1.slot hs2, restFromSlots_slot (List.mem_cons_self) hL1 hrest1 hs2⟩

/-! ## The labels -/

omit [Field K] [LinearOrder K] in
/-- The last of two or more routes is labelled safe, and only the last. -/
theorem relabel_last {init : List (Alternative E T K)} (hne : init ≠ [])
    (a : Alternative E T K) :
    ∃ init', relabel true (init ++ [a]) = init' ++ [{ a with kind := .safe }] ∧
      ∀ x ∈ init', x.kind ≠ .safe := by
  have hpos : 0 < init.length := List.length_pos_of_ne_nil hne
  unfold relabel
  rw [if_pos ⟨rfl, by simp [hpos]⟩, List.zipWith_append (by simp; omega)]
  refine ⟨_, rfl, fun x hx => ?_⟩
  rcases List.mem_cons.mp (mem_zipWith_kind hx).1 with hkind | hkind
  · rw [hkind]
    simp
  · rw [(List.mem_replicate.mp hkind).2]
    simp

/-- **The response of a query with safety on**: the fast slot's answer, and routes of later slots
under other labels. -/
theorem computeAlternatives_rest {budget : Option K} {alts : List (Alternative E T K)}
    {first : PathResult E T K}
    (hfirst : runOn run pl (pl.qc.arcCost cfg.lambdaFast) = some (some first))
    (h : computeAlternatives run cfg pl true budget = some alts) :
    ∃ rest, alts = ⟨.fast, cfg.lambdaFast, first⟩ :: rest ∧ ∀ a ∈ rest, a.kind ≠ .fast ∧
      ∃ slot ∈ laterSlots cfg, ∃ cand, FromSlot run cfg pl (pl.travelTimeS first)
        (budget.getD cfg.detourBudgetPct) slot a.result cand := by
  obtain ⟨s, s', hs, hs', rfl⟩ := computeAlternatives_safety.mp h
  obtain ⟨hL, hrest⟩ := afterBalanced_led hfirst hs
  have hrest' := restFromSlots_slot
    (List.mem_cons_of_mem _ (List.mem_singleton_self (Level.safe, cfg.lambdaSafe))) hL hrest hs'
  obtain ⟨rest, heq, -⟩ := withinBudget_led (b := budget.getD cfg.detourBudgetPct) (hL.slot hs')
  have hsub : (withinBudget pl (budget.getD cfg.detourBudgetPct) s').tail.Sublist s'.kept.tail :=
    (withinBudget_sublist _ s').tail
  rw [heq, List.tail_cons] at hsub
  obtain ⟨rest', hrel, hkinds⟩ := relabel_head true ⟨.fast, cfg.lambdaFast, first⟩ rest rfl
  refine ⟨rest', by rw [heq, hrel], fun x hx => ?_⟩
  obtain ⟨hkind, a, ha, hresult⟩ := hkinds rfl x hx
  refine ⟨hkind, ?_⟩
  rw [← hresult]
  exact hrest' a (hsub.subset ha)

/-! ## The safe slot's candidate -/

/-- The surcharged cost of a walk. -/
theorem sum_avoidCost (lam : K) (ts : List (Fin T)) :
    (ts.map (avoidCost cfg pl lam)).sum =
      (ts.map (pl.qc.arcCost lam)).sum + cfg.avoidSurchargeS * (ts.countP pl.qc.flagged : K) := by
  induction ts with
  | nil => simp
  | cons t ts ih =>
    rw [List.map_cons, List.sum_cons, ih, List.map_cons, List.sum_cons, List.countP_cons]
    unfold avoidCost
    by_cases hf : pl.qc.flagged t = true
    · simp only [if_pos hf, Nat.cast_add, Nat.cast_one]
      ring
    · simp only [if_neg hf, add_zero]
      ring

section Avoid

variable (R : Router E T K Departure) {rq : Request K Departure} {p : Plan R.pack Departure}

/-- The surcharged cost of a walk between two candidates. -/
theorem total_avoidCost (p : Plan R.pack Departure) (oc dc : SnapCandidate E K)
    (r : PathResult E T K) (lam : K) :
    (p.endpoints.query (avoidCost R.alternatives p.endpoints lam)).total
      ((1 - oc.frac) * p.endpoints.qc.edgeTimeS oc.edge) r.turnIds
      ((dc.frac - 1) * p.endpoints.qc.edgeTimeS dc.edge) =
    p.endpoints.qc.walkTimeS oc dc r.turnIds + lam * p.endpoints.qc.walkPenaltyS r.turnIds +
      R.alternatives.avoidSurchargeS * (p.endpoints.qc.unsafeCount r : K) := by
  have hplain := total_eq R p oc dc r.turnIds lam
  unfold Query.total Endpoints.query at hplain ⊢
  simp only at hplain ⊢
  rw [sum_avoidCost, ← hplain]
  unfold QueryCosts.unsafeCount
  ring

/-- **A surcharge above the cost of a route buys its count.** The surcharged search returns no more
counted turns than any answer whose time and penalty together stay below the surcharge. -/
theorem count_le_of_avoid [IsStrictOrderedRing K] (hp : R.resolve rq = .ok p)
    (hh : ∀ h, p.endpoints.h = some h → Consistent R.pack.topo (p.endpoints.qc.arcCost 0) h)
    {lam : K} (hlam : 0 ≤ lam) {ac : Fin T → K} {a f : PathResult E T K}
    (hA : Answer (p.endpoints.query (avoidCost R.alternatives p.endpoints lam)) (some a))
    (hF : Answer (p.endpoints.query ac) (some f))
    (hS : p.endpoints.travelTimeS f + lam * p.endpoints.qc.walkPenaltyS f.turnIds <
      R.alternatives.avoidSurchargeS) :
    p.endpoints.qc.unsafeCount a ≤ p.endpoints.qc.unsafeCount f := by
  have hcost : ∀ t, p.endpoints.qc.arcCost 0 t ≤ avoidCost R.alternatives p.endpoints lam t := by
    intro t
    refine le_trans ?_ (arcCost_le_avoidCost R.alternatives p.endpoints lam t)
    rw [p.endpoints.qc.arcCost_zero]
    exact p.endpoints.qc.turnTimeS_le_arcCost hlam t
  obtain ⟨oc, dc, hs, -, -, htime⟩ := answer_serves R hp hF
  obtain ⟨oc', dc', hs', -, hle⟩ := answer_total_le R hp hcost hh hA hs
  rw [total_avoidCost, total_avoidCost, ← htime] at hle
  by_contra hlt
  push Not at hlt
  -- a counted turn more costs the surcharge, and `a` has taken a turn
  have hne : a.turnIds ≠ [] := by
    intro hnil
    unfold QueryCosts.unsafeCount at hlt
    rw [hnil] at hlt
    exact absurd hlt (Nat.not_lt_zero _)
  have htime' := (mul_nonneg (sub_nonneg.mpr oc'.frac_le_one)
    (p.endpoints.qc.edge_time_nonneg _)).trans (hs'.le_walkTimeS R hp hne)
  have hpen : 0 ≤ lam * p.endpoints.qc.walkPenaltyS a.turnIds := by
    refine mul_nonneg hlam (List.sum_nonneg fun x hx => ?_)
    obtain ⟨t, -, rfl⟩ := List.mem_map.mp hx
    exact p.endpoints.qc.penalty_nonneg t
  have hcast : (p.endpoints.qc.unsafeCount f : K) + 1 ≤ p.endpoints.qc.unsafeCount a := by
    exact_mod_cast hlt
  have hscaled := mul_le_mul_of_nonneg_left hcast R.alternatives.surcharge_nonneg
  linarith

/-- **What the safe slot proposes**: its own answer, or the hard avoid's. -/
theorem slotCandidate_safe_cases {lam fastTimeS b : K} {w cand : PathResult E T K}
    {ac : Fin T → K}
    (h : slotCandidate run cfg pl .safe lam fastTimeS b w = some (cand, ac)) :
    (¬ (0 < b ∧ 0 < pl.qc.unsafeCount w) ∧ cand = w) ∨
    (0 < b ∧ 0 < pl.qc.unsafeCount w) ∧ ∃ ra, runOn run pl (avoidCost cfg pl lam) = some ra ∧
      ((∃ a, ra = some a ∧ Accepted pl b fastTimeS (pl.qc.unsafeCount w) a ∧ cand = a) ∨
        (∀ a, ra = some a → ¬ Accepted pl b fastTimeS (pl.qc.unsafeCount w) a) ∧ cand = w) := by
  unfold slotCandidate at h
  by_cases hc : 0 < b ∧ 0 < pl.qc.unsafeCount w
  · rw [if_pos ⟨rfl, hc⟩] at h
    obtain ⟨o, ho, h⟩ := Option.map_eq_some_iff.mp h
    refine Or.inr ⟨hc, ?_⟩
    have hany := any_flagged pl hc.2
    cases hra : runOn run pl (avoidCost cfg pl lam) with
    | none =>
      unfold avoidWithinBudget at ho
      rw [if_neg (by rw [hany]; simp), hra] at ho
      exact absurd ho (by simp)
    | some ra =>
      rw [avoidWithinBudget_eq cfg pl hany hra, Option.some.injEq] at ho
      refine ⟨ra, rfl, ?_⟩
      cases ra with
      | none =>
        subst ho
        exact Or.inr ⟨fun _ ha => absurd ha (by simp), (Prod.mk.inj h).1.symm⟩
      | some a =>
        simp only [Option.bind_some] at ho
        by_cases hacc : Accepted pl b fastTimeS (pl.qc.unsafeCount w) a
        · rw [if_pos hacc] at ho
          subst ho
          exact Or.inl ⟨a, rfl, hacc, (Prod.mk.inj h).1.symm⟩
        · rw [if_neg hacc] at ho
          subst ho
          refine Or.inr ⟨fun a' ha' => ?_, (Prod.mk.inj h).1.symm⟩
          rwa [← Option.some.inj ha']
  · rw [if_neg fun hc' => hc hc'.2] at h
    exact Or.inl ⟨hc, (Prod.mk.inj (Option.some.inj h)).1.symm⟩

/-- **The safe slot's candidate has no more counted turns than an answer below the surcharge**, if
the hard avoid's route fits the budget. -/
theorem candidate_count_le [IsStrictOrderedRing K] (hp : R.resolve rq = .ok p)
    (hh : ∀ h, p.endpoints.h = some h → Consistent R.pack.topo (p.endpoints.qc.arcCost 0) h)
    {lam b fastTimeS : K} (hlam : 0 ≤ lam) (hb : 0 < b) {fuel : ℕ} {ac ac' : Fin T → K}
    {w cand f : PathResult E T K} (hF : Answer (p.endpoints.query ac') (some f))
    (hS : p.endpoints.travelTimeS f + lam * p.endpoints.qc.walkPenaltyS f.turnIds <
      R.alternatives.avoidSurchargeS)
    (hfits : ∀ a, runOn (R.run fuel) p.endpoints (avoidCost R.alternatives p.endpoints lam) =
      some (some a) → p.endpoints.travelTimeS a ≤ (1 + b) * fastTimeS)
    (h : slotCandidate (R.run fuel) R.alternatives p.endpoints .safe lam fastTimeS b w =
      some (cand, ac)) :
    p.endpoints.qc.unsafeCount cand ≤ p.endpoints.qc.unsafeCount f := by
  rcases slotCandidate_safe_cases h with ⟨hc, rfl⟩ | ⟨hc, ra, hra, hcase⟩
  · have hzero : p.endpoints.qc.unsafeCount cand = 0 :=
      Nat.eq_zero_of_not_pos fun hpos => hc ⟨hb, hpos⟩
    rw [hzero]
    exact Nat.zero_le _
  · have hA := runOn_answer R.impl p.endpoints hra
    obtain ⟨a, rfl⟩ := answer_of_answer R hp hF hA
    have hcount := count_le_of_avoid R hp hh hlam hA hF hS
    rcases hcase with ⟨a', ha', -, rfl⟩ | ⟨hno, rfl⟩
    · rwa [← Option.some.inj ha']
    · -- refused although it fits: the slot's own answer is at least as clean
      refine le_trans (not_lt.mp fun hlt => hno a rfl ⟨hlt, hfits a hra⟩) hcount

end Avoid

/-! ## The response -/

section Response

variable (R : Router E T K Departure) {rq : Request K Departure}

/-- `unsafe["total"]` counts the flagged turns. -/
theorem describe_unsafeTotal (p : Plan R.pack Departure) (kind : Level) (r : PathResult E T K)
    (lam budget : K) (departure : Departure) :
    (R.describe p kind r lam budget departure).unsafeTotal = p.endpoints.qc.unsafeCount r := by
  have hcount : ∀ ts : List (Fin T),
      ts.countP (fun t => p.endpoints.qc.turnUnsafeType t = .left) +
        ts.countP (fun t => p.endpoints.qc.turnUnsafeType t = .crossing) =
      ts.countP p.endpoints.qc.flagged := by
    intro ts
    induction ts with
    | nil => rfl
    | cons t ts ih =>
      simp only [List.countP_cons, ← ih]
      unfold QueryCosts.flagged
      cases p.endpoints.qc.turnUnsafeType t <;> simp <;> omega
  exact hcount r.turnIds

variable [IsStrictOrderedRing K]

/-- **The routes of a response with safety on**, under their labels. -/
theorem route_safety_cases {fuel : ℕ} {budget : Option K} {routes : List (RouteOut E T K Departure)}
    (h : R.route fuel rq true budget = some (.ok routes)) {safe : RouteOut E T K Departure}
    (hsafe : safe ∈ routes) (hkind : safe.kind = .safe) :
    ∃ p first alts, R.resolve rq = .ok p ∧ p.sameEdge = none ∧
      runOn (R.run fuel) p.endpoints (p.endpoints.qc.arcCost R.alternatives.lambdaFast) =
        some (some first) ∧
      computeAlternatives (R.run fuel) R.alternatives p.endpoints true budget = some alts ∧
      (∃ a ∈ alts, a.kind = .safe ∧ a.result = safe.result) ∧
      (∀ r ∈ routes, r.unsafeTotal = p.endpoints.qc.unsafeCount r.result ∧
        r.preference = ⟨r.kind, R.lamByKind r.kind,
          budget.getD R.alternatives.detourBudgetPct, rq.departure, p.basis⟩ ∧
        ∃ a ∈ alts, a.kind = r.kind ∧ a.result = r.result) := by
  obtain ⟨p, hp, ⟨res, -, rfl⟩ | ⟨hsame, alts, halts, -, rfl⟩⟩ := R.route_cases h
  · rw [List.mem_singleton.mp hsafe] at hkind
    exact absurd hkind (by simp [Router.describe])
  · have hall : ∀ r ∈ withDetourPct (alts.map fun a => R.describe p a.kind a.result
        (R.lamByKind a.kind) (budget.getD R.alternatives.detourBudgetPct) rq.departure),
        r.unsafeTotal = p.endpoints.qc.unsafeCount r.result ∧
        r.preference = ⟨r.kind, R.lamByKind r.kind,
          budget.getD R.alternatives.detourBudgetPct, rq.departure, p.basis⟩ ∧
        ∃ a ∈ alts, a.kind = r.kind ∧ a.result = r.result := by
      intro r hr
      obtain ⟨r', hr', heq⟩ := mem_withDetourPct hr
      obtain ⟨a, ha, rfl⟩ := List.mem_map.mp hr'
      rw [heq]
      exact ⟨describe_unsafeTotal R p a.kind a.result (R.lamByKind a.kind)
        (budget.getD R.alternatives.detourBudgetPct) rq.departure, rfl, a, ha, rfl, rfl⟩
    obtain ⟨-, -, a, ha, hak, har⟩ := hall safe hsafe
    obtain ⟨ac, hac⟩ := found_of_mem halts a ha
    obtain ⟨o, ho⟩ := computeAlternatives_fast halts
    obtain ⟨first, rfl⟩ := answer_of_answer R hp (runOn_answer R.impl p.endpoints hac)
      (runOn_answer R.impl p.endpoints ho)
    exact ⟨p, first, alts, hp, hsame, ho, halts, ⟨a, ha, hak.trans hkind, har⟩, hall⟩

/-- **A route labelled safe is no less safe than its slot's candidate.** It comes from the balanced
or the safe slot. If from the safe slot, on a positive budget, with a surcharge above the time and
penalty of the fast route and a hard-avoid route within the budget, it has no more counted turns
than the fast route. -/
theorem safe_count_le {fuel : ℕ} {budget : Option K} {routes : List (RouteOut E T K Departure)}
    (h : R.route fuel rq true budget = some (.ok routes)) {safe fast : RouteOut E T K Departure}
    (hsafe : safe ∈ routes) (hsk : safe.kind = .safe) (hfast : fast ∈ routes)
    (hfk : fast.kind = .fast) :
    ∃ p, R.resolve rq = .ok p ∧ ∃ slot ∈ laterSlots R.alternatives, ∃ cand,
      FromSlot (R.run fuel) R.alternatives p.endpoints (p.endpoints.travelTimeS fast.result)
        (budget.getD R.alternatives.detourBudgetPct) slot safe.result cand ∧
      safe.unsafeTotal ≤ p.endpoints.qc.unsafeCount cand ∧
      (slot = (.safe, R.alternatives.lambdaSafe) → 0 ≤ R.alternatives.lambdaSafe →
        0 < budget.getD R.alternatives.detourBudgetPct →
        (∀ h, p.endpoints.h = some h →
          Consistent R.pack.topo (p.endpoints.qc.arcCost 0) h) →
        p.endpoints.travelTimeS fast.result +
            R.alternatives.lambdaSafe * p.endpoints.qc.walkPenaltyS fast.result.turnIds <
          R.alternatives.avoidSurchargeS →
        (∀ a, runOn (R.run fuel) p.endpoints
            (avoidCost R.alternatives p.endpoints R.alternatives.lambdaSafe) = some (some a) →
          p.endpoints.travelTimeS a ≤ (1 + budget.getD R.alternatives.detourBudgetPct) *
            p.endpoints.travelTimeS fast.result) →
        safe.unsafeTotal ≤ fast.unsafeTotal) := by
  obtain ⟨p, first, alts, hp, -, hfirst, halts, ⟨a, ha, hak, har⟩, hall⟩ :=
    route_safety_cases R h hsafe hsk
  obtain ⟨rest, rfl, hrest⟩ := computeAlternatives_rest hfirst halts
  have hmem : a ∈ rest := by
    rcases List.mem_cons.mp ha with rfl | ha
    · exact absurd hak (by simp)
    · exact ha
  obtain ⟨hfastCount, -, b, hb, hbk, hbr⟩ := hall fast hfast
  have hbfirst : fast.result = first := by
    rcases List.mem_cons.mp hb with rfl | hb
    · exact hbr.symm
    · exact absurd (hbk.trans hfk) (hrest b hb).1
  obtain ⟨-, slot, hslot, cand, hfrom⟩ := hrest a hmem
  rw [har] at hfrom
  have hcount : safe.unsafeTotal ≤ p.endpoints.qc.unsafeCount cand := by
    rw [(hall safe hsafe).1]
    exact hfrom.count_le
  rw [hbfirst] at hfastCount ⊢
  refine ⟨p, hp, slot, hslot, cand, hfrom, hcount, ?_⟩
  rintro rfl hlam hbudget hh hS hfits
  obtain ⟨w, ac, -, hcand⟩ := hfrom.candidate
  rw [hfastCount]
  exact hcount.trans (candidate_count_le R hp hh hlam hbudget
    (runOn_answer R.impl p.endpoints hfirst) hS hfits hcand)

end Response

/-- Two streets: 100 s at penalty 20 with a counted left, 120 s at penalty 300. -/
def twoStreets : Router 4 4 ℚ Unit :=
  fanRouter ![90, 110] (by decide) ![20, 300] ![true, false]

/-- On `threeStreets` the balanced slot keeps the street with the counted left, the budget drops
the safe slot's street, and the survivor is labelled safe. -/
theorem safe_count_gt : ∃ routes, threeStreets.route 20 fanRequest true none = some (.ok routes) ∧
    ∃ safe ∈ routes, ∃ fast ∈ routes, safe.kind = .safe ∧ fast.kind = .fast ∧
      fast.unsafeTotal < safe.unsafeTotal := by
  decide +kernel

/-- `safe_count_le` on `twoStreets`: the safe slot's hard avoid fits the budget, so the route
labelled safe has no more counted turns than the fast one. -/
theorem safe_count_le_twoStreets :
    ∃ routes, twoStreets.route 20 fanRequest true none = some (.ok routes) ∧
    ∃ safe ∈ routes, ∃ fast ∈ routes, safe.kind = .safe ∧ fast.kind = .fast ∧
    ∃ p, twoStreets.resolve fanRequest = .ok p ∧ ∃ slot ∈ laterSlots shippedCfg, ∃ cand,
      FromSlot (twoStreets.run 20) shippedCfg p.endpoints (p.endpoints.travelTimeS fast.result)
        (1 / 4) slot safe.result cand ∧
      safe.unsafeTotal ≤ p.endpoints.qc.unsafeCount cand ∧
      safe.unsafeTotal ≤ fast.unsafeTotal := by
  have heval : ∃ routes, twoStreets.route 20 fanRequest true none = some (.ok routes) ∧
      ∃ safe ∈ routes, ∃ fast ∈ routes, safe.kind = .safe ∧ fast.kind = .fast ∧
        fast.result = ⟨[0, 2], 0, 1, 100⟩ ∧ safe.unsafeTotal = 0 := by
    decide +kernel
  obtain ⟨routes, h, safe, hsafe, fast, hfast, hsk, hfk, hroute, hclean⟩ := heval
  obtain ⟨p, hp, slot, hslot, cand, hfrom, hcount, hle⟩ :=
    safe_count_le twoStreets h hsafe hsk hfast hfk
  refine ⟨routes, h, safe, hsafe, fast, hfast, hsk, hfk, p, hp, slot, hslot, cand, hfrom, hcount,
    ?_⟩
  obtain rfl : fanPlan twoStreets = p := Except.ok.inj hp
  rw [hroute] at hle
  rcases List.mem_cons.mp hslot with rfl | hslot
  · rw [hclean]
    exact Nat.zero_le _
  · have havoid : runOn (twoStreets.run 20) (fanPlan twoStreets).endpoints
        (avoidCost shippedCfg (fanPlan twoStreets).endpoints (3 / 2)) =
          some (some ⟨[1, 3], 0, 1, 570⟩) := by
      decide +kernel
    refine hle (List.mem_singleton.mp hslot) (by decide +kernel) (by decide +kernel)
      (fun h hph => absurd hph (by simp [fanPlan, Router.planOf, twoStreets, fanRouter]))
      (by decide +kernel) fun a ha => ?_
    obtain rfl := Option.some.inj (Option.some.inj (havoid.symm.trans ha))
    decide +kernel

/-! ## Is a cleaner route shown? -/

/-- A route the safe slot keeps within the budget ends up labelled safe, and no other does when a
route was kept before it. -/
theorem relabel_safe {b fastTimeS : K} (kept : List (Alternative E T K))
    (a : Alternative E T K) (ha : a.kind = .safe)
    (hle : pl.travelTimeS a.result ≤ (1 + b) * fastTimeS) :
    ∃ init, relabel true (withinBudget pl b ⟨kept ++ [a], some fastTimeS⟩) = init ++ [a] ∧
      ∀ x ∈ init, x.kind ≠ .safe := by
  unfold withinBudget
  simp only
  cases kept with
  | nil => exact ⟨[], rfl, fun _ hx => absurd hx List.not_mem_nil⟩
  | cons c kept =>
    cases hkept : kept ++ [a] with
    | nil => exact absurd hkept (by simp)
    | cons d rest =>
      simp only [List.cons_append, hkept]
      rw [← hkept, List.filter_append]
      have hin : [a].filter (fun x => decide (pl.travelTimeS x.result ≤ (1 + b) * fastTimeS)) =
          [a] := by
        rw [List.filter_singleton, decide_eq_true hle]
        rfl
      rw [hin, ← List.cons_append]
      obtain ⟨init, hinit, hkinds⟩ := relabel_last (List.cons_ne_nil c _) a
      refine ⟨init, ?_, hkinds⟩
      rw [hinit, ← ha]

/-- What the safe slot keeps. -/
theorem sweepSlot_safe {b : K} {s s' : Sweep E T K} {w cand result : PathResult E T K}
    {ac : Fin T → K} (hw : runOn run pl (pl.qc.arcCost cfg.lambdaSafe) = some (some w))
    (hcand : slotCandidate run cfg pl .safe cfg.lambdaSafe
      (s.fastTimeS.getD (pl.travelTimeS w)) b w = some (cand, ac))
    (hresult : diversify run cfg pl s.kept cfg.maxReruns cand ac = some result)
    (hadm : Admitted cfg pl s.kept cand result)
    (h : sweepSlot run cfg pl b s (.safe, cfg.lambdaSafe) = some s') :
    s' = ⟨s.kept ++ [⟨.safe, cfg.lambdaSafe, result⟩],
      some (s.fastTimeS.getD (pl.travelTimeS w))⟩ := by
  rcases sweepSlot_cases h with ⟨hnone, -⟩ | ⟨w', cand', ac', result', hw', hcand', hresult', hcase⟩
  · exact absurd (hw.symm.trans hnone) (by simp)
  · obtain rfl : w = w' := Option.some.inj (Option.some.inj (hw.symm.trans hw'))
    obtain ⟨rfl, rfl⟩ := Prod.mk.inj (Option.some.inj (hcand.symm.trans hcand'))
    obtain rfl : result = result' := Option.some.inj (hresult.symm.trans hresult')
    rcases hcase with ⟨hno, -⟩ | ⟨-, rfl⟩
    · exact absurd hadm hno
    · rfl

/-- **A hard-avoid route that is kept is shown, under the label safe.** It is kept when it
duplicates no earlier route, or when its reruns lead to a route that duplicates none, has no more
counted turns and is within the budget. -/
theorem safe_shown {budget : Option K} {alts : List (Alternative E T K)} {s : Sweep E T K}
    {w r : PathResult E T K} {ac : Fin T → K}
    (halts : computeAlternatives run cfg pl true budget = some alts)
    (hs : afterBalanced run cfg pl (budget.getD cfg.detourBudgetPct) = some s)
    (hw : runOn run pl (pl.qc.arcCost cfg.lambdaSafe) = some (some w))
    (hb : 0 < budget.getD cfg.detourBudgetPct) (hc : 0 < pl.qc.unsafeCount w)
    (hr : avoidWithinBudget run cfg pl cfg.lambdaSafe (s.fastTimeS.getD (pl.travelTimeS w))
      (budget.getD cfg.detourBudgetPct) (pl.qc.unsafeCount w) = some (some (r, ac)))
    (hkept : duplicate cfg pack.topo s.kept r = false ∨
      ∃ result, diversify run cfg pl s.kept cfg.maxReruns r ac = some result ∧
        Admitted cfg pl s.kept r result ∧ pl.travelTimeS result ≤
          (1 + budget.getD cfg.detourBudgetPct) * s.fastTimeS.getD (pl.travelTimeS w)) :
    ∃ a ∈ alts, a.kind = .safe ∧ pl.qc.unsafeCount a.result ≤ pl.qc.unsafeCount r ∧
      (duplicate cfg pack.topo s.kept r = false → a.result = r) := by
  obtain ⟨s0, s', hs0, hs', rfl⟩ := computeAlternatives_safety.mp halts
  obtain rfl : s = s0 := Option.some.inj (hs.symm.trans hs0)
  have hcand : slotCandidate run cfg pl .safe cfg.lambdaSafe
      (s.fastTimeS.getD (pl.travelTimeS w)) (budget.getD cfg.detourBudgetPct) w =
        some (r, ac) := by
    unfold slotCandidate
    rw [if_pos ⟨rfl, hb, hc⟩, hr]
    rfl
  have hresult : ∃ result, diversify run cfg pl s.kept cfg.maxReruns r ac = some result ∧
      Admitted cfg pl s.kept r result ∧ pl.travelTimeS result ≤
        (1 + budget.getD cfg.detourBudgetPct) * s.fastTimeS.getD (pl.travelTimeS w) := by
    rcases hkept with hdup | hresult
    · exact ⟨r, diversify_fresh hdup, ⟨hdup, le_rfl⟩, (avoidWithinBudget_found hr).2.2.2⟩
    · exact hresult
  obtain ⟨result, hdiv, hadm, hle⟩ := hresult
  rw [sweepSlot_safe hw hcand hdiv hadm hs']
  obtain ⟨init, hinit, -⟩ := relabel_safe s.kept ⟨.safe, cfg.lambdaSafe, result⟩ rfl hle
  refine ⟨⟨.safe, cfg.lambdaSafe, result⟩, ?_, rfl, hadm.count_le, fun hdup => ?_⟩
  · rw [hinit]
    exact List.mem_append_right _ (List.mem_singleton_self _)
  · exact Option.some.inj (hdiv.symm.trans (diversify_fresh hdup))

/-- A corridor of five edges of 100 m, with a counted left after the first and a way round it over
a sixth edge of 70 m. -/
def corridor : TurnTopo 6 6 where
  turnPtr := ![0, 2, 3, 4, 5, 5, 6]
  turnOutEdge := ![1, 5, 2, 3, 4, 1]
  turnInEdge := ![0, 0, 1, 2, 3, 5]
  turnAllowed _ := true
  csr := by decide

def corridorRouter : Router 6 6 ℚ Unit where
  pack :=
    { topo := corridor
      edgeLengthM := ![100, 100, 100, 100, 100, 70]
      edgeSpeedMps := fun _ => 1
      edgeReverse := fun _ => none
      length_nonneg := by decide
      speed_pos := fun _ => one_pos
      reverse_pairs := by simp }
  alternatives := shippedCfg
  astar := false
  impl := .pyref (sortedQueue pyKey)
  nearest pt := some (midEdge (if pt.1 = 0 then 0 else 4))
  costsAt _ := computeCosts _ ⟨fun _ => 1, fun _ => one_pos⟩ plainCfg
    ⟨![40, 0, 0, 0, 0, 0], fun _ => false, fun _ => 0, fun _ => false,
      ![true, false, false, false, false, false], fun _ => le_rfl⟩
  heuristic _ _ _ _ := 0
  simProfileVersion := ""

/-- The plan from the middle of the first edge of the corridor to the middle of the last. -/
def corridorPlan : Plan corridorRouter.pack Unit :=
  corridorRouter.planOf () (corridorRouter.snap (0, 0)) (midEdge 4) (corridorRouter.snap (1, 0))

/-- In the corridor the hard avoid finds the way round: 470 s, no counted turn. It shares five of
its six edges with the fast route, so the safe slot drops it, and the response is the fast route
alone. -/
theorem safe_not_shown :
    let pl := corridorPlan.endpoints
    let run := corridorRouter.run 30
    let fast : PathResult 6 6 ℚ := ⟨[0, 2, 3, 4], 0, 4, 400⟩
    let clean : PathResult 6 6 ℚ := ⟨[1, 5, 2, 3, 4], 0, 4, 470⟩
    afterBalanced run shippedCfg pl (1 / 4) = some ⟨[⟨.fast, 0, fast⟩], some 400⟩ ∧
    runOn run pl (pl.qc.arcCost (3 / 2)) = some (some { fast with totalCost := 460 }) ∧
    avoidWithinBudget run shippedCfg pl (3 / 2) 400 (1 / 4)
        (pl.qc.unsafeCount { fast with totalCost := 460 }) =
      some (some (clean, avoidCost shippedCfg pl (3 / 2))) ∧
    ∃ alts, computeAlternatives run shippedCfg pl true none = some alts ∧
      ∀ a ∈ alts, pl.qc.unsafeCount clean < pl.qc.unsafeCount a.result := by
  refine ⟨by decide +kernel, by decide +kernel, by decide +kernel,
    [⟨.fast, 0, ⟨[0, 2, 3, 4], 0, 4, 400⟩⟩], by decide +kernel, by decide +kernel⟩

/-- `safe_shown` on `twoStreets`. -/
theorem safe_shown_twoStreets :
    ∃ alts, computeAlternatives (twoStreets.run 20) shippedCfg (fanPlan twoStreets).endpoints true
        none = some alts ∧
      ∃ a ∈ alts, a.kind = .safe ∧ (fanPlan twoStreets).endpoints.qc.unsafeCount a.result ≤
        (fanPlan twoStreets).endpoints.qc.unsafeCount ⟨[1, 3], 0, 1, 570⟩ ∧
        (duplicate shippedCfg twoStreets.pack.topo [⟨.fast, 0, ⟨[0, 2], 0, 1, 100⟩⟩]
          ⟨[1, 3], 0, 1, 570⟩ = false → a.result = ⟨[1, 3], 0, 1, 570⟩) := by
  let alts : List (Alternative 4 4 ℚ) :=
    [⟨.fast, 0, ⟨[0, 2], 0, 1, 100⟩⟩, ⟨.safe, 3 / 2, ⟨[1, 3], 0, 1, 570⟩⟩]
  have halts : computeAlternatives (twoStreets.run 20) shippedCfg (fanPlan twoStreets).endpoints
      true none = some alts := by
    decide +kernel
  have hr : avoidWithinBudget (twoStreets.run 20) shippedCfg (fanPlan twoStreets).endpoints (3 / 2)
      100 (1 / 4) ((fanPlan twoStreets).endpoints.qc.unsafeCount ⟨[0, 2], 0, 1, 130⟩) =
        some (some (⟨[1, 3], 0, 1, 570⟩,
          avoidCost shippedCfg (fanPlan twoStreets).endpoints (3 / 2))) := by
    decide +kernel
  exact ⟨alts, halts, safe_shown (s := ⟨[⟨.fast, 0, ⟨[0, 2], 0, 1, 100⟩⟩], some 100⟩)
    (w := ⟨[0, 2], 0, 1, 130⟩) halts (by decide +kernel) (by decide +kernel) (by decide +kernel)
    (by decide +kernel) hr (Or.inl (by decide +kernel))⟩

end RoutePlanner.Planner
