import RoutePlanner.Planner.Safety

/-!
# The set of alternatives

`compute_alternatives` may replace a slot's route by the hard avoid's, replace that by a rerun on
inflated costs, drop it, or lay another label over it. What is left is well formed.

* `length_rerunCosts_le`, `diversify_congr`: the searches of the rerun loop, and their number.
* `Kept`: what the sweep keeps; `kept_slot`: one slot keeps it.
* `labels_of_kept`: the labels that are left.
* `computeAlternatives_wellFormed`: the sweep ends, in a well-formed set.
-/

namespace RoutePlanner.Planner

open RoutePlanner.Lib RoutePlanner.Search

variable {E T : ℕ} {K : Type} [Field K] [LinearOrder K] {pack : Pack E T K}

/-! ## Reruns -/

section Reruns

variable (run : Run E T K) (cfg : AltCfg K) (pl : Endpoints pack) (kept : List (Alternative E T K))

/-- The arc costs of the searches `diversify` makes, in order. -/
def rerunCosts : ℕ → PathResult E T K → (Fin T → K) → List (Fin T → K)
  | 0, _, _ => []
  | n + 1, result, ac =>
    if duplicate cfg pack.topo kept result = true then
      inflate cfg pack.topo kept result ac ::
        match runOn run pl (inflate cfg pack.topo kept result ac) with
        | some (some rerun) => rerunCosts n rerun (inflate cfg pack.topo kept result ac)
        | _ => []
    else []

theorem length_rerunCosts_le (n : ℕ) (result : PathResult E T K) (ac : Fin T → K) :
    (rerunCosts run cfg pl kept n result ac).length ≤ n := by
  induction n generalizing result ac with
  | zero => exact le_rfl
  | succ n ih =>
    unfold rerunCosts
    split
    · rw [List.length_cons]
      split
      · exact Nat.succ_le_succ (ih _ _)
      · exact Nat.succ_le_succ (Nat.zero_le n)
    · exact Nat.zero_le _

/-- **The rerun loop makes these searches and no others**: it cannot tell apart two searches that
agree on them. -/
theorem diversify_congr {run' : Run E T K} {n : ℕ} {result : PathResult E T K} {ac : Fin T → K}
    (h : ∀ c ∈ rerunCosts run cfg pl kept n result ac, runOn run' pl c = runOn run pl c) :
    diversify run' cfg pl kept n result ac = diversify run cfg pl kept n result ac := by
  induction n generalizing result ac with
  | zero => rfl
  | succ n ih =>
    unfold diversify
    by_cases hdup : duplicate cfg pack.topo kept result = true
    · unfold rerunCosts at h
      rw [if_pos hdup] at h ⊢
      rw [if_pos hdup, h _ List.mem_cons_self]
      cases hrun : runOn run pl (inflate cfg pack.topo kept result ac) with
      | none => rfl
      | some o =>
        cases o with
        | none => rfl
        | some rerun =>
          simp only [Option.bind_some]
          refine ih fun c hc => h c (List.mem_cons_of_mem _ ?_)
          rw [hrun]
          exact hc
    · rw [if_neg hdup, if_neg hdup]

end Reruns

/-! ## What a slot keeps -/

omit [LinearOrder K] in
theorem jaccard_comm (a b : Finset (Fin E)) : (jaccard a b : K) = jaccard b a := by
  unfold jaccard
  rw [Finset.inter_comm, Finset.union_comm]
  exact if_congr and_comm rfl rfl

/-- The edge sets of two routes are no more alike than the threshold. -/
def Diverse (cfg : AltCfg K) (topo : TurnTopo E T) (a b : PathResult E T K) : Prop :=
  jaccard (edgeSet topo a) (edgeSet topo b) ≤ cfg.jaccardThreshold

theorem diverse_of_fresh {cfg : AltCfg K} {topo : TurnTopo E T} {kept : List (Alternative E T K)}
    {r : PathResult E T K} (h : duplicate cfg topo kept r = false) {a : Alternative E T K}
    (ha : a ∈ kept) : Diverse cfg topo a.result r := by
  have hle := List.any_eq_false.mp h a ha
  rw [decide_eq_true_eq, not_lt] at hle
  unfold Diverse
  rwa [jaccard_comm]

variable {run : Run E T K} {cfg : AltCfg K} {pl : Endpoints pack}

/-- The hard avoid's route replaces the slot's only if it has fewer counted turns. -/
theorem slotCandidate_count_le {kind : Level} {lam fastTimeS b : K} {w cand : PathResult E T K}
    {ac : Fin T → K} (h : slotCandidate run cfg pl kind lam fastTimeS b w = some (cand, ac)) :
    pl.qc.unsafeCount cand ≤ pl.qc.unsafeCount w := by
  by_cases hkind : kind = .safe
  · subst hkind
    rcases slotCandidate_safe_cases h with ⟨-, rfl⟩ | ⟨-, ra, -, hcase⟩
    · exact le_rfl
    · rcases hcase with ⟨a, -, hacc, rfl⟩ | ⟨-, rfl⟩
      · exact hacc.1.le
      · exact le_rfl
  · rw [slotCandidate_plain fun h => hkind h.1] at h
    rw [(Prod.mk.inj (Option.some.inj h)).1]

/-- A route kept under `lam`: no less safe than the un-inflated candidate of a slot at that lambda,
which is no less safe than the slot's search. -/
def NoLessSafe (run : Run E T K) (cfg : AltCfg K) (pl : Endpoints pack) (b : K)
    (slots : List (Level × K)) (lam : K) (r : PathResult E T K) : Prop :=
  ∃ slot ∈ slots, slot.2 = lam ∧ ∃ fast first cand ac,
    runOn run pl (pl.qc.arcCost cfg.lambdaFast) = some (some fast) ∧
    runOn run pl (pl.qc.arcCost lam) = some (some first) ∧
    slotCandidate run cfg pl slot.1 lam (pl.travelTimeS fast) b first = some (cand, ac) ∧
    pl.qc.unsafeCount r ≤ pl.qc.unsafeCount cand ∧
    pl.qc.unsafeCount cand ≤ pl.qc.unsafeCount first

/-- What the sweep keeps after some of its slots. -/
structure Kept (run : Run E T K) (cfg : AltCfg K) (pl : Endpoints pack) (b : K)
    (slots : List (Level × K)) (kept : List (Alternative E T K)) : Prop where
  diverse : kept.Pairwise fun a c => Diverse cfg pack.topo a.result c.result
  no_less_safe : ∀ a ∈ kept, NoLessSafe run cfg pl b slots a.lam a.result

theorem kept_slot {b : K} {slots : List (Level × K)} {s s' : Sweep E T K} {slot : Level × K}
    {fast : PathResult E T K} (hslot : slot ∈ slots)
    (hfast : runOn run pl (pl.qc.arcCost cfg.lambdaFast) = some (some fast))
    (htime : ∀ first, runOn run pl (pl.qc.arcCost slot.2) = some (some first) →
      s.fastTimeS.getD (pl.travelTimeS first) = pl.travelTimeS fast)
    (hk : Kept run cfg pl b slots s.kept) (h : sweepSlot run cfg pl b s slot = some s') :
    Kept run cfg pl b slots s'.kept := by
  rcases sweepSlot_cases h with ⟨-, rfl⟩ | ⟨first, cand, ac, result, hfirst, hcand, -, hcase⟩
  · exact hk
  · rcases hcase with ⟨-, rfl⟩ | ⟨hadm, rfl⟩
    · exact hk
    · refine ⟨List.pairwise_append.mpr ⟨hk.diverse, List.pairwise_singleton _ _, ?_⟩, ?_⟩
      · intro a ha c hc
        rw [List.mem_singleton.mp hc]
        exact diverse_of_fresh hadm.fresh ha
      · intro a ha
        rcases List.mem_append.mp ha with ha | ha
        · exact hk.no_less_safe a ha
        · rw [List.mem_singleton.mp ha]
          rw [htime first hfirst] at hcand
          exact ⟨slot, hslot, rfl, fast, first, cand, ac, hfast, hfirst, hcand, hadm.count_le,
            slotCandidate_count_le hcand⟩

/-- A slot keeps one route at most. -/
theorem length_slot_le {b : K} {s s' : Sweep E T K} {slot : Level × K}
    (h : sweepSlot run cfg pl b s slot = some s') : s'.kept.length ≤ s.kept.length + 1 := by
  rcases sweepSlot_cases h with ⟨-, rfl⟩ | ⟨_, _, _, _, -, -, -, ⟨-, rfl⟩ | ⟨-, rfl⟩⟩
  · exact Nat.le_succ _
  · exact Nat.le_succ _
  · rw [List.length_append, List.length_singleton]

theorem length_sweep_le {b : K} {l : List (Level × K)} {s s' : Sweep E T K}
    (h : l.foldlM (sweepSlot run cfg pl b) s = some s') :
    s'.kept.length ≤ s.kept.length + l.length := by
  induction l generalizing s with
  | nil =>
    obtain rfl := Option.some.inj h
    exact le_rfl
  | cons slot l ih =>
    rw [List.foldlM_cons] at h
    obtain ⟨s1, hs1, h⟩ := Option.bind_eq_some_iff.mp h
    have hle := length_slot_le hs1
    have hrest := ih h
    rw [List.length_cons]
    omega

/-! ## The labels -/

omit [Field K] [LinearOrder K] in
/-- The labels of two or more routes, with safety on. -/
theorem relabel_kinds {kept : List (Alternative E T K)} (hlen : 1 < kept.length) :
    (relabel true kept).map Alternative.kind =
      Level.fast :: List.replicate (kept.length - 2) Level.balanced ++ [Level.safe] := by
  have hzip : ∀ (lbls : List Level) (l : List (Alternative E T K)), lbls.length = l.length →
      (List.zipWith (fun lbl a => { a with kind := lbl }) lbls l).map Alternative.kind = lbls := by
    intro lbls
    induction lbls with
    | nil => exact fun _ _ => rfl
    | cons lbl lbls ih =>
      intro l hl
      cases l with
      | nil => exact absurd hl (by simp)
      | cons a l =>
        rw [List.zipWith_cons_cons, List.map_cons, ih l (Nat.succ.inj hl)]
  unfold relabel
  rw [if_pos ⟨rfl, hlen⟩]
  refine hzip _ _ ?_
  simp only [List.length_append, List.length_cons, List.length_replicate, List.length_nil]
  omega

/-- The labels of a response: distinct, starting with fast and, from two on, ending with safe. -/
structure Labelled (kinds : List Level) : Prop where
  nodup : kinds.Nodup
  head : ∀ k ∈ kinds.head?, k = .fast
  last : 1 < kinds.length → kinds.getLast? = some .safe

omit [Field K] [LinearOrder K] in
/-- **The labels left by the sweep.** -/
theorem labels_of_kept (safetyEnabled : Bool) {kept : List (Alternative E T K)}
    (hlen : kept.length ≤ if safetyEnabled = true then 3 else 1)
    (hfast : ∀ a ∈ (relabel safetyEnabled kept).head?, a.kind = .fast) :
    Labelled ((relabel safetyEnabled kept).map Alternative.kind) := by
  by_cases hmany : 1 < kept.length
  · have hsafety : safetyEnabled = true := by
      by_contra hoff
      rw [if_neg hoff] at hlen
      omega
    subst hsafety
    rw [if_pos rfl] at hlen
    rw [relabel_kinds hmany]
    obtain hn | hn : kept.length - 2 = 0 ∨ kept.length - 2 = 1 := by omega
    · rw [hn]
      exact ⟨by decide, by decide, fun _ => rfl⟩
    · rw [hn]
      exact ⟨by decide, by decide, fun _ => rfl⟩
  · have hsame : relabel safetyEnabled kept = kept := if_neg fun h => hmany h.2
    rw [hsame] at hfast ⊢
    cases kept with
    | nil => exact ⟨List.nodup_nil, by simp, by simp⟩
    | cons a rest =>
      obtain rfl : rest = [] := by
        refine List.eq_nil_of_length_eq_zero ?_
        rw [List.length_cons] at hmany
        omega
      exact ⟨List.nodup_singleton _, by simpa using hfast a rfl, by simp⟩

/-! ## The set -/

/-- An allowed walk from a seed edge to a destination edge. -/
structure SeedToDest (pl : Endpoints pack) (r : PathResult E T K) : Prop where
  seed : ∃ g, (r.firstEdge, g) ∈ pl.seeds
  walk : pack.topo.graph.IsWalk r.firstEdge r.turnIds r.destEdge
  dest : ∃ adj, (r.destEdge, adj) ∈ pl.dests

/-- A well-formed set of alternatives. -/
structure WellFormed (run : Run E T K) (cfg : AltCfg K) (pl : Endpoints pack) (b : K)
    (slots : List (Level × K)) (alts : List (Alternative E T K)) : Prop where
  length_le : alts.length ≤ 3
  kept : Kept run cfg pl b slots alts
  labels : Labelled (alts.map Alternative.kind)
  walks : ∀ a ∈ alts, SeedToDest pl a.result

theorem length_slots (cfg : AltCfg K) (safetyEnabled : Bool) :
    (slots cfg safetyEnabled).length = if safetyEnabled = true then 3 else 1 := by
  cases safetyEnabled <;> rfl

/-- What is left after the budget and the labels is part of what the sweep kept. -/
theorem Kept.relabel {b b' : K} {slots : List (Level × K)} {s : Sweep E T K}
    (hk : Kept run cfg pl b slots s.kept) (safetyEnabled : Bool) :
    Kept run cfg pl b slots (relabel safetyEnabled (withinBudget pl b' s)) := by
  let key := fun a : Alternative E T K => (a.lam, a.result)
  have hkeys : (Planner.relabel safetyEnabled (withinBudget pl b' s)).map key =
      (withinBudget pl b' s).map key := by
    unfold Planner.relabel
    split
    · refine map_zipWith_kind key (fun _ _ => rfl) _ _ ?_
      simp only [List.length_append, List.length_cons, List.length_replicate, List.length_nil]
      omega
    · rfl
  have hsub : ((Planner.relabel safetyEnabled (withinBudget pl b' s)).map key).Sublist
      (s.kept.map key) := by
    rw [hkeys]
    exact (withinBudget_sublist b' s).map key
  constructor
  · have hpair : (s.kept.map key).Pairwise fun x y => Diverse cfg pack.topo x.2 y.2 :=
      List.pairwise_map.mpr hk.diverse
    have hpair' := hpair.sublist hsub
    rwa [List.pairwise_map] at hpair'
  · intro a ha
    obtain ⟨a', ha', heq⟩ := List.mem_map.mp (hsub.subset (List.mem_map_of_mem ha))
    obtain ⟨hlam, hresult⟩ := Prod.mk.inj heq
    rw [← hlam, ← hresult]
    exact hk.no_less_safe a' ha'

section Search

variable [IsStrictOrderedRing K] (impl : Impl E K) (cfg : AltCfg K) (pl : Endpoints pack)

theorem seedToDest_of_found {fuel : ℕ} {r : PathResult E T K}
    (h : Found (impl.run pack fuel) pl r) : SeedToDest pl r := by
  obtain ⟨ac, hac⟩ := h
  obtain ⟨g, adj, hj, -⟩ := (runOn_answer impl pl hac).sound r rfl
  exact ⟨⟨g, hj.route.seed⟩, hj.route.walk, adj, mem_of_dictGet hj.dest⟩

/-- If the fast slot finds nothing, no search finds anything. -/
theorem none_of_none {fuel : ℕ} {ac ac' : Fin T → K} {r : Option (PathResult E T K)}
    (hnone : runOn (impl.run pack fuel) pl ac = some none)
    (h : runOn (impl.run pack fuel) pl ac' = some r) : r = none := by
  refine (runOn_answer impl pl h).none_iff.mpr ?_
  rintro ⟨a, g, ts, b, adj, hj⟩
  exact (runOn_answer impl pl hnone).none_iff.mp rfl
    ⟨a, g, ts, b, adj, ⟨⟨hj.route.seed, hj.route.walk⟩, hj.dest⟩⟩

omit [IsStrictOrderedRing K] in
/-- **The sweep keeps what it should**, once its fast slot has found a route. -/
theorem kept_of_sweep {run : Run E T K} {b : K} {safetyEnabled : Bool} {s : Sweep E T K}
    {fast : PathResult E T K}
    (hfast : runOn run pl (pl.qc.arcCost cfg.lambdaFast) = some (some fast))
    (h : (slots cfg safetyEnabled).foldlM (sweepSlot run cfg pl b) ⟨[], none⟩ = some s) :
    Kept run cfg pl b (slots cfg safetyEnabled) s.kept := by
  have hnil : Kept run cfg pl b (slots cfg safetyEnabled) [] :=
    ⟨List.Pairwise.nil, fun _ h => absurd h List.not_mem_nil⟩
  have hslots : ∃ rest, slots cfg safetyEnabled = (.fast, cfg.lambdaFast) :: rest := ⟨_, rfl⟩
  obtain ⟨rest, hrest⟩ := hslots
  rw [hrest] at h hnil ⊢
  rw [List.foldlM_cons] at h
  obtain ⟨s1, hs1, h⟩ := Option.bind_eq_some_iff.mp h
  have hk1 : Kept run cfg pl b ((.fast, cfg.lambdaFast) :: rest) s1.kept := by
    refine kept_slot List.mem_cons_self hfast (fun first hfirst => ?_) hnil hs1
    obtain rfl : fast = first := Option.some.inj (Option.some.inj (hfast.symm.trans hfirst))
    rfl
  -- from here on the baseline is set
  have hall := foldlM_invariant (I := fun s : Sweep E T K =>
      Led cfg pl fast s ∧ Kept run cfg pl b ((.fast, cfg.lambdaFast) :: rest) s.kept)
    (fun s slot s' hslot hI hstep => ⟨hI.1.slot hstep,
      kept_slot (List.mem_cons_of_mem _ hslot) hfast
        (fun first _ => by rw [hI.1.fast_time, Option.getD_some]) hI.2 hstep⟩)
    ⟨led_of_fast hfast hs1, hk1⟩ h
  exact hall.2

theorem wellFormed_of_some {fuel : ℕ} {safetyEnabled : Bool} {budget : Option K}
    {alts : List (Alternative E T K)}
    (h : computeAlternatives (impl.run pack fuel) cfg pl safetyEnabled budget = some alts) :
    WellFormed (impl.run pack fuel) cfg pl (budget.getD cfg.detourBudgetPct)
      (slots cfg safetyEnabled) alts := by
  obtain ⟨o, ho⟩ := computeAlternatives_fast h
  cases o with
  | none =>
    rw [computeAlternatives_nil (fun _ _ hr => none_of_none impl pl ho hr) h]
    exact ⟨Nat.zero_le _, ⟨List.Pairwise.nil, fun _ h => absurd h List.not_mem_nil⟩,
      ⟨List.nodup_nil, by simp, by simp⟩, fun _ h => absurd h List.not_mem_nil⟩
  | some fast =>
    have hwalks : ∀ a ∈ alts, SeedToDest pl a.result := fun a ha =>
      seedToDest_of_found impl pl (found_of_mem h a ha)
    obtain ⟨rest, hrest, -⟩ := computeAlternatives_led ho h
    unfold computeAlternatives at h
    obtain ⟨s, hs, rfl⟩ := Option.map_eq_some_iff.mp h
    have hlen : (withinBudget pl (budget.getD cfg.detourBudgetPct) s).length ≤
        if safetyEnabled = true then 3 else 1 := by
      have hle := length_sweep_le hs
      rw [length_slots, List.length_nil, Nat.zero_add] at hle
      exact (withinBudget_sublist _ s).length_le.trans hle
    have hlength := congrArg List.length
      (relabel_results safetyEnabled (withinBudget pl (budget.getD cfg.detourBudgetPct) s))
    rw [List.length_map, List.length_map] at hlength
    refine ⟨?_, (kept_of_sweep cfg pl ho hs).relabel safetyEnabled,
      labels_of_kept safetyEnabled hlen (fun a ha => ?_), hwalks⟩
    · rw [hlength]
      refine hlen.trans ?_
      split <;> omega
    · rw [hrest, List.head?_cons, Option.mem_some_iff] at ha
      rw [← ha]

/-- **The set of alternatives is well formed.** On a configuration without negative weights, for
either engine and any pack, query, toggle and budget: `compute_alternatives` ends, each slot after
`max_reruns` reruns at most, in a well-formed set. -/
theorem computeAlternatives_wellFormed (hfactor : 0 ≤ cfg.penaltyFactor) (safetyEnabled : Bool)
    (hlam : ∀ slot ∈ slots cfg safetyEnabled, 0 ≤ slot.2) (budget : Option K) :
    (∃ alts, Yields (fun n =>
        computeAlternatives (impl.run pack n) cfg pl safetyEnabled budget) alts) ∧
    ∀ n alts, computeAlternatives (impl.run pack n) cfg pl safetyEnabled budget = some alts →
      WellFormed (impl.run pack n) cfg pl (budget.getD cfg.detourBudgetPct)
        (slots cfg safetyEnabled) alts ∧
      ∀ kept cand ac,
        (rerunCosts (impl.run pack n) cfg pl kept cfg.maxReruns cand ac).length ≤ cfg.maxReruns ∧
        ∀ run', (∀ c ∈ rerunCosts (impl.run pack n) cfg pl kept cfg.maxReruns cand ac,
            runOn run' pl c = runOn (impl.run pack n) pl c) →
          diversify run' cfg pl kept cfg.maxReruns cand ac =
            diversify (impl.run pack n) cfg pl kept cfg.maxReruns cand ac :=
  ⟨computeAlternatives_yields impl hfactor safetyEnabled
      (fun slot hslot => pl.qc.arcCost_nonneg (hlam slot hslot)) budget,
    fun n _ h => ⟨wellFormed_of_some impl cfg pl h, fun kept cand ac =>
      ⟨length_rerunCosts_le (impl.run pack n) cfg pl kept cfg.maxReruns cand ac,
        fun _ hagree => diversify_congr (impl.run pack n) cfg pl kept hagree⟩⟩⟩

end Search

/-- `computeAlternatives_wellFormed` on `threeStreets`. -/
theorem computeAlternatives_wellFormed_threeStreets :
    ∃ alts, computeAlternatives (threeStreets.run 20) shippedCfg (fanPlan threeStreets).endpoints
        true (some (1 / 4)) = some alts ∧
      WellFormed (threeStreets.run 20) shippedCfg (fanPlan threeStreets).endpoints (1 / 4)
        (slots shippedCfg true) alts := by
  obtain ⟨-, hall⟩ := computeAlternatives_wellFormed threeStreets.impl shippedCfg
    (fanPlan threeStreets).endpoints (by decide +kernel) true (by decide +kernel) (some (1 / 4))
  have heval : (computeAlternatives (threeStreets.run 20) shippedCfg
      (fanPlan threeStreets).endpoints true (some (1 / 4))).isSome = true := by
    decide +kernel
  obtain ⟨alts, halts⟩ := Option.isSome_iff_exists.mp heval
  exact ⟨alts, halts, (hall 20 alts halts).1⟩

end RoutePlanner.Planner
