import Mathlib.Data.Finset.Card
import Mathlib.Data.Nat.Cast.Basic
import RoutePlanner.Planner.Costs

/-!
# `pyref/alternatives.py`: the lambda sweep and the single-level search

Model of `compute_alternatives`, `compute_single` and `_avoid_within_budget`. Every search goes
through an injected `run`, as in the source; `none` of the outer `Option` says that some search ran
out of fuel.

One turn of the sweep is `sweepSlot`:

* `slotCandidate`: the search at the slot's lambda, and the hard-avoid attempt of the safe slot;
* `diversify`: reruns on inflated costs while the route duplicates a kept one;
* the two guards that drop the slot.

After the sweep come the budget ceiling (`withinBudget`) and the labels (`relabel`).
-/

namespace RoutePlanner.Planner

open RoutePlanner.Lib RoutePlanner.Search

variable {E T : ℕ} {K : Type} [Field K] [LinearOrder K]

/-- `cfg["alternatives"]`. -/
structure AltCfg (K : Type) [Field K] [LinearOrder K] where
  lambdaFast : K
  lambdaBalanced : K
  lambdaSafe : K
  jaccardThreshold : K
  penaltyFactor : K
  maxReruns : ℕ
  detourBudgetPct : K
  avoidSurchargeS : K
  surcharge_nonneg : 0 ≤ avoidSurchargeS

/-- A safety level. The sweep uses the three named ones; a request may carry any text. -/
inductive Level where
  | fast
  | balanced
  | safe
  | other (name : String)
  deriving DecidableEq, Repr

/-- `Alternative`. -/
structure Alternative (E T : ℕ) (K : Type) where
  kind : Level
  lam : K
  result : PathResult E T K
  deriving DecidableEq, Repr

/-- The search inputs of one query: pack, costs, seeds, destinations and heuristic. -/
structure Endpoints (pack : Pack E T K) where
  qc : QueryCosts pack
  seeds : List (Fin E × K)
  dests : List (Fin E × K)
  h : Option (Fin E → K)

/-- `run(ac, h, seeds, dests)`. -/
abbrev Run (E T : ℕ) (K : Type) : Type :=
  (Fin T → K) → Option (Fin E → K) → List (Fin E × K) → List (Fin E × K) →
    Option (Option (PathResult E T K))

/-- The search of one engine on a pack, with `fuel` iterations for each loop. -/
def Impl.run (impl : Impl E K) (pack : Pack E T K) (fuel : ℕ) : Run E T K :=
  fun ac h seeds dests => impl.shortestPath ⟨pack.topo, ac, h, seeds, dests⟩ fuel

/-- `set(result.edges(out_edge))`. -/
def edgeSet (topo : TurnTopo E T) (r : PathResult E T K) : Finset (Fin E) :=
  (r.edges topo.turnOutEdge).toFinset

def jaccard (a b : Finset (Fin E)) : K :=
  if a = ∅ ∧ b = ∅ then 1 else ((a ∩ b).card : K) / ((a ∪ b).card : K)

variable {pack : Pack E T K}

namespace Endpoints

variable (pl : Endpoints pack)

/-- The query a run with arc costs `ac` answers. -/
def query (ac : Fin T → K) : Query E T K := ⟨pack.topo, ac, pl.h, pl.seeds, pl.dests⟩

/-- `travel_time_s` of `travel_time_fn`. A result starts at a seed edge and ends at a destination
edge, so both lookups succeed. -/
def travelTimeS (r : PathResult E T K) : K :=
  (dictGet pl.seeds r.firstEdge).getD 0 + (r.turnIds.map (pl.qc.arcCost 0)).sum +
    (dictGet pl.dests r.destEdge).getD 0

end Endpoints

section Sweep

variable (run : Run E T K) (cfg : AltCfg K) (pl : Endpoints pack)

/-- The injected search on arc costs `ac`. -/
def runOn (ac : Fin T → K) : Option (Option (PathResult E T K)) := run ac pl.h pl.seeds pl.dests

/-- The arc costs of the hard avoid: a surcharge on every counted turn. -/
def avoidCost (lam : K) (t : Fin T) : K :=
  pl.qc.arcCost lam t + if pl.qc.flagged t = true then cfg.avoidSurchargeS else 0

/-- `_avoid_within_budget`. -/
def avoidWithinBudget (lam fastTimeS budgetPct : K) (baselineUnsafe : ℕ) :
    Option (Option (PathResult E T K × (Fin T → K))) :=
  if (List.finRange T).any pl.qc.flagged = false then some none
  else
    (runOn run pl (avoidCost cfg pl lam)).map fun
      | none => none
      | some result =>
        if baselineUnsafe ≤ pl.qc.unsafeCount result then none
        else if (1 + budgetPct) * fastTimeS < pl.travelTimeS result then none
        else some (result, avoidCost cfg pl lam)

/-- The search of one slot and, for the safe slot, its hard-avoid attempt: the candidate, and the
arc costs its reruns inflate. -/
def slotCandidate (kind : Level) (lam fastTimeS budgetPct : K) (result : PathResult E T K) :
    Option (PathResult E T K × (Fin T → K)) :=
  if kind = .safe ∧ 0 < budgetPct ∧ 0 < pl.qc.unsafeCount result then
    (avoidWithinBudget run cfg pl lam fastTimeS budgetPct (pl.qc.unsafeCount result)).map fun
      | none => (result, pl.qc.arcCost lam)
      | some clean => clean
  else some (result, pl.qc.arcCost lam)

/-- `any(jaccard(edge_set, ks) > threshold for ks in kept_edge_sets)`. -/
def duplicate (cfg : AltCfg K) (topo : TurnTopo E T) (kept : List (Alternative E T K))
    (r : PathResult E T K) : Bool :=
  kept.any fun a => decide (cfg.jaccardThreshold < jaccard (edgeSet topo r) (edgeSet topo a.result))

/-- The penalty method: every turn into an edge shared with a kept route costs `factor` times as
much. -/
def inflate (cfg : AltCfg K) (topo : TurnTopo E T) (kept : List (Alternative E T K))
    (r : PathResult E T K) (ac : Fin T → K) (t : Fin T) : K :=
  if topo.turnOutEdge t ∈ edgeSet topo r ∧
      kept.any (fun a => decide (topo.turnOutEdge t ∈ edgeSet topo a.result)) = true then
    ac t * cfg.penaltyFactor
  else ac t

/-- The rerun loop, with the reruns left. -/
def diversify (kept : List (Alternative E T K)) :
    ℕ → PathResult E T K → (Fin T → K) → Option (PathResult E T K)
  | 0, result, _ => some result
  | n + 1, result, ac =>
    if duplicate cfg pack.topo kept result = true then
      (runOn run pl (inflate cfg pack.topo kept result ac)).bind fun
        | none => some result
        | some rerun => diversify kept n rerun (inflate cfg pack.topo kept result ac)
    else some result

/-- What the sweep carries from slot to slot. -/
structure Sweep (E T : ℕ) (K : Type) where
  kept : List (Alternative E T K)
  fastTimeS : Option K
  deriving DecidableEq

/-- One slot of the sweep. -/
def sweepSlot (budgetPct : K) (s : Sweep E T K) (slot : Level × K) : Option (Sweep E T K) :=
  (runOn run pl (pl.qc.arcCost slot.2)).bind fun
    | none => some s
    | some first =>
      let fastTimeS := s.fastTimeS.getD (pl.travelTimeS first)
      (slotCandidate run cfg pl slot.1 slot.2 fastTimeS budgetPct first).bind fun cand =>
        (diversify run cfg pl s.kept cfg.maxReruns cand.1 cand.2).map fun result =>
          if duplicate cfg pack.topo s.kept result = true then ⟨s.kept, some fastTimeS⟩
          else if pl.qc.unsafeCount cand.1 < pl.qc.unsafeCount result then
            ⟨s.kept, some fastTimeS⟩
          else ⟨s.kept ++ [⟨slot.1, slot.2, result⟩], some fastTimeS⟩

/-- The slots. -/
def slots (cfg : AltCfg K) (safetyEnabled : Bool) : List (Level × K) :=
  (Level.fast, cfg.lambdaFast) ::
    if safetyEnabled = true then
      [(Level.balanced, cfg.lambdaBalanced), (Level.safe, cfg.lambdaSafe)]
    else []

/-- The budget as a ceiling; the first route is always kept. -/
def withinBudget (budgetPct : K) (s : Sweep E T K) : List (Alternative E T K) :=
  match s.fastTimeS, s.kept with
  | some fastTimeS, a :: b :: rest =>
    a :: (b :: rest).filter fun x => decide (pl.travelTimeS x.result ≤ (1 + budgetPct) * fastTimeS)
  | _, kept => kept

/-- The labels by position, when safety is on and two or more routes are left. -/
def relabel (safetyEnabled : Bool) (kept : List (Alternative E T K)) : List (Alternative E T K) :=
  if safetyEnabled = true ∧ 1 < kept.length then
    List.zipWith (fun lbl a => { a with kind := lbl })
      (Level.fast :: List.replicate (kept.length - 2) Level.balanced ++ [Level.safe]) kept
  else kept

/-- **`compute_alternatives`.** -/
def computeAlternatives (safetyEnabled : Bool) (detourBudgetPct : Option K) :
    Option (List (Alternative E T K)) :=
  let budgetPct := detourBudgetPct.getD cfg.detourBudgetPct
  ((slots cfg safetyEnabled).foldlM (sweepSlot run cfg pl budgetPct) ⟨[], none⟩).map fun s =>
    relabel safetyEnabled (withinBudget pl budgetPct s)

/-- **`compute_single`.** -/
def computeSingle (level : Level) (lam : K) (detourBudgetPct : Option K) :
    Option (Option (PathResult E T K)) :=
  let budgetPct := detourBudgetPct.getD cfg.detourBudgetPct
  (runOn run pl (pl.qc.arcCost lam)).bind fun
    | none => some none
    | some result =>
      if level = .safe ∧ 0 < budgetPct ∧ 0 < pl.qc.unsafeCount result then
        (runOn run pl (pl.qc.arcCost 0)).bind fun
          | none => some (some result)
          | some baseline =>
            (avoidWithinBudget run cfg pl lam (pl.travelTimeS baseline) budgetPct
              (pl.qc.unsafeCount result)).map fun
                | none => some result
                | some clean => some clean.1
      else some (some result)

end Sweep

end RoutePlanner.Planner
