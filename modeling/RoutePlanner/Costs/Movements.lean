import Mathlib.Algebra.BigOperators.Group.Finset.Basic
import RoutePlanner.Costs.Legs
import RoutePlanner.Lib.Regroup

/-!
# The movements that wait

Model of `_control_delay_statics`: which approach is major, the fixed wait of each turn, and for
every turn that waits for a gap its critical gap and the approaches whose flow it must clear. The
legs are collected as pairs, a pair as one number, and grouped again by turn.

The movement table of the module docstring is stated beside it: `IsMajor`, `gapMovement`, `gapLegs`,
`criticalGap`.

* `major_iff`: which approach is major.
* `delayFixedS_eq`: the fixed waits.
* `mem_gapPairs`, `tc_gapPairs`: the pairs and the critical gaps are those of the table.
* `gapTable_eq`, `sum_flow`: what is listed, and what the flows of a turn's row sum up to.
-/

namespace RoutePlanner.Costs

open RoutePlanner.Lib

variable {N E T : ℕ} {K : Type}

/-! ## The code -/

/-- `[sim.control_delay]`. -/
structure ControlDelayCfg (K : Type) [Zero K] [LE K] where
  tCCrossingS : K
  tCLeftS : K
  tCLeftWideS : K
  leftWideLanesMin : K
  tCRightS : K
  tCPriorityLeftS : K
  capS : K
  signalMajorS : K
  signalMinorS : K
  allWayStopS : K
  cap_nonneg : 0 ≤ capS
  signal_major_nonneg : 0 ≤ signalMajorS
  signal_minor_nonneg : 0 ≤ signalMinorS
  all_way_stop_nonneg : 0 ≤ allWayStopS

section Major

variable (pack : Pack N E T K)

/-- `feeders_of`, for one edge. -/
def feedersOf (e : Option (Fin E)) : List (Option (Fin E)) :=
  (pack.feeders.getD (e.elim 0 Fin.val) []).map fun f => if e.isSome = true then f else none

/-- `oncoming`: what feeds the reverse of an edge. -/
def oncoming (e : Fin E) : List (Option (Fin E)) := feedersOf pack (pack.edgeReverse e)

/-- `rank`. -/
def edgeRank (e : Fin E) : ℕ := roadClassRank (pack.edgeRoadClass e)

/-- `continues`: a straight turn leaves from the edge. -/
def continues : Fin E → Bool :=
  assignAt (fun _ => false) (pack.straightTurns.map pack.inn)
    ((pack.straightTurns.map pack.inn).map fun _ => true)

/-- `own`: an approach is the edge itself, or its oncoming leg. -/
def own (e : Fin E) (o : Option (Fin E)) : Bool :=
  decide (o = some e) || (oncoming pack e).any fun f => decide (o = f)

/-- `other_road`. -/
def otherRoad (e : Fin E) (o : Option (Fin E)) : Bool := o.isSome && !own pack e o

/-- `outranks`. -/
def outranks (e o : Fin E) : Bool :=
  decide (edgeRank pack e < edgeRank pack o) ||
    (decide (edgeRank pack e = edgeRank pack o) && continues pack e && !continues pack o)

/-- `ends`: the pairs of a node and a neighbour. `np.unique` sorts them, which nothing reads. -/
def ends : List (Fin N × Fin N) :=
  ((List.finRange E).map (fun e => (pack.edgeHead e, pack.edgeTail e)) ++
    (List.finRange E).map fun e => (pack.edgeTail e, pack.edgeHead e)).dedup

/-- `num_legs`. -/
def numLegs (n : Fin N) : ℕ := (histogram N ((ends pack).map fun x => (x.1 : ℕ))).getD n 0

/-- `major`. -/
def major (e : Fin E) : Bool :=
  ((pack.nodeIn.getD (pack.edgeHead e) []).all fun o =>
      if otherRoad pack e o = true then o.elim true (outranks pack e) else true) ||
    decide (numLegs pack (pack.edgeHead e) < 3)

end Major

/-- `a[i]`, and `0` outside. -/
def atIndex [Zero K] {n : ℕ} (a : Fin n → K) (i : ℕ) : K := if h : i < n then a ⟨i, h⟩ else 0

theorem atIndex_val [Zero K] {n : ℕ} (a : Fin n → K) (i : Fin n) : atIndex a i = a i :=
  dif_pos i.isLt

section Table

variable [Field K] [LinearOrder K] (pack : Pack N E T K) (cd : ControlDelayCfg K)

/-- `maj`. -/
def maj (t : Fin T) : Bool := major pack (pack.inn t)

/-- `minor`. -/
def minor (t : Fin T) : Bool :=
  ((pack.twoWay t && pack.mustStop t) || (pack.ctrlNone t && !maj pack t)) && !pack.isUturn t

/-- `priority`. -/
def priority (t : Fin T) : Bool :=
  (pack.twoWay t && !pack.mustStop t) || (pack.ctrlNone t && maj pack t)

/-- `signal`. -/
def signal (t : Fin T) : Bool := pack.ctrl t = .signalPermissive

/-- `delay_fixed_s`: of the three assignments the last one wins. -/
def delayFixedS (t : Fin T) : K :=
  if (signal pack t && !pack.isUturn t && !maj pack t) = true then cd.signalMinorS
  else if (signal pack t && !pack.isUturn t && maj pack t) = true then cd.signalMajorS
  else if (decide (pack.ctrl t = .stop4way) && !pack.isUturn t) = true then cd.allWayStopS
  else 0

/-- `road_lanes`: of the road turned onto, both directions. -/
def roadLanes (t : Fin T) : K :=
  pack.edgeLanes (pack.out t) + (pack.revOut t).elim 0 pack.edgeLanes

/-- `np.where(wide, t_c_left_wide_s, t_c_left_s)`. -/
def tCLeft (t : Fin T) : K :=
  if cd.leftWideLanesMin ≤ roadLanes pack t then cd.tCLeftWideS else cd.tCLeftS

/-- The pairs of a turn and a leg collected so far, and `tc`. -/
structure GapPairs (E T : ℕ) (K : Type) where
  pairs : List (Fin T × Fin E)
  tc : Fin T → K

/-- `cand[keep]` at one turn. -/
def keptPairs (cand : Fin T → List (Option (Fin E))) (t : Fin T) : List (Fin T × Fin E) :=
  (cand t).filterMap fun c => if c = some (pack.inn t) then none else c.map (Prod.mk t)

/-- `add`. -/
def addGap (s : GapPairs E T K) (gate : Fin T → Bool) (cand : Fin T → List (Option (Fin E)))
    (tC : Fin T → K) : GapPairs E T K :=
  let ts := (List.finRange T).filter gate
  { pairs := s.pairs ++ ts.flatMap (keptPairs pack cand)
    tc := assignAt s.tc ts (ts.map tC) }

/-- The four calls of `add`. -/
def gapPairs : GapPairs E T K :=
  let s := addGap pack ⟨[], fun _ => 0⟩ (fun t => minor pack t && pack.isStraight t)
    (fun t => (legCands pack t).map fun c => if c = pack.revOut t then none else c)
    fun _ => cd.tCCrossingS
  let s := addGap pack s (fun t => minor pack t && pack.isLeft t)
    (fun t => pack.revOut t :: feedersOf pack (some (pack.out t))) (tCLeft pack cd)
  let s := addGap pack s (fun t => minor pack t && pack.isRight t)
    (fun t => feedersOf pack (some (pack.out t))) fun _ => cd.tCRightS
  addGap pack s (fun t => (priority pack t || signal pack t) && pack.isLeft t)
    (fun t => oncoming pack (pack.inn t)) fun _ => cd.tCPriorityLeftS

/-- A pair as one number, in `int64`. -/
def legKey (E : ℕ) {T : ℕ} (x : Fin T × Fin E) : ℕ := x.1 * (E + 1) + x.2

/-- `gap_turns`, `gap_tc` and `gap_legs`, the legs by turn; the source has them by depth first. -/
structure GapTable (K : Type) where
  gapTurns : List ℕ
  gapTc : List K
  gapLegs : List (List ℕ)

/-- **`_control_delay_statics`**, but for the fixed waits. -/
def gapTable : GapTable K :=
  let s := gapPairs pack cd
  let key := unique (s.pairs.map (legKey E))
  let r := regroupPadded (key.map (· / (E + 1))) (key.map (· % (E + 1))) E
  { gapTurns := r.1
    gapTc := r.1.map (atIndex s.tc)
    gapLegs := r.2 }

end Table

/-! ## Which approach is major -/

section IsMajor

variable (pack : Pack N E T K)

/-- Edge `o` arrives dead ahead of edge `e`. -/
def Oncoming (e o : Fin E) : Prop := ∃ r, pack.edgeReverse e = some r ∧ pack.Feeds o r

instance (e o : Fin E) : Decidable (Oncoming pack e o) :=
  inferInstanceAs (Decidable (∃ r, pack.edgeReverse e = some r ∧ pack.Feeds o r))

/-- Edge `e` goes straight on. -/
def Continues (e : Fin E) : Prop := ∃ t, pack.turnManeuver t = .straight ∧ pack.inn t = e

instance (e : Fin E) : Decidable (Continues pack e) :=
  inferInstanceAs (Decidable (∃ t, pack.turnManeuver t = .straight ∧ pack.inn t = e))

/-- A strictly more major class, or the through road of one class against a road that ends. -/
def Outranks (e o : Fin E) : Prop :=
  edgeRank pack e < edgeRank pack o ∨
    edgeRank pack e = edgeRank pack o ∧ Continues pack e ∧ ¬ Continues pack o

instance (e o : Fin E) : Decidable (Outranks pack e o) :=
  inferInstanceAs (Decidable (_ ∨ _))

/-- The nodes that an edge joins to `n`. -/
def neighbours (n : Fin N) : Finset (Fin N) :=
  Finset.univ.filter fun m => ∃ e, pack.edgeHead e = n ∧ pack.edgeTail e = m ∨
    pack.edgeTail e = n ∧ pack.edgeHead e = m

/-- An approach is major when it outranks every other road at the junction, or there is none. -/
def IsMajor (e : Fin E) : Prop :=
  (∀ o, pack.edgeHead o = pack.edgeHead e → o ≠ e → ¬ Oncoming pack e o → Outranks pack e o) ∨
    (neighbours pack (pack.edgeHead e)).card < 3

instance (e : Fin E) : Decidable (IsMajor pack e) := inferInstanceAs (Decidable (_ ∨ _))

variable {pack}

theorem mem_feedersOf_some {o f : Fin E} : some f ∈ feedersOf pack (some o) ↔ pack.Feeds f o := by
  unfold feedersOf
  simp only [Option.isSome_some, if_true, List.map_id']
  exact pack.mem_feeders

theorem mem_feedersOf {e : Option (Fin E)} {f : Fin E} :
    some f ∈ feedersOf pack e ↔ ∃ o, e = some o ∧ pack.Feeds f o := by
  cases e with
  | none => simp [feedersOf]
  | some o =>
    rw [mem_feedersOf_some]
    refine ⟨fun h => ⟨o, rfl, h⟩, ?_⟩
    rintro ⟨o', ho, h⟩
    obtain rfl := Option.some.inj ho
    exact h

theorem mem_oncoming {e o : Fin E} : some o ∈ oncoming pack e ↔ Oncoming pack e o := mem_feedersOf

theorem continues_iff {e : Fin E} : continues pack e = true ↔ Continues pack e := by
  unfold continues
  rw [assignAt_map]
  have hmem : e ∈ pack.straightTurns.map pack.inn ↔ Continues pack e := by
    rw [List.mem_map]
    constructor
    · rintro ⟨t, ht, hinn⟩
      exact ⟨t, pack.mem_straightTurns.mp ht, hinn⟩
    · rintro ⟨t, hst, hinn⟩
      exact ⟨t, pack.mem_straightTurns.mpr hst, hinn⟩
  simp [hmem]

theorem outranks_iff {e o : Fin E} : outranks pack e o = true ↔ Outranks pack e o := by
  unfold outranks Outranks
  rw [Bool.or_eq_true, Bool.and_eq_true, Bool.and_eq_true, decide_eq_true_eq, decide_eq_true_eq,
    continues_iff, Bool.not_eq_true', ← Bool.not_eq_true, continues_iff, and_assoc]

theorem otherRoad_iff {e o : Fin E} :
    otherRoad pack e (some o) = true ↔ o ≠ e ∧ ¬ Oncoming pack e o := by
  have hany : ((oncoming pack e).any fun f => decide (some o = f)) = true ↔ Oncoming pack e o := by
    rw [List.any_eq_true, ← mem_oncoming]
    constructor
    · rintro ⟨f, hf, heq⟩
      rwa [of_decide_eq_true heq]
    · exact fun h => ⟨some o, h, decide_eq_true rfl⟩
  unfold otherRoad own
  rw [Option.isSome_some, Bool.true_and, Bool.not_eq_true', Bool.or_eq_false_iff,
    decide_eq_false_iff_not, ← Bool.not_eq_true, hany, Option.some.injEq]

/-- **The legs of a node**, counted. -/
theorem numLegs_eq (n : Fin N) : numLegs pack n = (neighbours pack n).card := by
  have hcount : numLegs pack n = ((ends pack).filter fun x => x.1 = n).length := by
    unfold numLegs
    rw [List.getD_eq_getElem?_getD, getElem?_histogram _ n.isLt, Option.getD_some, List.count,
      List.countP_map, List.countP_eq_length_filter]
    refine congrArg List.length (List.filter_congr fun x _ => ?_)
    rw [Bool.eq_iff_iff]
    simp [Fin.ext_iff]
  have hnodup : (((ends pack).filter fun x => x.1 = n).map Prod.snd).Nodup := by
    refine List.Nodup.map_on ?_ ((List.nodup_dedup _).filter _)
    intro x hx y hy heq
    have hx' : x.1 = n := of_decide_eq_true (List.mem_filter.mp hx).2
    have hy' : y.1 = n := of_decide_eq_true (List.mem_filter.mp hy).2
    exact Prod.ext (hx'.trans hy'.symm) heq
  rw [hcount, ← List.length_map (f := Prod.snd), ← List.toFinset_card_of_nodup hnodup]
  congr 1
  ext m
  unfold neighbours ends
  rw [List.mem_toFinset, Finset.mem_filter, List.mem_map]
  constructor
  · rintro ⟨⟨n', m'⟩, hmem, rfl⟩
    obtain ⟨hends, hn⟩ := List.mem_filter.mp hmem
    obtain rfl : n' = n := of_decide_eq_true hn
    refine ⟨Finset.mem_univ _, ?_⟩
    rcases List.mem_append.mp (List.mem_dedup.mp hends) with h | h
    · obtain ⟨e, -, heq⟩ := List.mem_map.mp h
      exact ⟨e, Or.inl (Prod.mk.inj heq)⟩
    · obtain ⟨e, -, heq⟩ := List.mem_map.mp h
      exact ⟨e, Or.inr (Prod.mk.inj heq)⟩
  · rintro ⟨-, e, ⟨rfl, rfl⟩ | ⟨rfl, rfl⟩⟩
    · exact ⟨_, List.mem_filter.mpr ⟨List.mem_dedup.mpr (List.mem_append_left _
        (List.mem_map_of_mem (List.mem_finRange e))), decide_eq_true rfl⟩, rfl⟩
    · exact ⟨_, List.mem_filter.mpr ⟨List.mem_dedup.mpr (List.mem_append_right _
        (List.mem_map_of_mem (List.mem_finRange e))), decide_eq_true rfl⟩, rfl⟩

/-- **Which approach is major**, as the docstring has it. -/
theorem major_iff {e : Fin E} : major pack e = true ↔ IsMajor pack e := by
  unfold major IsMajor
  rw [Bool.or_eq_true, decide_eq_true_eq, numLegs_eq, List.all_eq_true]
  refine or_congr_left ?_
  constructor
  · intro h o hhead hne honcoming
    have hrow := h (some o) (pack.mem_nodeIn.mpr (congrArg Fin.val hhead))
    rw [if_pos (otherRoad_iff.mpr ⟨hne, honcoming⟩)] at hrow
    exact outranks_iff.mp hrow
  · intro h c hc
    cases c with
    | none => simp [otherRoad]
    | some o =>
      by_cases hother : otherRoad pack e (some o) = true
      · rw [if_pos hother]
        obtain ⟨hne, honcoming⟩ := otherRoad_iff.mp hother
        exact outranks_iff.mpr (h o (Fin.ext (pack.mem_nodeIn.mp hc)) hne honcoming)
      · rw [if_neg hother]

end IsMajor

/-! ## The movement table -/

/-- The movements that wait for a gap. -/
inductive Movement where
  | crossing
  | leftOnto
  | rightOnto
  | leftAcross
  deriving DecidableEq, Repr

section Spec

variable [Field K] [LinearOrder K] (pack : Pack N E T K) (cd : ControlDelayCfg K)

/-- Holds a stop or give-way line, or has no control and is not major. -/
def MinorApproach (t : Fin T) : Prop :=
  (pack.ctrl t = .stop2way ∨ pack.ctrl t = .yield) ∧ pack.mustStop t = true ∨
    pack.ctrl t = .none ∧ ¬ IsMajor pack (pack.inn t)

instance (t : Fin T) : Decidable (MinorApproach pack t) :=
  inferInstanceAs (Decidable (_ ∧ _ ∨ _ ∧ _))

/-- Does not hold the line, or has no control and is major. -/
def PriorityApproach (t : Fin T) : Prop :=
  (pack.ctrl t = .stop2way ∨ pack.ctrl t = .yield) ∧ pack.mustStop t = false ∨
    pack.ctrl t = .none ∧ IsMajor pack (pack.inn t)

instance (t : Fin T) : Decidable (PriorityApproach pack t) :=
  inferInstanceAs (Decidable (_ ∧ _ ∨ _ ∧ _))

/-- The gap that a turn waits for, if any. -/
def gapMovement (t : Fin T) : Option Movement :=
  match pack.turnManeuver t with
  | .straight => if MinorApproach pack t then some .crossing else none
  | .left =>
    if MinorApproach pack t then some .leftOnto
    else if PriorityApproach pack t ∨ pack.ctrl t = .signalPermissive then some .leftAcross
    else none
  | .right => if MinorApproach pack t then some .rightOnto else none
  | .uturn => none

/-- The approaches that a movement must clear. -/
def gapLegs (t : Fin T) (m : Movement) : Finset (Fin E) :=
  match m with
  | .crossing => Finset.univ.filter fun e =>
      pack.edgeHead e = pack.edgeHead (pack.inn t) ∧ e ≠ pack.inn t ∧ pack.revOut t ≠ some e
  | .leftOnto => Finset.univ.filter fun e =>
      (pack.revOut t = some e ∨ pack.Feeds e (pack.out t)) ∧ e ≠ pack.inn t
  | .rightOnto => Finset.univ.filter fun e => pack.Feeds e (pack.out t) ∧ e ≠ pack.inn t
  | .leftAcross => Finset.univ.filter fun e => Oncoming pack (pack.inn t) e ∧ e ≠ pack.inn t

/-- The critical gap of a movement. -/
def criticalGap (t : Fin T) (m : Movement) : K :=
  match m with
  | .crossing => cd.tCCrossingS
  | .leftOnto => tCLeft pack cd t
  | .rightOnto => cd.tCRightS
  | .leftAcross => cd.tCPriorityLeftS

/-- The wait that no traffic moves. -/
def fixedWait (t : Fin T) : K :=
  if pack.turnManeuver t = .uturn then 0
  else match pack.ctrl t with
    | .stop4way => cd.allWayStopS
    | .signalPermissive => if IsMajor pack (pack.inn t) then cd.signalMajorS else cd.signalMinorS
    | _ => 0

end Spec

section Gates

variable {pack : Pack N E T K}

theorem maj_iff {t : Fin T} : maj pack t = true ↔ IsMajor pack (pack.inn t) := major_iff

theorem twoWay_iff {t : Fin T} :
    pack.twoWay t = true ↔ pack.ctrl t = .stop2way ∨ pack.ctrl t = .yield := by
  unfold Pack.twoWay Pack.yielding
  simp

theorem minor_iff {t : Fin T} :
    minor pack t = true ↔ MinorApproach pack t ∧ pack.turnManeuver t ≠ .uturn := by
  unfold minor MinorApproach Pack.ctrlNone Pack.isUturn
  rw [Bool.and_eq_true, Bool.or_eq_true, Bool.and_eq_true, Bool.and_eq_true, twoWay_iff,
    decide_eq_true_eq, Bool.not_eq_true', Bool.not_eq_true', ← Bool.not_eq_true (maj pack t),
    maj_iff, decide_eq_false_iff_not]

theorem priority_iff {t : Fin T} : priority pack t = true ↔ PriorityApproach pack t := by
  unfold priority PriorityApproach Pack.ctrlNone
  rw [Bool.or_eq_true, Bool.and_eq_true, Bool.and_eq_true, twoWay_iff, decide_eq_true_eq,
    Bool.not_eq_true', maj_iff]

/-- No approach is both. -/
theorem MinorApproach.not_priority {t : Fin T} (h : MinorApproach pack t) :
    ¬ (PriorityApproach pack t ∨ pack.ctrl t = .signalPermissive) := by
  unfold MinorApproach at h
  unfold PriorityApproach
  rcases h with ⟨hctrl, hstop⟩ | ⟨hctrl, hmaj⟩
  · rw [hstop]
    rcases hctrl with hctrl | hctrl <;> simp [hctrl]
  · simp [hctrl, hmaj]

/-- When a turn waits for a gap. -/
def Gate (pack : Pack N E T K) (t : Fin T) (m : Movement) : Prop :=
  match m with
  | .crossing => MinorApproach pack t ∧ pack.turnManeuver t = .straight
  | .leftOnto => MinorApproach pack t ∧ pack.turnManeuver t = .left
  | .rightOnto => MinorApproach pack t ∧ pack.turnManeuver t = .right
  | .leftAcross => (PriorityApproach pack t ∨ pack.ctrl t = .signalPermissive) ∧
      pack.turnManeuver t = .left

theorem gapMovement_eq_some {t : Fin T} {m : Movement} :
    gapMovement pack t = some m ↔ Gate pack t m := by
  unfold gapMovement
  by_cases hminor : MinorApproach pack t
  · have hno := hminor.not_priority
    cases hman : pack.turnManeuver t <;> cases m <;> simp [Gate, hman, hminor, hno]
  · cases hman : pack.turnManeuver t <;> cases m <;>
      simp [Gate, hman, hminor, or_iff_not_imp_left]

/-- **The fixed waits.** -/
theorem delayFixedS_eq [Field K] [LinearOrder K] (cd : ControlDelayCfg K) (t : Fin T) :
    delayFixedS pack cd t = fixedWait pack cd t := by
  unfold delayFixedS fixedWait signal Pack.isUturn
  by_cases hu : pack.turnManeuver t = .uturn
  · simp [hu]
  · rw [if_neg hu]
    by_cases hmaj : IsMajor pack (pack.inn t)
    · have hm := maj_iff.mpr hmaj
      cases hctrl : pack.ctrl t <;> simp [hu, hm, hmaj]
    · have hm : maj pack t = false := by
        rw [← Bool.not_eq_true, maj_iff]
        exact hmaj
      cases hctrl : pack.ctrl t <;> simp [hu, hm, hmaj]

end Gates

/-! ## The legs that are listed -/

section Cands

variable {pack : Pack N E T K} {s : GapPairs E T K} {gate : Fin T → Bool}
  {cand : Fin T → List (Option (Fin E))} {tC : Fin T → K} {t : Fin T} {e : Fin E}

/-- The candidates of a crossing. -/
theorem mem_crossCands :
    some e ∈ (legCands pack t).map (fun c => if c = pack.revOut t then none else c) ↔
      pack.edgeHead e = pack.edgeHead (pack.inn t) ∧ pack.revOut t ≠ some e := by
  rw [List.mem_map]
  constructor
  · rintro ⟨c, hc, heq⟩
    by_cases hrev : c = pack.revOut t
    · rw [if_pos hrev] at heq
      exact nomatch heq
    · rw [if_neg hrev] at heq
      subst heq
      exact ⟨Fin.ext (pack.mem_nodeIn.mp hc), fun h => hrev h.symm⟩
  · rintro ⟨hhead, hrev⟩
    exact ⟨some e, pack.mem_nodeIn.mpr (congrArg Fin.val hhead), if_neg fun h => hrev h.symm⟩

theorem mem_leftCands :
    some e ∈ pack.revOut t :: feedersOf pack (some (pack.out t)) ↔
      pack.revOut t = some e ∨ pack.Feeds e (pack.out t) := by
  rw [List.mem_cons, mem_feedersOf_some]
  exact or_congr_left eq_comm

theorem mem_addGap : (t, e) ∈ (addGap pack s gate cand tC).pairs ↔
    (t, e) ∈ s.pairs ∨ gate t = true ∧ some e ∈ cand t ∧ e ≠ pack.inn t := by
  unfold addGap keptPairs
  rw [List.mem_append, List.mem_flatMap]
  refine or_congr_right ?_
  constructor
  · rintro ⟨t', ht', hmem⟩
    obtain ⟨c, hc, hpair⟩ := List.mem_filterMap.mp hmem
    by_cases hown : c = some (pack.inn t')
    · rw [if_pos hown] at hpair
      exact nomatch hpair
    · rw [if_neg hown, Option.map_eq_some_iff] at hpair
      obtain ⟨e', rfl, heq⟩ := hpair
      obtain ⟨rfl, rfl⟩ := Prod.mk.inj heq
      exact ⟨Pack.mem_finRange_filter.mp ht', hc, fun h => hown (congrArg some h)⟩
  · rintro ⟨hgate, hmem, hne⟩
    refine ⟨t, Pack.mem_finRange_filter.mpr hgate, List.mem_filterMap.mpr ⟨some e, hmem, ?_⟩⟩
    rw [if_neg fun h => hne (Option.some.inj h)]
    rfl

theorem tc_addGap : (addGap pack s gate cand tC).tc t = if gate t = true then tC t else s.tc t := by
  have hassign := assignAt_map s.tc tC ((List.finRange T).filter gate) t
  refine hassign.trans ?_
  by_cases hgate : gate t = true
  · rw [if_pos hgate, if_pos (Pack.mem_finRange_filter.mpr hgate)]
  · rw [if_neg hgate, if_neg fun h => hgate (Pack.mem_finRange_filter.mp h)]

end Cands

section Pairs

variable [Field K] [LinearOrder K] {pack : Pack N E T K} {cd : ControlDelayCfg K}
  {t : Fin T} {e : Fin E}

/-- **The pairs** are those of the movement table. -/
theorem mem_gapPairs : (t, e) ∈ (gapPairs pack cd).pairs ↔
    ∃ m, gapMovement pack t = some m ∧ e ∈ gapLegs pack t m := by
  unfold gapPairs
  simp only [mem_addGap, mem_crossCands, mem_leftCands, mem_feedersOf_some, mem_oncoming,
    Bool.and_eq_true, Bool.or_eq_true, minor_iff, priority_iff, List.not_mem_nil, false_or,
    gapMovement_eq_some]
  unfold Pack.isStraight Pack.isLeft Pack.isRight signal
  simp only [decide_eq_true_eq]
  constructor
  · rintro (((⟨⟨hgate, hman⟩, ⟨hhead, hrev⟩, hne⟩ | ⟨⟨hgate, hman⟩, hleg⟩) |
      ⟨⟨hgate, hman⟩, hleg⟩) | ⟨hgate, hleg⟩)
    · exact ⟨.crossing, ⟨hgate.1, hman⟩,
        Finset.mem_filter.mpr ⟨Finset.mem_univ e, hhead, hne, hrev⟩⟩
    · exact ⟨.leftOnto, ⟨hgate.1, hman⟩, Finset.mem_filter.mpr ⟨Finset.mem_univ e, hleg⟩⟩
    · exact ⟨.rightOnto, ⟨hgate.1, hman⟩, Finset.mem_filter.mpr ⟨Finset.mem_univ e, hleg⟩⟩
    · exact ⟨.leftAcross, hgate, Finset.mem_filter.mpr ⟨Finset.mem_univ e, hleg⟩⟩
  · rintro ⟨m, hgate, hleg⟩
    cases m with
    | crossing =>
      obtain ⟨-, hhead, hne, hrev⟩ := Finset.mem_filter.mp hleg
      exact Or.inl (Or.inl (Or.inl ⟨⟨⟨hgate.1, by simp [hgate.2]⟩, hgate.2⟩, ⟨hhead, hrev⟩, hne⟩))
    | leftOnto =>
      obtain ⟨-, hleg⟩ := Finset.mem_filter.mp hleg
      exact Or.inl (Or.inl (Or.inr ⟨⟨⟨hgate.1, by simp [hgate.2]⟩, hgate.2⟩, hleg⟩))
    | rightOnto =>
      obtain ⟨-, hleg⟩ := Finset.mem_filter.mp hleg
      exact Or.inl (Or.inr ⟨⟨⟨hgate.1, by simp [hgate.2]⟩, hgate.2⟩, hleg⟩)
    | leftAcross => exact Or.inr ⟨hgate, (Finset.mem_filter.mp hleg).2⟩

/-- **The critical gaps** are those of the movement table. -/
theorem tc_gapPairs {m : Movement} (h : gapMovement pack t = some m) :
    (gapPairs pack cd).tc t = criticalGap pack cd t m := by
  rw [gapMovement_eq_some] at h
  unfold gapPairs
  simp only [tc_addGap, Bool.and_eq_true, Bool.or_eq_true, minor_iff, priority_iff]
  unfold Pack.isStraight Pack.isLeft Pack.isRight signal
  simp only [decide_eq_true_eq]
  cases m with
  | crossing => simp [h.1, h.2, criticalGap]
  | leftOnto =>
    have hno := h.1.not_priority
    simp [h.1, h.2, hno, criticalGap]
  | rightOnto => simp [h.1, h.2, criticalGap]
  | leftAcross => simp [h.1, h.2, criticalGap]

end Pairs

/-! ## Grouped by turn -/

theorem legKey_div (x : Fin T × Fin E) : legKey E x / (E + 1) = x.1 := by
  unfold legKey
  rw [Nat.mul_comm, Nat.mul_add_div (Nat.succ_pos E), Nat.div_eq_of_lt (Nat.lt_succ_of_lt x.2.isLt),
    Nat.add_zero]

theorem legKey_mod (x : Fin T × Fin E) : legKey E x % (E + 1) = x.2 := by
  unfold legKey
  rw [Nat.mul_comm, Nat.mul_add_mod, Nat.mod_eq_of_lt (Nat.lt_succ_of_lt x.2.isLt)]

/-- The numbers fit in `int64`. -/
theorem legKey_lt (hE : E < 2 ^ 31) (hT : T < 2 ^ 31) (x : Fin T × Fin E) :
    legKey E x < 2 ^ 63 := by
  have hmul : (x.1 : ℕ) * (E + 1) ≤ 2 ^ 31 * 2 ^ 31 :=
    Nat.mul_le_mul (x.1.isLt.le.trans hT.le) hE
  have hleg := x.2.isLt
  unfold legKey
  omega

section Rows

variable (ps : List (Fin T × Fin E))

/-- `t_all`. -/
def keyTurns : List ℕ := (unique (ps.map (legKey E))).map (· / (E + 1))

/-- `leg_all`. -/
def keyLegs : List ℕ := (unique (ps.map (legKey E))).map (· % (E + 1))

theorem keyTurns_sorted : (keyTurns ps).Pairwise (· ≤ ·) :=
  List.Pairwise.map _ (fun _ _ h => Nat.div_le_div_right h) (List.pairwise_insertionSort _ _)

theorem mem_keyTurns {t : Fin T} : (t : ℕ) ∈ keyTurns ps ↔ ∃ e, (t, e) ∈ ps := by
  unfold keyTurns
  rw [List.mem_map]
  constructor
  · rintro ⟨x, hx, heq⟩
    obtain ⟨p, hp, rfl⟩ := List.mem_map.mp (mem_unique.mp hx)
    rw [legKey_div] at heq
    exact ⟨p.2, Fin.ext heq ▸ hp⟩
  · rintro ⟨e, he⟩
    exact ⟨_, mem_unique.mpr (List.mem_map_of_mem he), legKey_div _⟩

/-- **The legs of a turn**, each once. -/
theorem valuesAt_perm (t : Fin T) :
    (valuesAt (keyTurns ps) (keyLegs ps) t).Perm
      (((List.finRange E).filter fun e => (t, e) ∈ ps).map Fin.val) := by
  have hrow : valuesAt (keyTurns ps) (keyLegs ps) t =
      ((unique (ps.map (legKey E))).filter fun x => x / (E + 1) = t).map (· % (E + 1)) := by
    unfold valuesAt group keyTurns keyLegs
    rw [List.zip_map', List.filter_map, List.map_map]
    rfl
  rw [hrow]
  refine (List.perm_ext_iff_of_nodup ?_ ?_).mpr fun v => ?_
  · refine List.Nodup.map_on ?_ ((unique_nodup _).filter _)
    intro x hx y hy heq
    have hx' : x / (E + 1) = t := of_decide_eq_true (List.mem_filter.mp hx).2
    have hy' : y / (E + 1) = t := of_decide_eq_true (List.mem_filter.mp hy).2
    rw [← Nat.div_add_mod x (E + 1), ← Nat.div_add_mod y (E + 1), hx', hy', heq]
  · exact ((List.nodup_finRange E).filter _).map Fin.val_injective
  · rw [List.mem_map, List.mem_map]
    constructor
    · rintro ⟨x, hx, rfl⟩
      obtain ⟨hx, hturn⟩ := List.mem_filter.mp hx
      obtain ⟨p, hp, rfl⟩ := List.mem_map.mp (mem_unique.mp hx)
      have hturn := of_decide_eq_true hturn
      rw [legKey_div] at hturn
      refine ⟨p.2, Pack.mem_finRange_filter.mpr (decide_eq_true ?_), (legKey_mod p).symm⟩
      exact Fin.ext hturn ▸ hp
    · rintro ⟨e, he, rfl⟩
      have hmem := of_decide_eq_true (Pack.mem_finRange_filter.mp he)
      exact ⟨_, List.mem_filter.mpr ⟨mem_unique.mpr (List.mem_map_of_mem hmem),
        decide_eq_true (legKey_div _)⟩, legKey_mod _⟩

variable [Field K]

/-- **The flow that is summed**: each leg's once, and nothing for the padding. -/
theorem sum_flow {flow : ℕ → K} (hpad : flow E = 0) (t : Fin T) (n : ℕ) :
    ((valuesAt (keyTurns ps) (keyLegs ps) t ++ List.replicate n E).map flow).sum =
      ∑ e ∈ Finset.univ.filter fun e => (t, e) ∈ ps, flow e := by
  have hfilter : (Finset.univ.filter fun e => (t, e) ∈ ps) =
      ((List.finRange E).filter fun e => (t, e) ∈ ps).toFinset := by
    ext e
    simp
  rw [hfilter, List.sum_toFinset _ ((List.nodup_finRange E).filter _), List.map_append,
    List.sum_append, List.map_replicate, hpad, List.sum_replicate, nsmul_zero, add_zero,
    ((valuesAt_perm ps t).map flow).sum_eq, List.map_map]
  rfl

end Rows

/-- The common depth of the rows, less the legs of a turn. -/
def padCount (ps : List (Fin T × Fin E)) (u : ℕ) : ℕ :=
  max (((unique (keyTurns ps)).map fun u => (keyTurns ps).count u).foldl max 0) 1 -
    (valuesAt (keyTurns ps) (keyLegs ps) u).length

/-- **What is listed** for the turns that wait for a gap. -/
theorem gapTable_eq [Field K] [LinearOrder K] (pack : Pack N E T K) (cd : ControlDelayCfg K) :
    gapTable pack cd =
      { gapTurns := unique (keyTurns (gapPairs pack cd).pairs)
        gapTc := (unique (keyTurns (gapPairs pack cd).pairs)).map (atIndex (gapPairs pack cd).tc)
        gapLegs := (unique (keyTurns (gapPairs pack cd).pairs)).map fun u =>
          valuesAt (keyTurns (gapPairs pack cd).pairs) (keyLegs (gapPairs pack cd).pairs) u ++
            List.replicate (padCount (gapPairs pack cd).pairs u) E } := by
  have htable : ∀ s : GapPairs E T K, ∀ r : List ℕ × List (List ℕ),
      regroupPadded (keyTurns s.pairs) (keyLegs s.pairs) E = r →
      (let key := unique (s.pairs.map (legKey E))
        let r := regroupPadded (key.map (· / (E + 1))) (key.map (· % (E + 1))) E
        GapTable.mk r.1 (r.1.map (atIndex s.tc)) r.2) =
      GapTable.mk r.1 (r.1.map (atIndex s.tc)) r.2 := by
    rintro s r rfl
    rfl
  have hlen : (keyTurns (gapPairs pack cd).pairs).length =
      (keyLegs (gapPairs pack cd).pairs).length := by
    unfold keyTurns keyLegs
    rw [List.length_map, List.length_map]
  exact htable (gapPairs pack cd) _ (regroupPadded_eq E hlen (keyTurns_sorted _))

end RoutePlanner.Costs
