import Mathlib.Data.Finset.Card
import RoutePlanner.Costs.Pack

/-!
# The approaches that a straight crosses

Model of `_crossing_legs`. A straight crosses every other incoming approach of its node but the
reverse of its out-edge (`Crosses`). The legs are listed once for a pack: for each turn of a gate
its node's incoming edges, those to keep sorted to the front, cut to a common depth and padded with
a repeat.

* `crossingLegs_ok`: what is listed.
* `crossCount_pos_iff`: the legs that match a mask, counted as a histogram over the node's edges
  less the two legs that the turn travels along.
-/

namespace RoutePlanner.Costs

open RoutePlanner.Lib

variable {N E T : ℕ} {K : Type}

section Defs

variable (pack : Pack N E T K)

/-- A straight turn along the reverse of its in-edge. -/
def straightReversal (t : Fin T) : Bool :=
  pack.isStraight t && pack.revOut t = some (pack.inn t)

/-- `cand`: the incoming edges at the node of a turn, padded. -/
def legCands (t : Fin T) : List (Option (Fin E)) :=
  pack.nodeIn.getD (pack.edgeHead (pack.inn t)) []

/-- `keep`. -/
def keepLeg (t : Fin T) (c : Option (Fin E)) : Bool :=
  c.isSome && c ≠ some (pack.inn t) && c ≠ pack.revOut t

/-- `keep.sum(axis=1)`. -/
def keepCount (t : Fin T) : ℕ := (legCands pack t).countP (keepLeg pack t)

/-- The legs of one turn: the kept ones first, cut to `depth`, padded with the first. -/
def legRow (depth : ℕ) (t : Fin T) : List (Option (Fin E)) :=
  repeatPad (sortStable (fun c => if keepLeg pack t c = true then 0 else 1) (legCands pack t))
    (keepCount pack t) depth

/-- **`_crossing_legs`**: the turns of a gate with something to cross, and the legs of each. The
source has them by depth first (`cand.T`). -/
def crossingLegs (gate : Fin T → Bool) :
    Except String (List (Fin T) × List (List (Option (Fin E)))) :=
  if (List.finRange T).any (straightReversal pack) = true then
    .error ("a STRAIGHT turn leaves along the reverse of its in-edge; the crossing " ++
      "legs can no longer be listed statically without changing the count")
  else
    let turns := ((List.finRange T).filter gate).filter fun t =>
      (legCands pack t).any (keepLeg pack t)
    let depth := (turns.map (keepCount pack)).foldl max 1
    .ok (turns, turns.map (legRow pack depth))

/-- `mask[legs].any(axis=0)`, for one turn. -/
def anyLeg (mask : Fin E → Bool) (legs : List (Option (Fin E))) : Bool :=
  legs.any fun c => c.any mask

/-! ## The legs -/

/-- A straight at `t` crosses the approach `e`. -/
def Crosses (t : Fin T) (e : Fin E) : Prop :=
  pack.edgeHead e = pack.edgeHead (pack.inn t) ∧ e ≠ pack.inn t ∧ pack.revOut t ≠ some e

instance (t : Fin T) (e : Fin E) : Decidable (Crosses pack t e) :=
  inferInstanceAs (Decidable (_ ∧ _ ∧ _))

end Defs

variable {pack : Pack N E T K}

theorem mem_legCands {t : Fin T} {c : Option (Fin E)} :
    c ∈ (legCands pack t).filter (keepLeg pack t) ↔ ∃ e, c = some e ∧ Crosses pack t e := by
  unfold keepLeg legCands
  rw [List.mem_filter]
  constructor
  · rintro ⟨hmem, hkeep⟩
    obtain ⟨e, rfl⟩ : ∃ e, c = some e := Option.isSome_iff_exists.mp (by simp_all)
    have hhead := pack.mem_nodeIn.mp hmem
    refine ⟨e, rfl, Fin.ext hhead, ?_, ?_⟩
    · rintro rfl
      simp at hkeep
    · intro hrev
      simp [hrev] at hkeep
  · rintro ⟨e, rfl, hhead, hne, hrev⟩
    refine ⟨pack.mem_nodeIn.mpr (congrArg Fin.val hhead), ?_⟩
    simp [hne, Ne.symm hrev]

/-- A turn is listed when it crosses something. -/
theorem any_legCands {t : Fin T} :
    (legCands pack t).any (keepLeg pack t) = true ↔ ∃ e, Crosses pack t e := by
  rw [List.any_eq_true]
  constructor
  · rintro ⟨c, hmem, hkeep⟩
    obtain ⟨e, -, hcross⟩ := mem_legCands.mp (List.mem_filter.mpr ⟨hmem, hkeep⟩)
    exact ⟨e, hcross⟩
  · rintro ⟨e, hcross⟩
    obtain ⟨hmem, hkeep⟩ := List.mem_filter.mp (mem_legCands.mpr ⟨e, rfl, hcross⟩)
    exact ⟨some e, hmem, hkeep⟩

theorem mem_legRow {t : Fin T} {depth : ℕ} (hne : ∃ e, Crosses pack t e)
    (hdepth : keepCount pack t ≤ depth) {c : Option (Fin E)} :
    c ∈ legRow pack depth t ↔ ∃ e, c = some e ∧ Crosses pack t e := by
  have hlen : keepCount pack t = ((legCands pack t).filter (keepLeg pack t)).length :=
    List.countP_eq_length_filter
  unfold legRow
  rw [hlen] at hdepth ⊢
  rw [sortStable_keep, mem_repeatPad ?_ hdepth, mem_legCands]
  obtain ⟨e, hcross⟩ := hne
  exact List.ne_nil_of_mem (mem_legCands.mpr ⟨e, rfl, hcross⟩)

/-- **What is listed**: the turns of the gate that cross something, and what each crosses. -/
theorem crossingLegs_ok (h : ∀ t, straightReversal pack t = false) (gate : Fin T → Bool) :
    ∃ turns row, crossingLegs pack gate = .ok (turns, turns.map row) ∧
      (∀ t, t ∈ turns ↔ gate t = true ∧ ∃ e, Crosses pack t e) ∧
      ∀ t ∈ turns, ∀ c, c ∈ row t ↔ ∃ e, c = some e ∧ Crosses pack t e := by
  have hno : (List.finRange T).any (straightReversal pack) = false := by
    rw [List.any_eq_false]
    exact fun t _ => by simp [h t]
  have hturns : ∀ t, t ∈ ((List.finRange T).filter gate).filter (fun t =>
      (legCands pack t).any (keepLeg pack t)) ↔ gate t = true ∧ ∃ e, Crosses pack t e := by
    intro t
    rw [List.mem_filter, Pack.mem_finRange_filter, any_legCands]
  refine ⟨_, _, by unfold crossingLegs; rw [hno, if_neg Bool.false_ne_true], hturns, ?_⟩
  intro t ht c
  exact mem_legRow ((hturns t).mp ht).2
    (le_foldl_max (List.mem_cons_of_mem 1 (List.mem_map_of_mem ht)))

theorem anyLeg_iff {mask : Fin E → Bool} {legs : List (Option (Fin E))} {t : Fin T}
    (h : ∀ c, c ∈ legs ↔ ∃ e, c = some e ∧ Crosses pack t e) :
    anyLeg mask legs = true ↔ ∃ e, Crosses pack t e ∧ mask e = true := by
  unfold anyLeg
  rw [List.any_eq_true]
  constructor
  · rintro ⟨c, hc, hmask⟩
    obtain ⟨e, rfl, hcross⟩ := (h c).mp hc
    exact ⟨e, hcross, hmask⟩
  · rintro ⟨e, hcross, hmask⟩
    exact ⟨some e, (h _).mpr ⟨e, rfl, hcross⟩, hmask⟩

/-! ## Counting the legs -/

section Count

variable (pack) in
/-- The edges that arrive at the node of a turn and match a mask. -/
def matching (mask : Fin E → Bool) (t : Fin T) : Finset (Fin E) :=
  Finset.univ.filter fun e => pack.edgeHead e = pack.edgeHead (pack.inn t) ∧ mask e = true

theorem mem_matching {mask : Fin E → Bool} {t : Fin T} {e : Fin E} :
    e ∈ matching pack mask t ↔ pack.edgeHead e = pack.edgeHead (pack.inn t) ∧ mask e = true := by
  unfold matching
  rw [Finset.mem_filter]
  exact and_iff_right (Finset.mem_univ e)

variable (pack) in
/-- The matching edges at the node of a turn, less its in-edge and less the reverse of its
out-edge, where these match. -/
def crossCount (mask : Fin E → Bool) (t : Fin T) : ℤ :=
  (matching pack mask t).card - (if mask (pack.inn t) = true then 1 else 0) -
    (if (pack.revOut t).any mask = true then 1 else 0)

theorem card_erase_int {ι : Type*} [DecidableEq ι] (s : Finset ι) (a : ι) :
    ((s.erase a).card : ℤ) = s.card - if a ∈ s then 1 else 0 := by
  by_cases ha : a ∈ s
  · rw [if_pos ha, ← Finset.card_erase_add_one ha]
    omega
  · rw [if_neg ha, Finset.erase_eq_of_notMem ha, sub_zero]

/-- **The count** finds what there is to cross, as long as the two legs it leaves out differ. -/
theorem crossCount_pos_iff (hrev : pack.ReverseValid) {t : Fin T}
    (hne : pack.revOut t ≠ some (pack.inn t)) (mask : Fin E → Bool) :
    0 < crossCount pack mask t ↔ ∃ e, Crosses pack t e ∧ mask e = true := by
  have hinn : mask (pack.inn t) = true ↔ pack.inn t ∈ matching pack mask t := by
    rw [mem_matching]
    exact (and_iff_right rfl).symm
  unfold crossCount
  simp only [hinn, ← card_erase_int]
  cases hr : pack.revOut t with
  | none =>
    rw [Option.any_none, if_neg Bool.false_ne_true, sub_zero, Int.natCast_pos, Finset.card_pos]
    constructor
    · rintro ⟨e, he⟩
      obtain ⟨hne', hmem⟩ := Finset.mem_erase.mp he
      obtain ⟨hhead, hmask⟩ := mem_matching.mp hmem
      exact ⟨e, ⟨hhead, hne', by simp [hr]⟩, hmask⟩
    · rintro ⟨e, ⟨hhead, hne', -⟩, hmask⟩
      exact ⟨e, Finset.mem_erase.mpr ⟨hne', mem_matching.mpr ⟨hhead, hmask⟩⟩⟩
  | some r =>
    -- the reverse of the out-edge arrives at the node of the turn
    have hhead : pack.edgeHead r = pack.edgeHead (pack.inn t) :=
      (hrev _ r hr).2.2.trans (pack.turn_adjacent t)
    have hrne : r ≠ pack.inn t := fun h => hne (hr.trans (congrArg some h))
    have hmem : mask r = true ↔ r ∈ (matching pack mask t).erase (pack.inn t) := by
      rw [Finset.mem_erase, mem_matching]
      exact ⟨fun h => ⟨hrne, hhead, h⟩, fun h => h.2.2⟩
    rw [Option.any_some]
    simp only [hmem, ← card_erase_int]
    rw [Int.natCast_pos, Finset.card_pos]
    constructor
    · rintro ⟨e, he⟩
      obtain ⟨hne', he⟩ := Finset.mem_erase.mp he
      obtain ⟨hne'', he⟩ := Finset.mem_erase.mp he
      obtain ⟨hhead', hmask⟩ := mem_matching.mp he
      refine ⟨e, ⟨hhead', hne'', ?_⟩, hmask⟩
      rw [hr]
      exact fun h => hne' (Option.some.inj h).symm
    · rintro ⟨e, ⟨hhead', hne', hrev'⟩, hmask⟩
      rw [hr] at hrev'
      have hne'' : e ≠ r := fun h => hrev' (congrArg some h.symm)
      exact ⟨e, Finset.mem_erase.mpr ⟨hne'', Finset.mem_erase.mpr
        ⟨hne', mem_matching.mpr ⟨hhead', hmask⟩⟩⟩⟩

end Count

end RoutePlanner.Costs
