import RoutePlanner.Ingestion.Invariant

/-!
# Where the turn rules leave a way on

A U-turn is allowed at a dead end only, where one edge leaves the head. Wherever two or more leave
it, a driver needs one that is neither the way back nor bent by more than 150 degrees.

* `exists_allowed_iff`: an edge has an allowed turn just when its head is a dead end, or such an
  edge leaves it.
* `hairpin_trapped`: a fork whose other branch folds back: nothing is allowed there.
-/

namespace RoutePlanner.Ingestion

open RoutePlanner.Lib

variable {K : Type} [Field K] [LinearOrder K] [FloorRing K]

omit [FloorRing K] in
theorem classifyManeuver_eq_uturn {delta : K} {isReversePair : Bool} :
    classifyManeuver delta isReversePair = .uturn ↔
      isReversePair = true ∨ uturnMinDeg < |delta| := by
  unfold classifyManeuver
  split
  · rename_i h
    exact iff_of_true rfl h
  · rename_i h
    refine iff_of_false ?_ h
    split
    · exact Maneuver.noConfusion
    · split <;> exact Maneuver.noConfusion

section Rows

variable {heads : List ℕ} {rev : List (Option ℕ)} {outPtr : List ℕ} {bearingIn bearingOut : List K}

/-- **The turns of one edge**, between two pointers. -/
theorem exists_allowed_turnsOf (e : ℕ) :
    (∃ turn ∈ turnsOf heads rev outPtr bearingIn bearingOut e, turn.allowed = true) ↔
      let lo := outPtr.getD (heads.getD e 0) 0
      let hi := outPtr.getD (succIndex outPtr.length (heads.getD e 0)) 0
      hi - lo = 1 ∨ ∃ e2, lo ≤ e2 ∧ e2 < hi ∧ rev.getD e none ≠ some e2 ∧
        |wrapDeltaDeg (bearingIn.getD e2 0 - bearingOut.getD e 0)| ≤ uturnMinDeg := by
  simp only
  unfold turnsOf
  simp only [List.mem_map, List.mem_range'_1, exists_exists_and_eq_and, decide_eq_true_eq,
    classifyManeuver_eq_uturn, not_and, not_lt]
  constructor
  · rintro ⟨e2, ⟨hlo, hhi⟩, hallowed⟩
    by_cases hback : rev.getD e none = some e2 ∨
        uturnMinDeg < |wrapDeltaDeg (bearingIn.getD e2 0 - bearingOut.getD e 0)|
    · have := hallowed hback
      exact Or.inl (by omega)
    · obtain ⟨hrev, hangle⟩ := not_or.mp hback
      exact Or.inr ⟨e2, hlo, by omega, hrev, not_lt.mp hangle⟩
  · rintro (hone | ⟨e2, hlo, hhi, hrev, hangle⟩)
    · exact ⟨_, ⟨Nat.le_refl _, by omega⟩, fun _ => hone.le⟩
    · refine ⟨e2, ⟨hlo, by omega⟩, fun hback => ?_⟩
      rcases hback with hback | hback
      · exact absurd hback hrev
      · exact absurd hangle (not_le.mpr hback)

/-- The rows of an edge in the table. -/
theorem exists_row_iff {e : ℕ} (he : e < heads.length) (P : Turn K → Prop) :
    (∃ (t : ℕ) (turn : Turn K),
      (buildTurnTable heads rev outPtr bearingIn bearingOut).1[t]? = some turn ∧
      (expand (buildTurnTable heads rev outPtr bearingIn bearingOut).2)[t]? = some e ∧ P turn) ↔
      ∃ turn ∈ turnsOf heads rev outPtr bearingIn bearingOut e, P turn := by
  rw [buildTurnTable_eq]
  have hlt : e < (turnRows heads rev outPtr bearingIn bearingOut).length := by rwa [length_turnRows]
  have hrow := getD_turnRows heads rev outPtr bearingIn bearingOut he
  constructor
  · rintro ⟨t, turn, hturn, hin, hP⟩
    obtain ⟨hlo, hhi⟩ := (getElem?_expand_offsets hlt).mp hin
    rw [offset_succ] at hhi
    obtain ⟨i, rfl⟩ := Nat.exists_eq_add_of_le hlo
    simp only at hturn
    rw [getElem?_flatten_offset (by omega), hrow] at hturn
    exact ⟨turn, List.mem_of_getElem? hturn, hP⟩
  · rintro ⟨turn, hmem, hP⟩
    obtain ⟨i, hi⟩ := List.mem_iff_getElem?.mp hmem
    have hlen : i < ((turnRows heads rev outPtr bearingIn bearingOut).getD e []).length := by
      rw [hrow]
      exact (List.getElem?_eq_some_iff.mp hi).1
    refine ⟨offset (turnRows heads rev outPtr bearingIn bearingOut) e + i, turn, ?_, ?_, hP⟩
    · simp only
      rw [getElem?_flatten_offset hlen, hrow, hi]
    · refine (getElem?_expand_offsets hlt).mpr ⟨Nat.le_add_right _ _, ?_⟩
      rw [offset_succ]
      omega

end Rows

/-- **When an edge has an allowed turn**, whatever the bearings: one edge leaves its head, or one
that is not its reverse and bends by 150 degrees at most. -/
theorem exists_allowed_iff {numNodes : ℕ} {tails heads : List ℕ} (rev : List (Option ℕ))
    (bearingIn bearingOut : List K) (hsorted : tails.Pairwise (· ≤ ·))
    (hfit : TailsFit numNodes tails) (htails : ∀ t ∈ tails, t < 2 ^ 31)
    (hheads : ∀ n ∈ heads, n < numNodes ∧ n < 2 ^ 31) {e n : ℕ} (he : heads[e]? = some n) :
    (∃ (t : ℕ) (turn : Turn K),
      (buildTurnTable heads rev (nodeOutPtr numNodes tails) bearingIn bearingOut).1[t]? =
        some turn ∧
      (expand (buildTurnTable heads rev (nodeOutPtr numNodes tails) bearingIn
        bearingOut).2)[t]? = some e ∧ turn.allowed = true) ↔
      tails.count n = 1 ∨ ∃ e2, tails[e2]? = some n ∧ rev.getD e none ≠ some e2 ∧
        |wrapDeltaDeg (bearingIn.getD e2 0 - bearingOut.getD e 0)| ≤ uturnMinDeg := by
  obtain ⟨hlt, -⟩ := List.getElem?_eq_some_iff.mp he
  obtain ⟨hnode, hmax⟩ := hheads n (List.mem_of_getElem? he)
  have hget : heads.getD e 0 = n := by
    rw [List.getD_eq_getElem?_getD, he, Option.getD_some]
  rw [exists_row_iff hlt, exists_allowed_turnsOf]
  simp only
  rw [hget, length_nodeOutPtr, headRow_eq hfit htails hnode hmax]
  refine or_congr_right (exists_congr fun e2 => ?_)
  rw [← and_assoc, mem_headRow_iff hsorted hfit htails hnode hmax]

/-- The turn table of a fork at node `1`: a two-way street comes from node `0`, and a branch to node
`2` leaves at a bearing of `branch` degrees. The street heads east. -/
def fork (branch : ℚ) : List (Turn ℚ) × List ℕ :=
  buildTurnTable [1, 0, 2] [some 1, some 0, none] (nodeOutPtr 3 [0, 1, 1]) [90, 270, branch]
    [90, 270, branch]

/-- A branch that bends by 100 degrees is a way on. -/
theorem exists_allowed_iff_fork : ∃ (t : ℕ) (turn : Turn ℚ), (fork 190).1[t]? = some turn ∧
    (expand (fork 190).2)[t]? = some 0 ∧ turn.allowed = true :=
  (exists_allowed_iff [some 1, some 0, none] [90, 270, 190] [90, 270, 190] (by decide)
    (by unfold TailsFit; decide) (by decide) (by decide) (e := 0) (n := 1) rfl).mpr
    (Or.inr ⟨2, rfl, by decide, by decide +kernel⟩)

/-- **A hairpin traps.** Two edges leave the head, and none of the turns is allowed: one is the way
back, and the branch folds back by 160 degrees. -/
theorem hairpin_trapped : List.count 1 [0, 1, 1] = 2 ∧
    ∀ t < (fork 250).1.length, (expand (fork 250).2)[t]? = some 0 →
      ((fork 250).1[t]?).map Turn.allowed = some false := by
  decide +kernel

end RoutePlanner.Ingestion
