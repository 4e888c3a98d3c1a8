import Mathlib.Data.Finset.Card
import RoutePlanner.Costs.Pack
import RoutePlanner.Ingestion.ApproachControls

/-!
# `ingestion/controls.py`: the control of a junction

Model of `classify_node_control` and `resolve_approach`, which speak for the approaches that the
walk along the arms has found nothing about.

* `classify_observed_iff`: a control is observed just when a tag says so; else it is a guess from
  the ranks of the roads that meet.
* `exists_priority`: where some approach has to stop and the roads are not all of one rank, some
  other one has not.
-/

namespace RoutePlanner.Ingestion

open RoutePlanner.Costs (RoadClass roadClassRank)

/-- The data of a node: its `control_override`, by name, and its tags. -/
structure NodeData where
  controlOverride : Option Control
  tags : Tags

/-- `_RESIDENTIAL_RANK`. -/
def residentialRank : ℕ := roadClassRank .residential

/-- An edge that is tagged as part of a roundabout. -/
def Circular (tags : Tags) : Prop :=
  tagFirst (tags "junction") = some (.text "roundabout") ∨
    tagFirst (tags "junction") = some (.text "circular")

instance (tags : Tags) : Decidable (Circular tags) := inferInstanceAs (Decidable (_ ∨ _))

/-- The guess for a junction without tags. -/
def inferControl (numLegs : ℕ) (approachRanks : List ℕ) : Control :=
  if numLegs < 3 ∨ approachRanks = [] then .none
  else if 1 < approachRanks.toFinset.card then .stop2way
  else if 4 ≤ numLegs ∧ residentialRank ≤ approachRanks.headD 0 then .stop4way
  else .none

/-- **`classify_node_control`**. -/
def classifyNodeControl (node : NodeData) (incidentEdges : List Tags) (numLegs : ℕ)
    (approachRanks : List ℕ) : Control × ControlConfidence :=
  match node.controlOverride with
  | some control => (control, .observed)
  | none =>
    let hw := tagFirst (node.tags "highway")
    if hw = some (.text "traffic_signals") then (.signalPermissive, .observed)
    else if hw = some (.text "mini_roundabout") then (.roundabout, .observed)
    else if ∃ tags ∈ incidentEdges, Circular tags then (.roundabout, .observed)
    else if hw = some (.text "stop") then
      if tagFirst (node.tags "stop") = some (.text "all") then (.stop4way, .observed)
      else (.stop2way, .observed)
    else if hw = some (.text "give_way") then (.yield, .observed)
    else (inferControl numLegs approachRanks, .inferred)

/-- **`resolve_approach`**: the control of one approach, and whether it must stop. -/
def resolveApproach (control : Control) (approachRank : ℕ) (ranksAtNode : List ℕ) :
    Control × Bool :=
  match control with
  | .stop2way | .yield =>
    (control, decide (ranksAtNode.toFinset.card = 1) ||
      decide (ranksAtNode.min?.getD 0 < approachRank))
  | .stop4way => (control, true)
  | _ => (control, false)

/-! ## What is observed -/

/-- `highway` values of a node that name a control. -/
def controlHighways : List Scalar :=
  [.text "traffic_signals", .text "mini_roundabout", .text "stop", .text "give_way"]

/-- What a tag on the node, or on a way that meets it, says of a junction. -/
def Tagged (node : NodeData) (incidentEdges : List Tags) : Prop :=
  node.controlOverride.isSome ∨
    (∃ hw ∈ controlHighways, tagFirst (node.tags "highway") = some hw) ∨
    ∃ tags ∈ incidentEdges, Circular tags

/-- **What is observed** is what a tag says. -/
theorem classify_observed_iff (node : NodeData) (incidentEdges : List Tags) (numLegs : ℕ)
    (approachRanks : List ℕ) :
    (classifyNodeControl node incidentEdges numLegs approachRanks).2 = .observed ↔
      Tagged node incidentEdges := by
  unfold classifyNodeControl
  cases hover : node.controlOverride with
  | some control => exact iff_of_true rfl (Or.inl (by rw [hover]; rfl))
  | none =>
    have htagged : Tagged node incidentEdges ↔
        (∃ hw ∈ controlHighways, tagFirst (node.tags "highway") = some hw) ∨
          ∃ tags ∈ incidentEdges, Circular tags := by
      refine or_iff_right ?_
      rw [hover]
      exact Bool.false_ne_true
    rw [htagged]
    simp only
    split_ifs with hsignal hmini hcircular hstop hall hyield
    · exact iff_of_true rfl (Or.inl ⟨_, by simp [controlHighways], hsignal⟩)
    · exact iff_of_true rfl (Or.inl ⟨_, by simp [controlHighways], hmini⟩)
    · exact iff_of_true rfl (Or.inr hcircular)
    · exact iff_of_true rfl (Or.inl ⟨_, by simp [controlHighways], hstop⟩)
    · exact iff_of_true rfl (Or.inl ⟨_, by simp [controlHighways], hstop⟩)
    · exact iff_of_true rfl (Or.inl ⟨_, by simp [controlHighways], hyield⟩)
    · refine iff_of_false (by simp) ?_
      rintro (⟨hw, hmem, hhw⟩ | h)
      · simp only [controlHighways, List.mem_cons, List.not_mem_nil, or_false] at hmem
        rcases hmem with rfl | rfl | rfl | rfl
        · exact hsignal hhw
        · exact hmini hhw
        · exact hstop hhw
        · exact hyield hhw
      · exact hcircular h

/-- **Somebody has priority** at a stop or give-way junction of roads of several ranks. -/
theorem exists_priority {control : Control} (hcontrol : control = .stop2way ∨ control = .yield)
    {ranks : List ℕ} (hranks : 1 < ranks.toFinset.card) :
    ∃ rank ∈ ranks, (resolveApproach control rank ranks).2 = false := by
  cases hmin : ranks.min? with
  | none =>
    rw [List.min?_eq_none_iff] at hmin
    subst hmin
    exact absurd hranks (by decide)
  | some m =>
    refine ⟨m, (List.min?_eq_some_iff.mp hmin).1, ?_⟩
    have hcard : ranks.toFinset.card ≠ 1 := by omega
    rcases hcontrol with rfl | rfl
    · simp [resolveApproach, hmin, hcard]
    · simp [resolveApproach, hmin, hcard]

end RoutePlanner.Ingestion
