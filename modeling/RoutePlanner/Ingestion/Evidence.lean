import RoutePlanner.Ingestion.CostModel
import RoutePlanner.Ingestion.Harvest

/-!
# What a counted turn rests on

From the tags of the map, through `harvest`, `build_pack` and the cost model, to the turns that are
counted as unsafe.

* `sign_of_mem_walkArm`: the evidence of an arm is signs that stand on it and speak to its traffic.
* `counted_approach`: what the cost model asks of the approach of a turn that it counts.
* `counted_has_sign`: a turn is counted only at a sign, on its own approach or on the other arm of
  its street; a pinned control apart, never at a junction that is not controlled.
-/

namespace RoutePlanner.Ingestion

open RoutePlanner.Lib
open RoutePlanner.Costs (PackStatics Snapshot buildPackStatics unsafeTypeOf)

/-! ## The signs of an arm -/

section Walk

variable {K : Type} [Add K] [LE K] [DecidableLE K] {raw : RawGraph K}
  {haversineM : K → K → K → K → K} {junctionNodes : Finset ℤ} {maxOffsetM : K}

/-- A node with a sign, for the traffic that leaves it one of its ways. -/
def SignAt (raw : RawGraph K) (node : ℤ) (kind : ControlKind) : Prop :=
  controlKind (raw.tags node) = some kind ∧
    ∃ toward, appliesToApproach raw (raw.tags node) kind node toward = true

omit [Add K] in
theorem sign_of_mem_collect {prev cur : ℤ} {dist : K} {evidence : List (ℤ × ControlKind)}
    (h : ∀ e ∈ evidence, SignAt raw e.1 e.2) :
    ∀ e ∈ collect raw maxOffsetM prev cur dist evidence, SignAt raw e.1 e.2 := by
  intro e he
  unfold collect at he
  split at he
  · split at he
    · rename_i kind hkind
      split at he
      · rename_i happlies
        rcases List.mem_append.mp he with he | he
        · exact h e he
        · rw [List.mem_singleton.mp he]
          exact ⟨hkind, prev, happlies⟩
      · exact h e he
    · exact h e he
  · exact h e he

theorem sign_of_mem_walkArmFrom (steps : ℕ) {prev cur : ℤ} {dist : K}
    {evidence : List (ℤ × ControlKind)} (h : ∀ e ∈ evidence, SignAt raw e.1 e.2) :
    ∀ e ∈ (walkArmFrom raw haversineM junctionNodes maxOffsetM steps prev cur dist evidence).2,
      SignAt raw e.1 e.2 := by
  induction steps generalizing prev cur dist evidence with
  | zero => exact h
  | succ steps ih =>
    rw [walkArmFrom]
    split
    · exact h
    · simp only
      split
      · exact ih (sign_of_mem_collect h)
      · exact sign_of_mem_collect h

/-- **The evidence of an arm is signs.** -/
theorem sign_of_mem_walkArm {junction first node : ℤ} {kind : ControlKind}
    (h : (node, kind) ∈ (walkArm raw haversineM junctionNodes maxOffsetM junction first).2) :
    SignAt raw node kind :=
  sign_of_mem_walkArmFrom maxWalkSteps (fun _ he => absurd he List.not_mem_nil) _ h

/-- The signs that `harvest` goes by at `junction`, for the traffic from `far`: one that stands on
this arm, or on an arm with the name of its street. -/
def Signed (haversineM : K → K → K → K → K) (maxOffsetM : K) (o : Enumeration raw junctionNodes)
    (junction far : ℤ) (kind : ControlKind) : Prop :=
  let walk := walkArm raw haversineM junctionNodes maxOffsetM junction
  let named := Named walk (streetName raw junction) (o.neighbours junction)
  ∃ arm, (arm = far ∨ ∃ street, named far (some street) ∧ named arm (some street)) ∧
    ∃ first ∈ o.neighbours junction, (walk first).1 = some arm ∧
      ∃ node, (node, kind) ∈ (walk first).2 ∧ SignAt raw node kind

theorem signed_of_shows {o : Enumeration raw junctionNodes} {junction far : ℤ} {kind : ControlKind}
    (h : Shows (harmonized (walkArm raw haversineM junctionNodes maxOffsetM junction)
      (streetName raw junction) (o.neighbours junction)) far kind) :
    Signed haversineM maxOffsetM o junction far kind := by
  obtain ⟨-, arm, harm, hshows⟩ := shows_harmonizeOppositeArms.mp h
  obtain ⟨first, hfirst, hlead, hkind⟩ := shows_gather.mp hshows
  obtain ⟨⟨node, kind'⟩, hmem, rfl⟩ := List.mem_map.mp hkind
  refine ⟨arm, ?_, first, hfirst, hlead, node, hmem, sign_of_mem_walkArm hmem⟩
  rcases harm with rfl | ⟨street, hfar, harm⟩
  · exact Or.inl rfl
  · exact Or.inr ⟨street, named_of_street hfar, named_of_street harm⟩

/-- **What is harvested for an approach** is never that nothing controls it; and where it says to
stop or to yield, there is the sign. -/
theorem signed_of_harvest {o : Enumeration raw junctionNodes} {junction far : ℤ}
    {a : ApproachControl} (h : (harvest raw haversineM maxOffsetM o).get (junction, far) = some a) :
    a.control ≠ .none ∧ a.confidence = .observed ∧ (a.mustStop = true →
      (a.control = .stop2way → Signed haversineM maxOffsetM o junction far .stop) ∧
      (a.control = .yield → Signed haversineM maxOffsetM o junction far .giveWay)) := by
  rw [get_harvest] at h
  split at h
  · obtain ⟨give, hrule, hgive⟩ := exists_rule_resolveAt (controlKind (raw.tags junction))
      (raw.tags junction) (walkArm raw haversineM junctionNodes maxOffsetM junction)
      (streetName raw junction) (o.neighbours junction)
    rw [harvestAt, hgive] at h
    split at h
    · cases hrule with
      | nothing => cases h
      | signal | roundabout | allWay =>
        rw [← Option.some.inj h]
        simp
      | someStop =>
        rw [← Option.some.inj h]
        refine ⟨by simp, rfl, fun hmust => ⟨fun _ => signed_of_shows ?_, by simp⟩⟩
        exact mem_armsShowing.mp (of_decide_eq_true hmust)
      | someYield =>
        rw [← Option.some.inj h]
        refine ⟨by simp, rfl, fun hmust => ⟨by simp, fun _ => signed_of_shows ?_⟩⟩
        exact mem_armsShowing.mp (of_decide_eq_true hmust)
    · cases h
  · cases h

end Walk

/-! ## What is counted -/

/-- **What the cost model asks of an approach** before it counts a turn. -/
theorem counted_approach {N E T : ℕ} {K : Type} [Field K] [LinearOrder K]
    {pack : Costs.Pack N E T K} {cfg : Costs.Config K} {st : PackStatics E T K}
    {snap : Snapshot E K} (hst : buildPackStatics pack cfg = .ok st) {t : Fin T}
    (h : unsafeTypeOf pack snap cfg st t ≠ .none) :
    pack.observed t = true ∧ (pack.ctrl t = .none ∨
      (pack.ctrl t = .stop2way ∨ pack.ctrl t = .yield) ∧ pack.mustStop t = true) := by
  have happroach : pack.unprotectedApproach t = true →
      (pack.ctrl t = .stop2way ∨ pack.ctrl t = .yield) ∧ pack.mustStop t = true := by
    intro h
    unfold Costs.Pack.unprotectedApproach at h
    rwa [Bool.and_eq_true, Costs.twoWay_iff] at h
  by_cases hleft : Costs.unprotectedLeft pack snap cfg st t = true
  · obtain ⟨_, _, rfl⟩ := Costs.exists_packStatics hst
    simp only [Costs.unprotectedLeft, Costs.packStatics, Bool.and_eq_true, Bool.or_eq_true] at hleft
    obtain ⟨⟨⟨-, hobserved⟩, -⟩, ⟨hnone, -⟩ | ⟨hstop, -⟩⟩ := hleft
    · exact ⟨hobserved, Or.inl (of_decide_eq_true hnone)⟩
    · exact ⟨hobserved, Or.inr (happroach hstop)⟩
  · by_cases hcross : Costs.crossingFlag pack snap cfg st t = true
    · obtain ⟨-, ⟨hgate, -⟩ | ⟨hgate, -⟩⟩ := (Costs.crossing_of_built hst _ _ _ t).mp hcross
      · obtain ⟨-, hobserved, hnone⟩ := Costs.busyGate_iff.mp hgate
        exact ⟨hobserved, Or.inl hnone⟩
      · obtain ⟨-, hobserved, hctrl⟩ := Costs.majorGate_iff.mp hgate
        exact ⟨hobserved, Or.inr hctrl⟩
    · rw [unsafeTypeOf, if_neg hleft, if_neg hcross] at h
      exact absurd rfl h

theorem resolveApproach_fst (control : Control) (rank : ℕ) (ranks : List ℕ) :
    (resolveApproach control rank ranks).1 = control := by
  cases control <;> rfl

/-- What a node's own tags say of a junction. -/
theorem sign_of_classify {node : NodeData} {incident : List Tags} {legs : ℕ} {ranks : List ℕ}
    (hover : node.controlOverride = none)
    (hobserved : (classifyNodeControl node incident legs ranks).2 = .observed) :
    let control := (classifyNodeControl node incident legs ranks).1
    control ≠ .none ∧
      (control = .stop2way → tagFirst (node.tags "highway") = some (.text "stop")) ∧
      (control = .yield → tagFirst (node.tags "highway") = some (.text "give_way")) := by
  unfold classifyNodeControl at hobserved ⊢
  rw [hover] at hobserved ⊢
  simp only at hobserved ⊢
  split_ifs at hobserved ⊢ with hsignal hmini hcircular hstop hall hyield
  · simp
  · simp
  · simp
  · simp
  · simp [hstop]
  · simp [hyield]

section Counted

variable {K : Type} [Field K] [LinearOrder K] [FloorRing K]
  {initialBearingDeg : K × K → K × K → K} {G : TaggedGraph K} {u : Unicode} {d : Defaults K}
  {raw : RawGraph K} {haversineM : K → K → K → K → K} {junctionNodes : Finset ℤ} {maxOffsetM : K}
  {p : CostedPack K}

/-- The sign behind an approach that must stop or yield: `harvest` went by it, or found nothing and
it stands on the junction itself. -/
def HasSign (haversineM : K → K → K → K → K) (maxOffsetM : K) (o : Enumeration raw junctionNodes)
    (G : TaggedGraph K) (junction far : ℤ) (kind : ControlKind) (value : String) : Prop :=
  Signed haversineM maxOffsetM o junction far kind ∨
    (harvest raw haversineM maxOffsetM o).get (junction, far) = none ∧
      tagFirst ((G.node junction).tags "highway") = some (.text value)

omit [FloorRing K] in
/-- What is written for an approach that the cost model may count a turn of. -/
theorem hasSign_of_approachAt {o : Enumeration raw junctionNodes} {tails heads : List ℕ}
    {classes : List Costs.RoadClass} {i e : ℕ} {a : ApproachControl}
    (ha : approachAt G (harvest raw haversineM maxOffsetM o) tails heads classes i e = a)
    (hover : (G.node (osmidOf G i)).controlOverride = none) (hobserved : a.confidence = .observed)
    (hcontrol : a.control = .none ∨
      (a.control = .stop2way ∨ a.control = .yield) ∧ a.mustStop = true) :
    a.mustStop = true ∧ (a.control = .stop2way ∧
        HasSign haversineM maxOffsetM o G (osmidOf G i) (osmidOf G (tails.getD e 0)) .stop "stop" ∨
      a.control = .yield ∧ HasSign haversineM maxOffsetM o G (osmidOf G i)
        (osmidOf G (tails.getD e 0)) .giveWay "give_way") := by
  unfold approachAt at ha
  cases hhere : observedHere G (harvest raw haversineM maxOffsetM o) tails heads classes i e with
  | some b =>
    rw [hhere] at ha
    obtain rfl : b = a := ha
    have hget : (harvest raw haversineM maxOffsetM o).get
        (osmidOf G i, osmidOf G (tails.getD e 0)) = some b := by
      unfold observedHere at hhere
      split at hhere
      · cases hhere
      · exact hhere
    obtain ⟨hnone, -, hsigned⟩ := signed_of_harvest hget
    obtain ⟨hstop | hyield, hmust⟩ := hcontrol.resolve_left hnone
    · exact ⟨hmust, Or.inl ⟨hstop, Or.inl ((hsigned hmust).1 hstop)⟩⟩
    · exact ⟨hmust, Or.inr ⟨hyield, Or.inl ((hsigned hmust).2 hyield)⟩⟩
  | none =>
    rw [hhere] at ha
    subst ha
    simp only [resolveApproach_fst] at hobserved hcontrol ⊢
    obtain ⟨hnone, hstop, hyield⟩ := sign_of_classify hover hobserved
    have hget : (nodeClass G heads classes i).1 ≠ .roundabout →
        (harvest raw haversineM maxOffsetM o).get
          (osmidOf G i, osmidOf G (tails.getD e 0)) = none := by
      intro hround
      rwa [observedHere, if_neg hround] at hhere
    obtain ⟨hclass | hclass, hmust⟩ := hcontrol.resolve_left hnone
    · exact ⟨hmust, Or.inl ⟨hclass, Or.inr ⟨hget (by rw [hclass]; simp), hstop hclass⟩⟩⟩
    · exact ⟨hmust, Or.inr ⟨hclass, Or.inr ⟨hget (by rw [hclass]; simp), hyield hclass⟩⟩⟩

/-- **A counted turn has a sign**: unless the control of its junction is pinned, the turn leaves an
approach that must stop or yield, and the sign stands on that approach, on another arm of its street
or, where nothing was harvested, on the junction. -/
theorem counted_has_sign (o : Enumeration raw junctionNodes) (hnodes : G.nodes.length < 2 ^ 31)
    (hok : buildCostedPack initialBearingDeg G u d (harvest raw haversineM maxOffsetM o) = .ok p)
    {cfg : Costs.Config K} {st : PackStatics p.numEdges p.numTurns K}
    (hst : buildPackStatics (ingested_of_ok hnodes hok).costs cfg = .ok st)
    (snap : Snapshot p.numEdges K) {t : Fin p.numTurns}
    (hcounted : unsafeTypeOf (ingested_of_ok hnodes hok).costs snap cfg st t ≠ .none) :
    let pack := (ingested_of_ok hnodes hok).costs
    let junction := osmidOf G (pack.edgeHead (pack.inn t))
    let far := osmidOf G (pack.edgeTail (pack.inn t))
    (G.node junction).controlOverride = none →
      pack.mustStop t = true ∧
        (pack.ctrl t = .stop2way ∧
            HasSign haversineM maxOffsetM o G junction far .stop "stop" ∨
          pack.ctrl t = .yield ∧
            HasSign haversineM maxOffsetM o G junction far .giveWay "give_way") := by
  intro pack junction far hover
  have h := ingested_of_ok hnodes hok
  obtain ⟨hobserved, hcontrol⟩ := counted_approach hst hcounted
  exact hasSign_of_approachAt (h.approach_eq (pack.inn t)).symm hover (of_decide_eq_true hobserved)
    hcontrol

end Counted

/-! ## The stop sign on the lane -/

/-- The streets of `stopLaneGraph` with node `9`, which has a stop sign. -/
def stopLaneRaw : RawGraph ℚ where
  nodes := [1, 2, 3, 4, 5, 9]
  tags node := if node = 9 then tagged [("highway", "stop")] else tagged []
  y := stopLaneLat
  x := stopLaneLon
  edges := [⟨1, 2, avenueTags⟩, ⟨1, 3, laneTags⟩, ⟨1, 5, avenueTags⟩, ⟨2, 1, avenueTags⟩,
    ⟨4, 9, laneTags⟩, ⟨5, 1, avenueTags⟩, ⟨9, 1, laneTags⟩]
  u_mem := by decide
  v_mem := by decide

/-- The junctions in order. -/
def stopLaneOrder : Enumeration stopLaneRaw {1, 2, 3, 4, 5} :=
  ⟨stopLaneGraph.nodes, physicalNeighbors stopLaneRaw, stopLaneGraph.nodes_nodup, by decide,
    fun _ => List.Perm.refl _⟩

/-- The rows of the edges, which are sorted as they stand. -/
def stopLaneRows : List (RawEdge ℚ) :=
  stopLaneGraph.edges.map fun e =>
    ⟨[1, 2, 3, 4, 5].idxOf e.u, [1, 2, 3, 4, 5].idxOf e.v, wayId e.data.osmid, e.key, e.data⟩

theorem rawEdges_stopLane : rawEdges stopLaneGraph.toMultiDiGraph = stopLaneRows := by
  unfold rawEdges nodeIndex
  rw [nodeIds_stopLane]
  exact List.mergeSort_of_pairwise (by decide)

def stopLanePack : CostedPack ℚ where
  nodeLat := [0, 0, 1 / 1000, -1 / 1000, 0]
  nodeLon := [0, 1 / 1000, 0, 0, -1 / 1000]
  nodeOsmid := [1, 2, 3, 4, 5]
  nodeOutPtr := [0, 3, 4, 4, 5, 6]
  edgeTail := [0, 0, 0, 1, 3, 4]
  edgeHead := [1, 2, 4, 0, 0, 0]
  edgeLengthM := List.replicate 6 (111195 / 1000)
  edgeReverse := [some 3, none, some 5, some 0, none, some 2]
  edgeBearingIn := [90, 0, 270, 270, 0, 90]
  edgeBearingOut := [90, 0, 270, 270, 0, 90]
  edgeOsmWay := [70, 80, 70, 70, 80, 70]
  edgeGeomPtr := [0, 2, 4, 6, 8, 11, 13]
  geomLat := [0, 0, 0, 1 / 1000, 0, 0, 0, 0, -1 / 1000, -1 / 10000, 0, 0, 0]
  geomLon := [0, 1 / 1000, 0, 0, 0, -1 / 1000, 1 / 1000, 0, 0, 0, 0, -1 / 1000, 0]
  turnPtr := [0, 1, 1, 2, 5, 8, 11]
  turnOutEdge := [3, 5, 0, 1, 2, 0, 1, 2, 0, 1, 2]
  turnManeuver := [.uturn, .uturn, .uturn, .right, .straight, .right, .straight, .left, .straight,
    .left, .uturn]
  turnAngleDeg := [180, 180, 180, 90, 0, 90, 0, -90, 0, -90, 180]
  turnAllowed := [true, true, false, true, true, true, true, true, true, true, false]
  nodeControl := [.stop2way, .none, .none, .none, .none]
  edgeSpeedMps := [140 / 9, 100 / 9, 140 / 9, 140 / 9, 100 / 9, 140 / 9]
  edgeLanes := [2, 1, 2, 2, 1, 2]
  edgeMedian := List.replicate 6 false
  edgeRoadClass := [.primary, .residential, .primary, .primary, .residential, .primary]
  edgeApproach := List.replicate 3 ⟨.none, false, .inferred⟩ ++
    [⟨.stop2way, false, .observed⟩, ⟨.stop2way, true, .observed⟩, ⟨.stop2way, false, .observed⟩]

theorem stopLane_ok : buildCostedPack compass stopLaneGraph asciiText shippedDefaults
    (harvest stopLaneRaw alongAxis 30 stopLaneOrder) = .ok stopLanePack := by
  unfold buildCostedPack buildPack nodeControlAt approaches approachAt observedHere nodeClass
    rowSpeedMps rowLanes rowMedian rowClass rowOneway rowTags osmidOf edgePoints
  simp only [rawEdges_stopLane, nodeIds_stopLane]
  decide +kernel

/-- The pack as the cost model has it. -/
def stopLaneCosts : Costs.Pack 5 6 11 ℚ := (ingested_of_ok (by decide) stopLane_ok).costs

/-- The snapshot of half past eight. -/
def stopLaneRush : Snapshot 6 ℚ := Sim.snapshotAt stopLaneCosts Sim.shippedSim rushHour

/-- The left turn off the lane is counted, and there is the sign. -/
theorem counted_has_sign_stop_lane : ∃ st,
    buildPackStatics stopLaneCosts Costs.shippedConfig = .ok st ∧
      unsafeTypeOf stopLaneCosts stopLaneRush Costs.shippedConfig st 7 = .left ∧
        HasSign alongAxis 30 stopLaneOrder stopLaneGraph 1 4 .stop "stop" := by
  obtain ⟨st, hst⟩ := (Costs.buildPackStatics_ok_iff stopLaneCosts Costs.shippedConfig).mpr
    (by decide +kernel)
  have hleft : unsafeTypeOf stopLaneCosts stopLaneRush Costs.shippedConfig st 7 = .left := by
    obtain ⟨crossBusy, crossMajor, rfl⟩ := Costs.exists_packStatics hst
    have hflag : Costs.unprotectedLeft stopLaneCosts stopLaneRush Costs.shippedConfig
        (Costs.packStatics stopLaneCosts Costs.shippedConfig ([], []) ([], [])) 7 = true := by
      decide +kernel
    exact if_pos hflag
  have hids : osmidOf stopLaneGraph 0 = 1 ∧ osmidOf stopLaneGraph 3 = 4 := by
    unfold osmidOf
    rw [nodeIds_stopLane]
    decide
  have hcounted : unsafeTypeOf stopLaneCosts stopLaneRush Costs.shippedConfig st 7 ≠ .none := by
    rw [hleft]
    decide
  have hyield : stopLaneCosts.ctrl 7 ≠ .yield := by decide +kernel
  obtain ⟨-, ⟨-, hsign⟩ | ⟨hctrl, -⟩⟩ := counted_has_sign stopLaneOrder (by decide) stopLane_ok
    hst stopLaneRush (t := (7 : Fin 11)) hcounted rfl
  · have hhere : HasSign alongAxis 30 stopLaneOrder stopLaneGraph (osmidOf stopLaneGraph 0)
        (osmidOf stopLaneGraph 3) .stop "stop" := hsign
    rw [hids.1, hids.2] at hhere
    exact ⟨st, hst, hleft, hhere⟩
  · exact absurd hctrl hyield

end RoutePlanner.Ingestion
