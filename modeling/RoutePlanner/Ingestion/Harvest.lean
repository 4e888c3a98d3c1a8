import Mathlib.Algebra.Order.Field.Rat
import Mathlib.Data.Finset.Sort
import RoutePlanner.Ingestion.ApproachControls

/-!
# `ingestion/approach_controls.py`: harvesting a graph

Model of `harvest`, with what it reads tags by and with the walk along an arm. Python sets have no
order of their own: `Enumeration` is one way of going through the junctions and through the
neighbours of each node, and `harvest` takes one.

* `get_harvest`: an approach depends on the order of its own junction's neighbours only.
* `harvest_order_iff`: when the order does not matter. The evidence on an arm is merged, but its
  street is that of the first neighbour that leads there.
* `harvest_order_dependent`: a junction that comes out differently.
-/

namespace RoutePlanner.Ingestion

open RoutePlanner.Lib

/-! ## Reading tags -/

/-- `str(value)`. -/
def Scalar.toText (value : Scalar) : String :=
  match value with
  | .text s => s
  | .flag true => "True"
  | .flag false => "False"

/-- `bool(value)`. -/
def Scalar.truthy (value : Scalar) : Bool :=
  match value with
  | .text s => s != ""
  | .flag b => b

/-- `_HIGHWAY_TO_KIND.get`. -/
def highwayToKind (value : Option Scalar) : Option ControlKind :=
  if value = some (.text "traffic_signals") then some .signal
  else if value = some (.text "stop") then some .stop
  else if value = some (.text "give_way") then some .giveWay
  else if value = some (.text "mini_roundabout") then some .miniRoundabout
  else none

/-- `_PEDESTRIAN_SIGNAL_VALUES`. -/
def pedestrianSignalValues : List (Option Scalar) :=
  [some (.text "pedestrian_crossing"), some (.text "crossing"), some (.text "pedestrian")]

/-- `_is_pedestrian_signal`. -/
def isPedestrianSignal (tags : Tags) : Bool :=
  if (tagFirst (tags "crossing")).isSome then true
  else decide (tagFirst (tags "traffic_signals") ∈ pedestrianSignalValues)

/-- `_control_kind`. -/
def controlKind (tags : Tags) : Option ControlKind :=
  let kind := highwayToKind (tagFirst (tags "highway"))
  if kind = some .signal ∧ isPedestrianSignal tags then none else kind

/-- The tag that gives the direction of one kind of control. -/
def specificDirection (kind : ControlKind) : Option String :=
  match kind with
  | .signal => some "traffic_signals:direction"
  | .stop => some "stop:direction"
  | .giveWay | .miniRoundabout => none

/-- `_direction_tag`. -/
def directionTag (tags : Tags) (kind : ControlKind) : Option String :=
  match (specificDirection kind).bind fun specific => tagFirst (tags specific) with
  | some value => some value.toText
  | none => (tagFirst (tags "direction")).map Scalar.toText

/-! ## The unsimplified graph -/

/-- A directed edge. -/
structure OsmEdge where
  u : ℤ
  v : ℤ
  data : Tags

/-- `G_raw`, an `nx.MultiDiGraph` with coordinates and tags. -/
structure RawGraph (K : Type) where
  nodes : List ℤ
  tags : ℤ → Tags
  y : ℤ → K
  x : ℤ → K
  edges : List OsmEdge
  u_mem : ∀ e ∈ edges, e.u ∈ nodes
  v_mem : ∀ e ∈ edges, e.v ∈ nodes

section Graph

variable {K : Type} (G : RawGraph K)

/-- `G_raw.get_edge_data(a, b).values()`. -/
def edgeData (a b : ℤ) : List Tags :=
  (G.edges.filter fun e => e.u = a ∧ e.v = b).map OsmEdge.data

/-- `not bool(rev)`, for a `reversed` that is there. -/
def notReversed (rev : Scalar) : Bool :=
  match rev with
  | .text s => s.toList.map Char.toLower != "true".toList
  | .flag b => !b

/-- `_travels_way_forward`. -/
def travelsWayForward (atNode toward : ℤ) : Option Bool :=
  (edgeData G atNode toward).findSome? fun data => (tagFirst (data "reversed")).map notReversed

/-- `_applies_to_approach`. -/
def appliesToApproach (tags : Tags) (kind : ControlKind) (atNode toward : ℤ) : Bool :=
  let value := directionTag tags kind
  if value ≠ some "forward" ∧ value ≠ some "backward" then true
  else
    match travelsWayForward G atNode toward with
    | none => true
    | some forward => forward == (value == some "forward")

/-- `_physical_neighbors`: a list without repetitions, for a set. -/
def physicalNeighbors (node : ℤ) : List ℤ :=
  ((((G.edges.filter fun e => e.u = node).map OsmEdge.v) ++
    ((G.edges.filter fun e => e.v = node).map OsmEdge.u)).dedup).filter (· ≠ node)

/-- The first name among some edges. -/
def nameOf (data : List Tags) : Option String :=
  (data.findSome? fun d => (tagFirst (d "name")).filter Scalar.truthy).map Scalar.toText

/-- `_street_name`. -/
def streetName (a b : ℤ) : Option String :=
  (nameOf (edgeData G a b)).or (nameOf (edgeData G b a))

/-! ## Walking an arm -/

variable [Add K] [LE K] [DecidableLE K] (haversineM : K → K → K → K → K)
  (junctionNodes : Finset ℤ) (maxOffsetM : K)

/-- `_MAX_WALK_STEPS`. -/
def maxWalkSteps : ℕ := 400

/-- The distance between two nodes. -/
def nodeDist (a b : ℤ) : K := haversineM (G.y a) (G.x a) (G.y b) (G.x b)

/-- The evidence with what `cur` adds. -/
def collect (prev cur : ℤ) (dist : K) (evidence : List (ℤ × ControlKind)) :
    List (ℤ × ControlKind) :=
  if dist ≤ maxOffsetM then
    match controlKind (G.tags cur) with
    | some kind =>
      -- travel on this approach runs from `cur` back to `prev`
      if appliesToApproach G (G.tags cur) kind cur prev then evidence ++ [(cur, kind)] else evidence
    | none => evidence
  else evidence

/-- The loop of `_walk_arm`, with so many steps left. -/
def walkArmFrom : ℕ → ℤ → ℤ → K → List (ℤ × ControlKind) → Option ℤ × List (ℤ × ControlKind)
  | 0, _, _, _, evidence => (none, evidence)
  | steps + 1, prev, cur, dist, evidence =>
    if cur ∈ junctionNodes then (some cur, evidence)
    else
      let evidence := collect G maxOffsetM prev cur dist evidence
      match (physicalNeighbors G cur).filter (· ≠ prev) with
      | [step] => walkArmFrom steps cur step (dist + nodeDist G haversineM cur step) evidence
      | _ => (none, evidence)

/-- **`_walk_arm`**. -/
def walkArm (junction first : ℤ) : Option ℤ × List (ℤ × ControlKind) :=
  walkArmFrom G haversineM junctionNodes maxOffsetM maxWalkSteps junction first
    (nodeDist G haversineM junction first) []

end Graph

/-! ## Harvesting -/

section Junction

variable (junctionKind : Option ControlKind) (junctionTags : Tags)
  (walk : ℤ → Option ℤ × List (ℤ × ControlKind)) (name : ℤ → Option String)

/-- The loop over the neighbours of a junction, for one of them. `walk` is `_walk_arm`, `name` is
`_street_name`. -/
def gatherStep (s : Arms × Streets) (first : ℤ) : Arms × Streets :=
  match walk first with
  | (none, _) => s
  | (some far, evidence) =>
    (s.1.put far ((s.1.get far).getD ∅ ∪ (evidence.map Prod.snd).toFinset),
      s.2.setDefault far (name first))

/-- `arms` and `streets` of a junction. -/
def gather (firsts : List ℤ) : Arms × Streets :=
  firsts.foldl (gatherStep walk name) (Assoc.empty, Assoc.empty)

/-- What `harvest` finds at a junction. -/
def resolveAt (firsts : List ℤ) : Assoc ℤ ApproachControl :=
  let s := gather walk name firsts
  if s.1.keys = [] then Assoc.empty
  else resolveJunction junctionKind junctionTags (harmonizeOppositeArms s.1 s.2)

end Junction

section Harvest

variable {K : Type} [Add K] [LE K] [DecidableLE K] (G : RawGraph K)
  (haversineM : K → K → K → K → K) (junctionNodes : Finset ℤ) (maxOffsetM : K)

/-- An order in which the junctions, and the neighbours of each node, are gone through. -/
structure Enumeration where
  junctions : List ℤ
  neighbours : ℤ → List ℤ
  junctions_nodup : junctions.Nodup
  toFinset_junctions : junctions.toFinset = junctionNodes
  perm_neighbours : ∀ node, (neighbours node).Perm (physicalNeighbors G node)

/-- What `harvest` finds at a junction whose neighbours it goes through in the order `firsts`. -/
def harvestAt (junction : ℤ) (firsts : List ℤ) : Assoc ℤ ApproachControl :=
  resolveAt (controlKind (G.tags junction)) (G.tags junction)
    (walkArm G haversineM junctionNodes maxOffsetM junction) (streetName G junction) firsts

variable {junctionNodes} in
/-- **`harvest`**, in one order. -/
def harvest (o : Enumeration G junctionNodes) : Assoc (ℤ × ℤ) ApproachControl :=
  o.junctions.foldl (fun out junction =>
    if junction ∈ G.nodes then
      (harvestAt G haversineM junctionNodes maxOffsetM junction
        (o.neighbours junction)).entries.foldl (fun out e => out.put (junction, e.1) e.2) out
    else out) Assoc.empty

end Harvest

/-! ## What a junction gathers -/

section Junction

variable {junctionKind : Option ControlKind} {junctionTags : Tags}
  {walk : ℤ → Option ℤ × List (ℤ × ControlKind)} {name : ℤ → Option String}

/-- The evidence of `kind` that some of the neighbours give for `far`. -/
def Seen (walk : ℤ → Option ℤ × List (ℤ × ControlKind)) (firsts : List ℤ) (far : ℤ)
    (kind : ControlKind) : Prop :=
  ∃ first ∈ firsts, (walk first).1 = some far ∧ kind ∈ (walk first).2.map Prod.snd

theorem keys_gatherStep {s : Arms × Streets} {first far : ℤ} :
    far ∈ (gatherStep walk name s first).1.keys ↔ far ∈ s.1.keys ∨ (walk first).1 = some far := by
  unfold gatherStep
  rcases walk first with ⟨_ | a, evidence⟩
  · simp
  · simp only [Assoc.mem_keys_put, Option.some.injEq]
    rw [or_comm, eq_comm]

theorem shows_gatherStep {s : Arms × Streets} {first far : ℤ} {kind : ControlKind} :
    Shows (gatherStep walk name s first).1 far kind ↔ Shows s.1 far kind ∨
      (walk first).1 = some far ∧ kind ∈ (walk first).2.map Prod.snd := by
  simp only [← mem_getD_iff]
  unfold gatherStep
  rcases walk first with ⟨_ | a, evidence⟩
  · simp
  · simp only [Assoc.get_put, Option.some.injEq]
    by_cases ha : a = far
    · subst ha
      simp
    · simp [ha]

theorem streets_gatherStep {s : Arms × Streets} {first far : ℤ} :
    (gatherStep walk name s first).2.get far = if (walk first).1 = some far then
      some ((s.2.get far).getD (name first)) else s.2.get far := by
  unfold gatherStep
  rcases walk first with ⟨_ | a, evidence⟩
  · simp
  · simp only [Assoc.get_setDefault, Option.some.injEq]
    by_cases ha : a = far
    · subst ha
      simp
    · simp [ha]

theorem keys_gather {firsts : List ℤ} {far : ℤ} :
    far ∈ (gather walk name firsts).1.keys ↔ ∃ first ∈ firsts, (walk first).1 = some far := by
  unfold gather
  rw [foldl_iff (I := fun s : Arms × Streets => far ∈ s.1.keys) fun _ _ => keys_gatherStep]
  exact or_iff_right List.not_mem_nil

/-- The arms do not depend on the order. -/
theorem shows_gather {firsts : List ℤ} {far : ℤ} {kind : ControlKind} :
    Shows (gather walk name firsts).1 far kind ↔ Seen walk firsts far kind := by
  unfold gather
  rw [foldl_iff (I := fun s : Arms × Streets => Shows s.1 far kind) fun _ _ => shows_gatherStep]
  exact or_iff_right fun h => absurd h.mem_keys List.not_mem_nil

/-- The street of an arm is that of the first neighbour that leads there. -/
theorem streets_gather {firsts : List ℤ} {far : ℤ} : (gather walk name firsts).2.get far =
    (firsts.find? fun first => (walk first).1 = some far).map name := by
  have hfold : ∀ (firsts : List ℤ) (s : Arms × Streets),
      (firsts.foldl (gatherStep walk name) s).2.get far =
        (s.2.get far).or ((firsts.find? fun first => (walk first).1 = some far).map name) := by
    intro firsts
    induction firsts with
    | nil => simp
    | cons first firsts ih =>
      intro s
      rw [List.foldl_cons, ih, streets_gatherStep]
      by_cases hlead : (walk first).1 = some far
      · rw [if_pos hlead, Option.some_or, List.find?_cons_of_pos (by simpa using hlead)]
        cases s.2.get far <;> rfl
      · rw [if_neg hlead, List.find?_cons_of_neg (by simpa using hlead)]
  unfold gather
  rw [hfold]
  rfl

/-! ## When two orders agree -/

/-- The street of some neighbour that leads to `far`. -/
def Named (walk : ℤ → Option ℤ × List (ℤ × ControlKind)) (name : ℤ → Option String)
    (firsts : List ℤ) (far : ℤ) (street : Option String) : Prop :=
  ∃ first ∈ firsts, (walk first).1 = some far ∧ name first = street

/-- The sign that governs a junction without a signal: stop signs, where there is one. -/
def device (walk : ℤ → Option ℤ × List (ℤ × ControlKind)) (firsts : List ℤ) : ControlKind :=
  if ∃ first ∈ firsts, (walk first).1.isSome ∧ .stop ∈ (walk first).2.map Prod.snd then .stop
  else .giveWay

/-- No street of `far` is ever a street of an arm with the sign `d`. -/
def NeverPaired (walk : ℤ → Option ℤ × List (ℤ × ControlKind)) (name : ℤ → Option String)
    (firsts : List ℤ) (d : ControlKind) (far : ℤ) : Prop :=
  ∀ street b, Seen walk firsts b d → Named walk name firsts far (some street) →
    ¬ Named walk name firsts b (some street)

/-- Whichever street `far` is given, it is the only one of some arm with the sign `d`. -/
def AlwaysPaired (walk : ℤ → Option ℤ × List (ℤ × ControlKind)) (name : ℤ → Option String)
    (firsts : List ℤ) (d : ControlKind) (far : ℤ) : Prop :=
  ∀ street, Named walk name firsts far street → ∃ s, street = some s ∧
    ∃ b, Seen walk firsts b d ∧ ∀ street', Named walk name firsts b street' → street' = some s

/-- The order of the neighbours does not matter: a rule for the whole junction decides it, or each
arm without the sign is paired with one that has it in every order or in none. -/
def Settled (junctionKind : Option ControlKind) (junctionTags : Tags)
    (walk : ℤ → Option ℤ × List (ℤ × ControlKind)) (name : ℤ → Option String)
    (firsts : List ℤ) : Prop :=
  (junctionKind = some .signal ∨ ∃ far, Seen walk firsts far .signal) ∨
    junctionKind = some .miniRoundabout ∨
    (taggedAllWay junctionTags = true ∧ ∃ far, Seen walk firsts far .stop) ∨
    ∀ far, ¬ Seen walk firsts far (device walk firsts) →
      NeverPaired walk name firsts (device walk firsts) far ∨
        AlwaysPaired walk name firsts (device walk firsts) far

variable {firsts firsts' : List ℤ}

theorem seen_perm (h : firsts.Perm firsts') {far : ℤ} {kind : ControlKind} :
    Seen walk firsts far kind ↔ Seen walk firsts' far kind := by
  unfold Seen
  simp only [h.mem_iff]

theorem named_perm (h : firsts.Perm firsts') {far : ℤ} {street : Option String} :
    Named walk name firsts far street ↔ Named walk name firsts' far street := by
  unfold Named
  simp only [h.mem_iff]

theorem device_perm (h : firsts.Perm firsts') : device walk firsts = device walk firsts' := by
  unfold device
  simp only [h.mem_iff]

theorem settled_perm (h : firsts.Perm firsts') :
    Settled junctionKind junctionTags walk name firsts ↔
      Settled junctionKind junctionTags walk name firsts' := by
  unfold Settled NeverPaired AlwaysPaired
  simp only [seen_perm h, named_perm h, device_perm h]

theorem device_eq_stop_iff : device walk firsts = .stop ↔ ∃ far, Seen walk firsts far .stop := by
  unfold device Seen
  constructor
  · intro h
    obtain ⟨first, hmem, hsome, hstop⟩ : ∃ first ∈ firsts, (walk first).1.isSome ∧
        ControlKind.stop ∈ (walk first).2.map Prod.snd := by
      by_contra hno
      rw [if_neg hno] at h
      cases h
    obtain ⟨far, hfar⟩ := Option.isSome_iff_exists.mp hsome
    exact ⟨far, first, hmem, hfar, hstop⟩
  · rintro ⟨far, first, hmem, hfar, hstop⟩
    exact if_pos ⟨first, hmem, by rw [hfar]; rfl, hstop⟩

theorem device_eq_or : device walk firsts = .stop ∨ device walk firsts = .giveWay := by
  unfold device
  split
  · exact Or.inl rfl
  · exact Or.inr rfl

/-- An arm has the street of one of the neighbours that lead there. -/
theorem named_of_street {far : ℤ} {street : Option String}
    (h : (gather walk name firsts).2.get far = some street) :
    Named walk name firsts far street := by
  rw [streets_gather, Option.map_eq_some_iff] at h
  obtain ⟨first, hfind, hname⟩ := h
  exact ⟨first, List.mem_of_find?_eq_some hfind, by simpa using List.find?_some hfind, hname⟩

theorem exists_street {far : ℤ} (h : far ∈ (gather walk name firsts).1.keys) :
    ∃ street, (gather walk name firsts).2.get far = some street := by
  obtain ⟨first, hmem, hlead⟩ := keys_gather.mp h
  rw [streets_gather]
  obtain ⟨a, ha⟩ := Option.isSome_iff_exists.mp
    ((List.find?_isSome (p := fun first => decide ((walk first).1 = some far))).mpr
      ⟨first, hmem, decide_eq_true hlead⟩)
  exact ⟨name a, by rw [ha]; rfl⟩

/-- The arms after harmonizing. -/
def harmonized (walk : ℤ → Option ℤ × List (ℤ × ControlKind)) (name : ℤ → Option String)
    (firsts : List ℤ) : Arms :=
  harmonizeOppositeArms (gather walk name firsts).1 (gather walk name firsts).2

theorem exists_shows_harmonized {kind : ControlKind} :
    (∃ far, Shows (harmonized walk name firsts) far kind) ↔ ∃ far, Seen walk firsts far kind := by
  unfold harmonized
  simp only [exists_shows_harmonize, shows_gather]

/-- Where the pairing is settled, whether an arm shows the sign does not depend on the order. -/
theorem shows_harmonized_iff {d : ControlKind} {far : ℤ}
    (hfar : far ∈ (gather walk name firsts).1.keys)
    (h : ¬ Seen walk firsts far d →
      NeverPaired walk name firsts d far ∨ AlwaysPaired walk name firsts d far) :
    Shows (harmonized walk name firsts) far d ↔
      Seen walk firsts far d ∨ AlwaysPaired walk name firsts d far := by
  unfold harmonized
  simp only [shows_harmonizeOppositeArms, shows_gather]
  constructor
  · rintro ⟨-, a, ha, hseen⟩
    by_cases hself : Seen walk firsts far d
    · exact Or.inl hself
    · rcases ha with rfl | ⟨street, hstreet, hstreet'⟩
      · exact absurd hseen hself
      · rcases h hself with hnever | halways
        · exact absurd (named_of_street hstreet')
            (hnever street a hseen (named_of_street hstreet))
        · exact Or.inr halways
  · rintro (hself | halways)
    · exact ⟨hfar, far, Or.inl rfl, hself⟩
    · obtain ⟨street, hstreet⟩ := exists_street hfar
      obtain ⟨s, rfl, b, hseen, honly⟩ := halways street (named_of_street hstreet)
      obtain ⟨street', hstreet'⟩ := exists_street (keys_gather.mpr
        (hseen.imp fun first h => ⟨h.1, h.2.1⟩))
      rw [honly street' (named_of_street hstreet')] at hstreet'
      exact ⟨hfar, b, Or.inr ⟨s, hstreet, hstreet'⟩, hseen⟩

/-! ## One rule for two orders -/

section Rules

variable {arms arms' : Arms} {give give' : ℤ → Option ApproachControl}

/-- One rule at most decides a junction. -/
theorem Rule.unique (h : Rule junctionKind junctionTags arms give)
    (h' : Rule junctionKind junctionTags arms give') : give = give' := by
  cases h <;> cases h' <;> first | rfl | contradiction

theorem armsShowing_congr {kind : ControlKind}
    (h : ∀ far, Shows arms far kind ↔ Shows arms' far kind) :
    armsShowing arms kind = armsShowing arms' kind := by
  ext far
  rw [mem_armsShowing, mem_armsShowing, h]

/-- A rule that decides one set of arms decides another that shows the sign on the same arms. -/
theorem Rule.transfer {d : ControlKind} (h : Rule junctionKind junctionTags arms give)
    (hlen : arms.entries.length = arms'.entries.length)
    (hkeys : ∀ far, far ∈ arms.keys ↔ far ∈ arms'.keys)
    (hseen : ∀ kind, (∃ far, Shows arms far kind) ↔ ∃ far, Shows arms' far kind)
    (hstop : d = .stop ↔ ∃ far, Shows arms far .stop) (hor : d = .stop ∨ d = .giveWay)
    (hshow : SignalSeen junctionKind arms ∨ junctionKind = some .miniRoundabout ∨
      (taggedAllWay junctionTags = true ∧ ∃ far, Shows arms far .stop) ∨
        ∀ far, Shows arms far d ↔ Shows arms' far d) :
    Rule junctionKind junctionTags arms' give := by
  have hsignal : SignalSeen junctionKind arms ↔ SignalSeen junctionKind arms' :=
    or_congr_right (hseen .signal)
  -- without a rule for the whole junction, the sign is on the same arms
  have hsame : ¬ SignalSeen junctionKind arms → junctionKind ≠ some .miniRoundabout →
      ¬ (taggedAllWay junctionTags = true ∧ ∃ far, Shows arms far .stop) →
        ∀ far, Shows arms far d ↔ Shows arms' far d :=
    fun hno hmini htag => ((hshow.resolve_left hno).resolve_left hmini).resolve_left htag
  have hall : ¬ SignalSeen junctionKind arms → junctionKind ≠ some .miniRoundabout →
      (∃ far, Shows arms far .stop) → (AllWay junctionTags arms ↔ AllWay junctionTags arms') := by
    intro hno hmini hex
    unfold AllWay
    by_cases htag : taggedAllWay junctionTags = true
    · simp [htag]
    · have hd := hsame hno hmini fun h => htag h.1
      rw [hstop.mpr hex] at hd
      rw [hlen]
      simp only [hkeys, hd]
  cases h with
  | signal h => exact .signal (hsignal.mp h)
  | roundabout hno h => exact .roundabout (mt hsignal.mpr hno) h
  | nothing hno hmini hnostop hnoyield =>
    exact .nothing (mt hsignal.mpr hno) hmini (mt (hseen _).mpr hnostop) (mt (hseen _).mpr hnoyield)
  | allWay hno hmini hex h =>
    exact .allWay (mt hsignal.mpr hno) hmini ((hseen _).mp hex) ((hall hno hmini hex).mp h)
  | someStop hno hmini hex h =>
    have hd := hsame hno hmini fun htag => h (Or.inl htag.1)
    rw [hstop.mpr hex] at hd
    rw [armsShowing_congr hd]
    exact .someStop (mt hsignal.mpr hno) hmini ((hseen _).mp hex)
      (mt (hall hno hmini hex).mpr h)
  | someYield hno hmini hnostop hyield =>
    have hd := hsame hno hmini fun htag => hnostop htag.2
    rw [hor.resolve_left (mt hstop.mp hnostop)] at hd
    rw [armsShowing_congr hd]
    exact .someYield (mt hsignal.mpr hno) hmini (mt (hseen _).mpr hnostop) ((hseen _).mp hyield)

/-- Where no rule decides the whole junction, an arm must stop when it shows the sign. -/
theorem Rule.mustStop_iff {d : ControlKind} (h : Rule junctionKind junctionTags arms give)
    (hstop : d = .stop ↔ ∃ far, Shows arms far .stop) (hor : d = .stop ∨ d = .giveWay)
    (hno : ¬ SignalSeen junctionKind arms) (hmini : junctionKind ≠ some .miniRoundabout)
    (htag : ¬ (taggedAllWay junctionTags = true ∧ ∃ far, Shows arms far .stop))
    (hex : ∃ far, Shows arms far d) {far : ℤ} (hfar : far ∈ arms.keys) :
    ∃ a, give far = some a ∧ (a.mustStop = true ↔ Shows arms far d) := by
  cases h with
  | signal h => exact absurd h hno
  | roundabout _ h => exact absurd h hmini
  | nothing _ _ hnostop hnoyield =>
    rw [hor.resolve_left (mt hstop.mp hnostop)] at hex
    exact absurd hex hnoyield
  | allWay _ _ hstops h =>
    have hevery := (h.resolve_left fun h => htag ⟨h, hstops⟩).2 far hfar
    rw [hstop.mpr hstops]
    exact ⟨_, rfl, iff_of_true rfl hevery⟩
  | someStop _ _ hstops =>
    rw [hstop.mpr hstops]
    exact ⟨_, rfl, by rw [decide_eq_true_eq, mem_armsShowing]⟩
  | someYield _ _ hnostop =>
    rw [hor.resolve_left (mt hstop.mp hnostop)]
    exact ⟨_, rfl, by rw [decide_eq_true_eq, mem_armsShowing]⟩

end Rules

/-- A junction gives an arm what one rule gives it. -/
theorem exists_rule_resolveAt (junctionKind : Option ControlKind) (junctionTags : Tags)
    (walk : ℤ → Option ℤ × List (ℤ × ControlKind)) (name : ℤ → Option String)
    (firsts : List ℤ) : ∃ give,
    Rule junctionKind junctionTags (harmonized walk name firsts) give ∧
      ∀ far, (resolveAt junctionKind junctionTags walk name firsts).get far =
        if far ∈ (gather walk name firsts).1.keys then give far else none := by
  obtain ⟨give, hrule, hgive⟩ :=
    exists_rule junctionKind junctionTags (harmonized walk name firsts)
  refine ⟨give, hrule, fun far => ?_⟩
  unfold resolveAt
  simp only
  by_cases hfar : far ∈ (gather walk name firsts).1.keys
  · rw [if_neg (List.ne_nil_of_mem hfar), if_pos hfar]
    exact hgive far (by rw [harmonized, keys_harmonizeOppositeArms]; exact hfar)
  · rw [if_neg hfar]
    split
    · rfl
    · cases hget : (resolveJunction junctionKind junctionTags (harmonizeOppositeArms
          (gather walk name firsts).1 (gather walk name firsts).2)).get far with
      | none => rfl
      | some a =>
        refine absurd ?_ hfar
        have hmem := Assoc.mem_keys_of_get _ hget
        rcases keys_resolveJunction junctionKind junctionTags (harmonizeOppositeArms
          (gather walk name firsts).1 (gather walk name firsts).2) with hkeys | hempty
        · rwa [hkeys, keys_harmonizeOppositeArms] at hmem
        · rw [hempty] at hmem
          exact absurd hmem List.not_mem_nil

theorem keys_gather_perm (h : firsts.Perm firsts') {far : ℤ} :
    far ∈ (gather walk name firsts).1.keys ↔ far ∈ (gather walk name firsts').1.keys := by
  rw [keys_gather, keys_gather]
  exact exists_congr fun first => by rw [h.mem_iff]

/-- The arms of two orders are as many. -/
theorem length_harmonized (h : firsts.Perm firsts') :
    (harmonized walk name firsts).entries.length =
      (harmonized walk name firsts').entries.length := by
  have hlen : ∀ arms : Arms, arms.entries.length = arms.keys.length := fun arms =>
    (List.length_map _).symm
  rw [hlen, hlen, harmonized, harmonized, keys_harmonizeOppositeArms, keys_harmonizeOppositeArms]
  exact ((List.perm_ext_iff_of_nodup (Assoc.nodup _) (Assoc.nodup _)).mpr fun far =>
    keys_gather_perm h).length_eq

/-- Where every arm's pairing is settled, the sign is on the same arms. -/
theorem shows_harmonized_perm {d : ControlKind}
    (hsettled : ∀ far, ¬ Seen walk firsts far d →
      NeverPaired walk name firsts d far ∨ AlwaysPaired walk name firsts d far)
    (h : firsts.Perm firsts') (far : ℤ) :
    Shows (harmonized walk name firsts) far d ↔ Shows (harmonized walk name firsts') far d := by
  by_cases hfar : far ∈ (gather walk name firsts).1.keys
  · have hsettled' : ¬ Seen walk firsts' far d →
        NeverPaired walk name firsts' d far ∨ AlwaysPaired walk name firsts' d far := by
      have hself := hsettled far
      unfold NeverPaired AlwaysPaired at hself ⊢
      simpa only [seen_perm h, named_perm h] using hself
    rw [shows_harmonized_iff hfar (hsettled far),
      shows_harmonized_iff ((keys_gather_perm h).mp hfar) hsettled']
    unfold AlwaysPaired
    simp only [seen_perm h, named_perm h]
  · have hno : ∀ l : List ℤ, far ∉ (gather walk name l).1.keys →
        ¬ Shows (harmonized walk name l) far d := by
      intro l hl hshows
      have hmem := hshows.mem_keys
      rw [harmonized, keys_harmonizeOppositeArms] at hmem
      exact hl hmem
    exact iff_of_false (hno firsts hfar) (hno firsts' (mt (keys_gather_perm h).mpr hfar))

/-- **Where the junction is settled, the order of its neighbours does not matter.** -/
theorem resolveAt_perm (hsettled : Settled junctionKind junctionTags walk name firsts)
    (h : firsts.Perm firsts') (far : ℤ) :
    (resolveAt junctionKind junctionTags walk name firsts).get far =
      (resolveAt junctionKind junctionTags walk name firsts').get far := by
  obtain ⟨give, hrule, hgive⟩ := exists_rule_resolveAt junctionKind junctionTags walk name firsts
  obtain ⟨give', hrule', hgive'⟩ :=
    exists_rule_resolveAt junctionKind junctionTags walk name firsts'
  have htransfer : Rule junctionKind junctionTags (harmonized walk name firsts') give := by
    refine hrule.transfer (length_harmonized h) ?_ ?_
      (device_eq_stop_iff.trans exists_shows_harmonized.symm) device_eq_or ?_
    · intro far
      simp only [harmonized, keys_harmonizeOppositeArms]
      exact keys_gather_perm h
    · intro kind
      rw [exists_shows_harmonized, exists_shows_harmonized]
      exact exists_congr fun far => seen_perm h
    · unfold SignalSeen
      rw [exists_shows_harmonized, exists_shows_harmonized]
      refine hsettled.imp_right (Or.imp_right (Or.imp_right fun hpaired => ?_))
      exact shows_harmonized_perm hpaired h
  rw [hgive, hgive', htransfer.unique hrule']
  simp only [keys_gather_perm h]

/-! ## Where two orders differ -/

/-- The neighbours with those that satisfy `p` first. -/
def putFirst (p : ℤ → Bool) (firsts : List ℤ) : List ℤ :=
  firsts.filter p ++ firsts.filter fun first => !p first

theorem putFirst_perm (p : ℤ → Bool) (firsts : List ℤ) : (putFirst p firsts).Perm firsts :=
  List.filter_append_perm p firsts

variable (name) in
/-- An arm has the street of a neighbour that satisfies `p`, when one of these leads there. -/
theorem street_putFirst {p : ℤ → Bool} {far : ℤ}
    (h : ∃ first ∈ firsts, p first = true ∧ (walk first).1 = some far) :
    ∃ first, p first = true ∧ (walk first).1 = some far ∧
      (gather walk name (putFirst p firsts)).2.get far = some (name first) := by
  obtain ⟨first, hmem, hp, hlead⟩ := h
  have hsome : ((firsts.filter p).find? fun first => decide ((walk first).1 = some far)).isSome :=
    List.find?_isSome.mpr ⟨first, List.mem_filter.mpr ⟨hmem, hp⟩, decide_eq_true hlead⟩
  obtain ⟨a, ha⟩ := Option.isSome_iff_exists.mp hsome
  refine ⟨a, (List.mem_filter.mp (List.mem_of_find?_eq_some ha)).2,
    by simpa using List.find?_some ha, ?_⟩
  rw [streets_gather, putFirst, List.find?_append, ha]
  rfl

/-- An arm that can be paired is paired in some order. -/
theorem exists_paired {d : ControlKind} {far : ℤ} (h : ¬ NeverPaired walk name firsts d far) :
    ∃ p, Shows (harmonized walk name (putFirst p firsts)) far d := by
  unfold NeverPaired at h
  push Not at h
  obtain ⟨street, b, hseen, ⟨f, hf, hfar, hstreet⟩, g, hg, hb, hstreet'⟩ := h
  -- the neighbours on that street come first
  refine ⟨fun first => name first = some street, ?_⟩
  obtain ⟨f', hname, -, hget⟩ := street_putFirst name
    (p := fun first => name first = some street) ⟨f, hf, decide_eq_true hstreet, hfar⟩
  obtain ⟨g', hname', -, hget'⟩ := street_putFirst name
    (p := fun first => name first = some street) ⟨g, hg, decide_eq_true hstreet', hb⟩
  rw [decide_eq_true_eq] at hname hname'
  rw [hname] at hget
  rw [hname'] at hget'
  refine shows_harmonizeOppositeArms.mpr ⟨?_, b, Or.inr ⟨street, hget, hget'⟩, ?_⟩
  · exact (keys_gather_perm (putFirst_perm _ _)).mpr (keys_gather.mpr ⟨f, hf, hfar⟩)
  · exact shows_gather.mpr ((seen_perm (putFirst_perm _ _)).mpr hseen)

/-- An arm that can be left alone is left alone in some order. -/
theorem exists_unpaired {d : ControlKind} {far : ℤ} (hself : ¬ Seen walk firsts far d)
    (h : ¬ AlwaysPaired walk name firsts d far) :
    ∃ p, ¬ Shows (harmonized walk name (putFirst p firsts)) far d := by
  unfold AlwaysPaired at h
  push Not at h
  obtain ⟨street, ⟨f, hf, hfar, hstreet⟩, hother⟩ := h
  -- the neighbours on that street come first for `far`, those on any other elsewhere
  refine ⟨fun first => ((walk first).1 = some far ↔ name first = street), fun hshows => ?_⟩
  set p : ℤ → Bool := fun first => ((walk first).1 = some far ↔ name first = street) with hp
  obtain ⟨-, a, ha, hseen⟩ := shows_harmonizeOppositeArms.mp hshows
  rw [shows_gather, seen_perm (putFirst_perm _ _)] at hseen
  rcases ha with rfl | ⟨s, hget, hget'⟩
  · exact hself hseen
  · have hne : a ≠ far := by
      rintro rfl
      exact hself hseen
    obtain ⟨f', hpf, hlead, hget2⟩ := street_putFirst name (p := p)
      ⟨f, hf, decide_eq_true (iff_of_true hfar hstreet), hfar⟩
    rw [hp, decide_eq_true_eq] at hpf
    rw [hget, hpf.mp hlead, Option.some.injEq] at hget2
    obtain ⟨street', ⟨g, hg, hga, hname⟩, hne'⟩ := hother s hget2.symm a hseen
    have hnot : ∀ first, (walk first).1 = some a → ¬ (walk first).1 = some far := by
      intro first h h'
      rw [h, Option.some.injEq] at h'
      exact hne h'
    obtain ⟨g', hpg, hlead', hget3⟩ := street_putFirst name (p := p)
      ⟨g, hg, decide_eq_true (iff_of_false (hnot g hga)
        (by rw [hname, ← hget2]; exact hne')), hga⟩
    rw [hp, decide_eq_true_eq] at hpg
    rw [hget', Option.some.injEq] at hget3
    exact hnot g' hlead' (hpg.mpr (by rw [← hget3, hget2]))

/-- Where no rule decides the whole junction, an arm must stop when it shows the sign. -/
theorem mustStop_resolveAt (hsignal : ¬ (junctionKind = some .signal ∨
      ∃ far, Seen walk firsts far .signal)) (hmini : junctionKind ≠ some .miniRoundabout)
    (htag : ¬ (taggedAllWay junctionTags = true ∧ ∃ far, Seen walk firsts far .stop))
    (hex : ∃ far, Seen walk firsts far (device walk firsts)) {far : ℤ}
    (hfar : far ∈ (gather walk name firsts).1.keys) :
    ∃ a, (resolveAt junctionKind junctionTags walk name firsts).get far = some a ∧
      (a.mustStop = true ↔ Shows (harmonized walk name firsts) far (device walk firsts)) := by
  obtain ⟨give, hrule, hgive⟩ :=
    exists_rule_resolveAt junctionKind junctionTags walk name firsts
  rw [hgive, if_pos hfar]
  refine hrule.mustStop_iff (device_eq_stop_iff.trans exists_shows_harmonized.symm) device_eq_or
    ?_ hmini ?_ (exists_shows_harmonized.mpr hex) ?_
  · rw [SignalSeen, exists_shows_harmonized]
    exact hsignal
  · rw [exists_shows_harmonized]
    exact htag
  · rw [harmonized, keys_harmonizeOppositeArms]
    exact hfar

/-- **Where the junction is not settled, two orders differ.** -/
theorem settled_of_resolveAt (h : ∀ l l' : List ℤ, l.Perm firsts → l'.Perm firsts → ∀ far,
    (resolveAt junctionKind junctionTags walk name l).get far =
      (resolveAt junctionKind junctionTags walk name l').get far) :
    Settled junctionKind junctionTags walk name firsts := by
  by_contra hno
  unfold Settled at hno
  simp only [not_or, not_forall] at hno
  obtain ⟨hsignal, hmini, htag, far, hself, hnever, halways⟩ := hno
  rw [← not_or] at hsignal
  obtain ⟨p, hshows⟩ := exists_paired hnever
  obtain ⟨p', hshows'⟩ := exists_unpaired hself halways
  have hfar : far ∈ (gather walk name firsts).1.keys := by
    have hmem := hshows.mem_keys
    rw [harmonized, keys_harmonizeOppositeArms] at hmem
    exact (keys_gather_perm (putFirst_perm p firsts)).mp hmem
  have hex : ∃ b, Seen walk firsts b (device walk firsts) := by
    obtain ⟨b, hb⟩ := exists_shows_harmonized.mp ⟨far, hshows⟩
    exact ⟨b, (seen_perm (putFirst_perm p firsts)).mp hb⟩
  -- what an order gives `far`
  have hgive : ∀ q, ∃ a,
      (resolveAt junctionKind junctionTags walk name (putFirst q firsts)).get far = some a ∧
        (a.mustStop = true ↔
          Shows (harmonized walk name (putFirst q firsts)) far (device walk firsts)) := by
    intro q
    have hq := putFirst_perm q firsts
    rw [← device_perm hq]
    refine mustStop_resolveAt ?_ hmini ?_ ?_ ((keys_gather_perm hq).mpr hfar)
    · simpa only [seen_perm hq] using hsignal
    · simpa only [seen_perm hq] using htag
    · simpa only [seen_perm hq, device_perm hq] using hex
  obtain ⟨a, ha, hmust⟩ := hgive p
  obtain ⟨a', ha', hmust'⟩ := hgive p'
  rw [h _ _ (putFirst_perm p firsts) (putFirst_perm p' firsts), ha', Option.some.injEq] at ha
  rw [← ha] at hmust
  exact hshows' (hmust'.mp (hmust.mpr hshows))

end Junction

/-! ## The whole graph -/

section Harvest

variable {K : Type} [Add K] [LE K] [DecidableLE K] {G : RawGraph K}
  {haversineM : K → K → K → K → K} {junctionNodes : Finset ℤ} {maxOffsetM : K}

/-- What the loop over the junctions puts under an approach. -/
theorem get_foldl_junctions (nodes : List ℤ) (found : ℤ → Assoc ℤ ApproachControl)
    (junctions : List ℤ) (d : Assoc (ℤ × ℤ) ApproachControl) (junction far : ℤ) :
    (junctions.foldl (fun out j => if j ∈ nodes then
        (found j).entries.foldl (fun out e => out.put (j, e.1) e.2) out else out) d).get
        (junction, far) =
      if junction ∈ junctions ∧ junction ∈ nodes then
        ((found junction).get far).or (d.get (junction, far))
      else d.get (junction, far) := by
  induction junctions generalizing d with
  | nil => simp
  | cons j junctions ih =>
    rw [List.foldl_cons, ih]
    by_cases hj : j = junction
    · subst hj
      by_cases hnode : j ∈ nodes
      · have hput := (found j).get_foldl_put_entries (Prod.mk_right_injective j) d far
        rw [if_pos hnode, hput]
        cases (found j).get far <;> simp [hnode]
      · simp [hnode]
    · have hkeep : (if j ∈ nodes then
          (found j).entries.foldl (fun out e => out.put (j, e.1) e.2) d else d).get
            (junction, far) = d.get (junction, far) := by
        split
        · exact (found j).get_foldl_put_entries_of_ne (f := fun a => (j, a))
            (fun a h => hj (Prod.mk.inj h).1) d
        · rfl
      have hne : ¬ junction = j := fun h => hj h.symm
      rw [hkeep]
      simp [hne]

/-- **What `harvest` finds for an approach**: the order of its own junction's neighbours decides. -/
theorem get_harvest (o : Enumeration G junctionNodes) (junction far : ℤ) :
    (harvest G haversineM maxOffsetM o).get (junction, far) =
      if junction ∈ junctionNodes ∧ junction ∈ G.nodes then
        (harvestAt G haversineM junctionNodes maxOffsetM junction (o.neighbours junction)).get far
      else none := by
  have hmem : junction ∈ o.junctions ↔ junction ∈ junctionNodes := by
    rw [← List.mem_toFinset, o.toFinset_junctions]
  unfold harvest
  rw [get_foldl_junctions G.nodes fun j =>
    harvestAt G haversineM junctionNodes maxOffsetM j (o.neighbours j)]
  simp only [hmem, Assoc.get_empty, Option.or_none]

variable (junctionNodes) in
omit [Add K] [LE K] [DecidableLE K] in
/-- Every order of the neighbours of a junction is part of an order of the graph. -/
theorem exists_enumeration (junction : ℤ) {l : List ℤ}
    (h : l.Perm (physicalNeighbors G junction)) :
    ∃ o : Enumeration G junctionNodes, o.neighbours junction = l := by
  refine ⟨⟨junctionNodes.toList, Function.update (physicalNeighbors G) junction l,
    junctionNodes.nodup_toList, junctionNodes.toList_toFinset, fun node => ?_⟩,
    Function.update_self _ _ _⟩
  by_cases hnode : node = junction
  · subst hnode
    rw [Function.update_self]
    exact h
  · rw [Function.update_of_ne hnode]

/-- **When `harvest` does not depend on the order**: when every junction is settled. -/
theorem harvest_order_iff : (∀ (o o' : Enumeration G junctionNodes) (key : ℤ × ℤ),
      (harvest G haversineM maxOffsetM o).get key =
        (harvest G haversineM maxOffsetM o').get key) ↔
    ∀ junction ∈ junctionNodes, junction ∈ G.nodes →
      Settled (controlKind (G.tags junction)) (G.tags junction)
        (walkArm G haversineM junctionNodes maxOffsetM junction) (streetName G junction)
        (physicalNeighbors G junction) := by
  constructor
  · intro h junction hmem hnode
    refine settled_of_resolveAt fun l l' hl hl' far => ?_
    obtain ⟨o, ho⟩ := exists_enumeration junctionNodes junction hl
    obtain ⟨o', ho'⟩ := exists_enumeration junctionNodes junction hl'
    have heq := h o o' (junction, far)
    rw [get_harvest, get_harvest, if_pos ⟨hmem, hnode⟩, if_pos ⟨hmem, hnode⟩, ho, ho'] at heq
    exact heq
  · rintro h o o' ⟨junction, far⟩
    rw [get_harvest, get_harvest]
    by_cases hj : junction ∈ junctionNodes ∧ junction ∈ G.nodes
    · rw [if_pos hj, if_pos hj]
      have hp := o.perm_neighbours junction
      have hp' := o'.perm_neighbours junction
      refine resolveAt_perm ((settled_perm hp).mpr (h junction hj.1 hj.2)) (hp.trans hp'.symm) far
    · rw [if_neg hj, if_neg hj]

end Harvest

/-! ## A junction that comes out differently -/

/-- A two-way street of one segment. -/
def twoWay (a b : ℤ) (street : String) : List OsmEdge :=
  let data (rev : Bool) : Tags := fun tag =>
    if tag = "name" then some (.one (.text street))
    else if tag = "reversed" then some (.one (.flag rev)) else none
  [⟨a, b, data false⟩, ⟨b, a, data true⟩]

/-- Junction `0` with two neighbouring junctions. Through nodes `1` and `33`, Elm Street and Oak
Street both lead to `5`; Elm Street goes on to `6` the other way, with a stop sign on node `2`. -/
def elmAndOak : RawGraph ℚ where
  nodes := [0, 1, 2, 5, 6, 33]
  tags node tag := if node = 2 ∧ tag = "highway" then some (.one (.text "stop")) else none
  y node := if node = 33 ∨ node = 5 then 1 / 10000 else 0
  x node := if node = 1 ∨ node = 5 then 1 / 10000 else if node = 2 then -1 / 10000
    else if node = 6 then -1 / 1000 else 0
  edges := twoWay 0 1 "Elm Street" ++ twoWay 1 5 "Elm Street" ++ twoWay 0 33 "Oak Street" ++
    twoWay 33 5 "Oak Street" ++ twoWay 0 2 "Elm Street" ++ twoWay 2 6 "Elm Street"
  u_mem := by decide
  v_mem := by decide

/-- A distance along a meridian or along the equator, in metres. -/
def alongAxis (lat1 lon1 lat2 lon2 : ℚ) : ℚ := 111195 * (|lat2 - lat1| + |lon2 - lon1|)

/-- Another order of the neighbours of junction `0`. Nodes `1` and `33` fall into one slot of the
set of them, which lists the one first that was added first. -/
def elmOrder (neighbours : List ℤ) : ℤ → List ℤ :=
  Function.update (physicalNeighbors elmAndOak) 0 neighbours

theorem elmOrder_perm {neighbours : List ℤ} (h : neighbours.Perm [1, 2, 33]) (node : ℤ) :
    (elmOrder neighbours node).Perm (physicalNeighbors elmAndOak node) := by
  unfold elmOrder
  by_cases hnode : node = 0
  · subst hnode
    rw [Function.update_self]
    exact h.trans (by decide)
  · rw [Function.update_of_ne hnode]

/-- Elm Street's neighbour first. -/
def elmFirst : Enumeration elmAndOak {0, 5, 6} :=
  ⟨[0, 5, 6], elmOrder [1, 2, 33], by decide, by decide, elmOrder_perm (by decide)⟩

/-- Oak Street's neighbour first. -/
def oakFirst : Enumeration elmAndOak {0, 5, 6} :=
  ⟨[0, 5, 6], elmOrder [33, 2, 1], by decide, by decide, elmOrder_perm (by decide)⟩

/-- **The same junction, two orders**: the approach from `5` must stop, or has priority. -/
theorem harvest_order_dependent :
    (harvest elmAndOak alongAxis 30 elmFirst).get (0, 5) = some ⟨.stop2way, true, .observed⟩ ∧
      (harvest elmAndOak alongAxis 30 oakFirst).get (0, 5) =
        some ⟨.stop2way, false, .observed⟩ := by
  decide +kernel

end RoutePlanner.Ingestion
