import Mathlib.Data.Finset.Lattice.Fold
import RoutePlanner.Lib.Assoc
import RoutePlanner.Lib.Run

/-!
# `ingestion/approach_controls.py`: resolving a junction

Model of `_harmonize_opposite_arms` and `_resolve_junction`. An arm is named by the node at its far
end; its evidence is the set of control kinds seen on it.

* `get_harmonizeOppositeArms`: after harmonizing, an arm of a named street has the evidence of every
  arm of that street.
* `get_resolveJunction`: what one arm is given, from three facts about the junction.
* `resolve_consistent`: the laws a resolved junction obeys, for any evidence and any street names.
-/

namespace RoutePlanner.Ingestion

open RoutePlanner.Lib

/-! ## Controls and tags -/

/-- `Control`. -/
inductive Control where
  | none
  | stop2way
  | stop4way
  | signalPermissive
  | signalProtected
  | roundabout
  | yield
  deriving DecidableEq, Repr

/-- `ControlConfidence`. -/
inductive ControlConfidence where
  | unknown
  | inferred
  | observed
  deriving DecidableEq, Repr

/-- `SIGNAL`, `STOP`, `GIVE_WAY`, `MINI_ROUNDABOUT`. -/
inductive ControlKind where
  | signal
  | stop
  | giveWay
  | miniRoundabout
  deriving DecidableEq, Repr

/-- A value in a list of tag values. -/
inductive Scalar where
  | text (s : String)
  | flag (b : Bool)
  deriving DecidableEq, Repr

/-- The value of a tag: OSMnx merges duplicate tags into lists. -/
inductive TagValue where
  | one (value : Scalar)
  | many (values : List Scalar)
  deriving DecidableEq, Repr

/-- `tags.get` of a node or an edge. -/
abbrev Tags := String → Option TagValue

/-- `tag_first`. -/
def tagFirst (value : Option TagValue) : Option Scalar :=
  match value with
  | some (.one value) => some value
  | some (.many values) => values.head?
  | none => none

/-- `ApproachControl`. -/
structure ApproachControl where
  control : Control
  mustStop : Bool
  confidence : ControlConfidence := .observed
  deriving DecidableEq, Repr

/-- `dict[int, set[str]]`: the evidence on each arm. -/
abbrev Arms := Assoc ℤ (Finset ControlKind)

/-- `dict[int, str | None]`: the street of each arm. -/
abbrev Streets := Assoc ℤ (Option String)

/-! ## Harmonizing -/

section Harmonize

variable (arms : Arms) (streets : Streets)

/-- One step of the loop that fills `by_street`. -/
def groupStreet (byStreet : Assoc String (List ℤ)) (e : ℤ × Option String) :
    Assoc String (List ℤ) :=
  match e.2 with
  | some name =>
    if e.1 ∈ arms.keys then byStreet.put name ((byStreet.get name).getD [] ++ [e.1]) else byStreet
  | none => byStreet

/-- `by_street`. -/
def byStreet : Assoc String (List ℤ) := streets.entries.foldl (groupStreet arms) Assoc.empty

/-- `set().union(*(arms[far] for far in same))`. -/
def sharedEvidence (same : List ℤ) : Finset ControlKind :=
  same.toFinset.sup fun far => (arms.get far).getD ∅

/-- The loop over `by_street.values()`, for one street. -/
def shareStreet (arms : Arms) (same : List ℤ) : Arms :=
  if same.length < 2 then arms
  else same.foldl (fun d far => d.put far (sharedEvidence arms same)) arms

/-- **`_harmonize_opposite_arms`**. -/
def harmonizeOppositeArms : Arms :=
  ((byStreet arms streets).entries.map Prod.snd).foldl shareStreet arms

end Harmonize

/-! ## Resolving -/

section Resolve

variable (junctionKind : Option ControlKind) (junctionTags : Tags) (arms : Arms)

/-- `{far for far, kinds in arms.items() if kind in kinds}`. -/
def armsShowing (kind : ControlKind) : Finset ℤ :=
  ((arms.entries.filter fun e => kind ∈ e.2).map Prod.fst).toFinset

/-- `tagged_all_way`. -/
def taggedAllWay : Bool := tagFirst (junctionTags "stop") == some (.text "all")

/-- `every_arm_stops`. -/
def everyArmStops (stopArms : Finset ℤ) : Bool :=
  decide (3 ≤ arms.entries.length ∧ stopArms = arms.keys.toFinset)

/-- **`_resolve_junction`**. -/
def resolveJunction : Assoc ℤ ApproachControl :=
  if junctionKind = some .signal ∨ ∃ e ∈ arms.entries, .signal ∈ e.2 then
    arms.map fun _ _ => ⟨.signalPermissive, false, .observed⟩
  else if junctionKind = some .miniRoundabout then
    arms.map fun _ _ => ⟨.roundabout, false, .observed⟩
  else
    let stopArms := armsShowing arms .stop
    -- a junction is stop-controlled or give-way-controlled, not both
    let yieldArms := if stopArms.Nonempty then ∅ else armsShowing arms .giveWay
    if ¬ stopArms.Nonempty ∧ ¬ yieldArms.Nonempty then Assoc.empty
    else if stopArms.Nonempty ∧ (taggedAllWay junctionTags ∨ everyArmStops arms stopArms) then
      arms.map fun _ _ => ⟨.stop4way, true, .observed⟩
    else
      let priorityControl := if stopArms.Nonempty then Control.stop2way else Control.yield
      arms.map fun far _ =>
        if far ∈ stopArms then ⟨.stop2way, true, .observed⟩
        else if far ∈ yieldArms then ⟨.yield, true, .observed⟩
        else ⟨priorityControl, false, .observed⟩

end Resolve

/-! ## What harmonizing does -/

/-- `kind` is in the evidence on the arm. -/
def Shows (arms : Arms) (far : ℤ) (kind : ControlKind) : Prop :=
  ∃ kinds, arms.get far = some kinds ∧ kind ∈ kinds

/-- Both arms have the same street name. -/
def SameStreet (streets : Streets) (a b : ℤ) : Prop :=
  ∃ name, streets.get a = some (some name) ∧ streets.get b = some (some name)

theorem SameStreet.symm {streets : Streets} {a b : ℤ} (h : SameStreet streets a b) :
    SameStreet streets b a := by
  obtain ⟨name, ha, hb⟩ := h
  exact ⟨name, hb, ha⟩

theorem SameStreet.trans {streets : Streets} {a b c : ℤ} (h : SameStreet streets a b)
    (h' : SameStreet streets b c) : SameStreet streets a c := by
  obtain ⟨name, ha, hb⟩ := h
  obtain ⟨name', hb', hc⟩ := h'
  rw [hb, Option.some.injEq, Option.some.injEq] at hb'
  exact ⟨name, ha, hb' ▸ hc⟩

section Harmonize

variable {arms : Arms} {streets : Streets}

theorem Shows.mem_keys {far : ℤ} {kind : ControlKind} (h : Shows arms far kind) :
    far ∈ arms.keys := by
  obtain ⟨kinds, hkinds, -⟩ := h
  exact arms.mem_keys_of_get hkinds

theorem mem_getD_iff {far : ℤ} {kind : ControlKind} :
    kind ∈ (arms.get far).getD ∅ ↔ Shows arms far kind := by
  unfold Shows
  cases arms.get far <;> simp

theorem mem_sharedEvidence {same : List ℤ} {kind : ControlKind} :
    kind ∈ sharedEvidence arms same ↔ ∃ far ∈ same, Shows arms far kind := by
  unfold sharedEvidence
  simp only [Finset.mem_sup, List.mem_toFinset, mem_getD_iff]

theorem mem_groupStreet {d : Assoc String (List ℤ)} {e : ℤ × Option String} {name : String}
    {far : ℤ} : far ∈ ((groupStreet arms d e).get name).getD [] ↔
      far ∈ (d.get name).getD [] ∨ far ∈ arms.keys ∧ e = (far, some name) := by
  obtain ⟨a, street⟩ := e
  unfold groupStreet
  cases street with
  | none => simp
  | some n =>
    simp only
    by_cases ha : a ∈ arms.keys
    · rw [if_pos ha, Assoc.get_put]
      by_cases hn : n = name
      · subst hn
        rw [if_pos rfl, Option.getD_some, List.mem_append, List.mem_singleton]
        refine or_congr_right ⟨?_, ?_⟩
        · rintro rfl
          exact ⟨ha, rfl⟩
        · rintro ⟨-, h⟩
          exact (Prod.mk.inj h).1.symm
      · rw [if_neg hn]
        have hne : (a, some n) ≠ (far, some name) := fun h => hn (Option.some.inj (Prod.mk.inj h).2)
        simp [hne]
    · rw [if_neg ha]
      have hno : ¬ (far ∈ arms.keys ∧ (a, some n) = (far, some name)) := by
        rintro ⟨hfar, h⟩
        exact ha ((Prod.mk.inj h).1 ▸ hfar)
      rw [or_iff_left hno]

/-- The arms listed under a street. -/
theorem mem_byStreet {name : String} {far : ℤ} :
    far ∈ ((byStreet arms streets).get name).getD [] ↔
      far ∈ arms.keys ∧ streets.get far = some (some name) := by
  unfold byStreet
  have hstep : ∀ d e, far ∈ ((groupStreet arms d e).get name).getD [] ↔
      far ∈ (d.get name).getD [] ∨ far ∈ arms.keys ∧ e = (far, some name) :=
    fun _ _ => mem_groupStreet
  rw [foldl_iff (I := fun d : Assoc String (List ℤ) => far ∈ (d.get name).getD []) hstep]
  simp [← Assoc.mem_entries_iff, and_comm]

/-- The street under which an arm is listed. -/
theorem mem_street {e : String × List ℤ} (he : e ∈ (byStreet arms streets).entries) {far : ℤ} :
    far ∈ e.2 ↔ far ∈ arms.keys ∧ streets.get far = some (some e.1) := by
  have hget := (byStreet arms streets).mem_entries_iff.mp he
  rw [← mem_byStreet, hget, Option.getD_some]

/-- No arm is listed under two streets. -/
theorem disjoint_byStreet :
    ((byStreet arms streets).entries.map Prod.snd).Pairwise List.Disjoint := by
  have hnd : (byStreet arms streets).entries.Pairwise fun e e' => e.1 ≠ e'.1 :=
    List.pairwise_map.mp (byStreet arms streets).nodup
  refine List.pairwise_map.mpr (hnd.imp_of_mem fun {e e'} he he' hne far h h' => hne ?_)
  have hboth := ((mem_street he).mp h).2.symm.trans ((mem_street he').mp h').2
  rw [Option.some.injEq, Option.some.injEq] at hboth
  exact hboth

theorem keys_shareStreet {same : List ℤ} (h : ∀ far ∈ same, far ∈ arms.keys) :
    (shareStreet arms same).keys = arms.keys := by
  unfold shareStreet
  split
  · rfl
  · refine foldl_invariant (I := fun d : Arms => d.keys = arms.keys) (fun d far hfar hd => ?_) rfl
    rw [d.keys_put_of_mem (hd ▸ h far hfar), hd]

/-- What the arms of one street show afterwards. -/
theorem shows_shareStreet {same : List ℤ} (h : ∀ far ∈ same, far ∈ arms.keys) {far : ℤ}
    {kind : ControlKind} : Shows (shareStreet arms same) far kind ↔
      Shows arms far kind ∨ far ∈ same ∧ ∃ a ∈ same, Shows arms a kind := by
  unfold shareStreet
  split
  next hshort =>
    have honly : far ∈ same ∧ (∃ a ∈ same, Shows arms a kind) → Shows arms far kind := by
      rintro ⟨hfar, a, ha, hshows⟩
      obtain ⟨b, rfl⟩ := List.length_eq_one_iff.mp
        (show same.length = 1 from by have := List.length_pos_of_mem hfar; omega)
      rwa [List.mem_singleton.mp hfar, ← List.mem_singleton.mp ha]
    rw [or_iff_left_of_imp honly]
  next =>
    by_cases hfar : far ∈ same
    · have hget : ((same.foldl (fun d far => d.put far (sharedEvidence arms same)) arms).get far) =
          some (sharedEvidence arms same) := by
        rw [Assoc.get_foldl_put, if_pos hfar]
      have hshows : Shows (same.foldl (fun d far => d.put far (sharedEvidence arms same)) arms)
          far kind ↔ kind ∈ sharedEvidence arms same := by
        unfold Shows
        rw [hget]
        simp
      rw [hshows, mem_sharedEvidence]
      constructor
      · exact fun hex => Or.inr ⟨hfar, hex⟩
      · rintro (hself | ⟨-, hex⟩)
        · exact ⟨far, hfar, hself⟩
        · exact hex
    · have hget : ((same.foldl (fun d far => d.put far (sharedEvidence arms same)) arms).get far) =
          arms.get far := by
        rw [Assoc.get_foldl_put, if_neg hfar]
      unfold Shows
      rw [hget]
      simp [hfar]

/-- What an arm shows after all the streets. -/
theorem shows_foldl_shareStreet {groups : List (List ℤ)} (hdisj : groups.Pairwise List.Disjoint)
    (hkeys : ∀ same ∈ groups, ∀ far ∈ same, far ∈ arms.keys) {far : ℤ} {kind : ControlKind} :
    Shows (groups.foldl shareStreet arms) far kind ↔
      Shows arms far kind ∨ ∃ same ∈ groups, far ∈ same ∧ ∃ a ∈ same, Shows arms a kind := by
  induction groups generalizing arms with
  | nil => simp
  | cons same groups ih =>
    rw [List.pairwise_cons] at hdisj
    have hsame := hkeys same List.mem_cons_self
    have hrest : ∀ g ∈ groups, ∀ a ∈ g, a ∈ (shareStreet arms same).keys := by
      intro g hg a ha
      rw [keys_shareStreet hsame]
      exact hkeys g (List.mem_cons_of_mem same hg) a ha
    -- the other streets' arms are as they were
    have hother : ∀ g ∈ groups, ∀ a ∈ g,
        (Shows (shareStreet arms same) a kind ↔ Shows arms a kind) := by
      intro g hg a ha
      rw [shows_shareStreet hsame, or_iff_left]
      exact fun h => hdisj.1 g hg h.1 ha
    rw [List.foldl_cons, ih hdisj.2 hrest, shows_shareStreet hsame, or_assoc]
    refine or_congr_right ?_
    simp only [List.mem_cons, exists_eq_or_imp]
    refine or_congr_right (exists_congr fun g => and_congr_right fun hg =>
      and_congr_right fun _ => ?_)
    exact exists_congr fun a => and_congr_right fun ha => hother g hg a ha

theorem keys_foldl_shareStreet {groups : List (List ℤ)}
    (hkeys : ∀ same ∈ groups, ∀ far ∈ same, far ∈ arms.keys) :
    (groups.foldl shareStreet arms).keys = arms.keys := by
  refine foldl_invariant (I := fun d : Arms => d.keys = arms.keys) (fun d same hsame hd => ?_) rfl
  rw [keys_shareStreet (hd ▸ hkeys same hsame), hd]

theorem mem_keys_byStreet {same : List ℤ}
    (hsame : same ∈ (byStreet arms streets).entries.map Prod.snd) {far : ℤ} (hfar : far ∈ same) :
    far ∈ arms.keys := by
  obtain ⟨e, he, rfl⟩ := List.mem_map.mp hsame
  exact ((mem_street he).mp hfar).1

@[simp] theorem keys_harmonizeOppositeArms :
    (harmonizeOppositeArms arms streets).keys = arms.keys :=
  keys_foldl_shareStreet fun _ hsame _ hfar => mem_keys_byStreet hsame hfar

/-- **What an arm shows after harmonizing**: what is seen on it or on an arm of its street. -/
theorem shows_harmonizeOppositeArms {far : ℤ} {kind : ControlKind} :
    Shows (harmonizeOppositeArms arms streets) far kind ↔
      far ∈ arms.keys ∧ ∃ a, (a = far ∨ SameStreet streets far a) ∧ Shows arms a kind := by
  unfold harmonizeOppositeArms
  rw [shows_foldl_shareStreet disjoint_byStreet fun _ hsame _ hfar => mem_keys_byStreet hsame hfar]
  constructor
  · rintro (hself | ⟨same, hsame, hfar, a, ha, hshows⟩)
    · exact ⟨hself.mem_keys, far, Or.inl rfl, hself⟩
    · obtain ⟨e, he, rfl⟩ := List.mem_map.mp hsame
      rw [mem_street he] at hfar ha
      exact ⟨hfar.1, a, Or.inr ⟨e.1, hfar.2, ha.2⟩, hshows⟩
  · rintro ⟨hkey, a, rfl | ⟨name, hfar, ha⟩, hshows⟩
    · exact Or.inl hshows
    · have hmem := mem_byStreet.mpr ⟨hkey, hfar⟩
      cases hget : (byStreet arms streets).get name with
      | none =>
        rw [hget] at hmem
        exact absurd hmem List.not_mem_nil
      | some same =>
        have he := (byStreet arms streets).mem_entries_iff.mpr hget
        refine Or.inr ⟨same, List.mem_map_of_mem he, ?_, a, ?_, hshows⟩
        · exact (mem_street he).mpr ⟨hkey, hfar⟩
        · exact (mem_street he).mpr ⟨hshows.mem_keys, ha⟩

end Harmonize

/-! ## What resolving does -/

section Resolve

variable {junctionKind : Option ControlKind} {junctionTags : Tags} {arms : Arms}

/-- A signal on the junction or on an arm. -/
def SignalSeen (junctionKind : Option ControlKind) (arms : Arms) : Prop :=
  junctionKind = some .signal ∨ ∃ far, Shows arms far .signal

theorem mem_armsShowing {kind : ControlKind} {far : ℤ} :
    far ∈ armsShowing arms kind ↔ Shows arms far kind := by
  unfold armsShowing Shows
  simp only [List.mem_toFinset, List.mem_map, List.mem_filter, decide_eq_true_eq, Prod.exists,
    ← Assoc.mem_entries_iff]
  constructor
  · rintro ⟨a, kinds, ⟨hmem, hkind⟩, rfl⟩
    exact ⟨kinds, hmem, hkind⟩
  · rintro ⟨kinds, hmem, hkind⟩
    exact ⟨far, kinds, ⟨hmem, hkind⟩, rfl⟩

theorem armsShowing_nonempty {kind : ControlKind} :
    (armsShowing arms kind).Nonempty ↔ ∃ far, Shows arms far kind := by
  unfold Finset.Nonempty
  simp only [mem_armsShowing]

theorem exists_signal_iff :
    (∃ e ∈ arms.entries, ControlKind.signal ∈ e.2) ↔ ∃ far, Shows arms far .signal := by
  unfold Shows
  constructor
  · rintro ⟨⟨far, kinds⟩, he, hkind⟩
    exact ⟨far, kinds, arms.mem_entries_iff.mp he, hkind⟩
  · rintro ⟨far, kinds, hget, hkind⟩
    exact ⟨(far, kinds), arms.mem_entries_iff.mpr hget, hkind⟩

/-- The all-way rule: `stop=all`, or three arms or more that all show a stop. -/
def AllWay (junctionTags : Tags) (arms : Arms) : Prop :=
  taggedAllWay junctionTags = true ∨
    3 ≤ arms.entries.length ∧ ∀ far ∈ arms.keys, Shows arms far .stop

theorem everyArmStops_iff : everyArmStops arms (armsShowing arms .stop) = true ↔
    3 ≤ arms.entries.length ∧ ∀ far ∈ arms.keys, Shows arms far .stop := by
  unfold everyArmStops
  rw [decide_eq_true_eq]
  refine and_congr_right fun _ => ?_
  constructor
  · intro heq far hfar
    rw [← mem_armsShowing, heq, List.mem_toFinset]
    exact hfar
  · intro hall
    ext far
    rw [mem_armsShowing, List.mem_toFinset]
    exact ⟨Shows.mem_keys, hall far⟩

/-- Which rule decides a junction, and what it gives an arm. -/
inductive Rule (junctionKind : Option ControlKind) (junctionTags : Tags) (arms : Arms) :
    (ℤ → Option ApproachControl) → Prop
  | signal (h : SignalSeen junctionKind arms) :
      Rule junctionKind junctionTags arms fun _ => some ⟨.signalPermissive, false, .observed⟩
  | roundabout (hno : ¬ SignalSeen junctionKind arms) (h : junctionKind = some .miniRoundabout) :
      Rule junctionKind junctionTags arms fun _ => some ⟨.roundabout, false, .observed⟩
  | nothing (hno : ¬ SignalSeen junctionKind arms) (hmini : junctionKind ≠ some .miniRoundabout)
      (hstop : ¬ ∃ far, Shows arms far .stop) (hyield : ¬ ∃ far, Shows arms far .giveWay) :
      Rule junctionKind junctionTags arms fun _ => none
  | allWay (hno : ¬ SignalSeen junctionKind arms) (hmini : junctionKind ≠ some .miniRoundabout)
      (hstop : ∃ far, Shows arms far .stop) (h : AllWay junctionTags arms) :
      Rule junctionKind junctionTags arms fun _ => some ⟨.stop4way, true, .observed⟩
  | someStop (hno : ¬ SignalSeen junctionKind arms) (hmini : junctionKind ≠ some .miniRoundabout)
      (hstop : ∃ far, Shows arms far .stop) (h : ¬ AllWay junctionTags arms) :
      Rule junctionKind junctionTags arms fun far =>
        some ⟨.stop2way, far ∈ armsShowing arms .stop, .observed⟩
  | someYield (hno : ¬ SignalSeen junctionKind arms) (hmini : junctionKind ≠ some .miniRoundabout)
      (hstop : ¬ ∃ far, Shows arms far .stop) (hyield : ∃ far, Shows arms far .giveWay) :
      Rule junctionKind junctionTags arms fun far =>
        some ⟨.yield, far ∈ armsShowing arms .giveWay, .observed⟩

/-- What a comprehension over the arms gives each of them. -/
theorem get_map_arms (f : ℤ → ApproachControl) {far : ℤ} (hfar : far ∈ arms.keys) :
    (arms.map fun a _ => f a).get far = some (f far) := by
  obtain ⟨kinds, hkinds⟩ := arms.exists_get_of_mem hfar
  rw [Assoc.get_map, hkinds]
  rfl

/-- **One rule decides a junction.** -/
theorem exists_rule (junctionKind : Option ControlKind) (junctionTags : Tags) (arms : Arms) :
    ∃ give, Rule junctionKind junctionTags arms give ∧
      ∀ far ∈ arms.keys, (resolveJunction junctionKind junctionTags arms).get far = give far := by
  unfold resolveJunction
  by_cases hsignal : SignalSeen junctionKind arms
  · refine ⟨_, .signal hsignal, fun far hfar => ?_⟩
    rw [if_pos (by rw [exists_signal_iff]; exact hsignal)]
    exact get_map_arms _ hfar
  rw [if_neg (by rw [exists_signal_iff]; exact hsignal)]
  by_cases hmini : junctionKind = some .miniRoundabout
  · refine ⟨_, .roundabout hsignal hmini, fun far hfar => ?_⟩
    rw [if_pos hmini]
    exact get_map_arms _ hfar
  rw [if_neg hmini]
  simp only
  have hall_iff : (taggedAllWay junctionTags = true ∨
      everyArmStops arms (armsShowing arms .stop) = true) ↔ AllWay junctionTags arms :=
    or_congr_right everyArmStops_iff
  by_cases hstop : (armsShowing arms .stop).Nonempty
  · have hstops := armsShowing_nonempty.mp hstop
    rw [if_neg (fun h => h.1 hstop)]
    by_cases hall : AllWay junctionTags arms
    · refine ⟨_, .allWay hsignal hmini hstops hall, fun far hfar => ?_⟩
      rw [if_pos ⟨hstop, hall_iff.mpr hall⟩]
      exact get_map_arms _ hfar
    · refine ⟨_, .someStop hsignal hmini hstops hall, fun far hfar => ?_⟩
      rw [if_neg (fun h => hall (hall_iff.mp h.2)), get_map_arms _ hfar, if_pos hstop, if_pos hstop]
      by_cases hmem : far ∈ armsShowing arms .stop <;> simp [hmem]
  · have hnostop : ¬ ∃ far, Shows arms far .stop := fun h => hstop (armsShowing_nonempty.mpr h)
    rw [if_neg hstop, if_neg hstop]
    by_cases hyield : (armsShowing arms .giveWay).Nonempty
    · refine ⟨_, .someYield hsignal hmini hnostop (armsShowing_nonempty.mp hyield),
        fun far hfar => ?_⟩
      have hnone : far ∉ armsShowing arms .stop := fun h => hstop ⟨far, h⟩
      rw [if_neg (fun h => h.2 hyield), if_neg (fun h => hstop h.1), get_map_arms _ hfar,
        if_neg hnone]
      by_cases hmem : far ∈ armsShowing arms .giveWay <;> simp [hmem]
    · refine ⟨_, .nothing hsignal hmini hnostop
        (fun h => hyield (armsShowing_nonempty.mpr h)), fun far _ => ?_⟩
      rw [if_pos ⟨hstop, hyield⟩]
      rfl

/-- **Every arm is resolved or none is.** -/
theorem keys_resolveJunction (junctionKind : Option ControlKind) (junctionTags : Tags)
    (arms : Arms) : (resolveJunction junctionKind junctionTags arms).keys = arms.keys ∨
      resolveJunction junctionKind junctionTags arms = Assoc.empty := by
  have hmap : ∀ f : ℤ → Finset ControlKind → ApproachControl, (arms.map f).keys = arms.keys ∨
      arms.map f = Assoc.empty := fun f => Or.inl (arms.keys_map f)
  have hite : ∀ (c : Prop) [Decidable c] (a b : Assoc ℤ ApproachControl),
      a.keys = arms.keys ∨ a = Assoc.empty → b.keys = arms.keys ∨ b = Assoc.empty →
        (if c then a else b).keys = arms.keys ∨ (if c then a else b) = Assoc.empty := by
    intro c _ a b ha hb
    split
    · exact ha
    · exact hb
  unfold resolveJunction
  refine hite _ _ _ (hmap _) (hite _ _ _ (hmap _) (hite _ _ _ (Or.inr rfl) ?_))
  exact hite _ _ _ (hmap _) (hmap _)

end Resolve

/-! ## The laws of a junction -/

/-- What the approaches of one junction obey, given the evidence on its arms and their streets. -/
structure Consistent (junctionKind : Option ControlKind) (junctionTags : Tags) (arms : Arms)
    (streets : Streets) (resolved : Assoc ℤ ApproachControl) : Prop where
  /-- The arms of one street are given the same. -/
  sameStreet : ∀ a ∈ arms.keys, ∀ b ∈ arms.keys, SameStreet streets a b →
    resolved.get a = resolved.get b
  signal : SignalSeen junctionKind arms → ∀ far ∈ arms.keys,
    resolved.get far = some ⟨.signalPermissive, false, .observed⟩
  /-- Who must stop has seen a sign on its own street, or the junction is tagged as all-way. (That
  every arm shows a stop is the first case.) -/
  mustStop : ∀ far a, resolved.get far = some a → a.mustStop = true →
    (∃ b, (b = far ∨ SameStreet streets far b) ∧ (Shows arms b .stop ∨ Shows arms b .giveWay)) ∨
      taggedAllWay junctionTags = true ∧ ∃ b, Shows arms b .stop
  notBoth : ∀ far a far' a', resolved.get far = some a → resolved.get far' = some a' →
    a.control = .stop2way ∨ a.control = .stop4way → a'.control ≠ .yield
  allOrNone : (∀ far ∈ arms.keys, (resolved.get far).isSome) ∨ resolved = Assoc.empty
  empty_iff : resolved = Assoc.empty ↔ ¬ SignalSeen junctionKind arms ∧
    junctionKind ≠ some .miniRoundabout ∧
      ∀ far, ¬ Shows arms far .stop ∧ ¬ Shows arms far .giveWay

section Laws

variable {junctionKind : Option ControlKind} {junctionTags : Tags} {arms : Arms}
  {streets : Streets}

/-- A kind is on some arm afterwards when it was before. -/
theorem exists_shows_harmonize {kind : ControlKind} :
    (∃ far, Shows (harmonizeOppositeArms arms streets) far kind) ↔ ∃ far, Shows arms far kind := by
  simp only [shows_harmonizeOppositeArms]
  constructor
  · rintro ⟨-, -, a, -, h⟩
    exact ⟨a, h⟩
  · rintro ⟨far, h⟩
    exact ⟨far, h.mem_keys, far, Or.inl rfl, h⟩

theorem signalSeen_harmonize :
    SignalSeen junctionKind (harmonizeOppositeArms arms streets) ↔
      SignalSeen junctionKind arms :=
  or_congr_right exists_shows_harmonize

/-- The arms of one street show the same afterwards. -/
theorem shows_harmonize_congr {a b : ℤ} (ha : a ∈ arms.keys) (hb : b ∈ arms.keys)
    (hsame : SameStreet streets a b) {kind : ControlKind} :
    Shows (harmonizeOppositeArms arms streets) a kind ↔
      Shows (harmonizeOppositeArms arms streets) b kind := by
  have hstep : ∀ {a b : ℤ}, b ∈ arms.keys → SameStreet streets a b →
      Shows (harmonizeOppositeArms arms streets) a kind →
        Shows (harmonizeOppositeArms arms streets) b kind := by
    intro a b hb hsame h
    rw [shows_harmonizeOppositeArms] at h ⊢
    obtain ⟨-, c, hc, hshows⟩ := h
    refine ⟨hb, c, Or.inr ?_, hshows⟩
    rcases hc with rfl | hc
    · exact hsame.symm
    · exact hsame.symm.trans hc
  exact ⟨hstep hb hsame, hstep ha hsame.symm⟩

/-- The arms of one street are given the same by every rule. -/
theorem Rule.congr {give : ℤ → Option ApproachControl}
    (h : Rule junctionKind junctionTags arms give)
    {a b : ℤ} (hab : ∀ kind, Shows arms a kind ↔ Shows arms b kind) : give a = give b := by
  have hshow : ∀ kind, decide (a ∈ armsShowing arms kind) = decide (b ∈ armsShowing arms kind) :=
    fun kind => decide_eq_decide.mpr (by rw [mem_armsShowing, mem_armsShowing, hab])
  cases h with
  | signal | roundabout | nothing | allWay => rfl
  | someStop => simp only [hshow]
  | someYield => simp only [hshow]

/-- A rule resolves each arm unless there is nothing to go by. -/
theorem Rule.eq_none_iff {give : ℤ → Option ApproachControl}
    (h : Rule junctionKind junctionTags arms give) (far : ℤ) :
    give far = none ↔ ¬ SignalSeen junctionKind arms ∧ junctionKind ≠ some .miniRoundabout ∧
      ∀ far, ¬ Shows arms far .stop ∧ ¬ Shows arms far .giveWay := by
  cases h with
  | signal h => simp [h]
  | roundabout _ h => simp [h]
  | nothing hno hmini hstop hyield =>
    simp only [true_iff]
    exact ⟨hno, hmini, fun far => ⟨fun h => hstop ⟨far, h⟩, fun h => hyield ⟨far, h⟩⟩⟩
  | allWay _ _ hstop | someStop _ _ hstop =>
    obtain ⟨b, hb⟩ := hstop
    simp only [reduceCtorEq, false_iff]
    exact fun h => (h.2.2 b).1 hb
  | someYield _ _ _ hyield =>
    obtain ⟨b, hb⟩ := hyield
    simp only [reduceCtorEq, false_iff]
    exact fun h => (h.2.2 b).2 hb

/-- Who must stop under a rule. -/
theorem Rule.mustStop {give : ℤ → Option ApproachControl}
    (h : Rule junctionKind junctionTags arms give) {far : ℤ} (hfar : far ∈ arms.keys)
    {a : ApproachControl} (ha : give far = some a) (hmust : a.mustStop = true) :
    Shows arms far .stop ∨ Shows arms far .giveWay ∨
      taggedAllWay junctionTags = true ∧ ∃ b, Shows arms b .stop := by
  cases h with
  | signal | roundabout =>
    rw [Option.some.injEq] at ha
    rw [← ha] at hmust
    exact absurd hmust Bool.false_ne_true
  | nothing => cases ha
  | allWay _ _ hstop hall =>
    rcases hall with htag | ⟨-, hevery⟩
    · exact Or.inr (Or.inr ⟨htag, hstop⟩)
    · exact Or.inl (hevery far hfar)
  | someStop =>
    rw [Option.some.injEq] at ha
    rw [← ha, decide_eq_true_eq, mem_armsShowing] at hmust
    exact Or.inl hmust
  | someYield =>
    rw [Option.some.injEq] at ha
    rw [← ha, decide_eq_true_eq, mem_armsShowing] at hmust
    exact Or.inr (Or.inl hmust)

/-- No rule gives both stops and yields. -/
theorem Rule.notBoth {give : ℤ → Option ApproachControl}
    (h : Rule junctionKind junctionTags arms give) {far far' : ℤ} {a a' : ApproachControl}
    (ha : give far = some a) (ha' : give far' = some a')
    (hstop : a.control = .stop2way ∨ a.control = .stop4way) : a'.control ≠ .yield := by
  cases h with
  | nothing => cases ha
  | signal | roundabout | allWay | someStop | someYield =>
    rw [Option.some.injEq] at ha ha'
    subst ha ha'
    simp at hstop ⊢

end Laws

/-- **The laws of a resolved junction**, whatever the evidence on its arms and their streets. -/
theorem resolve_consistent (junctionKind : Option ControlKind) (junctionTags : Tags) (arms : Arms)
    (streets : Streets) (hne : arms.keys ≠ []) :
    Consistent junctionKind junctionTags arms streets
      (resolveJunction junctionKind junctionTags (harmonizeOppositeArms arms streets)) := by
  obtain ⟨give, hrule, hgive⟩ :=
    exists_rule junctionKind junctionTags (harmonizeOppositeArms arms streets)
  have hkeys := keys_resolveJunction junctionKind junctionTags (harmonizeOppositeArms arms streets)
  rw [keys_harmonizeOppositeArms] at hgive hkeys
  set resolved := resolveJunction junctionKind junctionTags (harmonizeOppositeArms arms streets)
    with hresolved
  -- only arms are resolved
  have hmem : ∀ {far a}, resolved.get far = some a → far ∈ arms.keys ∧ give far = some a := by
    intro far a ha
    have hfar : far ∈ arms.keys := by
      rcases hkeys with hkeys | hempty
      · rw [← hkeys]
        exact resolved.mem_keys_of_get ha
      · rw [hempty] at ha
        cases ha
    exact ⟨hfar, (hgive far hfar).symm.trans ha⟩
  refine ⟨?_, ?_, ?_, ?_, ?_, ?_⟩
  · intro a ha b hb hsame
    rw [hgive a ha, hgive b hb]
    exact hrule.congr fun kind => shows_harmonize_congr ha hb hsame
  · intro hsignal far hfar
    rw [hgive far hfar]
    replace hsignal : SignalSeen junctionKind (harmonizeOppositeArms arms streets) :=
      signalSeen_harmonize.mpr hsignal
    cases hrule with
    | signal => rfl
    | roundabout hno | nothing hno | allWay hno | someStop hno | someYield hno =>
      exact absurd hsignal hno
  · intro far a ha hmust
    obtain ⟨hfar, ha⟩ := hmem ha
    have hseen := hrule.mustStop (by rwa [keys_harmonizeOppositeArms]) ha hmust
    rw [shows_harmonizeOppositeArms, shows_harmonizeOppositeArms, exists_shows_harmonize] at hseen
    rcases hseen with ⟨-, b, hb, hstop⟩ | ⟨-, b, hb, hyield⟩ | htag
    · exact Or.inl ⟨b, hb, Or.inl hstop⟩
    · exact Or.inl ⟨b, hb, Or.inr hyield⟩
    · exact Or.inr htag
  · intro far a far' a' ha ha' hstop
    exact hrule.notBoth (hmem ha).2 (hmem ha').2 hstop
  · rcases hkeys with hkeys | hempty
    · refine Or.inl fun far hfar => ?_
      rw [resolved.isSome_get_iff, hkeys]
      exact hfar
    · exact Or.inr hempty
  · obtain ⟨far, hfar⟩ := List.exists_mem_of_ne_nil _ hne
    have hnone : resolved = Assoc.empty ↔ give far = none := by
      rw [← hgive far hfar]
      constructor
      · intro hempty
        rw [hempty, Assoc.get_empty]
      · intro hget
        refine hkeys.resolve_left fun hkeys => ?_
        rw [← hkeys, ← resolved.isSome_get_iff, hget] at hfar
        cases hfar
    rw [hnone, hrule.eq_none_iff far, signalSeen_harmonize, forall_and, forall_and, ← not_exists,
      ← not_exists, ← not_exists, ← not_exists, exists_shows_harmonize, exists_shows_harmonize]

/-- A crossing of Main Street (arms `1`, `2`) and Cross Street (arms `3`, `4`) with one stop sign,
on arm `1`. -/
def crossArms : Arms := ⟨[(1, {.stop}), (2, ∅), (3, ∅), (4, ∅)], by decide⟩

/-- The streets of the crossing. -/
def crossStreets : Streets :=
  ⟨[(1, some "Main Street"), (2, some "Main Street"), (3, some "Cross Street"),
    (4, some "Cross Street")], by decide⟩

theorem resolve_consistent_cross : crossArms.keys ≠ [] ∧
    Consistent none (fun _ => none) crossArms crossStreets
      (resolveJunction none (fun _ => none) (harmonizeOppositeArms crossArms crossStreets)) :=
  ⟨by decide, resolve_consistent none (fun _ => none) crossArms crossStreets (by decide)⟩

/-- The sign stops both arms of its street. -/
example : (resolveJunction none (fun _ => none)
    (harmonizeOppositeArms crossArms crossStreets)).entries.map (fun e => e.2.mustStop) =
      [true, true, false, false] := by
  decide

end RoutePlanner.Ingestion
