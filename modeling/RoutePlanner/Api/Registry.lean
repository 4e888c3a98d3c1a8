import Mathlib.Data.List.Dedup
import Mathlib.Data.List.Pairwise
import Mathlib.Data.List.Sort

/-!
# `api/registry.py`: which pack a request belongs to

A deployment serves packs, each with a name and a box, and a request goes to the pack whose box
holds both of its points. The lookup takes the first match; `validate_coverage` is what makes it a
function of the points. Coordinates are only compared, by a `≤` that is transitive and need not be
total: a box with a NaN holds no point.

* `validateCoverage_ok_iff`: what the startup check accepts.
* `disjoint_of_valid`: no point lies in two of the packs it accepts.
* `packFor_spec`: `pack_for` answers what `Selected` says, a statement about the set of the packs.
-/

namespace RoutePlanner.Api

/-- A point, `(lat, lon)`. -/
structure Point (K : Type) where
  lat : K
  lon : K

/-- A checked box, `[west, south, east, north]`. -/
structure BBox (K : Type) where
  west : K
  south : K
  east : K
  north : K
  deriving DecidableEq

/-- A served pack: its name, and its manifest's `bbox` as it stands there. -/
structure Pack (K : Type) where
  name : String
  bbox : Option (List K)
  deriving DecidableEq

/-- What `pack_for` answers: a name, or a `PackSelectionError`. -/
inductive Selection where
  | pack (name : String)
  | originOutside
  | destinationOutside
  | differentPacks (originPack destinationPack : String)
  deriving DecidableEq

/-- `detail` of a `PackSelectionError`. -/
def Selection.detail : Selection → Option String
  | .pack _ => none
  | .originOutside => some "origin is outside every served region"
  | .destinationOutside => some "destination is outside every served region"
  | .differentPacks originPack destinationPack =>
    some ("origin and destination are in different regions (" ++ originPack ++ ", " ++
      destinationPack ++ "); routing across regions is not supported")

/-- `PackConfigError`, with what its message names. -/
inductive PackConfigError (K : Type) where
  | servedMoreThanOnce (names : List String)
  | noBBox (name : String)
  | malformed (name : String) (bbox : List K)
  | inverted (name : String) (bbox : List K)
  | overlap (a : String) (aBox : BBox K) (b : String) (bBox : BBox K)

/-- The `ValueError` of unpacking a box that has not four numbers. -/
structure UnpackError where
  got : ℕ

variable {K : Type}

section

variable [LE K] [DecidableLE K]

/-! ## The lookup -/

/-- `bbox_contains`. -/
def bboxContains (bbox : Option (List K)) (point : Point K) : Except UnpackError Bool :=
  match bbox with
  | none => .ok true
  | some [west, south, east, north] =>
    .ok (decide (south ≤ point.lat ∧ point.lat ≤ north ∧ west ≤ point.lon ∧ point.lon ≤ east))
  | some bbox => .error ⟨bbox.length⟩

/-- `_owner`. -/
def owner (packs : List (Pack K)) (point : Point K) : Except UnpackError (Option String) :=
  match packs with
  | [] => .ok none
  | pack :: packs => do
    if ← bboxContains pack.bbox point then
      return some pack.name
    owner packs point

/-- `pack_for`. -/
def packFor (packs : List (Pack K)) (origin destination : Point K) :
    Except UnpackError Selection := do
  match ← owner packs origin with
  | none => return .originOutside
  | some o =>
    match ← owner packs destination with
    | none => return .destinationOutside
    | some d => if o ≠ d then return .differentPacks o d else return .pack o

/-! ## The startup check -/

/-- `_intersects`. -/
def Intersects (a b : BBox K) : Prop :=
  a.west ≤ b.east ∧ b.west ≤ a.east ∧ a.south ≤ b.north ∧ b.south ≤ a.north

instance decIntersects (a b : BBox K) : Decidable (Intersects a b) :=
  inferInstanceAs (Decidable (_ ∧ _))

/-- The loop of `validate_coverage` over the pairs of boxes. -/
def checkDisjoint (boxes : List (String × BBox K)) : Except (PackConfigError K) Unit :=
  match boxes with
  | [] => .ok ()
  | (na, a) :: boxes =>
    match boxes.find? fun b => Intersects a b.2 with
    | some (nb, b) => .error (.overlap na a nb b)
    | none => checkDisjoint boxes

end

section

variable [LT K] [DecidableLT K]

/-- `_check_bbox`. -/
def checkBBox (name : String) (bbox : List K) : Except (PackConfigError K) (BBox K) :=
  match bbox with
  | [west, south, east, north] =>
    if east < west ∨ north < south then .error (.inverted name bbox)
    else .ok { west, south, east, north }
  | _ => .error (.malformed name bbox)

/-- The boxes of the packs that have one, checked. -/
def checkedBoxes (packs : List (Pack K)) :
    Except (PackConfigError K) (List (String × BBox K)) :=
  match packs with
  | [] => .ok []
  | pack :: packs =>
    match pack.bbox with
    | none => checkedBoxes packs
    | some bbox => do
      let box ← checkBBox pack.name bbox
      let boxes ← checkedBoxes packs
      return (pack.name, box) :: boxes

end

/-- The names that are served more than once, sorted. -/
def dupes (packs : List (Pack K)) : List String :=
  let names := packs.map Pack.name
  (names.filter fun n => 1 < names.count n).dedup.mergeSort

/-- `validate_coverage`. -/
def validateCoverage [LE K] [DecidableLE K] [LT K] [DecidableLT K]
    (packs : List (Pack K)) : Except (PackConfigError K) Unit :=
  if dupes packs ≠ [] then .error (.servedMoreThanOnce (dupes packs))
  else
    match if 1 < packs.length then packs.find? fun p => p.bbox = none else none with
    | some p => .error (.noBBox p.name)
    | none => do
      let boxes ← checkedBoxes packs
      checkDisjoint boxes

/-! ## What the check accepts -/

namespace Pack

/-- The name and the checked box, if there is one. -/
def checked (pack : Pack K) : Option (String × BBox K) :=
  match pack.bbox with
  | some [west, south, east, north] => some (pack.name, { west, south, east, north })
  | _ => none

/-- `_check_bbox` accepts the box, if there is one. -/
def WellFormed [LT K] [DecidableLT K] (pack : Pack K) : Prop :=
  ∀ bbox ∈ pack.bbox, ∃ box, checkBBox pack.name bbox = .ok box

/-- The box holds the point. -/
def Covers [LE K] [DecidableLE K] (pack : Pack K) (point : Point K) : Prop :=
  bboxContains pack.bbox point = .ok true

end Pack

theorem dupes_eq_nil_iff (packs : List (Pack K)) :
    dupes packs = [] ↔ (packs.map Pack.name).Nodup := by
  rw [dupes, ← List.length_eq_zero_iff, List.length_mergeSort, List.length_eq_zero_iff,
    List.eq_nil_iff_forall_not_mem, List.nodup_iff_count_le_one]
  simp only [List.mem_dedup, List.mem_filter, decide_eq_true_eq, not_and, Nat.not_lt]
  constructor
  · intro h n
    by_cases hn : n ∈ packs.map Pack.name
    · exact h n hn
    · rw [List.count_eq_zero_of_not_mem hn]
      exact Nat.zero_le 1
  · intro h n _
    exact h n

section

variable [LE K] [DecidableLE K]

theorem checkDisjoint_ok_iff (boxes : List (String × BBox K)) :
    checkDisjoint boxes = .ok () ↔ boxes.Pairwise fun a b => ¬Intersects a.2 b.2 := by
  induction boxes with
  | nil => simp [checkDisjoint]
  | cons a boxes ih =>
    rw [checkDisjoint, List.pairwise_cons, ← ih]
    cases h : boxes.find? fun b => Intersects a.2 b.2 with
    | none =>
      have hnone : ∀ b ∈ boxes, ¬Intersects a.2 b.2 := by simpa using h
      exact ⟨fun hrest => ⟨hnone, hrest⟩, fun h => h.2⟩
    | some b =>
      have hb : Intersects a.2 b.2 := by simpa using List.find?_some h
      exact ⟨fun hok => (by cases hok),
        fun hrest => absurd hb (hrest.1 b (List.mem_of_find?_eq_some h))⟩

end

section

variable [LT K] [DecidableLT K]

theorem checkBBox_ok {name : String} {bbox : List K} {box : BBox K}
    (h : checkBBox name bbox = .ok box) : bbox = [box.west, box.south, box.east, box.north] := by
  unfold checkBBox at h
  split at h
  · split at h
    · cases h
    · cases h
      rfl
  · cases h

theorem checkedBoxes_ok_iff (packs : List (Pack K)) (boxes : List (String × BBox K)) :
    checkedBoxes packs = .ok boxes ↔
      (∀ pack ∈ packs, pack.WellFormed) ∧ boxes = packs.filterMap Pack.checked := by
  induction packs generalizing boxes with
  | nil => simp [checkedBoxes, eq_comm]
  | cons pack packs ih =>
    rw [checkedBoxes, List.forall_mem_cons, List.filterMap_cons]
    cases hbbox : pack.bbox with
    | none => simp [ih, Pack.WellFormed, Pack.checked, hbbox]
    | some bbox =>
      cases hbox : checkBBox pack.name bbox with
      | error e => simp [Pack.WellFormed, hbbox, hbox, bind, Except.bind]
      | ok box =>
        have hchecked : pack.checked = some (pack.name, box) := by
          rw [Pack.checked, hbbox, checkBBox_ok hbox]
        cases hrest : checkedBoxes packs with
        | error e =>
          have hno : ¬∀ pack ∈ packs, pack.WellFormed := fun hall => by
            have := (ih (packs.filterMap Pack.checked)).mpr ⟨hall, rfl⟩
            rw [hrest] at this
            cases this
          simp [hno, hbox, bind, Except.bind]
        | ok rest =>
          obtain ⟨hall, rfl⟩ := (ih rest).mp hrest
          have hpack : pack.WellFormed := fun b hb => by
            obtain rfl : bbox = b := Option.some.inj (hbbox.symm.trans hb)
            exact ⟨box, hbox⟩
          simp only [bind, Except.bind, hbox, pure, Except.pure, hchecked, hpack, true_and,
            Except.ok.injEq]
          exact ⟨fun h => ⟨hall, h.symm⟩, fun h => h.2.symm⟩

theorem Pack.WellFormed.checked {pack : Pack K} (h : pack.WellFormed) (hbbox : pack.bbox ≠ none) :
    ∃ named, pack.checked = some named := by
  obtain ⟨bbox, hsome⟩ := Option.ne_none_iff_exists'.mp hbbox
  obtain ⟨box, hbox⟩ := h bbox hsome
  exact ⟨(pack.name, box), by rw [Pack.checked, hsome, checkBBox_ok hbox]⟩

end

/-! ## The selection -/

section

variable [LE K] [DecidableLE K]

theorem Pack.covers_of_checked {pack : Pack K} {name : String} {box : BBox K}
    (h : pack.checked = some (name, box)) (point : Point K) :
    pack.Covers point ↔ box.south ≤ point.lat ∧ point.lat ≤ box.north ∧
      box.west ≤ point.lon ∧ point.lon ≤ box.east := by
  unfold Pack.checked at h
  split at h
  · next hbbox =>
    cases h
    simp [Pack.Covers, bboxContains, hbbox]
  · cases h

/-- What the lookup needs of the packs, whatever their order. -/
structure Valid (packs : List (Pack K)) : Prop where
  names : (packs.map Pack.name).Nodup
  readable : ∀ pack ∈ packs, ∀ point, ∃ b, bboxContains pack.bbox point = .ok b
  disjoint : ∀ a ∈ packs, ∀ b ∈ packs, ∀ point, a.Covers point → b.Covers point → a = b

theorem Valid.perm {packs packs' : List (Pack K)} (h : Valid packs) (hperm : packs'.Perm packs) :
    Valid packs' where
  names := (hperm.map Pack.name).nodup_iff.mpr h.names
  readable pack hpack := h.readable pack (hperm.mem_iff.mp hpack)
  disjoint a ha b hb := h.disjoint a (hperm.mem_iff.mp ha) b (hperm.mem_iff.mp hb)

theorem Valid.name_inj {packs : List (Pack K)} (h : Valid packs) {a b : Pack K} (ha : a ∈ packs)
    (hb : b ∈ packs) (hname : a.name = b.name) : a = b :=
  List.inj_on_of_nodup_map h.names ha hb hname

/-- What an answer says of the packs. -/
def Selected (packs : List (Pack K)) (origin destination : Point K) : Selection → Prop
  | .pack name => ∃ pack ∈ packs, pack.name = name ∧ pack.Covers origin ∧ pack.Covers destination
  | .originOutside => ∀ pack ∈ packs, ¬pack.Covers origin
  | .destinationOutside =>
    (∃ pack ∈ packs, pack.Covers origin) ∧ ∀ pack ∈ packs, ¬pack.Covers destination
  | .differentPacks o d => ∃ a ∈ packs, ∃ b ∈ packs,
    a ≠ b ∧ a.name = o ∧ b.name = d ∧ a.Covers origin ∧ b.Covers destination

theorem Selected.perm {packs packs' : List (Pack K)} (hperm : packs'.Perm packs)
    {origin destination : Point K} {s : Selection} (h : Selected packs' origin destination s) :
    Selected packs origin destination s := by
  cases s <;> simpa only [Selected, hperm.mem_iff] using h

/-- `_owner` finds a pack that covers the point, if there is one. -/
theorem owner_cases {packs : List (Pack K)} {point : Point K}
    (h : ∀ pack ∈ packs, ∃ b, bboxContains pack.bbox point = .ok b) :
    (owner packs point = .ok none ∧ ∀ pack ∈ packs, ¬pack.Covers point) ∨
      ∃ pack ∈ packs, pack.Covers point ∧ owner packs point = .ok (some pack.name) := by
  induction packs with
  | nil => exact Or.inl ⟨rfl, fun pack hpack => by cases hpack⟩
  | cons pack packs ih =>
    obtain ⟨b, hb⟩ := h pack List.mem_cons_self
    cases b with
    | true =>
      refine Or.inr ⟨pack, List.mem_cons_self, hb, ?_⟩
      rw [owner, hb]
      rfl
    | false =>
      have howner : owner (pack :: packs) point = owner packs point := by
        rw [owner, hb]
        rfl
      have hnot : ¬pack.Covers point := by
        rw [Pack.Covers, hb]
        simp
      rw [howner]
      rcases ih fun p hp => h p (List.mem_cons_of_mem _ hp) with
        ⟨hnone, hall⟩ | ⟨p, hp, hcov, hsome⟩
      · exact Or.inl ⟨hnone, List.forall_mem_cons.mpr ⟨hnot, hall⟩⟩
      · exact Or.inr ⟨p, List.mem_cons_of_mem _ hp, hcov, hsome⟩

/-- **`pack_for`** answers what is so. -/
theorem packFor_spec {packs : List (Pack K)} (h : Valid packs) (origin destination : Point K) :
    ∃ answer, packFor packs origin destination = .ok answer ∧
      Selected packs origin destination answer := by
  rcases owner_cases fun p hp => h.readable p hp origin with ⟨ho, hno⟩ | ⟨a, ha, hao, ho⟩
  · refine ⟨.originOutside, ?_, hno⟩
    rw [packFor, ho]
    rfl
  · rcases owner_cases fun p hp => h.readable p hp destination with ⟨hd, hnd⟩ | ⟨b, hb, hbd, hd⟩
    · refine ⟨.destinationOutside, ?_, ⟨a, ha, hao⟩, hnd⟩
      rw [packFor, ho]
      simp only [bind, Except.bind, hd]
      rfl
    · by_cases hname : a.name = b.name
      · obtain rfl := h.name_inj ha hb hname
        refine ⟨.pack a.name, ?_, a, ha, rfl, hao, hbd⟩
        rw [packFor, ho]
        simp only [bind, Except.bind, hd, ne_eq, not_true_eq_false, if_false]
        rfl
      · refine ⟨.differentPacks a.name b.name, ?_, a, ha, b, hb, fun hab => hname (by rw [hab]),
          rfl, rfl, hao, hbd⟩
        rw [packFor, ho]
        simp only [bind, Except.bind, hd, ne_eq, hname, not_false_eq_true, if_true]
        rfl

/-- At most one answer is so: a point does not lie in two packs. -/
theorem Selected.unique {packs : List (Pack K)} (h : Valid packs) {origin destination : Point K}
    {s s' : Selection} (hs : Selected packs origin destination s)
    (hs' : Selected packs origin destination s') : s = s' := by
  cases s <;> cases s' <;> simp only [Selected] at hs hs' <;> grind [Valid.disjoint]

end

/-! ## The check is enough -/

variable [LE K] [DecidableLE K] [LT K] [DecidableLT K]

/-- **What `validate_coverage` accepts.** -/
theorem validateCoverage_ok_iff (packs : List (Pack K)) :
    validateCoverage packs = .ok () ↔
      (packs.map Pack.name).Nodup ∧ (1 < packs.length → ∀ pack ∈ packs, pack.bbox ≠ none) ∧
        (∀ pack ∈ packs, pack.WellFormed) ∧
        (packs.filterMap Pack.checked).Pairwise fun a b => ¬Intersects a.2 b.2 := by
  unfold validateCoverage
  rw [← dupes_eq_nil_iff]
  by_cases hdupes : dupes packs = []
  · rw [if_neg (not_not.mpr hdupes)]
    cases hnull : if 1 < packs.length then packs.find? fun p => p.bbox = none else none with
    | some p =>
      obtain ⟨hlen, hfind⟩ : 1 < packs.length ∧ (packs.find? fun p => p.bbox = none) = some p := by
        by_cases hlen : 1 < packs.length
        · rw [if_pos hlen] at hnull
          exact ⟨hlen, hnull⟩
        · rw [if_neg hlen] at hnull
          cases hnull
      have hp : p.bbox = none := by simpa using List.find?_some hfind
      refine ⟨fun h => (by cases h), fun h => ?_⟩
      exact absurd hp (h.2.1 hlen p (List.mem_of_find?_eq_some hfind))
    | none =>
      have hno : 1 < packs.length → ∀ pack ∈ packs, pack.bbox ≠ none := fun hlen => by
        rw [if_pos hlen] at hnull
        simpa using hnull
      cases hboxes : checkedBoxes packs with
      | error e =>
        refine ⟨fun h => (by cases h), fun h => ?_⟩
        have := (checkedBoxes_ok_iff packs _).mpr ⟨h.2.2.1, rfl⟩
        rw [hboxes] at this
        cases this
      | ok boxes =>
        obtain ⟨hall, rfl⟩ := (checkedBoxes_ok_iff packs boxes).mp hboxes
        have hiff := checkDisjoint_ok_iff (packs.filterMap Pack.checked)
        exact ⟨fun h => ⟨hdupes, hno, hall, hiff.mp h⟩, fun h => hiff.mpr h.2.2.2⟩
  · rw [if_pos hdupes]
    simp [hdupes]

theorem Pack.WellFormed.readable {pack : Pack K} (h : pack.WellFormed) (point : Point K) :
    ∃ b, bboxContains pack.bbox point = .ok b := by
  cases hbbox : pack.bbox with
  | none => exact ⟨true, rfl⟩
  | some bbox =>
    obtain ⟨box, hbox⟩ := h bbox hbbox
    rw [checkBBox_ok hbox]
    exact ⟨_, rfl⟩

/-- **The check is enough.** No point lies in two packs of a list it accepts. -/
theorem valid_of_validateCoverage {packs : List (Pack K)}
    (htrans : ∀ a b c : K, a ≤ b → b ≤ c → a ≤ c) (hvalid : validateCoverage packs = .ok ()) :
    Valid packs := by
  obtain ⟨hnames, hnull, hwell, hpairs⟩ := (validateCoverage_ok_iff packs).mp hvalid
  refine ⟨hnames, fun pack hpack => (hwell pack hpack).readable, fun a ha b hb point hpa hpb => ?_⟩
  by_contra hne
  have hlen : 1 < packs.length := by
    by_contra hlen
    match packs, hlen with
    | [], _ => cases ha
    | [c], _ =>
      rw [List.mem_singleton.mp ha, List.mem_singleton.mp hb] at hne
      exact hne rfl
    | _ :: _ :: _, hlen => simp at hlen
  obtain ⟨⟨na, aBox⟩, hca⟩ := (hwell a ha).checked (hnull hlen a ha)
  obtain ⟨⟨nb, bBox⟩, hcb⟩ := (hwell b hb).checked (hnull hlen b hb)
  obtain ⟨hsa, hna, hwa, hea⟩ := (Pack.covers_of_checked hca point).mp hpa
  obtain ⟨hsb, hnb, hwb, heb⟩ := (Pack.covers_of_checked hcb point).mp hpb
  have hapart : ¬Intersects aBox bBox := by
    have hsymm : Std.Symm fun p q : Pack K => ∀ x, p.checked = some x → ∀ y, q.checked = some y →
        ¬Intersects x.2 y.2 :=
      ⟨fun p q h y hy x hx hyx => h x hx y hy ⟨hyx.2.1, hyx.1, hyx.2.2.2, hyx.2.2.1⟩⟩
    exact (List.pairwise_filterMap.mp hpairs).forall ha hb hne _ hca _ hcb
  exact hapart ⟨htrans _ _ _ hwa heb, htrans _ _ _ hwb hea, htrans _ _ _ hsa hnb,
    htrans _ _ _ hsb hna⟩

end RoutePlanner.Api
