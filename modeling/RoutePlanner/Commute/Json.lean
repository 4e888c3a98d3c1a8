import RoutePlanner.Commute.Store

/-!
# JSON values

* `Json.ind`: induction over a value, by its items and its fields.
* `Json.Distinct`: no object has a key twice, as no `dict` does.
* `Json.sorted`: the value with the keys of its objects in order, which is all that its canonical
  text keeps.
* `decEqJson`: equality of values, and of the wire models that hold them.
-/

namespace RoutePlanner.Commute

variable {K : Type}

/-! ## Induction -/

section Induction

variable {motive : Json K → Prop} (null : motive .null) (bool : ∀ b, motive (.bool b))
  (int : ∀ n, motive (.int n)) (float : ∀ x, motive (.float x)) (str : ∀ s, motive (.str s))
  (arr : ∀ items, (∀ item ∈ items, motive item) → motive (.arr items))
  (obj : ∀ fields, (∀ p ∈ fields, motive p.2) → motive (.obj fields))

include null bool int float str arr obj in
/-- **Induction over a value.** -/
theorem Json.ind (v : Json K) : motive v :=
  @Json.rec K motive (fun items => ∀ item ∈ items, motive item)
    (fun fields => ∀ p ∈ fields, motive p.2) (fun p => motive p.2)
    null bool int float str arr obj
    (fun _ h => absurd h List.not_mem_nil)
    (fun _ _ hitem hitems => List.forall_mem_cons.mpr ⟨hitem, hitems⟩)
    (fun _ h => absurd h List.not_mem_nil)
    (fun _ _ hp hfields => List.forall_mem_cons.mpr ⟨hp, hfields⟩)
    (fun _ _ hvalue => hvalue) v

end Induction

/-! ## Keys -/

mutual

/-- No object has a key twice. -/
def Json.Distinct : Json K → Prop
  | .arr items => DistinctItems items
  | .obj fields => (fields.map Prod.fst).Nodup ∧ DistinctFields fields
  | _ => True

/-- Nor has one among the items. -/
def DistinctItems : List (Json K) → Prop
  | [] => True
  | item :: items => item.Distinct ∧ DistinctItems items

/-- Nor has one among the values. -/
def DistinctFields : List (String × Json K) → Prop
  | [] => True
  | (_, value) :: fields => value.Distinct ∧ DistinctFields fields

end

theorem distinctItems_iff {items : List (Json K)} :
    DistinctItems items ↔ ∀ item ∈ items, item.Distinct := by
  induction items with
  | nil => simp [DistinctItems]
  | cons item items ih => rw [DistinctItems, ih, List.forall_mem_cons]

theorem distinctFields_iff {fields : List (String × Json K)} :
    DistinctFields fields ↔ ∀ p ∈ fields, p.2.Distinct := by
  induction fields with
  | nil => simp [DistinctFields]
  | cons p fields ih => rw [DistinctFields, ih, List.forall_mem_cons]

mutual

/-- The value with its keys in order. -/
def Json.sorted : Json K → Json K
  | .arr items => .arr (sortedItems items)
  | .obj fields => .obj ((sortedFields fields).insertionSort fun p q => p.1 ≤ q.1)
  | .null => .null
  | .bool b => .bool b
  | .int n => .int n
  | .float x => .float x
  | .str s => .str s

/-- The items, each with its keys in order. -/
def sortedItems : List (Json K) → List (Json K)
  | [] => []
  | item :: items => item.sorted :: sortedItems items

/-- The fields, each value with its keys in order. -/
def sortedFields : List (String × Json K) → List (String × Json K)
  | [] => []
  | (key, value) :: fields => (key, value.sorted) :: sortedFields fields

end

theorem sortedItems_eq (items : List (Json K)) : sortedItems items = items.map Json.sorted := by
  induction items with
  | nil => rfl
  | cons item items ih => rw [sortedItems, ih, List.map_cons]

theorem sortedFields_eq (fields : List (String × Json K)) :
    sortedFields fields = fields.map fun p => (p.1, p.2.sorted) := by
  induction fields with
  | nil => rfl
  | cons p fields ih => rw [sortedFields, ih, List.map_cons]

/-! ## Equality -/

section Equality

variable [DecidableEq K]

mutual

/-- Equality of JSON values. -/
def Json.same : Json K → Json K → Bool
  | .null, .null => true
  | .bool a, .bool b => a == b
  | .int a, .int b => a == b
  | .float a, .float b => decide (a = b)
  | .str a, .str b => a == b
  | .arr a, .arr b => sameItems a b
  | .obj a, .obj b => sameFields a b
  | _, _ => false

/-- Item by item. -/
def sameItems : List (Json K) → List (Json K) → Bool
  | [], [] => true
  | a :: as, b :: bs => a.same b && sameItems as bs
  | _, _ => false

/-- Field by field, in their order. -/
def sameFields : List (String × Json K) → List (String × Json K) → Bool
  | [], [] => true
  | (k, a) :: as, (l, b) :: bs => k == l && a.same b && sameFields as bs
  | _, _ => false

end

mutual

theorem Json.same_iff : (a b : Json K) → (a.same b = true ↔ a = b)
  | .arr as, b => by
    cases b <;> simp [Json.same, sameItems_iff as]
  | .obj as, b => by
    cases b <;> simp [Json.same, sameFields_iff as]
  | .null, b => by cases b <;> simp [Json.same]
  | .bool a, b => by cases b <;> simp [Json.same]
  | .int a, b => by cases b <;> simp [Json.same]
  | .float a, b => by cases b <;> simp [Json.same]
  | .str a, b => by cases b <;> simp [Json.same]

theorem sameItems_iff : (as bs : List (Json K)) → (sameItems as bs = true ↔ as = bs)
  | [], bs => by cases bs <;> simp [sameItems]
  | a :: as, bs => by
    cases bs with
    | nil => simp [sameItems]
    | cons b bs => simp [sameItems, a.same_iff b, sameItems_iff as bs]

theorem sameFields_iff : (as bs : List (String × Json K)) → (sameFields as bs = true ↔ as = bs)
  | [], bs => by cases bs <;> simp [sameFields]
  | (k, a) :: as, bs => by
    cases bs with
    | nil => simp [sameFields]
    | cons b bs =>
      obtain ⟨l, b⟩ := b
      simp [sameFields, a.same_iff b, sameFields_iff as bs]

end

instance decEqJson : DecidableEq (Json K) := fun a b => decidable_of_iff _ (a.same_iff b)

deriving instance DecidableEq for TraceFix, FollowedArtifact, TraceChunk, EtaPrediction, TripEnd

end Equality

end RoutePlanner.Commute
