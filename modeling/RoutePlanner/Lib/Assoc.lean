import Mathlib.Data.List.Nodup

/-!
# Dictionaries in insertion order

`Assoc κ β` is a list of entries with distinct keys. A new key goes to the end, a key that is there
keeps its place.

* `get_put`, `get_map`: what a lookup finds.
* `mem_keys_put`, `keys_map`: which keys there are.
* `get_foldl_put`: one value put under each of some keys.
-/

namespace RoutePlanner.Lib

variable {κ β γ : Type*} [DecidableEq κ]

/-- The value of the first entry with key `k`. -/
def lookup (k : κ) : List (κ × β) → Option β
  | [] => none
  | e :: l => if e.1 = k then some e.2 else lookup k l

/-- The entries with `v` under `k`. -/
def store (k : κ) (v : β) : List (κ × β) → List (κ × β)
  | [] => [(k, v)]
  | e :: l => if e.1 = k then (k, v) :: l else e :: store k v l

theorem lookup_store (k k' : κ) (v : β) (l : List (κ × β)) :
    lookup k' (store k v l) = if k = k' then some v else lookup k' l := by
  induction l with
  | nil => rfl
  | cons e l ih =>
    unfold store
    by_cases he : e.1 = k
    · rw [if_pos he]
      by_cases hk : k = k'
      · simp [lookup, hk]
      · simp [lookup, he, hk]
    · rw [if_neg he]
      by_cases hk : e.1 = k'
      · have hne : k ≠ k' := fun h => he (hk.trans h.symm)
        simp [lookup, hk, hne]
      · simp only [lookup, if_neg hk, ih]

theorem lookup_eq_none {k : κ} {l : List (κ × β)} (h : k ∉ l.map Prod.fst) :
    lookup k l = none := by
  induction l with
  | nil => rfl
  | cons e l ih =>
    rw [List.map_cons, List.mem_cons, not_or] at h
    rw [lookup, if_neg fun he => h.1 he.symm, ih h.2]

/-- A new key goes to the end. -/
theorem store_of_not_mem {k : κ} {v : β} {l : List (κ × β)} (h : k ∉ l.map Prod.fst) :
    store k v l = l ++ [(k, v)] := by
  induction l with
  | nil => rfl
  | cons e l ih =>
    rw [List.map_cons, List.mem_cons, not_or] at h
    rw [store, if_neg fun he => h.1 he.symm, ih h.2, List.cons_append]

theorem mem_keys_store {k k' : κ} {v : β} {l : List (κ × β)} :
    k' ∈ (store k v l).map Prod.fst ↔ k' = k ∨ k' ∈ l.map Prod.fst := by
  induction l with
  | nil => simp [store]
  | cons e l ih =>
    unfold store
    by_cases he : e.1 = k
    · simp [he]
    · rw [if_neg he, List.map_cons, List.mem_cons, ih, List.map_cons, List.mem_cons]
      exact or_left_comm

theorem nodup_store {k : κ} {v : β} {l : List (κ × β)} (h : (l.map Prod.fst).Nodup) :
    ((store k v l).map Prod.fst).Nodup := by
  induction l with
  | nil => simp [store]
  | cons e l ih =>
    rw [List.map_cons, List.nodup_cons] at h
    unfold store
    by_cases he : e.1 = k
    · rw [if_pos he, List.map_cons, List.nodup_cons, ← he]
      exact h
    · rw [if_neg he, List.map_cons, List.nodup_cons, mem_keys_store, not_or]
      exact ⟨⟨he, h.1⟩, ih h.2⟩

/-- A dictionary. -/
structure Assoc (κ β : Type*) where
  entries : List (κ × β)
  nodup : (entries.map Prod.fst).Nodup
  deriving DecidableEq

namespace Assoc

variable (d : Assoc κ β)

omit [DecidableEq κ] in
@[ext] theorem ext {d d' : Assoc κ β} (h : d.entries = d'.entries) : d = d' := by
  cases d
  cases d'
  cases h
  rfl

/-- `{}`. -/
def empty : Assoc κ β := ⟨[], List.nodup_nil⟩

/-- `d.get(k)`. -/
def get (k : κ) : Option β := lookup k d.entries

/-- `d[k] = v`. -/
def put (k : κ) (v : β) : Assoc κ β := ⟨store k v d.entries, nodup_store d.nodup⟩

/-- `d.setdefault(k, v)`. -/
def setDefault (k : κ) (v : β) : Assoc κ β := if (d.get k).isSome then d else d.put k v

def keys : List κ := d.entries.map Prod.fst

/-- `{k: f(k, v) for k, v in d.items()}`. -/
def map (f : κ → β → γ) : Assoc κ γ :=
  ⟨d.entries.map fun e => (e.1, f e.1 e.2), by
    rw [List.map_map]
    exact d.nodup⟩

@[simp] theorem get_empty (k : κ) : (empty : Assoc κ β).get k = none := rfl

theorem get_put (k k' : κ) (v : β) : (d.put k v).get k' = if k = k' then some v else d.get k' :=
  lookup_store k k' v d.entries

@[simp] theorem get_put_self (k : κ) (v : β) : (d.put k v).get k = some v := by
  rw [get_put, if_pos rfl]

theorem get_put_of_ne {k k' : κ} (h : k ≠ k') (v : β) : (d.put k v).get k' = d.get k' := by
  rw [get_put, if_neg h]

theorem get_setDefault (k k' : κ) (v : β) :
    (d.setDefault k v).get k' = if k = k' then some ((d.get k).getD v) else d.get k' := by
  unfold setDefault
  by_cases hk : k = k'
  · subst hk
    cases hget : d.get k <;> simp [hget]
  · cases hget : d.get k
    · simp [hk, get_put]
    · simp [hk]

theorem mem_keys_put {k k' : κ} {v : β} : k' ∈ (d.put k v).keys ↔ k' = k ∨ k' ∈ d.keys :=
  mem_keys_store

/-- A key that is there keeps its place. -/
theorem keys_put_of_mem {k : κ} (h : k ∈ d.keys) (v : β) : (d.put k v).keys = d.keys := by
  obtain ⟨entries, hnd⟩ := d
  unfold keys put at *
  simp only at h ⊢
  clear hnd
  induction entries with
  | nil => exact absurd h List.not_mem_nil
  | cons e l ih =>
    unfold store
    by_cases he : e.1 = k
    · simp [he]
    · rw [List.map_cons, List.mem_cons] at h
      rw [if_neg he, List.map_cons, List.map_cons, ih (h.resolve_left fun hk => he hk.symm)]

omit [DecidableEq κ] in
@[simp] theorem keys_map (f : κ → β → γ) : (d.map f).keys = d.keys := by
  unfold keys map
  simp only [List.map_map, Function.comp_def]

theorem get_map (f : κ → β → γ) (k : κ) : (d.map f).get k = (d.get k).map (f k) := by
  unfold get map
  simp only
  induction d.entries with
  | nil => rfl
  | cons e l ih =>
    by_cases he : e.1 = k
    · simp [lookup, he]
    · simp only [List.map_cons, lookup, if_neg he, ih]

/-- A lookup succeeds for the keys. -/
theorem isSome_get_iff {k : κ} : (d.get k).isSome ↔ k ∈ d.keys := by
  unfold get keys
  induction d.entries with
  | nil => simp [lookup]
  | cons e l ih =>
    by_cases he : e.1 = k
    · simp [lookup, he]
    · rw [List.map_cons, List.mem_cons, ← ih]
      have hne : ¬ k = e.1 := fun h => he h.symm
      simp [lookup, he, hne]

theorem exists_get_of_mem {k : κ} (h : k ∈ d.keys) : ∃ v, d.get k = some v :=
  Option.isSome_iff_exists.mp (d.isSome_get_iff.mpr h)

theorem mem_keys_of_get {k : κ} {v : β} (h : d.get k = some v) : k ∈ d.keys :=
  d.isSome_get_iff.mp (by rw [h]; rfl)

/-- The entries are what lookups find. -/
theorem mem_entries_iff {k : κ} {v : β} : (k, v) ∈ d.entries ↔ d.get k = some v := by
  obtain ⟨entries, hnd⟩ := d
  unfold get
  induction entries with
  | nil => simp [lookup]
  | cons e l ih =>
    rw [List.map_cons, List.nodup_cons] at hnd
    have ih := ih hnd.2
    simp only at ih ⊢
    rw [List.mem_cons, ih]
    by_cases he : e.1 = k
    · have hnone : lookup k l ≠ some v := by
        intro hfound
        rw [← ih] at hfound
        exact hnd.1 (he ▸ List.mem_map_of_mem hfound)
      rw [or_iff_left hnone, lookup, if_pos he, Option.some.injEq]
      constructor
      · intro h
        rw [← h]
      · intro h
        rw [← h, ← he]
    · have hne : (k, v) ≠ e := fun h => he (by rw [← h])
      rw [or_iff_right hne, lookup, if_neg he]

/-- A dictionary copied into another, under new keys. -/
theorem get_foldl_put_entries {κ' : Type*} [DecidableEq κ'] {f : κ → κ'}
    (hf : Function.Injective f) (d' : Assoc κ' β) (k : κ) :
    (d.entries.foldl (fun out e => out.put (f e.1) e.2) d').get (f k) =
      (d.get k).or (d'.get (f k)) := by
  obtain ⟨entries, hnd⟩ := d
  unfold get
  simp only
  induction entries generalizing d' with
  | nil => rfl
  | cons e l ih =>
    rw [List.map_cons, List.nodup_cons] at hnd
    have hrest := ih (d'.put (f e.1) e.2) hnd.2
    have hput := d'.get_put (f e.1) (f k) e.2
    unfold get at hput
    rw [List.foldl_cons, hrest, hput]
    by_cases he : e.1 = k
    · have hnone : lookup k l = none := by
        rw [← he]
        exact lookup_eq_none hnd.1
      simp [lookup, he, hnone]
    · rw [if_neg (hf.ne he), lookup, if_neg he]

omit [DecidableEq κ] in
theorem get_foldl_put_entries_of_ne {κ' : Type*} [DecidableEq κ'] {f : κ → κ'} {k : κ'}
    (hf : ∀ a, f a ≠ k) (d' : Assoc κ' β) :
    (d.entries.foldl (fun out e => out.put (f e.1) e.2) d').get k = d'.get k := by
  induction d.entries generalizing d' with
  | nil => rfl
  | cons e l ih => rw [List.foldl_cons, ih, get_put_of_ne _ (hf e.1)]

/-- One value under each of some keys. -/
theorem get_foldl_put (ks : List κ) (v : β) (k : κ) :
    (ks.foldl (fun d k => d.put k v) d).get k = if k ∈ ks then some v else d.get k := by
  induction ks generalizing d with
  | nil => rfl
  | cons k' ks ih =>
    rw [List.foldl_cons, ih, get_put]
    by_cases hk : k ∈ ks
    · simp [hk]
    · by_cases hkk : k' = k
      · simp [hkk]
      · have hne : ¬ k = k' := fun h => hkk h.symm
        simp [hk, hkk, hne]

end Assoc

end RoutePlanner.Lib
