import Mathlib.Data.List.Induction
import Mathlib.Data.List.Nodup

/-!
# A dictionary built from pairs

`dictGet l` is the lookup of the dictionary that inserts the pairs of `l` in order: a later pair
replaces an earlier one with the same key.
-/

namespace RoutePlanner.Lib

variable {α β : Type*} [DecidableEq α]

/-- `dict(l).get(a)`. -/
def dictGet (l : List (α × β)) (a : α) : Option β :=
  l.foldl (fun acc p => if p.1 = a then some p.2 else acc) none

theorem dictGet_nil (a : α) : dictGet ([] : List (α × β)) a = none := rfl

theorem dictGet_concat (l : List (α × β)) (p : α × β) (a : α) :
    dictGet (l ++ [p]) a = if p.1 = a then some p.2 else dictGet l a := by
  simp only [dictGet, List.foldl_append, List.foldl_cons, List.foldl_nil]

/-- A looked-up value was inserted. -/
theorem mem_of_dictGet {l : List (α × β)} {a : α} {b : β} (h : dictGet l a = some b) :
    (a, b) ∈ l := by
  induction l using List.reverseRecOn with
  | nil => exact absurd h (by simp [dictGet_nil])
  | append_singleton l p ih =>
    rw [dictGet_concat] at h
    split at h
    · rename_i hp
      obtain rfl := Option.some.inj h
      rw [← hp]
      exact List.mem_append_right l List.mem_cons_self
    · exact List.mem_append_left _ (ih h)

/-- A key has a value iff some pair inserts it. -/
theorem dictGet_isSome_iff {l : List (α × β)} {a : α} :
    (dictGet l a).isSome ↔ ∃ b, (a, b) ∈ l := by
  constructor
  · intro h
    obtain ⟨b, hb⟩ := Option.isSome_iff_exists.mp h
    exact ⟨b, mem_of_dictGet hb⟩
  · rintro ⟨b, hb⟩
    induction l using List.reverseRecOn with
    | nil => exact absurd hb List.not_mem_nil
    | append_singleton l p ih =>
      rw [dictGet_concat]
      split
      · rfl
      · rename_i hp
        rcases List.mem_append.mp hb with hb | hb
        · exact ih hb
        · exact absurd (congrArg Prod.fst (List.mem_singleton.mp hb)).symm hp

/-- With distinct keys, every inserted value is looked up. -/
theorem dictGet_of_mem {l : List (α × β)} (hl : (l.map Prod.fst).Nodup) {a : α} {b : β}
    (h : (a, b) ∈ l) : dictGet l a = some b := by
  obtain ⟨b', hb'⟩ := Option.isSome_iff_exists.mp (dictGet_isSome_iff.mpr ⟨b, h⟩)
  have hmem := mem_of_dictGet hb'
  have : (a, b') = (a, b) := List.inj_on_of_nodup_map hl hmem h rfl
  rw [hb', (Prod.mk.inj this).2]

end RoutePlanner.Lib
