import Mathlib.Data.List.Sort

/-!
# Stable sorts agree

Two stable sorts by one total preorder return the same list, also where the order leaves elements
equivalent. `List.mergeSort` is the one a program runs; `List.insertionSort` is structurally
recursive, so that a closed term evaluates.

* `mergeSort_eq_insertionSort`.
-/

namespace RoutePlanner.Lib

variable {α : Type*} {le : α → α → Bool}

/-- An element goes behind what it is not at most, and before what it is. -/
theorem orderedInsert_append {a : α} {l₁ l₂ : List α} (h₁ : ∀ b ∈ l₁, le a b = false)
    (h₂ : ∀ b ∈ l₂, le a b = true) :
    (l₁ ++ l₂).orderedInsert (fun a b => le a b = true) a = l₁ ++ a :: l₂ := by
  induction l₁ with
  | nil =>
    cases l₂ with
    | nil => rfl
    | cons c l₂ => exact if_pos (h₂ c List.mem_cons_self)
  | cons b l₁ ih =>
    have hb : ¬ le a b = true := by simp [h₁ b List.mem_cons_self]
    rw [List.cons_append, List.orderedInsert, if_neg hb,
      ih fun c hc => h₁ c (List.mem_cons_of_mem b hc)]
    rfl

/-- **Merge sort and insertion sort agree.** -/
theorem mergeSort_eq_insertionSort (htrans : ∀ a b c, le a b = true → le b c = true → le a c = true)
    (htotal : ∀ a b, (le a b || le b a) = true) (l : List α) :
    l.mergeSort le = l.insertionSort fun a b => le a b = true := by
  induction l with
  | nil => rw [List.mergeSort_nil, List.insertionSort_nil]
  | cons a l ih =>
    obtain ⟨l₁, l₂, hcons, htail, hbefore⟩ := List.mergeSort_cons htrans htotal a l
    have hsorted := List.pairwise_mergeSort htrans htotal (a :: l)
    rw [hcons, List.pairwise_append, List.pairwise_cons] at hsorted
    rw [List.insertionSort_cons, ← ih, htail, hcons]
    exact (orderedInsert_append (fun b hb => by simpa using hbefore b hb) hsorted.2.1.1).symm

end RoutePlanner.Lib
