import Mathlib.Data.Multiset.Basic
import Mathlib.Data.Multiset.AddSub
import Mathlib.Data.Multiset.ZeroCons
import Mathlib.Data.List.Sort

/-!
# Minimum priority queues

What a client may rely on in `heapq` or `std::priority_queue`: the queue holds a multiset of
items, `push` adds one, and `pop` removes some item whose key is minimal. Which of several
items with one key comes out is left open, so a result proved for every `MinQueue` holds
however a heap breaks such ties.

`sortedQueue` is an executable instance: a list kept in key order.
-/

namespace RoutePlanner.Lib

/-- A priority queue of `α` ordered by `key`. -/
structure MinQueue (α : Type) {κ : Type} [LinearOrder κ] (key : α → κ) where
  Heap : Type
  empty : Heap
  push : Heap → α → Heap
  pop : Heap → Option (α × Heap)
  /-- The contents. -/
  items : Heap → Multiset α
  items_empty : items empty = 0
  items_push : ∀ q a, items (push q a) = a ::ₘ items q
  pop_none : ∀ q, pop q = none → items q = 0
  pop_some : ∀ q a q', pop q = some (a, q') → items q = a ::ₘ items q'
  pop_min : ∀ q a q', pop q = some (a, q') → ∀ b ∈ items q, key a ≤ key b

namespace MinQueue

variable {α κ : Type} [LinearOrder κ] {key : α → κ} (Q : MinQueue α key)

theorem mem_push {q : Q.Heap} {a b : α} : b ∈ Q.items (Q.push q a) ↔ b = a ∨ b ∈ Q.items q := by
  rw [Q.items_push, Multiset.mem_cons]

theorem mem_of_pop {q q' : Q.Heap} {a b : α} (h : Q.pop q = some (a, q')) :
    b ∈ Q.items q ↔ b = a ∨ b ∈ Q.items q' := by
  rw [Q.pop_some q a q' h, Multiset.mem_cons]

theorem card_pop {q q' : Q.Heap} {a : α} (h : Q.pop q = some (a, q')) :
    (Q.items q).card = (Q.items q').card + 1 := by
  rw [Q.pop_some q a q' h, Multiset.card_cons]

end MinQueue

/-! ## An executable queue -/

section SortedQueue

variable {α κ : Type} [LinearOrder κ] (key : α → κ)

/-- Lists in ascending key order. -/
abbrev SortedItems : Type := {l : List α // l.Pairwise fun a b => key a ≤ key b}

/-- Insertion before the first item with a larger or equal key. -/
def SortedItems.insert (l : SortedItems key) (a : α) : SortedItems key :=
  ⟨l.1.orderedInsert (fun a b => key a ≤ key b) a,
    haveI : Std.Total fun a b : α => key a ≤ key b := ⟨fun _ _ => le_total _ _⟩
    haveI : IsTrans α fun a b => key a ≤ key b := ⟨fun _ _ _ => le_trans⟩
    l.2.orderedInsert a _⟩

/-- The first item, and the rest. -/
def SortedItems.uncons : SortedItems key → Option (α × SortedItems key)
  | ⟨[], _⟩ => none
  | ⟨a :: l, h⟩ => some (a, ⟨l, (List.pairwise_cons.mp h).2⟩)

/-- **The queue of sorted lists.** -/
def sortedQueue : MinQueue α key where
  Heap := SortedItems key
  empty := ⟨[], List.Pairwise.nil⟩
  push := SortedItems.insert key
  pop := SortedItems.uncons key
  items l := ↑l.1
  items_empty := rfl
  items_push l a := Multiset.coe_eq_coe.mpr (List.perm_orderedInsert _ a l.1)
  pop_none := by
    rintro ⟨l, h⟩ hp
    cases l with
    | nil => rfl
    | cons b l => exact absurd hp (by simp [SortedItems.uncons])
  pop_some := by
    rintro ⟨l, h⟩ a q' hp
    cases l with
    | nil => exact absurd hp (by simp [SortedItems.uncons])
    | cons b l =>
      simp only [SortedItems.uncons, Option.some.injEq, Prod.mk.injEq] at hp
      obtain ⟨rfl, rfl⟩ := hp
      rfl
  pop_min := by
    rintro ⟨l, h⟩ a q' hp b hb
    cases l with
    | nil => exact absurd hp (by simp [SortedItems.uncons])
    | cons c l =>
      simp only [SortedItems.uncons, Option.some.injEq, Prod.mk.injEq] at hp
      obtain ⟨rfl, rfl⟩ := hp
      rcases List.mem_cons.mp (Multiset.mem_coe.mp hb) with rfl | hb'
      · exact le_rfl
      · exact (List.pairwise_cons.mp h).1 b hb'

end SortedQueue

end RoutePlanner.Lib
