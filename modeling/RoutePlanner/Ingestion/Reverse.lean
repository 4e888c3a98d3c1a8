import RoutePlanner.Ingestion.Pack
import RoutePlanner.Lib.Run

/-!
# The reverse map

The loop gives each free edge the first free candidate among the edges that run the other way on
the same way. Whatever the order, what is matched is matched both ways.

* `Matched`: the invariant; `matchReverse_keeps`: one turn of the loop keeps it.
* `edgeReverse_matched`: the map is a partial involution without fixed points.
-/

namespace RoutePlanner.Ingestion

open RoutePlanner.Lib

variable {tails heads : List ℕ} {ways : List ℤ}

/-- Two edges that run opposite ways between the same nodes, on the same way. -/
structure Opposite (tails heads : List ℕ) (ways : List ℤ) (e r : ℕ) : Prop where
  ne : r ≠ e
  fst_lt : e < heads.length
  snd_lt : r < heads.length
  tail : tails.getD r 0 = heads.getD e 0
  head : heads.getD r 0 = tails.getD e 0
  way : ways.getD r 0 = ways.getD e 0

theorem Opposite.symm {e r : ℕ} (h : Opposite tails heads ways e r) :
    Opposite tails heads ways r e :=
  ⟨h.ne.symm, h.snd_lt, h.fst_lt, h.head.symm, h.tail.symm, h.way.symm⟩

/-- A partial matching of opposite edges. -/
structure Matched (tails heads : List ℕ) (ways : List ℤ) (rev : List (Option ℕ)) : Prop where
  length : rev.length = heads.length
  symm : ∀ e r, rev.getD e none = some r → rev.getD r none = some e
  opposite : ∀ e r, rev.getD e none = some r → Opposite tails heads ways e r

theorem getD_set {α : Type*} (l : List α) (i j : ℕ) (a d : α) (hi : i < l.length) :
    (l.set i a).getD j d = if i = j then a else l.getD j d := by
  rw [List.getD_eq_getElem?_getD, List.getElem?_set, List.getD_eq_getElem?_getD]
  by_cases hij : i = j
  · rw [if_pos hij, if_pos hi, if_pos hij]
    rfl
  · rw [if_neg hij, if_neg hij]

/-- The map after two edges have been given to each other. -/
theorem getD_set_set {rev : List (Option ℕ)} {a b : ℕ} (ha : a < rev.length) (hb : b < rev.length)
    (e : ℕ) : ((rev.set a (some b)).set b (some a)).getD e none =
      if b = e then some a else if a = e then some b else rev.getD e none := by
  rw [getD_set _ _ _ _ _ (by rwa [List.length_set]), getD_set _ _ _ _ _ ha]

/-- Two free edges may be matched. -/
theorem Matched.pair {rev : List (Option ℕ)} (h : Matched tails heads ways rev) {a b : ℕ}
    (ha : rev.getD a none = none) (hb : rev.getD b none = none)
    (hab : Opposite tails heads ways a b) :
    Matched tails heads ways ((rev.set a (some b)).set b (some a)) := by
  have hget := @getD_set_set rev _ _ (h.length ▸ hab.fst_lt) (h.length ▸ hab.snd_lt)
  refine ⟨by rw [List.length_set, List.length_set, h.length], fun e r her => ?_,
    fun e r her => ?_⟩
  · rw [hget] at her ⊢
    by_cases he : b = e
    · rw [if_pos he] at her
      obtain rfl := Option.some.inj her
      rw [if_neg hab.ne, if_pos rfl, he]
    · rw [if_neg he] at her
      by_cases he' : a = e
      · rw [if_pos he'] at her
        obtain rfl := Option.some.inj her
        rw [if_pos rfl, he']
      · -- an edge matched before: its partner was not free either
        rw [if_neg he'] at her
        have hback := h.symm e r her
        have hrb : b ≠ r := by
          rintro rfl
          exact absurd (hb.symm.trans hback) (by simp)
        have hra : a ≠ r := by
          rintro rfl
          exact absurd (ha.symm.trans hback) (by simp)
        rw [if_neg hrb, if_neg hra, hback]
  · rw [hget] at her
    by_cases he : b = e
    · rw [if_pos he] at her
      obtain rfl := Option.some.inj her
      rw [← he]
      exact hab.symm
    · rw [if_neg he] at her
      by_cases he' : a = e
      · rw [if_pos he'] at her
        obtain rfl := Option.some.inj her
        rw [← he']
        exact hab
      · rw [if_neg he'] at her
        exact h.opposite e r her

/-- A candidate other than the edge itself runs opposite to it. -/
theorem opposite_of_mem {e e2 : ℕ} (he : e < heads.length)
    (h : e2 ∈ reverseCands tails heads ways e) (hne : e2 ≠ e) :
    Opposite tails heads ways e e2 := by
  obtain ⟨hmem, heq⟩ := List.mem_filter.mp h
  have hends := of_decide_eq_true heq
  unfold endpoints at hends
  obtain ⟨htail, hrest⟩ := Prod.mk.inj hends
  obtain ⟨hhead, hway⟩ := Prod.mk.inj hrest
  exact ⟨hne, he, List.mem_range.mp hmem, htail, hhead, hway⟩

/-- **One turn of the loop.** -/
theorem matchReverse_keeps {rev : List (Option ℕ)} (h : Matched tails heads ways rev) {e : ℕ}
    (he : e < heads.length) : Matched tails heads ways (matchReverse tails heads ways rev e) := by
  unfold matchReverse
  by_cases hfree : rev.getD e none ≠ none
  · rw [if_pos hfree]
    exact h
  · rw [if_neg hfree]
    cases hfind : (reverseCands tails heads ways e).find? fun e2 =>
      decide (e2 ≠ e ∧ rev.getD e2 none = none) with
    | none => exact h
    | some e2 =>
      have hfound := List.find?_some hfind
      obtain ⟨hne, hfree2⟩ := of_decide_eq_true hfound
      exact h.pair (not_not.mp hfree) hfree2
        (opposite_of_mem he (List.mem_of_find?_eq_some hfind) hne)

/-- **The reverse map** is a partial involution without fixed points, of opposite edges. -/
theorem edgeReverse_matched (tails heads : List ℕ) (ways : List ℤ) :
    Matched tails heads ways (edgeReverse tails heads ways) := by
  have hnone : ∀ e, (List.replicate heads.length (none : Option ℕ)).getD e none = none := by
    intro e
    rw [List.getD_eq_getElem?_getD, List.getElem?_replicate]
    split <;> rfl
  have hstart : Matched tails heads ways (List.replicate heads.length none) :=
    ⟨List.length_replicate, fun e r h => absurd ((hnone e).symm.trans h) (by simp),
      fun e r h => absurd ((hnone e).symm.trans h) (by simp)⟩
  exact foldl_invariant (I := Matched tails heads ways)
    (fun _ _ he h => matchReverse_keeps h (List.mem_range.mp he)) hstart

end RoutePlanner.Ingestion
