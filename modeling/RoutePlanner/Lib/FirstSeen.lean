import Mathlib.Data.List.Basic

/-!
# The first of each key

`passNew key seen` goes through a list and lets an item pass when its key is not in the set, to
which it adds the key. The set is a list of its members.

* `mem_passNew`: an item passes where no item before it has its key.
* `mem_passNew_of_sorted`: in a list that is in order, where no smaller item has it.
* `filter_passNew`: of items with one key, at most one passes.

A list is put in order by the positions of its items (`pairwise_zipIdx`).
-/

namespace RoutePlanner.Lib

variable {α β κ : Type*} [DecidableEq κ]

/-- The items that pass, and the set after them. -/
def passNew (key : α → κ) (seen : List κ) : List α → List α × List κ
  | [] => ([], seen)
  | a :: as =>
    if key a ∈ seen then passNew key seen as
    else (a :: (passNew key (key a :: seen) as).1, (passNew key (key a :: seen) as).2)

variable {key : α → κ} {seen : List κ} {a : α} {as : List α}

theorem passNew_of_mem (h : key a ∈ seen) : passNew key seen (a :: as) = passNew key seen as :=
  if_pos h

theorem passNew_of_notMem (h : key a ∉ seen) :
    passNew key seen (a :: as) =
      (a :: (passNew key (key a :: seen) as).1, (passNew key (key a :: seen) as).2) :=
  if_neg h

/-- **Batches**: the next goes on with the set that the one before left. -/
theorem passNew_append (key : α → κ) (seen : List κ) (as bs : List α) :
    (passNew key seen (as ++ bs)).1 =
      (passNew key seen as).1 ++ (passNew key (passNew key seen as).2 bs).1 := by
  induction as generalizing seen with
  | nil => rfl
  | cons a as ih =>
    rw [List.cons_append]
    by_cases h : key a ∈ seen
    · rw [passNew_of_mem h, passNew_of_mem h, ih]
    · rw [passNew_of_notMem h, passNew_of_notMem h, ih, List.cons_append]

/-- Items that are told apart by more than what their keys say. -/
theorem passNew_map (key : α → κ) (f : β → α) (seen : List κ) (bs : List β) :
    passNew key seen (bs.map f) =
      ((passNew (key ∘ f) seen bs).1.map f, (passNew (key ∘ f) seen bs).2) := by
  induction bs generalizing seen with
  | nil => rfl
  | cons b bs ih =>
    rw [List.map_cons]
    by_cases h : key (f b) ∈ seen
    · have hf : (key ∘ f) b ∈ seen := h
      rw [passNew_of_mem h, ih, passNew_of_mem hf]
    · have hf : (key ∘ f) b ∉ seen := h
      rw [passNew_of_notMem h, ih, passNew_of_notMem hf]
      rfl

/-- **An item passes** where its key is new. -/
theorem mem_passNew : a ∈ (passNew key seen as).1 ↔
    ∃ l r, as = l ++ a :: r ∧ key a ∉ seen ∧ ∀ b ∈ l, key b ≠ key a := by
  induction as generalizing seen with
  | nil => simp [passNew]
  | cons c as ih =>
    by_cases h : key c ∈ seen
    · rw [passNew_of_mem h, ih]
      constructor
      · rintro ⟨l, r, rfl, hseen, hl⟩
        refine ⟨c :: l, r, rfl, hseen, fun b hb => ?_⟩
        rcases List.mem_cons.mp hb with rfl | hb
        · exact fun heq => hseen (heq ▸ h)
        · exact hl b hb
      · rintro ⟨l, r, has, hseen, hl⟩
        cases l with
        | nil =>
          obtain ⟨rfl, -⟩ := List.cons.inj has
          exact absurd h hseen
        | cons b l =>
          obtain ⟨-, rfl⟩ := List.cons.inj has
          exact ⟨l, r, rfl, hseen, fun b hb => hl b (List.mem_cons_of_mem _ hb)⟩
    · rw [passNew_of_notMem h, List.mem_cons, ih]
      constructor
      · rintro (rfl | ⟨l, r, rfl, hseen, hl⟩)
        · exact ⟨[], as, rfl, h, fun b hb => absurd hb List.not_mem_nil⟩
        · rw [List.mem_cons, not_or] at hseen
          refine ⟨c :: l, r, rfl, hseen.2, fun b hb => ?_⟩
          rcases List.mem_cons.mp hb with rfl | hb
          · exact fun heq => hseen.1 heq.symm
          · exact hl b hb
      · rintro ⟨l, r, has, hseen, hl⟩
        cases l with
        | nil => exact Or.inl (List.cons.inj has).1.symm
        | cons b l =>
          obtain ⟨rfl, rfl⟩ := List.cons.inj has
          refine Or.inr ⟨l, r, rfl, ?_, fun b hb => hl b (List.mem_cons_of_mem _ hb)⟩
          rw [List.mem_cons, not_or]
          exact ⟨fun heq => hl c List.mem_cons_self heq.symm, hseen⟩

/-- In a list that is in order, what comes before an item is what is smaller. -/
theorem mem_passNew_of_sorted {lt : α → α → Prop} (hasymm : ∀ a b, lt a b → ¬lt b a)
    (hsorted : as.Pairwise lt) : a ∈ (passNew key seen as).1 ↔
      a ∈ as ∧ key a ∉ seen ∧ ∀ b ∈ as, lt b a → key b ≠ key a := by
  rw [mem_passNew]
  constructor
  · rintro ⟨l, r, rfl, hseen, hl⟩
    refine ⟨List.mem_append_right l List.mem_cons_self, hseen, fun b hb hlt => ?_⟩
    obtain ⟨-, har, -⟩ := List.pairwise_append.mp hsorted
    rcases List.mem_append.mp hb with hb | hb
    · exact hl b hb
    · rcases List.mem_cons.mp hb with rfl | hb
      · exact absurd hlt (hasymm b b hlt)
      · exact absurd hlt (hasymm a b ((List.pairwise_cons.mp har).1 b hb))
  · rintro ⟨ha, hseen, hlt⟩
    obtain ⟨l, r, rfl⟩ := List.append_of_mem ha
    obtain ⟨-, -, hlr⟩ := List.pairwise_append.mp hsorted
    exact ⟨l, r, rfl, hseen, fun b hb =>
      hlt b (List.mem_append_left _ hb) (hlr b hb a List.mem_cons_self)⟩

/-- **No key passes twice.** -/
theorem pairwise_passNew (key : α → κ) (seen : List κ) (as : List α) :
    (passNew key seen as).1.Pairwise fun a b => key a ≠ key b := by
  induction as generalizing seen with
  | nil => exact List.Pairwise.nil
  | cons a as ih =>
    by_cases h : key a ∈ seen
    · rw [passNew_of_mem h]
      exact ih seen
    · rw [passNew_of_notMem h]
      refine List.pairwise_cons.mpr ⟨fun b hb heq => ?_, ih _⟩
      obtain ⟨-, -, -, hseen, -⟩ := mem_passNew.mp hb
      exact hseen (heq ▸ List.mem_cons_self)

/-- Of items with one key only one passes. -/
theorem filter_passNew {p : α → Bool} (hone : ∀ a ∈ as, ∀ b ∈ as, p a → p b → key a = key b)
    (ha : a ∈ (passNew key seen as).1) (hp : p a) : (passNew key seen as).1.filter p = [a] := by
  have hmem : ∀ b ∈ (passNew key seen as).1, b ∈ as := by
    intro b hb
    obtain ⟨l, r, has, -⟩ := mem_passNew.mp hb
    rw [has]
    exact List.mem_append_right l List.mem_cons_self
  have hpass := pairwise_passNew key seen as
  obtain ⟨l, r, heq⟩ := List.append_of_mem ha
  rw [heq] at hpass hmem
  obtain ⟨-, har, hla⟩ := List.pairwise_append.mp hpass
  have hself := hmem a (List.mem_append_right l List.mem_cons_self)
  have hl : l.filter p = [] := by
    refine List.filter_eq_nil_iff.mpr fun b hb hpb => ?_
    exact hla b hb a List.mem_cons_self
      (hone b (hmem b (List.mem_append_left _ hb)) a hself hpb hp)
  have hr : r.filter p = [] := by
    refine List.filter_eq_nil_iff.mpr fun b hb hpb => ?_
    exact (List.pairwise_cons.mp har).1 b hb
      (hone a hself b (hmem b (List.mem_append_right _ (List.mem_cons_of_mem a hb))) hp hpb)
  rw [heq, List.filter_append, hl, List.filter_cons_of_pos hp, hr]
  rfl

theorem pairwise_zipIdx (l : List α) : l.zipIdx.Pairwise fun a b => a.2 < b.2 := by
  refine (List.pairwise_map (f := Prod.snd) (R := fun i j : ℕ => i < j)).mp ?_
  rw [List.zipIdx_map_snd]
  exact List.pairwise_lt_range'

end RoutePlanner.Lib
