import Mathlib.Data.List.Forall2

/-!
# Computations that may fail

`Except ε` as the exceptions of a program: the first call that fails ends the sequence.

* `bind_ok`, `ok_bind`: how a sequence ends.
* `throw_ne_ok`: what fails does not succeed.
* `FailsOnly`: which failures a sequence may end with, `failsOnly_bind` call by call.
* `forM_ok`, `foldlM_ok`, `mapM_eq_ok`, `exists_mapM`: loops whose every call succeeds.
-/

namespace RoutePlanner.Lib

variable {ε α β : Type}

theorem ok_bind (a : α) (f : α → Except ε β) : (Except.ok a >>= f) = f a := rfl

/-- A sequence succeeds when its parts do. -/
theorem bind_ok {x : Except ε α} {f : α → Except ε β} {b : β} (h : x >>= f = .ok b) :
    ∃ a, x = .ok a ∧ f a = .ok b := by
  cases x with
  | error e => exact absurd h (by simp [bind, Except.bind])
  | ok a => exact ⟨a, rfl, h⟩

theorem throw_ne_ok {e : ε} {a : α} : (throw e : Except ε α) ≠ .ok a := nofun

/-- Every failure is one of `p`. -/
def FailsOnly (p : ε → Prop) (x : Except ε α) : Prop := ∀ e, x = .error e → p e

theorem failsOnly_ok {p : ε → Prop} {a : α} : FailsOnly p (.ok a) := fun _ h => nomatch h

theorem failsOnly_error {p : ε → Prop} {e : ε} : FailsOnly p (.error e : Except ε α) ↔ p e :=
  ⟨fun h => h e rfl, fun h _ he => Except.error.inj he ▸ h⟩

/-- A sequence fails as its first call does, or as the rest does once the first has succeeded. -/
theorem failsOnly_bind {p : ε → Prop} {x : Except ε α} {f : α → Except ε β} :
    FailsOnly p (x >>= f) ↔ FailsOnly p x ∧ ∀ a, x = .ok a → FailsOnly p (f a) := by
  cases x with
  | error e =>
    exact failsOnly_error.trans ⟨fun h => ⟨failsOnly_error.mpr h, fun _ h => nomatch h⟩,
      fun h => failsOnly_error.mp h.1⟩
  | ok a =>
    exact ⟨fun h => ⟨failsOnly_ok, fun b hb => Except.ok.inj hb ▸ h⟩, fun h => h.2 a rfl⟩

/-- A loop of checks succeeds when each does. -/
theorem forM_ok {f : α → Except ε PUnit} {l : List α} (h : l.forM f = .ok ()) {a : α}
    (ha : a ∈ l) : f a = .ok () := by
  induction l with
  | nil => exact absurd ha List.not_mem_nil
  | cons b l ih =>
    change (f b >>= fun _ => l.forM f) = .ok () at h
    obtain ⟨⟨⟩, hb, h⟩ := bind_ok h
    rcases List.mem_cons.mp ha with rfl | ha
    · exact hb
    · exact ih h ha

/-- A list is mapped when each of its members is. -/
theorem mapM_eq_ok {f : α → Except ε β} {l : List α} {l' : List β} :
    l.mapM f = .ok l' ↔ List.Forall₂ (fun a b => f a = .ok b) l l' := by
  induction l generalizing l' with
  | nil =>
    rw [List.mapM_nil, List.forall₂_nil_left_iff]
    exact ⟨fun h => (Except.ok.inj h).symm, fun h => h ▸ rfl⟩
  | cons a l ih =>
    rw [List.mapM_cons, List.forall₂_cons_left_iff]
    constructor
    · intro h
      obtain ⟨b, hb, h⟩ := bind_ok h
      obtain ⟨bs, hbs, h⟩ := bind_ok h
      exact ⟨b, bs, hb, ih.mp hbs, (Except.ok.inj h).symm⟩
    · rintro ⟨b, bs, hb, hbs, rfl⟩
      rw [hb, ok_bind, ih.mpr hbs]
      rfl

/-- A list of which each member maps is mapped. -/
theorem exists_mapM {f : α → Except ε β} {l : List α} (h : ∀ a ∈ l, ∃ b, f a = .ok b) :
    ∃ l', l.mapM f = .ok l' := by
  induction l with
  | nil => exact ⟨[], rfl⟩
  | cons a l ih =>
    obtain ⟨b, hb⟩ := h a List.mem_cons_self
    obtain ⟨bs, hbs⟩ := ih fun a' ha' => h a' (List.mem_cons_of_mem a ha')
    rw [List.mapM_cons, hb, ok_bind, hbs]
    exact ⟨b :: bs, rfl⟩

/-- Another name for the failure changes no success. -/
theorem mapError_eq_ok {ε' : Type} {f : ε → ε'} {x : Except ε α} {a : α} :
    x.mapError f = .ok a ↔ x = .ok a := by
  cases x <;> simp [Except.mapError]

/-- A fold whose steps succeed is a plain fold. -/
theorem foldlM_ok {f : β → α → Except ε β} {g : β → α → β} {l : List α}
    (h : ∀ b a, a ∈ l → f b a = .ok (g b a)) (b : β) : l.foldlM f b = .ok (l.foldl g b) := by
  induction l generalizing b with
  | nil => rfl
  | cons a l ih =>
    rw [List.foldlM_cons, h b a List.mem_cons_self, ok_bind, List.foldl_cons]
    exact ih (fun b a' ha' => h b a' (List.mem_cons_of_mem a ha')) (g b a)

end RoutePlanner.Lib
