import Mathlib.Data.List.Basic
import Mathlib.Data.List.Induction

/-!
# Runs of an event-driven system

A system takes one event after the other, `events.foldl step init`. What its first state satisfies
and every step keeps holds after every run.

A system may also keep a log. `EachAfter P past log` says that every entry of `log` satisfies `P`
of everything before it, the entries of `past` first.

* `foldl_invariant`: the invariant rule; a step may use that its event is one of the run's.
  `foldl_invariant_at`: it may also use which events came before, and so the state it comes in.
* `foldl_of_mem`, `foldl_iff`, `foldl_collects`: what some event brings about.
* `Along C`: every event meets `C` in the state it comes in. `Along.invariant` is the invariant rule
  of such a run.
* `along_iff`: when such a condition is also necessary.
* `eachAfter_append`: what the next entries have to satisfy.
* `EachAfter.split`: what an entry of the log satisfies.
-/

namespace RoutePlanner.Lib

variable {σ τ ε : Type*}

/-! ## Invariants -/

/-- **The invariant rule.** -/
theorem foldl_invariant {step : σ → ε → σ} {I : σ → Prop} {events : List ε}
    (hstep : ∀ s e, e ∈ events → I s → I (step s e)) {s : σ} (hs : I s) :
    I (events.foldl step s) := by
  induction events generalizing s with
  | nil => exact hs
  | cons e events ih =>
    exact ih (fun s e' he' => hstep s e' (List.mem_cons_of_mem e he'))
      (hstep s e List.mem_cons_self hs)

/-- The invariant rule for what is said of the run itself: a step knows the events before its own,
and so the state its event comes in. -/
theorem foldl_invariant_at {step : σ → ε → σ} {I : σ → Prop} {events : List ε} {s : σ}
    (hstep : ∀ before e after, events = before ++ e :: after → I (before.foldl step s) →
      I (step (before.foldl step s) e)) (hs : I s) :
    I (events.foldl step s) := by
  have hprefix : ∀ before after, events = before ++ after → I (before.foldl step s) := by
    intro before
    induction before using List.reverseRecOn with
    | nil => exact fun _ _ => hs
    | append_singleton before e ih =>
      intro after heq
      rw [List.append_assoc] at heq
      rw [List.foldl_concat]
      exact hstep before e after heq (ih (e :: after) heq)
  exact hprefix events [] (List.append_nil events).symm

/-- What one of the events brings about, and no event undoes. -/
theorem foldl_of_mem {step : σ → ε → σ} {I : σ → Prop} {events : List ε} {e : ε} (he : e ∈ events)
    (hreach : ∀ s, I (step s e)) (hstep : ∀ s e', I s → I (step s e')) (s : σ) :
    I (events.foldl step s) := by
  obtain ⟨before, after, rfl⟩ := List.append_of_mem he
  rw [List.foldl_append, List.foldl_cons]
  exact foldl_invariant (fun s e' _ => hstep s e') (hreach _)

/-- What holds after a run when only the events can bring it about, and none undoes it. -/
theorem foldl_iff {step : σ → ε → σ} {I : σ → Prop} {C : ε → Prop}
    (hstep : ∀ s e, I (step s e) ↔ I s ∨ C e) (events : List ε) (s : σ) :
    I (events.foldl step s) ↔ I s ∨ ∃ e ∈ events, C e := by
  induction events generalizing s with
  | nil => simp
  | cons e events ih =>
    rw [List.foldl_cons, ih, hstep, or_assoc]
    simp

/-- **What a run collects.** A state has it just when one of the events brought it about, in the
state it came in. -/
theorem foldl_collects {step : σ → ε → σ} {I H : σ → Prop} {A : σ → ε → Prop}
    (hI : ∀ s e, I s → I (step s e)) (hstep : ∀ s e, I s → (H (step s e) ↔ H s ∨ A s e))
    {s : σ} (hs : I s) (hnone : ¬ H s) (events : List ε) :
    H (events.foldl step s) ↔
      ∃ before e after, events = before ++ e :: after ∧ A (before.foldl step s) e := by
  have hrun : I (events.foldl step s) ∧ (H (events.foldl step s) ↔
      ∃ before e after, events = before ++ e :: after ∧ A (before.foldl step s) e) := by
    induction events using List.reverseRecOn with
    | nil =>
      refine ⟨hs, iff_of_false hnone ?_⟩
      rintro ⟨before, e, after, h, -⟩
      exact absurd h (by simp)
    | append_singleton events e ih =>
      rw [List.foldl_concat, hstep _ e ih.1, ih.2]
      refine ⟨hI _ e ih.1, ?_, ?_⟩
      · rintro (⟨before, e', after, rfl, hadds⟩ | hadds)
        · exact ⟨before, e', after ++ [e], by simp, hadds⟩
        · exact ⟨events, e, [], rfl, hadds⟩
      · rintro ⟨before, e', after, heq, hadds⟩
        rcases List.eq_nil_or_concat after with rfl | ⟨after, last, rfl⟩
        · obtain ⟨rfl, he⟩ := List.append_inj' heq rfl
          exact Or.inr (List.head_eq_of_cons_eq he ▸ hadds)
        · rw [List.concat_eq_append, ← List.cons_append, ← List.append_assoc] at heq
          exact Or.inl ⟨before, e', after, (List.append_inj' heq rfl).1, hadds⟩
  exact hrun.2

/-- Every event meets `C` in the state it comes in. -/
def Along (step : σ → ε → σ) (C : σ → ε → Prop) (s : σ) : List ε → Prop
  | [] => True
  | e :: es => C s e ∧ Along step C (step s e) es

instance decAlong {step : σ → ε → σ} {C : σ → ε → Prop} [∀ s e, Decidable (C s e)] :
    (s : σ) → (events : List ε) → Decidable (Along step C s events)
  | _, [] => isTrue trivial
  | s, e :: es =>
    have : Decidable (Along step C (step s e) es) := decAlong (step s e) es
    inferInstanceAs (Decidable (C s e ∧ Along step C (step s e) es))

theorem along_append {step : σ → ε → σ} {C : σ → ε → Prop} {s : σ} {events events' : List ε} :
    Along step C s (events ++ events') ↔
      Along step C s events ∧ Along step C (events.foldl step s) events' := by
  induction events generalizing s with
  | nil => exact ⟨fun h => ⟨trivial, h⟩, And.right⟩
  | cons e events ih =>
    rw [List.cons_append, Along, Along, ih, and_assoc]
    rfl

/-- **The invariant rule** of a run whose events meet `C`. -/
theorem Along.invariant {step : σ → ε → σ} {C : σ → ε → Prop} {I : σ → Prop}
    (hstep : ∀ s e, C s e → I s → I (step s e)) {s : σ} {events : List ε}
    (h : Along step C s events) (hs : I s) : I (events.foldl step s) := by
  induction events generalizing s with
  | nil => exact hs
  | cons e events ih => exact ih h.2 (hstep s e h.1 hs)

theorem Along.and {step : σ → ε → σ} {C C' : σ → ε → Prop} {s : σ} {events : List ε}
    (h : Along step C s events) (h' : Along step C' s events) :
    Along step (fun s e => C s e ∧ C' s e) s events := by
  induction events generalizing s with
  | nil => trivial
  | cons e events ih => exact ⟨⟨h.1, h'.1⟩, ih h.2 h'.2⟩

/-- **A condition that is exact.** If a step keeps what `J` follows from as long as `C` is met, and
breaks `J` where it is not, then `J` holds of every state of a run just when all its events meet
`C`. -/
theorem along_iff {step : σ → ε → σ} {C : σ → ε → Prop} {I J : σ → Prop} (hJ : ∀ s, I s → J s)
    (hstep : ∀ s e, C s e → I s → I (step s e)) (hbreak : ∀ s e, I s → J (step s e) → C s e)
    {s : σ} {events : List ε} (hs : I s) :
    (∀ n, J ((events.take n).foldl step s)) ↔ Along step C s events := by
  induction events generalizing s with
  | nil => exact ⟨fun _ => trivial, fun _ n => by rw [List.take_nil]; exact hJ s hs⟩
  | cons e events ih =>
    constructor
    · intro h
      have hC : C s e := hbreak s e hs (h 1)
      exact ⟨hC, (ih (hstep s e hC hs)).mp fun n => h (n + 1)⟩
    · rintro ⟨hC, h⟩ n
      cases n with
      | zero => exact hJ s hs
      | succ n => exact (ih (hstep s e hC hs)).mpr h n

/-- A condition on the events alone. -/
theorem along_of_forall {step : σ → ε → σ} {P : ε → Prop} {s : σ} {events : List ε}
    (h : ∀ e ∈ events, P e) : Along step (fun _ e => P e) s events := by
  induction events generalizing s with
  | nil => trivial
  | cons e events ih =>
    exact ⟨h e List.mem_cons_self, ih fun e' he' => h e' (List.mem_cons_of_mem e he')⟩

/-! ## Logs -/

/-- Every entry satisfies `P` of what came before it. -/
def EachAfter (P : List ε → ε → Prop) (past : List ε) : List ε → Prop
  | [] => True
  | e :: es => P past e ∧ EachAfter P (past ++ [e]) es

theorem eachAfter_append {P : List ε → ε → Prop} {past a b : List ε} :
    EachAfter P past (a ++ b) ↔ EachAfter P past a ∧ EachAfter P (past ++ a) b := by
  induction a generalizing past with
  | nil => simp [EachAfter]
  | cons e a ih =>
    rw [List.cons_append, EachAfter, EachAfter, ih, List.append_assoc, and_assoc]
    rfl

theorem EachAfter.split {P : List ε → ε → Prop} {past a b : List ε} {e : ε}
    (h : EachAfter P past (a ++ e :: b)) : P (past ++ a) e :=
  (eachAfter_append.mp h).2.1

end RoutePlanner.Lib
