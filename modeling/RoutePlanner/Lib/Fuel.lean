import Mathlib.Order.WellFounded
import Mathlib.Data.Option.Basic

/-!
# Loops that may not end

A `while` loop is a step function `σ → Step σ ρ` run with a fuel count: `loop step n s` is `none`
while the fuel is too small. `Yields f a` says that a fuelled computation ends with `a`: every large
enough fuel gives it. A computation that never yields anything runs for ever.

Rules:
* `loop_invariant` (partial correctness): what every step keeps and every exit turns into `Q`
  holds of any result.
* `loop_yields` (total correctness): a step that descends along a well-founded relation leaves
  the loop.
* `loop_map`: two loops whose steps correspond one to one.
* `loop_refines`: a loop that stutters against an abstract one, with an invariant and a measure of
  the stuttering steps, yields what the abstract loop yields, and only that.
* `Yields.bind`, `yields_bind_iff`: yielding and `Option.bind`, the sequencing of fuelled
  computations.
-/

namespace RoutePlanner.Lib

variable {σ ρ τ ρ' α β : Type*}

/-- One iteration: go on from a new state, or leave with a result. -/
inductive Step (σ ρ : Type*) where
  | go (s : σ)
  | done (r : ρ)

/-- At most `n` iterations of `step` from `s`. -/
def loop (step : σ → Step σ ρ) : ℕ → σ → Option ρ
  | 0, _ => none
  | n + 1, s =>
    match step s with
    | .go s' => loop step n s'
    | .done r => some r

/-- Every large enough fuel gives `a`. -/
def Yields (f : ℕ → Option α) (a : α) : Prop := ∃ N, ∀ n, N ≤ n → f n = some a

/-- More fuel never changes a result. -/
def FuelMono (f : ℕ → Option α) : Prop := ∀ n m a, n ≤ m → f n = some a → f m = some a

theorem loop_succ_go {step : σ → Step σ ρ} {s s' : σ} (h : step s = .go s') (n : ℕ) :
    loop step (n + 1) s = loop step n s' := by
  simp only [loop, h]

theorem loop_succ_done {step : σ → Step σ ρ} {s : σ} {r : ρ} (h : step s = .done r) (n : ℕ) :
    loop step (n + 1) s = some r := by
  simp only [loop, h]

theorem loop_mono (step : σ → Step σ ρ) (s : σ) : FuelMono fun n => loop step n s := by
  intro n
  induction n generalizing s with
  | zero => intro m r _ h; exact absurd h (by simp [loop])
  | succ n ih =>
    intro m r hm h
    obtain ⟨m, rfl⟩ : ∃ k, m = k + 1 := ⟨m - 1, by omega⟩
    simp only at h ⊢
    cases hs : step s with
    | go s' =>
      rw [loop_succ_go hs] at h ⊢
      exact ih s' m r (by omega) h
    | done r' =>
      rw [loop_succ_done hs] at h ⊢
      exact h

/-! ## Yielding -/

theorem FuelMono.yields {f : ℕ → Option α} (hf : FuelMono f) {n : ℕ} {a : α}
    (h : f n = some a) : Yields f a :=
  ⟨n, fun m hm => hf n m a hm h⟩

theorem Yields.exists_fuel {f : ℕ → Option α} {a : α} (h : Yields f a) : ∃ n, f n = some a :=
  let ⟨N, hN⟩ := h
  ⟨N, hN N le_rfl⟩

theorem Yields.unique {f : ℕ → Option α} {a b : α} (ha : Yields f a) (hb : Yields f b) :
    a = b := by
  obtain ⟨N, hN⟩ := ha
  obtain ⟨M, hM⟩ := hb
  have h := hN (max N M) (le_max_left N M)
  rw [hM (max N M) (le_max_right N M)] at h
  exact (Option.some.inj h).symm

theorem yields_pure (a : α) : Yields (fun _ => some a) a := ⟨0, fun _ _ => rfl⟩

/-- **Sequencing.** -/
theorem Yields.bind {f : ℕ → Option α} {g : ℕ → α → Option β} {a : α} {b : β} (hf : Yields f a)
    (hg : Yields (fun n => g n a) b) : Yields (fun n => (f n).bind (g n)) b := by
  obtain ⟨N, hN⟩ := hf
  obtain ⟨M, hM⟩ := hg
  refine ⟨max N M, fun n hn => ?_⟩
  simp only [hN n (le_trans (le_max_left N M) hn), Option.bind_some]
  exact hM n (le_trans (le_max_right N M) hn)

/-- A sequence ends when its first part does, and its second part from there. -/
theorem Yields.bind_exists {f : ℕ → Option α} {g : ℕ → α → Option β} {a : α} (hf : Yields f a)
    (hg : ∃ b, Yields (fun n => g n a) b) : ∃ b, Yields (fun n => (f n).bind (g n)) b := by
  obtain ⟨b, hb⟩ := hg
  exact ⟨b, hf.bind hb⟩

theorem Yields.map {f : ℕ → Option α} {a : α} (hf : Yields f a) (g : α → β) :
    Yields (fun n => (f n).map g) (g a) := by
  obtain ⟨N, hN⟩ := hf
  exact ⟨N, fun n hn => by simp only [hN n hn, Option.map_some]⟩

/-- A sequence yields through a value of its first part. -/
theorem yields_bind_iff {f : ℕ → Option α} {g : ℕ → α → Option β} {b : β} (hf : FuelMono f) :
    Yields (fun n => (f n).bind (g n)) b ↔ ∃ a, Yields f a ∧ Yields (fun n => g n a) b := by
  constructor
  · rintro ⟨N, hN⟩
    obtain ⟨a, ha, -⟩ := Option.bind_eq_some_iff.mp (hN N le_rfl)
    refine ⟨a, hf.yields ha, N, fun n hn => ?_⟩
    have hb : (f n).bind (g n) = some b := hN n hn
    rwa [hf N n a hn ha, Option.bind_some] at hb
  · rintro ⟨a, ha, hb⟩
    exact ha.bind hb

theorem Yields.congr {f g : ℕ → Option α} {a : α} (hf : Yields f a) (h : ∀ n, f n = g n) :
    Yields g a := by
  have : f = g := funext h
  rwa [← this]

theorem FuelMono.bind {f : ℕ → Option α} {g : ℕ → α → Option β} (hf : FuelMono f)
    (hg : ∀ a, FuelMono fun n => g n a) : FuelMono fun n => (f n).bind (g n) := by
  intro n m b hnm h
  obtain ⟨a, ha, hb⟩ := Option.bind_eq_some_iff.mp h
  simp only [hf n m a hnm ha, Option.bind_some]
  exact hg a n m b hnm hb

theorem FuelMono.map {f : ℕ → Option α} (hf : FuelMono f) (g : α → β) :
    FuelMono fun n => (f n).map g := by
  intro n m b hnm h
  obtain ⟨a, ha, hb⟩ := Option.map_eq_some_iff.mp h
  simp only [hf n m a hnm ha, Option.map_some, hb]

/-! ## Folds -/

/-- What every step of a fold keeps holds of its result. -/
theorem foldlM_invariant {f : σ → α → Option σ} {I : σ → Prop} {l : List α}
    (hstep : ∀ s a s', a ∈ l → I s → f s a = some s' → I s') {s s' : σ} (hI : I s)
    (h : l.foldlM f s = some s') : I s' := by
  induction l generalizing s with
  | nil =>
    obtain rfl : s = s' := Option.some.inj h
    exact hI
  | cons a l ih =>
    rw [List.foldlM_cons] at h
    obtain ⟨s1, hs1, h⟩ := Option.bind_eq_some_iff.mp h
    exact ih (fun s b s' hb => hstep s b s' (List.mem_cons_of_mem a hb))
      (hstep s a s1 List.mem_cons_self hI hs1) h

/-- A fold whose steps end, ends. -/
theorem foldlM_yields {f : ℕ → σ → α → Option σ} {l : List α}
    (hstep : ∀ s a, a ∈ l → ∃ s', Yields (fun n => f n s a) s') (s : σ) :
    ∃ s', Yields (fun n => l.foldlM (f n) s) s' := by
  induction l generalizing s with
  | nil => exact ⟨s, yields_pure s⟩
  | cons a l ih =>
    obtain ⟨s1, hs1⟩ := hstep s a List.mem_cons_self
    have hrest := ih (fun s b hb => hstep s b (List.mem_cons_of_mem a hb)) s1
    simp only [List.foldlM_cons]
    exact hs1.bind_exists hrest

/-! ## Rules for loops -/

/-- **Partial correctness.** -/
theorem loop_invariant {step : σ → Step σ ρ} {I : σ → Prop} {Q : ρ → Prop}
    (hgo : ∀ s s', I s → step s = .go s' → I s') (hdone : ∀ s r, I s → step s = .done r → Q r) :
    ∀ {n s r}, I s → loop step n s = some r → Q r := by
  intro n
  induction n with
  | zero => intro s r _ h; exact absurd h (by simp [loop])
  | succ n ih =>
    intro s r hI h
    cases hs : step s with
    | go s' =>
      rw [loop_succ_go hs] at h
      exact ih (hgo s s' hI hs) h
    | done r' =>
      rw [loop_succ_done hs] at h
      rw [← Option.some.inj h]
      exact hdone s r' hI hs

/-- **Total correctness.** A step that keeps `I` and descends along `r` leaves the loop. -/
theorem loop_yields {step : σ → Step σ ρ} {I : σ → Prop} {r : σ → σ → Prop} (hr : WellFounded r)
    (hgo : ∀ s s', I s → step s = .go s' → I s' ∧ r s' s) :
    ∀ {s}, I s → ∃ a, Yields (fun n => loop step n s) a := by
  intro s
  induction s using hr.induction with
  | _ s ih =>
    intro hI
    cases hs : step s with
    | done a => exact ⟨a, (loop_mono step s).yields (n := 1) (loop_succ_done hs 0)⟩
    | go s' =>
      obtain ⟨hI', hlt⟩ := hgo s s' hI hs
      obtain ⟨a, ha⟩ := ih s' hlt hI'
      obtain ⟨n, hn⟩ := ha.exists_fuel
      refine ⟨a, (loop_mono step s).yields (n := n + 1) ?_⟩
      rw [loop_succ_go hs]
      exact hn

/-! ## Simulations -/

/-- A step's outcome, renamed. -/
def Step.map (φ : σ → τ) (ψ : ρ → ρ') : Step σ ρ → Step τ ρ'
  | .go s => .go (φ s)
  | .done r => .done (ψ r)

/-- Loops whose steps correspond have corresponding results. -/
theorem loop_map {step : σ → Step σ ρ} {step' : τ → Step τ ρ'} {φ : σ → τ} {ψ : ρ → ρ'}
    (h : ∀ s, step' (φ s) = (step s).map φ ψ) (n : ℕ) (s : σ) :
    loop step' n (φ s) = (loop step n s).map ψ := by
  induction n generalizing s with
  | zero => rfl
  | succ n ih =>
    have hs' := h s
    cases hs : step s with
    | go s' =>
      rw [hs] at hs'
      rw [loop_succ_go hs, loop_succ_go hs', ih]
    | done r =>
      rw [hs] at hs'
      rw [loop_succ_done hs, loop_succ_done hs', Option.map_some]

/-- **Refinement with stuttering.** Under `I`, every step leaves with the result of the abstract
step, or follows it, or keeps the abstract state and lowers `μ`. -/
theorem loop_refines {step : σ → Step σ ρ} {astep : τ → Step τ ρ'} {I : σ → Prop} {abs : σ → τ}
    {out : ρ → ρ'} (μ : σ → ℕ)
    (hdone : ∀ s r, I s → step s = .done r → astep (abs s) = .done (out r))
    (hgo : ∀ s s', I s → step s = .go s' →
      I s' ∧ (astep (abs s) = .go (abs s') ∨ (abs s' = abs s ∧ μ s' < μ s)))
    {s : σ} (hI : I s) {r : ρ'} :
    Yields (fun n => (loop step n s).map out) r ↔ Yields (fun n => loop astep n (abs s)) r := by
  have hfwd : ∀ n s, I s → (loop step n s).map out = some r →
      ∃ m, loop astep m (abs s) = some r := by
    intro n
    induction n with
    | zero => intro s _ h; exact absurd h (by simp [loop])
    | succ n ih =>
      intro s hI h
      cases hs : step s with
      | done a =>
        rw [loop_succ_done hs, Option.map_some] at h
        exact ⟨1, (loop_succ_done (hdone s a hI hs) 0).trans h⟩
      | go s' =>
        rw [loop_succ_go hs] at h
        obtain ⟨hI', hstep⟩ := hgo s s' hI hs
        obtain ⟨m, hm⟩ := ih s' hI' h
        rcases hstep with hstep | ⟨heq, -⟩
        · exact ⟨m + 1, (loop_succ_go hstep m).trans hm⟩
        · exact ⟨m, heq ▸ hm⟩
  -- backwards, by the abstract fuel and then by the stuttering measure
  have hbwd : ∀ n k s, μ s = k → I s → loop astep n (abs s) = some r →
      ∃ m, (loop step m s).map out = some r := by
    intro n
    induction n with
    | zero => intro k s _ _ h; exact absurd h (by simp [loop])
    | succ n ih =>
      intro k
      induction k using Nat.strong_induction_on with
      | _ k ihk =>
        intro s hk hI h
        cases hs : step s with
        | done a =>
          rw [loop_succ_done (hdone s a hI hs)] at h
          exact ⟨1, by rw [loop_succ_done hs, Option.map_some, h]⟩
        | go s' =>
          obtain ⟨hI', hstep⟩ := hgo s s' hI hs
          have hm : ∃ m, (loop step m s').map out = some r := by
            rcases hstep with hstep | ⟨heq, hlt⟩
            · rw [loop_succ_go hstep] at h
              exact ih (μ s') s' rfl hI' h
            · exact ihk (μ s') (hk ▸ hlt) s' rfl hI' (heq.symm ▸ h)
          obtain ⟨m, hm⟩ := hm
          exact ⟨m + 1, by rw [loop_succ_go hs, hm]⟩
  constructor
  · intro h
    obtain ⟨n, hn⟩ := h.exists_fuel
    obtain ⟨m, hm⟩ := hfwd n s hI hn
    exact (loop_mono astep (abs s)).yields hm
  · intro h
    obtain ⟨n, hn⟩ := h.exists_fuel
    obtain ⟨m, hm⟩ := hbwd n (μ s) s rfl hI hn
    exact ((loop_mono step s).map out).yields hm

end RoutePlanner.Lib
