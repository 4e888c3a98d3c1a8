import Mathlib.Algebra.Order.Group.Defs
import Mathlib.Algebra.Order.Monoid.Unbundled.Basic
import Mathlib.Algebra.BigOperators.Group.List.Basic
import Mathlib.Algebra.Order.BigOperators.Group.List
import Mathlib.Data.Fintype.List
import Mathlib.Data.Finset.Max
import Mathlib.Tactic.Abel

/-!
# Walks in a directed multigraph and their labels

An `ArcGraph` is a set of arcs, each with a source and a destination; only the arcs satisfying
`ok` may be used. `IsWalk a ts b` says that the arcs `ts` lead from `a` to `b`.

`label c g ts` is what a label-setting search writes at the end of the walk: start from `g` and
add one arc cost after another, in order. Nothing is assumed of the addition, so a rounding one
is covered; over an additive monoid the label is `g` plus the sum of the costs (`label_eq_sum`).

`NoImproving c` is the condition under which label-correcting search makes sense: no closed walk
lowers a label. It holds when no single arc lowers one (`noImproving_of_le`), and over an ordered
group it says that no closed walk has a negative cost (`noImproving_iff`).
-/

namespace RoutePlanner.Lib

/-- A directed multigraph with usable arcs `ok`. -/
structure ArcGraph (V A : Type*) where
  src : A → V
  dst : A → V
  ok : A → Prop

namespace ArcGraph

variable {V A : Type*} (G : ArcGraph V A)

/-- The arcs `ts` lead from `a` to `b`. -/
def IsWalk : V → List A → V → Prop
  | a, [], b => a = b
  | a, t :: ts, b => G.ok t ∧ G.src t = a ∧ IsWalk (G.dst t) ts b

variable {G}

@[simp] theorem isWalk_nil {a b : V} : G.IsWalk a [] b ↔ a = b := Iff.rfl

@[simp] theorem isWalk_cons {a b : V} {t : A} {ts : List A} :
    G.IsWalk a (t :: ts) b ↔ G.ok t ∧ G.src t = a ∧ G.IsWalk (G.dst t) ts b := Iff.rfl

theorem isWalk_append {a b : V} {ts us : List A} :
    G.IsWalk a (ts ++ us) b ↔ ∃ m, G.IsWalk a ts m ∧ G.IsWalk m us b := by
  induction ts generalizing a with
  | nil =>
    simp only [List.nil_append, isWalk_nil]
    exact ⟨fun h => ⟨a, rfl, h⟩, fun ⟨m, hm, h⟩ => hm ▸ h⟩
  | cons t ts ih =>
    simp only [List.cons_append, isWalk_cons, ih]
    constructor
    · rintro ⟨hok, hsrc, m, h1, h2⟩
      exact ⟨m, ⟨hok, hsrc, h1⟩, h2⟩
    · rintro ⟨m, ⟨hok, hsrc, h1⟩, h2⟩
      exact ⟨hok, hsrc, m, h1, h2⟩

/-- A walk extended by one arc. -/
theorem isWalk_concat {a b : V} {ts : List A} {t : A} :
    G.IsWalk a (ts ++ [t]) b ↔ G.IsWalk a ts (G.src t) ∧ G.ok t ∧ G.dst t = b := by
  rw [isWalk_append]
  simp only [isWalk_cons, isWalk_nil]
  constructor
  · rintro ⟨m, h1, hok, rfl, h2⟩
    exact ⟨h1, hok, h2⟩
  · rintro ⟨h1, hok, h2⟩
    exact ⟨_, h1, hok, rfl, h2⟩

/-- A walk has one end. -/
theorem IsWalk.end_unique {a b c : V} {ts : List A} (hb : G.IsWalk a ts b)
    (hc : G.IsWalk a ts c) : b = c := by
  induction ts generalizing a with
  | nil => exact hb.symm.trans hc
  | cons t ts ih => exact ih hb.2.2 hc.2.2

theorem IsWalk.ok_of_mem {a b : V} {ts : List A} (h : G.IsWalk a ts b) {t : A} (ht : t ∈ ts) :
    G.ok t := by
  induction ts generalizing a with
  | nil => exact absurd ht List.not_mem_nil
  | cons u us ih =>
    rcases List.mem_cons.mp ht with rfl | ht
    · exact h.1
    · exact ih h.2.2 ht

/-- The vertices of a walk: each arc leads on from its own. -/
theorem IsWalk.getElem?_vertices {a b : V} {ts : List A} (h : G.IsWalk a ts b) {i : ℕ} {t : A}
    (ht : ts[i]? = some t) : (a :: ts.map G.dst)[i]? = some (G.src t) := by
  induction ts generalizing a i with
  | nil => cases ht
  | cons u ts ih =>
    cases i with
    | zero =>
      obtain rfl := Option.some.inj ht
      exact congrArg some h.2.1.symm
    | succ i => exact ih h.2.2 ht

/-! ## Labels -/

section Label

variable {K : Type*} [Add K] (c : A → K)

/-- The label at the end of `ts`, starting from `g`. -/
def label (g : K) (ts : List A) : K := ts.foldl (fun g t => g + c t) g

@[simp] theorem label_nil (g : K) : label c g [] = g := rfl

@[simp] theorem label_cons (g : K) (t : A) (ts : List A) :
    label c g (t :: ts) = label c (g + c t) ts := rfl

theorem label_append (g : K) (ts us : List A) :
    label c g (ts ++ us) = label c (label c g ts) us := List.foldl_append

theorem label_concat (g : K) (ts : List A) (t : A) :
    label c g (ts ++ [t]) = label c g ts + c t := by
  rw [label_append, label_cons, label_nil]

theorem label_mono [Preorder K] [AddRightMono K] {g g' : K} (h : g ≤ g') (ts : List A) :
    label c g ts ≤ label c g' ts := by
  induction ts generalizing g g' with
  | nil => exact h
  | cons t ts ih => exact ih (add_le_add_left h (c t))

variable (G) in
/-- No closed walk lowers a label. -/
def NoImproving [LE K] : Prop := ∀ v ts, G.IsWalk v ts v → ∀ g, g ≤ label c g ts

theorem le_label [Preorder K] {ts : List A} (h : ∀ t ∈ ts, ∀ g, g ≤ g + c t) (g : K) :
    g ≤ label c g ts := by
  induction ts generalizing g with
  | nil => exact le_refl g
  | cons t ts ih =>
    exact (h t List.mem_cons_self g).trans
      (ih (fun u hu => h u (List.mem_cons_of_mem t hu)) (g + c t))

/-- Costs that lower no label lower none round a cycle. -/
theorem noImproving_of_le [Preorder K] (h : ∀ t, G.ok t → ∀ g, g ≤ g + c t) :
    G.NoImproving c :=
  fun _ _ hw g => le_label c (fun t ht => h t (hw.ok_of_mem ht)) g

end Label

theorem label_eq_sum {K : Type*} [AddMonoid K] (c : A → K) (g : K) (ts : List A) :
    label c g ts = g + (ts.map c).sum := by
  induction ts generalizing g with
  | nil => simp
  | cons t ts ih => rw [label_cons, ih, List.map_cons, List.sum_cons, add_assoc]

/-- Of the prefixes of a list, one has the largest cost. -/
theorem exists_max_prefix {K : Type*} [AddMonoid K] [LinearOrder K] (c : A → K) (ts : List A) :
    ∃ p q, ts = p ++ q ∧ ∀ p' q', ts = p' ++ q' → (p'.map c).sum ≤ (p.map c).sum := by
  classical
  obtain ⟨p, hp, hmax⟩ := (ts.inits.toFinset).exists_max_image (fun p => (p.map c).sum)
    ⟨[], by simp⟩
  obtain ⟨q, rfl⟩ := (List.mem_inits p ts).mp (List.mem_toFinset.mp hp)
  refine ⟨p, q, rfl, fun p' q' h => hmax p' ?_⟩
  exact List.mem_toFinset.mpr ((List.mem_inits p' _).mpr ⟨q', h.symm⟩)

section Group

variable {K : Type*} [AddCommGroup K] [LinearOrder K] [IsOrderedAddMonoid K] {c : A → K}

/-- Over an ordered group, `NoImproving` says that no closed walk has a negative cost. -/
theorem noImproving_iff :
    G.NoImproving c ↔ ∀ v ts, G.IsWalk v ts v → 0 ≤ (ts.map c).sum := by
  refine forall_congr' fun v => forall_congr' fun ts => forall_congr' fun _ => ?_
  simp only [label_eq_sum, le_add_iff_nonneg_right, forall_const]

/-- Larger costs lower no label round a cycle either. -/
theorem NoImproving.mono {c' : A → K} (h : G.NoImproving c) (hle : ∀ t, G.ok t → c t ≤ c' t) :
    G.NoImproving c' := by
  rw [noImproving_iff] at h ⊢
  intro v ts hw
  refine (h v ts hw).trans (List.sum_le_sum fun t ht => ?_)
  exact hle t (hw.ok_of_mem ht)

/-- **The cycle lemma.** A closed walk of negative cost can be entered at a point from which no
part of the round has a positive cost. -/
theorem exists_rotation {v : V} {ts : List A} (hw : G.IsWalk v ts v)
    (hneg : (ts.map c).sum < 0) :
    ∃ u us, G.IsWalk u us u ∧ (us.map c).sum < 0 ∧
      ∀ p q, us = p ++ q → (p.map c).sum ≤ 0 := by
  obtain ⟨p, q, rfl, hmax⟩ := exists_max_prefix c ts
  obtain ⟨u, hp, hq⟩ := isWalk_append.mp hw
  have hsum : ((q ++ p).map c).sum = ((p ++ q).map c).sum := by
    simp only [List.map_append, List.sum_append]
    exact add_comm _ _
  refine ⟨u, q ++ p, isWalk_append.mpr ⟨v, hq, hp⟩, by rw [hsum]; exact hneg, ?_⟩
  intro r s hrs
  rcases List.append_eq_append_iff.mp hrs with ⟨m, rfl, hp'⟩ | ⟨m, hq', hs⟩
  · -- the part runs past the end of `q`, into a prefix `m` of `p`
    have hm := hmax m (s ++ q) (by rw [hp', List.append_assoc])
    have h1 : ((q ++ m).map c).sum = ((p ++ q).map c).sum + (m.map c).sum - (p.map c).sum := by
      simp only [List.map_append, List.sum_append]
      abel
    rw [h1]
    have h2 : (m.map c).sum - (p.map c).sum ≤ 0 := sub_nonpos.mpr hm
    calc ((p ++ q).map c).sum + (m.map c).sum - (p.map c).sum
        = ((p ++ q).map c).sum + ((m.map c).sum - (p.map c).sum) := by abel
      _ ≤ 0 + 0 := add_le_add hneg.le h2
      _ = 0 := add_zero 0
  · -- the part is a prefix of `q`
    have hr := hmax (p ++ r) m (by rw [hq', List.append_assoc])
    simp only [List.map_append, List.sum_append] at hr
    exact le_of_add_le_add_left (hr.trans_eq (add_zero _).symm)

end Group

/-! ## Finitely many simple walks -/

/-- The lists of arcs without a repeated arc. -/
def nodupLists (A : Type*) [Fintype A] [DecidableEq A] : Finset (List A) :=
  (Finset.univ : Finset {l : List A // l.Nodup}).map (Function.Embedding.subtype _)

theorem mem_nodupLists {A : Type*} [Fintype A] [DecidableEq A] {l : List A} :
    l ∈ nodupLists A ↔ l.Nodup := by
  simp only [nodupLists, Finset.mem_map, Finset.mem_univ, true_and,
    Function.Embedding.coe_subtype, Subtype.exists, exists_prop, exists_eq_right]

end ArcGraph

end RoutePlanner.Lib
