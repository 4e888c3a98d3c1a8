import Mathlib.Algebra.BigOperators.Group.List.Basic
import Mathlib.Algebra.Ring.Nat
import Mathlib.Data.List.Nodup

/-!
# Tables with a key

A table is the list of its rows. `Keyed key rows`: no two rows have one key, as a primary key or a
`UNIQUE` column demands.

* `Keyed.concat`, `Keyed.map_of_key`: an insertion under a key that is free, and an update that
  leaves the key alone.
* `Keyed.find?_eq`: the row under a key is found.
* `Keyed.filter_eq`: the rows under a key are one, so a join over a foreign key drops and doubles
  none.
* `Keyed.sum_countP`: the rows that refer to a table, counted at the rows they refer to.
-/

namespace RoutePlanner.Lib

variable {α β γ κ : Type*}

/-- No two rows have one key. -/
def Keyed (key : α → κ) (rows : List α) : Prop := (rows.map key).Nodup

variable {key : α → κ} {rows : List α} {a : α}

theorem keyed_nil : Keyed key [] := List.nodup_nil

theorem Keyed.eq_of_key (h : Keyed key rows) {b : α} (ha : a ∈ rows) (hb : b ∈ rows)
    (hkey : key a = key b) : a = b :=
  List.inj_on_of_nodup_map h ha hb hkey

theorem Keyed.concat (h : Keyed key rows) (ha : ∀ b ∈ rows, key b ≠ key a) :
    Keyed key (rows ++ [a]) := by
  unfold Keyed
  rw [List.map_append, List.map_singleton]
  refine List.nodup_append.mpr ⟨h, List.nodup_singleton _, fun k hk k' hk' => ?_⟩
  obtain ⟨b, hb, rfl⟩ := List.mem_map.mp hk
  rw [List.mem_singleton.mp hk']
  exact ha b hb

theorem Keyed.map_of_key (h : Keyed key rows) {f : α → α} (hf : ∀ b, key (f b) = key b) :
    Keyed key (rows.map f) := by
  unfold Keyed
  rw [List.map_map, show key ∘ f = key from funext hf]
  exact h

/-- **A row is found under its key.** -/
theorem Keyed.find?_eq (h : Keyed key rows) (ha : a ∈ rows) {p : α → Bool} (hp : p a = true)
    (hkey : ∀ b, p b = true → key b = key a) : rows.find? p = some a := by
  obtain ⟨b, hb⟩ := Option.isSome_iff_exists.mp (List.find?_isSome.mpr ⟨a, ha, hp⟩)
  rw [hb, h.eq_of_key (List.mem_of_find?_eq_some hb) ha (hkey b (List.find?_some hb))]

/-- The rows under a key are the one found there. -/
theorem Keyed.filter_eq (h : Keyed key rows) (ha : a ∈ rows) [DecidableEq κ] :
    (rows.filter fun b => decide (key b = key a)) = [a] := by
  induction rows with
  | nil => exact absurd ha List.not_mem_nil
  | cons c rows ih =>
    obtain ⟨hnot, hrows⟩ := List.nodup_cons.mp h
    rcases List.mem_cons.mp ha with rfl | ha
    · have hnone : (rows.filter fun b => decide (key b = key a)) = [] := by
        refine List.filter_eq_nil_iff.mpr fun b hb hkey => hnot ?_
        exact of_decide_eq_true hkey ▸ List.mem_map_of_mem hb
      rw [List.filter_cons_of_pos (by simp), hnone]
    · have hne : key c ≠ key a := fun heq => hnot (heq ▸ List.mem_map_of_mem ha)
      rw [List.filter_cons_of_neg (by simpa using hne), ih hrows ha]

/-- **References are counted once.** Every row of `refs` points at a row of the table, so the rows
that point at each add up to all of them. -/
theorem Keyed.sum_countP [DecidableEq κ] (h : Keyed key rows) {refs : List β} {ref : β → κ}
    (href : ∀ b ∈ refs, ∃ a ∈ rows, key a = ref b) :
    (rows.map fun a => refs.countP fun b => decide (ref b = key a)).sum = refs.length := by
  induction refs with
  | nil => simp
  | cons b refs ih =>
    obtain ⟨⟨a, ha, hkey⟩, hrest⟩ := List.forall_mem_cons.mp href
    have hcount : ∀ l : List α, (l.map fun c => if ref b = key c then 1 else 0).sum =
        (l.filter fun c => decide (key c = ref b)).length := by
      intro l
      induction l with
      | nil => rfl
      | cons c l ihl =>
        by_cases hc : key c = ref b
        · simp [hc, ihl, Nat.add_comm]
        · simp [hc, Ne.symm hc, ihl]
    have hsplit : ∀ c, (b :: refs).countP (fun b => decide (ref b = key c)) =
        refs.countP (fun b => decide (ref b = key c)) + if ref b = key c then 1 else 0 := by
      intro c
      rw [List.countP_cons]
      simp
    simp only [hsplit, List.sum_map_add]
    rw [ih hrest, hcount, ← hkey, h.filter_eq ha, List.length_singleton, List.length_cons]

end RoutePlanner.Lib
