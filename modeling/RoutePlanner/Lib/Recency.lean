import Mathlib.Data.Finset.Card
import Mathlib.Data.List.Basic
import Mathlib.Data.List.Nodup

/-!
# A bounded map that drops the entry used longest ago

The entries of a `Recency` map stand in the order of their last use, the oldest first. A visit
finds the entry of its key or makes one, uses it, and puts it last; a map that is full drops its
first entry before a new one is made.

* `length_serve_le`: a map never holds more than `cap` entries.
* `repliesTo_eq_alone`: a key that comes back before `cap` distinct other keys were visited cannot
  tell the map from an entry of its own.

The proof follows one key `k` through the run. `Held` says that the entries behind `k` belong to
keys visited since `k`; so by the time `k` stands first in a full map, `cap - 1` other keys were
visited since, and the visit that drops `k` is that of one more.
-/

namespace RoutePlanner.Lib

variable {κ β α : Type*} [DecidableEq κ]

/-- The map, the entry used longest ago first. -/
structure Recency (κ β : Type*) where
  cap : ℕ
  entries : List (κ × β)

/-- One visit: its key, the entry it makes if there is none, and what it does with the entry. -/
structure Visit (κ β α : Type*) where
  key : κ
  fresh : β
  use : β → α × β

namespace Recency

/-- The keys, in the order of their last use. -/
def keys (d : Recency κ β) : List κ := d.entries.map Prod.fst

/-- The entries without that of `k`. -/
def without (d : Recency κ β) (k : κ) : List (κ × β) := d.entries.filter fun p => p.1 ≠ k

/-- The entry a visit uses. -/
def entryFor (d : Recency κ β) (v : Visit κ β α) : β := (d.entries.lookup v.key).getD v.fresh

/-- The entries a visit leaves alone: a new key makes room first. -/
def kept (d : Recency κ β) (k : κ) : List (κ × β) :=
  if (d.entries.lookup k).isSome then d.without k
  else if d.cap ≤ (d.without k).length then (d.without k).tail else d.without k

/-- Serve one visit. -/
def serve (d : Recency κ β) (v : Visit κ β α) : Recency κ β :=
  { d with entries := d.kept v.key ++ [(v.key, (v.use (d.entryFor v)).2)] }

/-- What the visits of a run are answered, with their keys. -/
def replies (d : Recency κ β) : List (Visit κ β α) → List (κ × α)
  | [] => []
  | v :: vs => (v.key, (v.use (d.entryFor v)).1) :: (d.serve v).replies vs

/-- What the visits of `k` are answered. -/
def repliesTo (k : κ) (d : Recency κ β) (vs : List (Visit κ β α)) : List α :=
  ((d.replies vs).filter fun r => r.1 = k).map Prod.snd

end Recency

/-- What an entry that serves every visit answers. -/
def serveAlone (b : β) : List (Visit κ β α) → List α
  | [] => []
  | v :: vs => (v.use b).1 :: serveAlone (v.use b).2 vs

/-- What an entry made at the first visit answers. -/
def alone : List (Visit κ β α) → List α
  | [] => []
  | v :: vs => serveAlone v.fresh (v :: vs)

/-- Between two consecutive visits of `k` fewer than `cap` other keys are visited. -/
def ReturnsWithin (cap : ℕ) (k : κ) (ks : List κ) : Prop :=
  ∀ before between after, ks = before ++ k :: between ++ k :: after → k ∉ between →
    between.toFinset.card < cap

theorem ReturnsWithin.tail {cap : ℕ} {k x : κ} {ks : List κ} (h : ReturnsWithin cap k (x :: ks)) :
    ReturnsWithin cap k ks := by
  intro before between after he hk
  exact h (x :: before) between after (by rw [he]; rfl) hk

/-- `ReturnsWithin`, read off the events the keys belong to. -/
theorem returnsWithin_map {ε : Type*} {f : ε → κ} {cap : ℕ} {k : κ} {es : List ε}
    (h : ∀ before first between second after,
      es = before ++ first :: between ++ second :: after → f first = k → f second = k →
      (∀ e ∈ between, f e ≠ k) → (between.map f).toFinset.card < cap) :
    ReturnsWithin cap k (es.map f) := by
  intro before between after he hk
  obtain ⟨l, l', rfl, hl, hl'⟩ := List.map_eq_append_iff.mp he
  obtain ⟨b, m, rfl, -, hm⟩ := List.map_eq_append_iff.mp hl
  obtain ⟨first, m, rfl, hfirst, rfl⟩ := List.map_eq_cons_iff.mp hm
  obtain ⟨second, a, rfl, hsecond, -⟩ := List.map_eq_cons_iff.mp hl'
  exact h b first m second a rfl hfirst hsecond fun e hm e' => hk (List.mem_map.mpr ⟨e, hm, e'⟩)

namespace Recency

variable {d : Recency κ β} {k : κ}

/-! ## What is kept -/

theorem mem_kept {p : κ × β} (h : p ∈ d.kept k) : p ∈ d.entries ∧ p.1 ≠ k := by
  have hw : p ∈ d.without k := by
    unfold kept at h
    split_ifs at h
    · exact h
    · exact List.mem_of_mem_tail h
    · exact h
  simpa [without] using hw

theorem kept_sublist : (d.kept k).Sublist d.entries := by
  have hw : (d.without k).Sublist d.entries := List.filter_sublist
  unfold kept
  split_ifs
  · exact hw
  · exact (List.tail_sublist _).trans hw
  · exact hw

theorem lookup_isSome_iff {l : List (κ × β)} : (l.lookup k).isSome ↔ k ∈ l.map Prod.fst := by
  rw [List.lookup_isSome_iff, List.mem_map]
  constructor
  · rintro ⟨p, hp, hpk⟩
    exact ⟨p, hp, (beq_iff_eq.mp hpk).symm⟩
  · rintro ⟨p, hp, rfl⟩
    exact ⟨p, hp, beq_self_eq_true p.1⟩

theorem without_eq_self (h : k ∉ d.keys) : d.without k = d.entries := by
  refine List.filter_eq_self.mpr fun p hp => ?_
  have : p.1 ≠ k := fun e => h (List.mem_map.mpr ⟨p, hp, e⟩)
  simpa using this

/-- A key with an entry finds room: its own. -/
theorem length_without_lt (h : k ∈ d.keys) : (d.without k).length < d.entries.length := by
  obtain ⟨p, hp, hpk⟩ := List.mem_map.mp h
  refine List.length_filter_lt_length_iff_exists.mpr ⟨p, hp, ?_⟩
  simp [hpk]

theorem length_kept_lt (hcap : 0 < d.cap) (hd : d.entries.length ≤ d.cap) :
    (d.kept k).length < d.cap := by
  unfold kept
  split_ifs with hin hfull
  · exact lt_of_lt_of_le (length_without_lt (lookup_isSome_iff.mp hin)) hd
  · have := List.length_filter_le (fun p : κ × β => decide (p.1 ≠ k)) d.entries
    rw [List.length_tail]
    unfold without at hfull ⊢
    omega
  · omega

/-! ## One visit -/

variable {v : Visit κ β α}

/-- **The bound**: a full map drops an entry before it takes a new one. -/
theorem length_serve_le (hcap : 0 < d.cap) (hd : d.entries.length ≤ d.cap) :
    (d.serve v).entries.length ≤ d.cap := by
  have := length_kept_lt (k := v.key) hcap hd
  simp only [serve, List.length_append, List.length_singleton]
  omega

theorem nodup_serve (hd : d.keys.Nodup) : (d.serve v).keys.Nodup := by
  unfold keys serve
  rw [List.map_append]
  refine List.Nodup.append (hd.sublist (kept_sublist.map _)) (by simp) ?_
  intro x hx hxv
  obtain ⟨p, hp, rfl⟩ := List.mem_map.mp hx
  exact (mem_kept hp).2 (by simpa using hxv)

theorem mem_keys_serve {x : κ} (h : x ∈ (d.serve v).keys) : x = v.key ∨ x ∈ d.keys := by
  obtain ⟨p, hp, rfl⟩ := List.mem_map.mp h
  rcases List.mem_append.mp hp with hp | hp
  · exact Or.inr (List.mem_map.mpr ⟨p, (mem_kept hp).1, rfl⟩)
  · exact Or.inl (by rw [List.mem_singleton.mp hp])

theorem entryFor_of_not_mem (h : v.key ∉ d.keys) : d.entryFor v = v.fresh := by
  have hn : ¬ (d.entries.lookup v.key).isSome := fun e => h (lookup_isSome_iff.mp e)
  rw [entryFor, Option.not_isSome_iff_eq_none.mp hn]
  rfl

theorem repliesTo_cons_self {vs : List (Visit κ β α)} :
    d.repliesTo v.key (v :: vs) =
      (v.use (d.entryFor v)).1 :: (d.serve v).repliesTo v.key vs := by
  simp [repliesTo, replies]

theorem repliesTo_cons_ne {vs : List (Visit κ β α)} (h : v.key ≠ k) :
    d.repliesTo k (v :: vs) = (d.serve v).repliesTo k vs := by
  simp [repliesTo, replies, h]

theorem repliesTo_of_not_mem {vs : List (Visit κ β α)} (h : k ∉ vs.map Visit.key) :
    d.repliesTo k vs = [] := by
  induction vs generalizing d with
  | nil => rfl
  | cons v vs ih =>
    rw [List.map_cons, List.mem_cons, not_or] at h
    rw [repliesTo_cons_ne (Ne.symm h.1), ih h.2]

/-! ## One key through a run -/

/-- The map holds `b` for `k`, and whatever was used after it belongs to a key of `since`. -/
def Held (d : Recency κ β) (k : κ) (b : β) (since : List κ) : Prop :=
  ∃ older newer, d.entries = older ++ (k, b) :: newer ∧ ∀ p ∈ newer, p.1 ∈ since

theorem Held.lookup {b : β} {since : List κ} (hd : d.keys.Nodup) (h : Held d k b since) :
    d.entries.lookup k = some b := by
  obtain ⟨older, newer, he, -⟩ := h
  have hk : k ∉ older.map Prod.fst := by
    rw [keys, he, List.map_append, List.map_cons] at hd
    intro hk
    exact (List.nodup_append.mp hd).2.2 k hk k List.mem_cons_self rfl
  rw [he, List.lookup_append]
  have hn : older.lookup k = none :=
    Option.not_isSome_iff_eq_none.mp fun e => hk (lookup_isSome_iff.mp e)
  simp [hn]

/-- A visit of `k` itself uses its entry and puts it last. -/
theorem Held.serve_self {b : β} {since : List κ} (hd : d.keys.Nodup) (h : Held d v.key b since) :
    d.entryFor v = b ∧ Held (d.serve v) v.key (v.use b).2 [] := by
  have he : d.entryFor v = b := by rw [entryFor, h.lookup hd]; rfl
  refine ⟨he, d.kept v.key, [], ?_, by simp⟩
  rw [serve, he]

/-- When `k` stands first in a full map, the visit of a new key is that of the `cap`-th key since
`k`. -/
theorem card_of_first {b : β} {newer : List (κ × β)} {x : κ} {since : List κ} (hd : d.keys.Nodup)
    (he : d.entries = (k, b) :: newer) (hnewer : ∀ p ∈ newer, p.1 ∈ since) (hx : x ∉ d.keys)
    (hfull : d.cap ≤ d.entries.length) : d.cap ≤ (since ++ [x]).toFinset.card := by
  rw [keys, he, List.map_cons] at hd hx
  have hkeys : (newer.map Prod.fst ++ [x]).Nodup := by
    refine List.Nodup.append (List.nodup_cons.mp hd).2 (by simp) fun y hy hyx => ?_
    obtain rfl := List.mem_singleton.mp hyx
    exact hx (List.mem_cons_of_mem _ hy)
  have hsub : (newer.map Prod.fst ++ [x]).toFinset ⊆ (since ++ [x]).toFinset := by
    intro y hy
    simp only [List.mem_toFinset, List.mem_append, List.mem_map] at hy ⊢
    rcases hy with ⟨p, hp, rfl⟩ | hy
    · exact Or.inl (hnewer p hp)
    · exact Or.inr hy
  calc d.cap ≤ d.entries.length := hfull
    _ = (newer.map Prod.fst ++ [x]).length := by
      rw [he]
      simp
    _ = (newer.map Prod.fst ++ [x]).toFinset.card := (List.toFinset_card_of_nodup hkeys).symm
    _ ≤ (since ++ [x]).toFinset.card := Finset.card_le_card hsub

/-- A visit of another key drops `k` only if, with it, `cap` keys were visited since `k`. -/
theorem Held.serve_other {b : β} {since : List κ} (hd : d.keys.Nodup) (h : Held d k b since)
    (hv : v.key ≠ k) :
    Held (d.serve v) k b (since ++ [v.key]) ∨ d.cap ≤ (since ++ [v.key]).toFinset.card := by
  obtain ⟨older, newer, he, hnewer⟩ := h
  have hwithout : d.without v.key = older.filter (fun p => p.1 ≠ v.key) ++
      (k, b) :: newer.filter (fun p => p.1 ≠ v.key) := by
    unfold without
    rw [he, List.filter_append, List.filter_cons_of_pos (by simpa using Ne.symm hv)]
  have hstays : ∀ older', d.kept v.key = older' ++ (k, b) :: newer.filter (fun p => p.1 ≠ v.key) →
      Held (d.serve v) k b (since ++ [v.key]) := by
    intro older' hk
    refine ⟨older', newer.filter (fun p => p.1 ≠ v.key) ++ [(v.key, (v.use (d.entryFor v)).2)],
      ?_, fun p hp => ?_⟩
    · rw [serve, hk, List.append_assoc]
      rfl
    · rcases List.mem_append.mp hp with hp | hp
      · exact List.mem_append_left _ (hnewer p (List.mem_of_mem_filter hp))
      · exact List.mem_append_right _ (by simp [List.mem_singleton.mp hp])
  by_cases hin : (d.entries.lookup v.key).isSome
  · exact Or.inl (hstays _ (by rw [kept, if_pos hin, hwithout]))
  by_cases hfull : d.cap ≤ (d.without v.key).length
  · have hnot : v.key ∉ d.keys := fun e => hin (lookup_isSome_iff.mpr e)
    have hself := without_eq_self hnot
    rcases older with _ | ⟨p, older⟩
    · exact Or.inr (card_of_first hd he hnewer hnot (by rwa [hself] at hfull))
    · left
      refine hstays (older.filter fun p => p.1 ≠ v.key) ?_
      have hp : p.1 ≠ v.key := fun e => hnot (List.mem_map.mpr ⟨p, by simp [he], e⟩)
      rw [kept, if_neg hin, if_pos hfull, hwithout, List.filter_cons_of_pos (by simpa using hp)]
      rfl
  · exact Or.inl (hstays _ (by rw [kept, if_neg hin, if_neg hfull, hwithout]))

/-- What is left of the run, seen from the last visit of `k`: the next one comes back in time. -/
def BackWithin (cap : ℕ) (k : κ) (since ks : List κ) : Prop :=
  ∀ between after, ks = between ++ k :: after → k ∉ between →
    (since ++ between).toFinset.card < cap

theorem BackWithin.tail {cap : ℕ} {x : κ} {since ks : List κ}
    (h : BackWithin cap k since (x :: ks)) (hx : x ≠ k) :
    BackWithin cap k (since ++ [x]) ks := by
  intro between after he hk
  have := h (x :: between) after (by rw [he]; rfl) (by simp [Ne.symm hx, hk])
  rwa [List.append_assoc, List.singleton_append]

theorem repliesTo_held {vs : List (Visit κ β α)} {b : β} {since : List κ} (hd : d.keys.Nodup)
    (hheld : Held d k b since) (hsince : k ∉ since)
    (hback : BackWithin d.cap k since (vs.map Visit.key))
    (hreturns : ReturnsWithin d.cap k (vs.map Visit.key)) :
    d.repliesTo k vs = serveAlone b (vs.filter fun v => v.key = k) := by
  induction vs generalizing d b since with
  | nil => rfl
  | cons v vs ih =>
    rw [List.map_cons] at hback hreturns
    by_cases hv : v.key = k
    · subst hv
      obtain ⟨hentry, hheld'⟩ := hheld.serve_self hd
      have hnext : BackWithin d.cap v.key [] (vs.map Visit.key) := by
        intro between after he hk
        rw [List.nil_append]
        exact hreturns [] between after (by rw [he]; rfl) hk
      rw [repliesTo_cons_self, List.filter_cons_of_pos (by simp), serveAlone, hentry,
        ih (nodup_serve hd) hheld' List.not_mem_nil hnext hreturns.tail]
    · rw [repliesTo_cons_ne hv, List.filter_cons_of_neg (by simpa using hv)]
      have hsince' : k ∉ since ++ [v.key] := by
        simp only [List.mem_append, List.mem_singleton, not_or]
        exact ⟨hsince, Ne.symm hv⟩
      rcases hheld.serve_other hd hv with hheld' | hmany
      · exact ih (nodup_serve hd) hheld' hsince' (hback.tail hv) hreturns.tail
      · -- `k` was dropped: it does not come back.
        have hgone : k ∉ vs.map Visit.key := by
          intro hk
          obtain ⟨between, after, he, hnot⟩ := List.eq_append_cons_of_mem hk
          have hlt := hback.tail hv between after he hnot
          have hle : (since ++ [v.key]).toFinset.card ≤
              (since ++ [v.key] ++ between).toFinset.card := by
            refine Finset.card_le_card fun x hx => ?_
            rw [List.mem_toFinset] at hx ⊢
            exact List.mem_append_left _ hx
          omega
        have hnone : (vs.filter fun v => v.key = k) = [] := by
          refine List.filter_eq_nil_iff.mpr fun w hw => ?_
          have : w.key ≠ k := fun e => hgone (List.mem_map.mpr ⟨w, hw, e⟩)
          simpa using this
        rw [repliesTo_of_not_mem hgone, hnone, serveAlone]

/-- **Isolation.** A key that the map has not met, and that comes back in time at every visit, is
answered as by an entry of its own. -/
theorem repliesTo_eq_alone {vs : List (Visit κ β α)} (hd : d.keys.Nodup) (hk : k ∉ d.keys)
    (hreturns : ReturnsWithin d.cap k (vs.map Visit.key)) :
    d.repliesTo k vs = alone (vs.filter fun v => v.key = k) := by
  induction vs generalizing d with
  | nil => rfl
  | cons v vs ih =>
    rw [List.map_cons] at hreturns
    by_cases hv : v.key = k
    · subst hv
      have hentry := entryFor_of_not_mem hk
      have hheld : Held (d.serve v) v.key (v.use v.fresh).2 [] :=
        ⟨d.kept v.key, [], by rw [serve, hentry], by simp⟩
      have hnext : BackWithin d.cap v.key [] (vs.map Visit.key) := by
        intro between after he hnot
        rw [List.nil_append]
        exact hreturns [] between after (by rw [he]; rfl) hnot
      rw [repliesTo_cons_self, List.filter_cons_of_pos (by simp), alone, serveAlone, hentry,
        repliesTo_held (nodup_serve hd) hheld List.not_mem_nil hnext hreturns.tail]
    · have hk' : k ∉ (d.serve v).keys := by
        intro h
        rcases mem_keys_serve h with h | h
        · exact hv h.symm
        · exact hk h
      rw [repliesTo_cons_ne hv, List.filter_cons_of_neg (by simpa using hv),
        ih (nodup_serve hd) hk' hreturns.tail]

end Recency

end RoutePlanner.Lib
