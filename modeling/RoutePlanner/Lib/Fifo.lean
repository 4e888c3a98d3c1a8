import RoutePlanner.Lib.Assoc

/-!
# A bounded map that drops the entry made longest ago

The entries of the map stand in the order they were made. A store under a key that is there keeps
the entry's place. A map of `cap` entries drops its first one before every store, that of the
key itself included.

* `length_puts_le`, `mem_puts`: a map never holds more than `cap` entries, each of them stored.
* `lookup_puts`: an entry that a store made is found, with what was stored last under its key,
  until `cap` further stores.

The proof of the last follows the entry: `Behind n` says that `n` entries at most stand behind it,
and only a store puts another one there.
-/

namespace RoutePlanner.Lib.Fifo

variable {κ β : Type*} [DecidableEq κ]

/-- One store: a full map makes room first. -/
def put (cap : ℕ) (l : List (κ × β)) (e : κ × β) : List (κ × β) :=
  store e.1 e.2 (if cap ≤ l.length then l.tail else l)

/-- The map after some stores. -/
def puts (cap : ℕ) (l es : List (κ × β)) : List (κ × β) := es.foldl (put cap) l

/-- What was stored last under `k`, or else `v`. -/
def latest (k : κ) (v : β) : List (κ × β) → β
  | [] => v
  | e :: es => latest k (if e.1 = k then e.2 else v) es

/-! ## What a map holds -/

theorem length_store_le (k : κ) (v : β) (l : List (κ × β)) :
    (store k v l).length ≤ l.length + 1 := by
  induction l with
  | nil => exact Nat.le_refl _
  | cons e l ih =>
    unfold store
    by_cases he : e.1 = k
    · rw [if_pos he, List.length_cons, List.length_cons]
      omega
    · rw [if_neg he, List.length_cons, List.length_cons]
      omega

theorem length_put_le {cap : ℕ} (hcap : 0 < cap) {l : List (κ × β)} (h : l.length ≤ cap)
    (e : κ × β) : (put cap l e).length ≤ cap := by
  have hstore := length_store_le e.1 e.2 (if cap ≤ l.length then l.tail else l)
  unfold put
  by_cases hfull : cap ≤ l.length
  · rw [if_pos hfull, List.length_tail] at hstore
    rw [if_pos hfull]
    omega
  · rw [if_neg hfull] at hstore
    rw [if_neg hfull]
    omega

/-- **The bound.** -/
theorem length_puts_le {cap : ℕ} (hcap : 0 < cap) {l : List (κ × β)} (h : l.length ≤ cap)
    (es : List (κ × β)) : (puts cap l es).length ≤ cap := by
  induction es generalizing l with
  | nil => exact h
  | cons e es ih => exact ih (length_put_le hcap h e)

theorem mem_store {k : κ} {v : β} {l : List (κ × β)} {e : κ × β} (h : e ∈ store k v l) :
    e = (k, v) ∨ e ∈ l := by
  induction l with
  | nil => exact Or.inl (List.mem_singleton.mp h)
  | cons e' l ih =>
    unfold store at h
    split at h
    · rcases List.mem_cons.mp h with rfl | h
      · exact Or.inl rfl
      · exact Or.inr (List.mem_cons_of_mem e' h)
    · rcases List.mem_cons.mp h with rfl | h
      · exact Or.inr List.mem_cons_self
      · exact (ih h).imp_right (List.mem_cons_of_mem e')

theorem mem_put {cap : ℕ} {l : List (κ × β)} {e e' : κ × β} (h : e' ∈ put cap l e) :
    e' = e ∨ e' ∈ l := by
  refine (mem_store h).imp_right fun hmem => ?_
  split at hmem
  · exact List.mem_of_mem_tail hmem
  · exact hmem

/-- Every entry was stored. -/
theorem mem_puts {cap : ℕ} {l es : List (κ × β)} {e : κ × β} (h : e ∈ puts cap l es) :
    e ∈ es ∨ e ∈ l := by
  induction es generalizing l with
  | nil => exact Or.inr h
  | cons e' es ih =>
    rcases ih h with hmem | hmem
    · exact Or.inl (List.mem_cons_of_mem e' hmem)
    · rcases mem_put hmem with rfl | hmem
      · exact Or.inl List.mem_cons_self
      · exact Or.inr hmem

theorem mem_of_lookup {k : κ} {v : β} {l : List (κ × β)} (h : lookup k l = some v) :
    (k, v) ∈ l := by
  induction l with
  | nil => cases h
  | cons e l ih =>
    unfold lookup at h
    split at h
    · next he =>
      obtain rfl := Option.some.inj h
      rw [← he]
      exact List.mem_cons_self
    · exact List.mem_cons_of_mem e (ih h)

theorem not_mem_of_lookup {k : κ} {l : List (κ × β)} (h : lookup k l = none) :
    k ∉ l.map Prod.fst := by
  induction l with
  | nil => exact List.not_mem_nil
  | cons e l ih =>
    unfold lookup at h
    split at h
    · cases h
    · next he =>
      rw [List.map_cons, List.mem_cons, not_or]
      exact ⟨fun hk => he hk.symm, ih h⟩

/-! ## How long an entry stays -/

/-- The entry of `k` holds `v`, and `n` entries at most stand behind it. -/
def Behind (k : κ) (v : β) (n : ℕ) (l : List (κ × β)) : Prop :=
  ∃ before after, l = before ++ (k, v) :: after ∧ k ∉ before.map Prod.fst ∧ after.length ≤ n

theorem Behind.lookup {k : κ} {v : β} {n : ℕ} {l : List (κ × β)} (h : Behind k v n l) :
    lookup k l = some v := by
  obtain ⟨before, after, rfl, hfirst, -⟩ := h
  induction before with
  | nil => simp [Lib.lookup]
  | cons e before ih =>
    rw [List.map_cons, List.mem_cons, not_or] at hfirst
    rw [List.cons_append, Lib.lookup, if_neg fun he => hfirst.1 he.symm, ih hfirst.2]

/-- A store puts one entry at most behind the one of `k`. -/
theorem Behind.store {k : κ} {v : β} {n : ℕ} {l : List (κ × β)} (h : Behind k v n l)
    (e : κ × β) :
    Behind k (if e.1 = k then e.2 else v) (n + 1) (store e.1 e.2 l) := by
  obtain ⟨before, after, rfl, hfirst, hlen⟩ := h
  induction before with
  | nil =>
    rw [List.nil_append, Lib.store]
    by_cases he : e.1 = k
    · rw [if_pos (show (k, v).1 = e.1 from he.symm), if_pos he, he]
      exact ⟨[], after, rfl, List.not_mem_nil, by omega⟩
    · rw [if_neg (show ¬(k, v).1 = e.1 from fun hk => he hk.symm), if_neg he]
      have hstore := length_store_le e.1 e.2 after
      exact ⟨[], Lib.store e.1 e.2 after, rfl, List.not_mem_nil, by omega⟩
  | cons e' before ih =>
    rw [List.map_cons, List.mem_cons, not_or] at hfirst
    rw [List.cons_append, Lib.store]
    by_cases he : e'.1 = e.1
    · have hk : e.1 ≠ k := fun hk => hfirst.1 (he.trans hk).symm
      rw [if_pos he, if_neg hk]
      refine ⟨(e.1, e.2) :: before, after, rfl, ?_, by omega⟩
      rw [List.map_cons, List.mem_cons, not_or]
      exact ⟨fun h => hk h.symm, hfirst.2⟩
    · rw [if_neg he]
      obtain ⟨before', after', heq, hfirst', hlen'⟩ := ih hfirst.2
      refine ⟨e' :: before', after', by rw [heq, List.cons_append], ?_, hlen'⟩
      rw [List.map_cons, List.mem_cons, not_or]
      exact ⟨hfirst.1, hfirst'⟩

/-- An entry with room behind it is not the one that goes. -/
theorem Behind.put {cap n : ℕ} {k : κ} {v : β} {l : List (κ × β)} (h : Behind k v n l)
    (hroom : n + 1 < cap) (e : κ × β) :
    Behind k (if e.1 = k then e.2 else v) (n + 1) (put cap l e) := by
  unfold Fifo.put
  by_cases hfull : cap ≤ l.length
  · rw [if_pos hfull]
    refine Behind.store ?_ e
    obtain ⟨before, after, rfl, hfirst, hlen⟩ := h
    cases before with
    | nil =>
      rw [List.nil_append, List.length_cons] at hfull
      omega
    | cons e' before =>
      rw [List.map_cons, List.mem_cons, not_or] at hfirst
      exact ⟨before, after, rfl, hfirst.2, hlen⟩
  · rw [if_neg hfull]
    exact h.store e

/-- **How long an entry stays.** What the store of a new key made is found, with what was last
stored under the key, until `cap` further stores. -/
theorem lookup_puts {cap : ℕ} {k : κ} (v : β) {l es : List (κ × β)}
    (hnew : lookup k l = none) (hes : es.length < cap) :
    lookup k (puts cap l ((k, v) :: es)) = some (latest k v es) := by
  have hkeys : k ∉ (if cap ≤ l.length then l.tail else l).map Prod.fst := by
    have hall := not_mem_of_lookup hnew
    split
    · rw [List.map_tail]
      exact fun h => hall (List.mem_of_mem_tail h)
    · exact hall
  have hmade : Behind k v 0 (put cap l (k, v)) := by
    unfold put
    rw [store_of_not_mem hkeys]
    exact ⟨_, [], rfl, hkeys, Nat.le_refl _⟩
  have hrun : ∀ (es : List (κ × β)) (n : ℕ) (v : β) (l : List (κ × β)), Behind k v n l →
      n + es.length < cap → Behind k (latest k v es) (n + es.length) (puts cap l es) := by
    intro es
    induction es with
    | nil => exact fun n v l h _ => h
    | cons e es ih =>
      intro n v l h hroom
      rw [List.length_cons] at hroom ⊢
      have hnext := ih (n + 1) (if e.1 = k then e.2 else v) (put cap l e) (h.put (by omega) e)
        (by omega)
      rw [show n + (es.length + 1) = n + 1 + es.length by omega]
      exact hnext
  exact (hrun es 0 v _ hmade (by omega)).lookup

end RoutePlanner.Lib.Fifo
