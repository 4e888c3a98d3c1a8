import Mathlib.Data.List.Sort
import Mathlib.Data.Prod.Lex
import Mathlib.Order.Lex
import RoutePlanner.Recorder.Privacy

/-!
# `web/lib/traceStorage.ts`: durable storage

The three object stores and the one way to change them. `apply` either takes effect as a whole
(`StoredState.apply`) or not at all; which of the two, the caller's environment decides.

* An outbox key is `tripId` with a sequence number or the end; `Slot` orders chunks by number and
  the end last, as the key's text does (five digits, at most `99999`, against `end`).
* A body is the value that was serialized. Its text is fixed when the item is made, and only the
  text's length is ever looked at.
-/

namespace RoutePlanner.Recorder

variable {K : Type} [Field K] [LinearOrder K]

/-! ## Records -/

/-- `DeviceSettings`. -/
structure DeviceSettings where
  token : String
  label : String
  enabled : Bool
  rejected : Bool
  deriving DecidableEq, Repr

/-- `FollowedArtifact`. -/
structure FollowedArtifact (K : Type) where
  effectiveAt : ℤ
  artifact : RouteAlternative K
  deriving DecidableEq

/-- `EtaPrediction`. -/
structure EtaPrediction (K : Type) where
  effectiveAt : ℤ
  etaS : K
  level : String
  profileVersion : Option String
  deriving DecidableEq

/-- `TripRecord`: the open trip. -/
structure TripRecord (K : Type) [Field K] [LinearOrder K] where
  tripId : String
  startedAt : ℤ
  anchors : List (Anchor K)
  head : Option (TraceFix K)
  pending : List (TraceFix K)
  lastSealAt : ℤ
  nextSeq : ℕ
  sealedFixes : Bool
  heldArtifacts : List (FollowedArtifact K)
  prediction : Option (EtaPrediction K)

/-- `TraceChunk`. -/
structure TraceChunk (K : Type) [Field K] [LinearOrder K] where
  fixes : List (TraceFix K)
  artifacts : List (FollowedArtifact K)
  deriving DecidableEq

/-- `TripEnd`. -/
structure TripEnd (K : Type) where
  endedAt : ℤ
  arrived : Bool
  prediction : Option (EtaPrediction K)
  deriving DecidableEq

/-- What an item's body says. -/
inductive Body (K : Type) [Field K] [LinearOrder K] where
  | chunk (c : TraceChunk K)
  | tripEnd (e : TripEnd K)
  deriving DecidableEq

/-- The part of a trip an item holds. -/
inductive Slot where
  | chunk (seq : ℕ)
  | tripEnd
  deriving DecidableEq, Repr

/-- `key`, which also determines the method and the path. -/
structure Key where
  tripId : String
  slot : Slot
  deriving DecidableEq, Repr

/-- `OutboxItem`. -/
structure OutboxItem (K : Type) [Field K] [LinearOrder K] where
  key : Key
  body : Body K
  createdAt : ℤ
  deriving DecidableEq

/-! ## The send order -/

/-- Chunks by number, then the end. -/
def Slot.le : Slot → Slot → Bool
  | .chunk m, .chunk n => m ≤ n
  | .chunk _, .tripEnd => true
  | .tripEnd, .chunk _ => false
  | .tripEnd, .tripEnd => true

/-- `a.key <= b.key`, as text. -/
def Key.le (a b : Key) : Bool :=
  decide (a.tripId < b.tripId) || (decide (a.tripId = b.tripId) && a.slot.le b.slot)

/-- `outboxOrder(a, b) <= 0`. -/
def outboxOrder (a b : OutboxItem K) : Bool :=
  decide (a.createdAt < b.createdAt) || (decide (a.createdAt = b.createdAt) && a.key.le b.key)

/-! ## The stores -/

/-- `StorageOps`. `none` leaves the settings, `some none` deletes them. -/
structure StorageOps (K : Type) [Field K] [LinearOrder K] where
  settings : Option (Option DeviceSettings)
  putTrips : List (TripRecord K)
  deleteTrips : List String
  putOutbox : List (OutboxItem K)
  deleteOutbox : List Key

/-- No change. -/
def StorageOps.nop : StorageOps K := ⟨none, [], [], [], []⟩

/-- `StoredState`. -/
structure StoredState (K : Type) [Field K] [LinearOrder K] where
  settings : Option DeviceSettings
  trips : List (TripRecord K)
  outbox : List (OutboxItem K)

/-- The storage of a device that never ran the recorder. -/
def StoredState.empty : StoredState K := ⟨none, [], []⟩

/-- `put` into a store, by key: an entry is replaced in place, or added. -/
def put {α κ : Type} [DecidableEq κ] (key : α → κ) (store : List α) (a : α) : List α :=
  if store.any (fun b => decide (key b = key a)) = true then
    store.map fun b => if key b = key a then a else b
  else store ++ [a]

/-- **`apply`, when it takes effect.** -/
def StoredState.apply (s : StoredState K) (ops : StorageOps K) : StoredState K where
  settings := ops.settings.getD s.settings
  trips := (ops.putTrips.foldl (put TripRecord.tripId) s.trips).filter fun t =>
    decide (t.tripId ∉ ops.deleteTrips)
  outbox := (ops.putOutbox.foldl (put OutboxItem.key) s.outbox).filter fun i =>
    decide (i.key ∉ ops.deleteOutbox)

/-- **`load`.** -/
def StoredState.load (s : StoredState K) : StoredState K :=
  { s with outbox := s.outbox.mergeSort outboxOrder }

/-! ## What the stores hold after a change -/

section Put

variable {α κ : Type} [DecidableEq κ] {key : α → κ}

/-- An entry is the new one, or an old one of another key. -/
theorem mem_put {store : List α} {a b : α} (h : b ∈ put key store a) :
    b = a ∨ b ∈ store ∧ key b ≠ key a := by
  unfold put at h
  split at h
  · obtain ⟨c, hc, heq⟩ := List.mem_map.mp h
    split at heq
    · exact Or.inl heq.symm
    · rename_i hne
      exact Or.inr ⟨heq ▸ hc, heq ▸ hne⟩
  · rename_i hany
    rcases List.mem_append.mp h with h | h
    · refine Or.inr ⟨h, fun hkey => hany (List.any_eq_true.mpr ⟨b, h, decide_eq_true hkey⟩)⟩
    · exact Or.inl (List.mem_singleton.mp h)

theorem nodup_put {store : List α} {a : α} (h : (store.map key).Nodup) :
    ((put key store a).map key).Nodup := by
  unfold put
  split
  · have hkeys : ∀ b, key (if key b = key a then a else b) = key b := by
      intro b
      split_ifs with hb
      · exact hb.symm
      · rfl
    rw [List.map_map, show key ∘ (fun b => if key b = key a then a else b) = key from funext hkeys]
    exact h
  · rename_i hany
    rw [List.map_append, List.map_singleton]
    refine List.nodup_append.mpr ⟨h, List.nodup_singleton _, fun k hk k' hk' hkk => hany ?_⟩
    obtain ⟨b, hb, rfl⟩ := List.mem_map.mp hk
    exact List.any_eq_true.mpr
      ⟨b, hb, decide_eq_true (hkk.trans (List.mem_singleton.mp hk'))⟩

theorem mem_foldl_put {store as : List α} {b : α} (h : b ∈ as.foldl (put key) store) :
    b ∈ as ∨ b ∈ store := by
  induction as generalizing store with
  | nil => exact Or.inr h
  | cons a as ih =>
    rcases ih h with h | h
    · exact Or.inl (List.mem_cons_of_mem a h)
    · rcases mem_put h with rfl | h
      · exact Or.inl List.mem_cons_self
      · exact Or.inr h.1

/-- What is put, and what was stored, is stored under its key. -/
theorem exists_mem_foldl_put (key : α → κ) {store as : List α} {b : α}
    (h : b ∈ as ∨ b ∈ store) : ∃ c ∈ as.foldl (put key) store, key c = key b := by
  have hput : ∀ (store : List α) (a b : α), b = a ∨ b ∈ store →
      ∃ c ∈ put key store a, key c = key b := by
    intro store a b hb
    unfold put
    split
    · rename_i hany
      obtain ⟨d, hd, hkey⟩ := List.any_eq_true.mp hany
      rcases hb with rfl | hb
      · exact ⟨b, List.mem_map.mpr ⟨d, hd, if_pos (of_decide_eq_true hkey)⟩, rfl⟩
      · by_cases hba : key b = key a
        · exact ⟨a, List.mem_map.mpr ⟨b, hb, if_pos hba⟩, hba.symm⟩
        · exact ⟨b, List.mem_map.mpr ⟨b, hb, if_neg hba⟩, rfl⟩
    · rcases hb with rfl | hb
      · exact ⟨b, List.mem_append_right _ (List.mem_singleton_self b), rfl⟩
      · exact ⟨b, List.mem_append_left _ hb, rfl⟩
  induction as generalizing store b with
  | nil => exact ⟨b, h.resolve_left List.not_mem_nil, rfl⟩
  | cons a as ih =>
    rcases h with h | h
    · rcases List.mem_cons.mp h with rfl | h
      · obtain ⟨c, hc, hkey⟩ := hput store b b (Or.inl rfl)
        obtain ⟨d, hd, hkey'⟩ := ih (Or.inr hc)
        exact ⟨d, hd, hkey'.trans hkey⟩
      · exact ih (Or.inl h)
    · obtain ⟨c, hc, hkey⟩ := hput store a b (Or.inr h)
      obtain ⟨d, hd, hkey'⟩ := ih (Or.inr hc)
      exact ⟨d, hd, hkey'.trans hkey⟩

end Put

/-- A stored trip was put by this change, or was there and is not deleted. -/
theorem StoredState.mem_trips_apply {s : StoredState K} {ops : StorageOps K} {t : TripRecord K}
    (h : t ∈ (s.apply ops).trips) :
    (t ∈ ops.putTrips ∨ t ∈ s.trips) ∧ t.tripId ∉ ops.deleteTrips := by
  obtain ⟨hmem, hdel⟩ := List.mem_filter.mp h
  exact ⟨mem_foldl_put hmem, of_decide_eq_true hdel⟩

/-- A stored item was put by this change, or was there. -/
theorem StoredState.mem_outbox_apply {s : StoredState K} {ops : StorageOps K} {i : OutboxItem K}
    (h : i ∈ (s.apply ops).outbox) : i ∈ ops.putOutbox ∨ i ∈ s.outbox :=
  mem_foldl_put (List.mem_filter.mp h).1

theorem StoredState.mem_outbox_load {s : StoredState K} {i : OutboxItem K} :
    i ∈ s.load.outbox ↔ i ∈ s.outbox :=
  List.mem_mergeSort

end RoutePlanner.Recorder
