import RoutePlanner.Recorder.Sealing

/-!
# How a sealing numbers its chunks

A sealing hands out the sequence numbers of its trip one after the other, stamps its items in order,
and moves fixes from the front of the pending ones into chunks without changing their order.

* `Numbered`: the numbers, the stamps, the sizes and the fixes of a sealing.
* `sealFixes_numbered`, `sealArtifact_numbered`: both ways to seal keep to it.
-/

namespace RoutePlanner.Recorder

open RoutePlanner.Lib

variable {K : Type} [Field K] [LinearOrder K]

/-! ## Slices -/

section Slices

variable {ready : List (TraceFix K)}

theorem flatten_range_slices (m : ℕ) (l : List (TraceFix K)) (k : ℕ) :
    ((List.range k).map fun i => (l.drop (i * m)).take m).flatten = l.take (k * m) := by
  induction k with
  | zero => simp
  | succ k ih =>
    rw [List.range_succ, List.map_append, List.flatten_append, ih, Nat.succ_mul, List.take_add]
    simp

/-- The slices of a list put together are the list. -/
theorem flatten_slices (ready : List (TraceFix K)) : (slices ready).flatten = ready := by
  unfold slices
  rw [flatten_range_slices]
  refine List.take_of_length_le ?_
  unfold maxFixesPerChunk
  omega

theorem length_le_of_mem_slices {l : List (TraceFix K)} (h : l ∈ slices ready) :
    l.length ≤ maxFixesPerChunk := by
  obtain ⟨i, -, rfl⟩ := List.mem_map.mp h
  exact List.length_take_le _ _

theorem ne_nil_of_mem_slices {l : List (TraceFix K)} (h : l ∈ slices ready) : l ≠ [] := by
  obtain ⟨i, hi, rfl⟩ := List.mem_map.mp h
  rw [List.mem_range] at hi
  intro hnil
  have hlen := congrArg List.length hnil
  unfold maxFixesPerChunk at hlen hi
  rw [List.length_take, List.length_drop, List.length_nil] at hlen
  omega

end Slices

/-! ## Numbers, stamps and fixes -/

/-- The fixes an item carries. -/
def OutboxItem.fixes (i : OutboxItem K) : List (TraceFix K) :=
  match i.body with
  | .chunk c => c.fixes
  | .tripEnd _ => []

/-- What `s`, sealed from `t` at the stamps `now`, has pushed: chunks with the next numbers of the
trip. -/
structure Numbered (now : ℕ → ℤ) (t : TripRecord K) (s : Sealing K) : Prop where
  tripId : s.trip.tripId = t.tripId
  nextSeq : s.trip.nextSeq = t.nextSeq + s.into.length
  keys : s.into.map OutboxItem.key =
    (List.range s.into.length).map fun k => ⟨t.tripId, .chunk (t.nextSeq + k)⟩
  stamps : s.into.map OutboxItem.createdAt = (List.range s.into.length).map now
  size : ∀ i ∈ s.into, i.fixes.length ≤ maxFixesPerChunk

section Numbered

variable {opts : RecorderOptions K} {now : ℕ → ℤ} {t : TripRecord K} {s : Sealing K}

theorem numbered_nil (h : s.into = []) (hid : s.trip.tripId = t.tripId)
    (hseq : s.trip.nextSeq = t.nextSeq) : Numbered now t s := by
  refine ⟨hid, ?_, ?_, ?_, fun i hi => ?_⟩
  · rw [h, hseq]
    rfl
  · rw [h]
    rfl
  · rw [h]
    rfl
  · rw [h] at hi
    exact absurd hi List.not_mem_nil

/-- The chunk is refused at the limits, or takes the next number. -/
theorem sealChunk_cases (opts : RecorderOptions K) (now : ℕ → ℤ) (s : Sealing K)
    (c : TraceChunk K) :
    sealChunk opts now s c = { s with refused := true } ∨
    sealChunk opts now s c =
      { trip := { s.trip with nextSeq := s.trip.nextSeq + 1 }
        into := s.into ++
          [⟨⟨s.trip.tripId, .chunk s.trip.nextSeq⟩, .chunk c, now s.into.length⟩]
        refused := s.refused } := by
  unfold sealChunk
  split_ifs
  · exact Or.inl rfl
  · exact Or.inl rfl
  · exact Or.inr rfl

theorem Numbered.sealChunk (hs : Numbered now t s) {c : TraceChunk K}
    (hc : c.fixes.length ≤ maxFixesPerChunk) : Numbered now t (sealChunk opts now s c) := by
  rcases sealChunk_cases opts now s c with h | h
  · rw [h]
    exact ⟨hs.tripId, hs.nextSeq, hs.keys, hs.stamps, hs.size⟩
  · rw [h]
    refine ⟨hs.tripId, ?_, ?_, ?_, fun i hi => ?_⟩
    · rw [List.length_append, List.length_singleton, ← Nat.add_assoc, ← hs.nextSeq]
    · rw [List.map_append, hs.keys, List.length_append, List.length_singleton, List.range_succ,
        List.map_append]
      simp [hs.tripId, hs.nextSeq]
    · rw [List.map_append, hs.stamps, List.length_append, List.length_singleton, List.range_succ,
        List.map_append]
      rfl
    · rcases List.mem_append.mp hi with hi | hi
      · exact hs.size i hi
      · rw [List.mem_singleton.mp hi]
        exact hc

theorem Numbered.sealArtifact [FloorRing K] (hs : Numbered now t s) (fa : FollowedArtifact K) :
    Numbered now t (sealArtifact opts now s fa) := by
  unfold Recorder.sealArtifact
  split
  · exact hs
  · exact hs.sealChunk (Nat.zero_le _)

/-- A sealing that only changes its trip elsewhere. -/
theorem Numbered.withTrip (hs : Numbered now t s) {t' : TripRecord K}
    (hid : t'.tripId = s.trip.tripId) (hseq : t'.nextSeq = s.trip.nextSeq) :
    Numbered now t { s with trip := t' } :=
  ⟨hid.trans hs.tripId, hseq.trans hs.nextSeq, hs.keys, hs.stamps, hs.size⟩

theorem sealFixes_numbered [FloorRing K] (t : TripRecord K) :
    Numbered now t (sealFixes opts now t) := by
  unfold sealFixes
  simp only
  split_ifs
  · exact numbered_nil rfl rfl rfl
  · refine foldl_invariant (I := Numbered now t) (fun s fixes hfixes hs => ?_)
      (numbered_nil rfl rfl rfl)
    exact hs.sealChunk (length_le_of_mem_slices hfixes)
  · refine foldl_invariant (I := Numbered now t) (fun s fixes hfixes hs => ?_) ?_
    · exact hs.sealChunk (length_le_of_mem_slices hfixes)
    · refine Numbered.withTrip ?_ rfl rfl
      exact foldl_invariant (I := Numbered now t) (fun s fa _ hs => hs.sealArtifact fa)
        (numbered_nil rfl rfl rfl)

end Numbered

/-! ## The fixes move in order -/

section Order

variable (opts : RecorderOptions K) (now : ℕ → ℤ) (s : Sealing K)

/-- The fixes of items, in their order. -/
def fixesOf (items : List (OutboxItem K)) : List (TraceFix K) := items.flatMap OutboxItem.fixes

theorem fixesOf_append (a b : List (OutboxItem K)) : fixesOf (a ++ b) = fixesOf a ++ fixesOf b :=
  List.flatMap_append

theorem fixesOf_sealChunk (c : TraceChunk K) :
    ∃ l, l.Sublist c.fixes ∧ fixesOf (sealChunk opts now s c).into = fixesOf s.into ++ l := by
  rcases sealChunk_cases opts now s c with h | h
  · exact ⟨[], List.nil_sublist _, by rw [h, List.append_nil]⟩
  · refine ⟨c.fixes, List.Sublist.refl _, ?_⟩
    rw [h, fixesOf_append]
    simp [fixesOf, OutboxItem.fixes]

theorem pending_sealChunk (c : TraceChunk K) :
    (sealChunk opts now s c).trip.pending = s.trip.pending := by
  rcases sealChunk_cases opts now s c with h | h <;> rw [h]

theorem sealArtifact_order [FloorRing K] (fa : FollowedArtifact K) :
    fixesOf (sealArtifact opts now s fa).into = fixesOf s.into ∧
      (sealArtifact opts now s fa).trip.pending = s.trip.pending := by
  unfold sealArtifact
  split
  · exact ⟨rfl, rfl⟩
  · rename_i clipped _
    obtain ⟨l, hl, h⟩ := fixesOf_sealChunk opts now s ⟨[], [⟨fa.effectiveAt, clipped⟩]⟩
    refine ⟨?_, pending_sealChunk opts now s _⟩
    rw [h, List.eq_nil_of_sublist_nil hl, List.append_nil]

theorem artifacts_order [FloorRing K] (held : List (FollowedArtifact K)) :
    fixesOf (held.foldl (sealArtifact opts now) s).into = fixesOf s.into ∧
      (held.foldl (sealArtifact opts now) s).trip.pending = s.trip.pending := by
  induction held generalizing s with
  | nil => exact ⟨rfl, rfl⟩
  | cons fa held ih =>
    obtain ⟨hfixes, hpending⟩ := sealArtifact_order opts now s fa
    exact ⟨(ih _).1.trans hfixes, (ih _).2.trans hpending⟩

theorem slices_order (l : List (List (TraceFix K))) :
    (∃ sub, sub.Sublist l.flatten ∧
      fixesOf (l.foldl (fun s fixes => sealChunk opts now s ⟨fixes, []⟩) s).into =
        fixesOf s.into ++ sub) ∧
      (l.foldl (fun s fixes => sealChunk opts now s ⟨fixes, []⟩) s).trip.pending =
        s.trip.pending := by
  induction l generalizing s with
  | nil => exact ⟨⟨[], List.Sublist.refl _, (List.append_nil _).symm⟩, rfl⟩
  | cons fixes l ih =>
    obtain ⟨⟨sub, hsub, h⟩, hpending⟩ := ih (sealChunk opts now s ⟨fixes, []⟩)
    obtain ⟨first, hfirst, h'⟩ := fixesOf_sealChunk opts now s ⟨fixes, []⟩
    refine ⟨⟨first ++ sub, ?_, ?_⟩, hpending.trans (pending_sealChunk opts now s _)⟩
    · rw [List.flatten_cons]
      exact hfirst.append hsub
    · rw [List.foldl_cons, h, h', List.append_assoc]

/-- **What is sealed, and what is still pending, was pending, in that order.** -/
theorem sealFixes_order [FloorRing K] (t : TripRecord K) :
    (fixesOf (sealFixes opts now t).into ++ (sealFixes opts now t).trip.pending).Sublist
      t.pending := by
  -- what is ready stands before what stays pending
  have hsplit : ∀ n (s : Sealing K), fixesOf s.into = [] → s.trip.pending = t.pending.drop n →
      let ready := (t.pending.take n).filter fun f => clearOf opts.distanceM f.anchor t.anchors
      let s' := (slices ready).foldl (fun s fixes => sealChunk opts now s ⟨fixes, []⟩) s
      (fixesOf s'.into ++ s'.trip.pending).Sublist t.pending := by
    intro n s hfixes hpending ready s'
    obtain ⟨⟨sub, hsub, h⟩, h'⟩ := slices_order opts now s (slices ready)
    rw [flatten_slices] at hsub
    rw [h, h', hfixes, hpending, List.nil_append]
    have hle := (hsub.trans List.filter_sublist).append (List.Sublist.refl (t.pending.drop n))
    rwa [List.take_append_drop] at hle
  unfold sealFixes
  simp only
  split_ifs
  · exact List.drop_sublist _ _
  · exact hsplit _ _ rfl rfl
  · refine hsplit _ _ ?_ ?_
    · exact (artifacts_order opts now _ t.heldArtifacts).1
    · exact (artifacts_order opts now _ t.heldArtifacts).2

end Order

end RoutePlanner.Recorder
