import RoutePlanner.Lib.Run
import RoutePlanner.Recorder.Storage

/-!
# `web/lib/tripRecorder.ts`: sealing

How fixes and artifacts of a trip become outbox items. The functions of the source change a trip
and push items; here both are carried in a `Sealing`, which also remembers whether `sealChunk` ever
returned early.

* `Uploadable`: what a chunk sealed from a trip may hold.
* `sealFixes_spec`, `SealedFrom.sealArtifact`: every item sealed from a trip is a chunk of that
  trip, and uploadable.
* `sealFixes_hasFixes`: a trip that starts sealing seals a chunk of fixes.
-/

namespace RoutePlanner.Recorder

open RoutePlanner.Lib

variable {K : Type} [Field K] [LinearOrder K]

/-- `SEAL_INTERVAL_MS`. -/
def sealIntervalMs : ℤ := 120000

/-- `MAX_FIXES_PER_CHUNK`. -/
def maxFixesPerChunk : ℕ := 600

/-- `MAX_SEQ`. -/
def maxSeq : ℕ := 99999

/-- `MAX_BODY_BYTES`. -/
def maxBodyBytes : ℕ := 1048576

/-- `RecorderOptions`, and what the recorder uses of its platform: `distanceM`, and the length in
bytes of a body's text. -/
structure RecorderOptions (K : Type) [Field K] [LinearOrder K] where
  distanceM : LatLon K → LatLon K → K
  byteLength : Body K → ℕ
  /-- `!!baseUrl`. -/
  configured : Bool

/-- A trip being sealed, the items pushed so far, and whether a chunk was refused. -/
structure Sealing (K : Type) [Field K] [LinearOrder K] where
  trip : TripRecord K
  into : List (OutboxItem K)
  refused : Bool

section Defs

variable (opts : RecorderOptions K) (now : ℕ → ℤ)

/-- `sealChunk`. `now i` is what `now()` reads for the `i`-th item. -/
def sealChunk (s : Sealing K) (chunk : TraceChunk K) : Sealing K :=
  if maxSeq < s.trip.nextSeq then { s with refused := true }
  else if maxBodyBytes < opts.byteLength (.chunk chunk) then { s with refused := true }
  else
    { trip := { s.trip with nextSeq := s.trip.nextSeq + 1 }
      into := s.into ++
        [⟨⟨s.trip.tripId, .chunk s.trip.nextSeq⟩, .chunk chunk, now s.into.length⟩]
      refused := s.refused }

/-- `sealArtifact`. -/
def sealArtifact [FloorRing K] (s : Sealing K) (fa : FollowedArtifact K) : Sealing K :=
  match clipArtifact opts.distanceM fa.artifact s.trip.anchors with
  | none => s
  | some clipped => sealChunk opts now s ⟨[], [⟨fa.effectiveAt, clipped⟩]⟩

/-- `ready.slice(i, i + MAX_FIXES_PER_CHUNK)` for `i = 0, MAX_FIXES_PER_CHUNK, …`. -/
def slices (ready : List (TraceFix K)) : List (List (TraceFix K)) :=
  (List.range ((ready.length + maxFixesPerChunk - 1) / maxFixesPerChunk)).map fun i =>
    (ready.drop (i * maxFixesPerChunk)).take maxFixesPerChunk

/-- `seal`: every fix that is clear of the head; with the first of them, the artifacts held. -/
def sealFixes [FloorRing K] (t : TripRecord K) : Sealing K :=
  let n := sealablePrefix opts.distanceM t.pending t.head
  let ready := (t.pending.take n).filter fun f => clearOf opts.distanceM f.anchor t.anchors
  let t := { t with
    pending := t.pending.drop n
    lastSealAt := (t.head.map TraceFix.t).getD t.lastSealAt }
  if ready = [] then ⟨t, [], false⟩
  else
    let s :=
      if t.sealedFixes = true then ⟨t, [], false⟩
      else
        let s := t.heldArtifacts.foldl (sealArtifact opts now)
          ⟨{ t with sealedFixes := true }, [], false⟩
        { s with trip := { s.trip with heldArtifacts := [] } }
    (slices ready).foldl (fun s fixes => sealChunk opts now s ⟨fixes, []⟩) s

/-- `endTime`. -/
def endTime (t : TripRecord K) (at' : ℤ) : ℤ :=
  max at' (max ((t.head.map TraceFix.t).getD 0)
    ((t.prediction.map EtaPrediction.effectiveAt).getD 0))

/-- The `end` item of a trip. -/
def endItem (t : TripRecord K) (arrived : Bool) (endedAt createdAt : ℤ) : OutboxItem K :=
  ⟨⟨t.tripId, .tripEnd⟩, .tripEnd ⟨endedAt, arrived, t.prediction⟩, createdAt⟩

/-- `predictionOf`. -/
def predictionOf (route : RouteAlternative K) (at' : ℤ) : EtaPrediction K :=
  ⟨at', route.etaS, route.level, route.profileVersion⟩

/-- `endOf`. -/
def endOf (route : RouteAlternative K) : Option (Anchor K) :=
  route.geometry.getLast?.map fun c => (ll c).anchor

end Defs

/-! ## What is sealed -/

section Spec

variable (opts : RecorderOptions K) {now : ℕ → ℤ}

/-- What a chunk sealed from `t` holds: fixes that were pending, clear of the anchors and of the
head; and artifacts of `sources`, clipped at the anchors. -/
structure Uploadable [FloorRing K] (t : TripRecord K) (sources : List (FollowedArtifact K))
    (c : TraceChunk K) : Prop where
  pending : ∀ f ∈ c.fixes, f ∈ t.pending
  anchors : ∀ f ∈ c.fixes, ∀ a ∈ t.anchors, trimM ≤ separationM opts.distanceM f.anchor a
  head : ∀ f ∈ c.fixes, ∃ h, t.head = some h ∧
    trimM ≤ separationM opts.distanceM f.anchor h.anchor
  artifacts : ∀ fa ∈ c.artifacts, ∃ src ∈ sources,
    clipArtifact opts.distanceM src.artifact t.anchors = some fa.artifact

/-- A state of sealing `t`: its identity and its private points are those of `t`, and everything
pushed is an uploadable chunk of `t`. -/
structure SealedFrom [FloorRing K] (t : TripRecord K) (sources : List (FollowedArtifact K))
    (s : Sealing K) : Prop where
  tripId : s.trip.tripId = t.tripId
  anchors : s.trip.anchors = t.anchors
  head : s.trip.head = t.head
  pending : ∀ f ∈ s.trip.pending, f ∈ t.pending
  held : ∀ fa ∈ s.trip.heldArtifacts, fa ∈ t.heldArtifacts
  prediction : s.trip.prediction = t.prediction
  items : ∀ i ∈ s.into, i.key.tripId = t.tripId ∧
    ∃ c, i.body = .chunk c ∧ Uploadable opts t sources c

variable [FloorRing K] {opts} {t : TripRecord K} {sources : List (FollowedArtifact K)}
  {s : Sealing K}

/-- Nothing is pushed yet. -/
theorem sealedFrom_trip {t' : TripRecord K} (hid : t'.tripId = t.tripId)
    (hanchors : t'.anchors = t.anchors) (hhead : t'.head = t.head)
    (hpending : ∀ f ∈ t'.pending, f ∈ t.pending)
    (hheld : ∀ fa ∈ t'.heldArtifacts, fa ∈ t.heldArtifacts) (hpred : t'.prediction = t.prediction) :
    SealedFrom opts t sources ⟨t', [], false⟩ :=
  ⟨hid, hanchors, hhead, hpending, hheld, hpred, fun _ hi => absurd hi List.not_mem_nil⟩

theorem SealedFrom.sealChunk {c : TraceChunk K} (hs : SealedFrom opts t sources s)
    (hc : Uploadable opts t sources c) : SealedFrom opts t sources (sealChunk opts now s c) := by
  unfold Recorder.sealChunk
  split
  · exact ⟨hs.tripId, hs.anchors, hs.head, hs.pending, hs.held, hs.prediction, hs.items⟩
  · split
    · exact ⟨hs.tripId, hs.anchors, hs.head, hs.pending, hs.held, hs.prediction, hs.items⟩
    · refine ⟨hs.tripId, hs.anchors, hs.head, hs.pending, hs.held, hs.prediction, fun i hi => ?_⟩
      rcases List.mem_append.mp hi with hi | hi
      · exact hs.items i hi
      · rw [List.mem_singleton.mp hi]
        exact ⟨hs.tripId, c, rfl, hc⟩

/-- **An artifact of a trip is sealed clipped at the trip's anchors.** -/
theorem SealedFrom.sealArtifact {fa : FollowedArtifact K} (hs : SealedFrom opts t sources s)
    (hfa : fa ∈ sources) : SealedFrom opts t sources (sealArtifact opts now s fa) := by
  unfold Recorder.sealArtifact
  split
  · exact hs
  · rename_i clipped hclip
    refine hs.sealChunk ⟨fun f hf => absurd hf List.not_mem_nil,
      fun f hf => absurd hf List.not_mem_nil, fun f hf => absurd hf List.not_mem_nil,
      fun fa' hfa' => ?_⟩
    rw [List.mem_singleton.mp hfa']
    rw [hs.anchors] at hclip
    exact ⟨fa, hfa, hclip⟩

omit [FloorRing K] in
theorem mem_of_mem_slices {ready l : List (TraceFix K)} (hl : l ∈ slices ready)
    {f : TraceFix K} (hf : f ∈ l) : f ∈ ready := by
  obtain ⟨i, -, rfl⟩ := List.mem_map.mp hl
  exact List.mem_of_mem_drop (List.mem_of_mem_take hf)

/-- **Everything `seal` pushes is uploadable.** -/
theorem sealFixes_spec (t : TripRecord K) :
    SealedFrom opts t t.heldArtifacts (sealFixes opts now t) := by
  have hdrop : ∀ n, ∀ f ∈ t.pending.drop n, f ∈ t.pending := fun _ _ hf => List.mem_of_mem_drop hf
  unfold sealFixes
  simp only
  split
  · exact sealedFrom_trip rfl rfl rfl (hdrop _) (fun _ hfa => hfa) rfl
  · -- first the artifacts held, then the fixes
    refine foldl_invariant (I := SealedFrom opts t t.heldArtifacts) (fun s fixes hfixes hs => ?_) ?_
    · have hready : ∀ f ∈ fixes, f ∈ t.pending.take (sealablePrefix opts.distanceM t.pending t.head)
          ∧ clearOf opts.distanceM f.anchor t.anchors = true :=
        fun f hf => List.mem_filter.mp (mem_of_mem_slices hfixes hf)
      refine hs.sealChunk ⟨fun f hf => (mem_sealable _ (hready f hf).1).1,
        fun f hf => (clearOf_eq_true _).mp (hready f hf).2,
        fun f hf => (mem_sealable _ (hready f hf).1).2, fun fa hfa => absurd hfa List.not_mem_nil⟩
    · split
      · exact sealedFrom_trip rfl rfl rfl (hdrop _) (fun _ hfa => hfa) rfl
      · obtain ⟨h1, h2, h3, h4, -, h6, h7⟩ : SealedFrom opts t t.heldArtifacts
            (t.heldArtifacts.foldl (sealArtifact opts now) ⟨{ t with
              pending := t.pending.drop (sealablePrefix opts.distanceM t.pending t.head)
              lastSealAt := (t.head.map TraceFix.t).getD t.lastSealAt
              sealedFixes := true }, [], false⟩) :=
          foldl_invariant (fun s fa hfa hs => hs.sealArtifact hfa)
            (sealedFrom_trip rfl rfl rfl (hdrop _) (fun _ hfa => hfa) rfl)
        exact ⟨h1, h2, h3, h4, fun fa hfa => absurd hfa List.not_mem_nil, h6, h7⟩

end Spec

/-! ## A chunk of fixes comes with the artifacts -/

section Chunk

variable {opts : RecorderOptions K} {now : ℕ → ℤ} {s : Sealing K}

/-- A chunk that carries fixes. -/
def OutboxItem.IsFixChunk (i : OutboxItem K) : Prop :=
  ∃ c, i.body = .chunk c ∧ c.fixes ≠ []

/-- A chunk that carries artifacts. -/
def OutboxItem.IsArtifactChunk (i : OutboxItem K) : Prop :=
  ∃ c, i.body = .chunk c ∧ c.artifacts ≠ []

/-- Sealing was refused at the limits, or has pushed a chunk of fixes. -/
def Sealing.HasFixes (s : Sealing K) : Prop :=
  s.refused = true ∨ ∃ i ∈ s.into, i.IsFixChunk

theorem Sealing.HasFixes.sealChunk (h : s.HasFixes) (c : TraceChunk K) :
    (sealChunk opts now s c).HasFixes := by
  unfold Recorder.sealChunk
  split
  · exact Or.inl rfl
  · split
    · exact Or.inl rfl
    · rcases h with h | ⟨i, hi, hfix⟩
      · exact Or.inl h
      · exact Or.inr ⟨i, List.mem_append_left _ hi, hfix⟩

theorem hasFixes_sealChunk {fixes : List (TraceFix K)} (hne : fixes ≠ []) :
    (sealChunk opts now s ⟨fixes, []⟩).HasFixes := by
  unfold sealChunk
  split
  · exact Or.inl rfl
  · split
    · exact Or.inl rfl
    · exact Or.inr ⟨_, List.mem_append_right _ (List.mem_singleton_self _), _, rfl, hne⟩

theorem hasFixes_foldl {l : List (List (TraceFix K))} (h : s.HasFixes ∨ ∃ fixes ∈ l, fixes ≠ []) :
    (l.foldl (fun s fixes => sealChunk opts now s ⟨fixes, []⟩) s).HasFixes := by
  induction l generalizing s with
  | nil => exact h.resolve_right fun ⟨_, hf, _⟩ => absurd hf List.not_mem_nil
  | cons fixes l ih =>
    refine ih ?_
    rcases h with h | ⟨f, hf, hne⟩
    · exact Or.inl (h.sealChunk _)
    · rcases List.mem_cons.mp hf with rfl | hf
      · exact Or.inl (hasFixes_sealChunk hne)
      · exact Or.inr ⟨f, hf, hne⟩

theorem exists_mem_slices {ready : List (TraceFix K)} (hne : ready ≠ []) :
    ∃ l ∈ slices ready, l ≠ [] := by
  have hpos : 0 < ready.length := List.length_pos_of_ne_nil hne
  refine ⟨_, List.mem_map_of_mem (List.mem_range.mpr (?_ : 0 < _)), ?_⟩
  · unfold maxFixesPerChunk
    omega
  · rw [Nat.zero_mul, List.drop_zero]
    intro hnil
    have hlen := congrArg List.length hnil
    unfold maxFixesPerChunk at hlen
    rw [List.length_take, List.length_nil] at hlen
    omega

/-- **`seal` never seals only artifacts.** If it marks the trip as sealing, or pushes anything, it
pushes a chunk of fixes or is refused. -/
theorem sealFixes_hasFixes [FloorRing K] (t : TripRecord K)
    (h : (t.sealedFixes = false ∧ (sealFixes opts now t).trip.sealedFixes = true) ∨
      (sealFixes opts now t).into ≠ []) :
    (sealFixes opts now t).HasFixes := by
  unfold sealFixes at h ⊢
  simp only at h ⊢
  split
  · rename_i hnil
    rw [if_pos hnil] at h
    rcases h with ⟨h1, h2⟩ | h
    · rw [h1] at h2
      exact absurd h2 (by simp)
    · exact absurd rfl h
  · rename_i hne
    exact hasFixes_foldl (Or.inr (exists_mem_slices hne))

end Chunk

end RoutePlanner.Recorder
