import RoutePlanner.Recorder.Order

/-!
# What a rejected write costs

`seal` changes the trip in memory, and then the write is awaited. When the storage rejects it, the
operation ends there, and the memory stays as sealing left it.

* `sealFixes_into_eq_nil`: when `seal` seals nothing.
* `Kept`: the trip in memory still has what is not durable, under the same next number.
* `rejected_write_keeps_iff`: it does just when the operation sealed nothing, and removed nothing
  that is not durable (`SafeToFail`). A chunk that was sealed is lost with the write that was to
  queue it, and so is its number (`rejected_write_loses`).
-/

namespace RoutePlanner.Recorder

variable {K : Type} [Field K] [LinearOrder K]

/-! ## What is sealed -/

section Seals

variable (opts : RecorderOptions K) (t : TripRecord K)

/-- `ready` of `seal`. -/
def ready : List (TraceFix K) :=
  (t.pending.take (sealablePrefix opts.distanceM t.pending t.head)).filter fun f =>
    clearOf opts.distanceM f.anchor t.anchors

/-- The fixes `seal` leaves pending. -/
def unsealed : List (TraceFix K) :=
  t.pending.drop (sealablePrefix opts.distanceM t.pending t.head)

/-- `sealChunk` takes the chunk. -/
def Takes (c : TraceChunk K) : Prop :=
  t.nextSeq ≤ maxSeq ∧ opts.byteLength (.chunk c) ≤ maxBodyBytes

end Seals

section Seals

variable [FloorRing K] (opts : RecorderOptions K) (t : TripRecord K)

/-- `sealArtifact` seals the artifact. -/
def TakesArtifact (fa : FollowedArtifact K) : Prop :=
  ∃ clipped ∈ clipArtifact opts.distanceM fa.artifact t.anchors,
    Takes opts t ⟨[], [⟨fa.effectiveAt, clipped⟩]⟩

/-- `seal` seals something. -/
def Seals : Prop :=
  (∃ fixes ∈ slices (ready opts t), Takes opts t ⟨fixes, []⟩) ∨
    ready opts t ≠ [] ∧ t.sealedFixes = false ∧ ∃ fa ∈ t.heldArtifacts, TakesArtifact opts t fa

end Seals

section Spec

variable {opts : RecorderOptions K} {now : ℕ → ℤ} {t : TripRecord K} {s : Sealing K}

theorem sealChunk_same {c : TraceChunk K} (h : ¬ Takes opts s.trip c) :
    (sealChunk opts now s c).trip = s.trip ∧ (sealChunk opts now s c).into = s.into := by
  unfold sealChunk
  split_ifs with hseq hbytes
  · exact ⟨rfl, rfl⟩
  · exact ⟨rfl, rfl⟩
  · exact absurd ⟨by omega, by omega⟩ h

theorem sealChunk_takes {c : TraceChunk K} (h : Takes opts s.trip c) :
    (sealChunk opts now s c).into ≠ [] := by
  unfold sealChunk
  rw [if_neg (by have := h.1; omega), if_neg (by have := h.2; omega)]
  simp

theorem sealChunk_grows {c : TraceChunk K} (h : s.into ≠ []) :
    (sealChunk opts now s c).into ≠ [] := by
  rcases sealChunk_cases opts now s c with hc | hc
  · rw [hc]
    exact h
  · rw [hc]
    simp

theorem foldl_grows {α : Type} {f : Sealing K → α → Sealing K}
    (hgrows : ∀ s a, s.into ≠ [] → (f s a).into ≠ []) (l : List α) (h : s.into ≠ []) :
    (l.foldl f s).into ≠ [] := by
  induction l generalizing s with
  | nil => exact h
  | cons a l ih => exact ih (hgrows s a h)

/-- What is sealed one after the other. `P` says what each needs of the trip to be taken. -/
theorem foldl_into_eq_nil {α : Type} {f : Sealing K → α → Sealing K}
    {P : TripRecord K → α → Prop}
    (hsame : ∀ s a, ¬ P s.trip a → (f s a).trip = s.trip ∧ (f s a).into = s.into)
    (htakes : ∀ s a, P s.trip a → (f s a).into ≠ [])
    (hgrows : ∀ s a, s.into ≠ [] → (f s a).into ≠ []) {l : List α} (hs : s.into = []) :
    ((l.foldl f s).into = [] ↔ ∀ a ∈ l, ¬ P s.trip a) ∧
      ((l.foldl f s).into = [] → (l.foldl f s).trip = s.trip) := by
  induction l generalizing s with
  | nil => exact ⟨⟨fun _ a ha => absurd ha List.not_mem_nil, fun _ => hs⟩, fun _ => rfl⟩
  | cons a l ih =>
    rw [List.foldl_cons, List.forall_mem_cons]
    by_cases hP : P s.trip a
    · have hne : (l.foldl f (f s a)).into ≠ [] := foldl_grows hgrows l (htakes s a hP)
      exact ⟨⟨fun h => absurd h hne, fun h => absurd hP h.1⟩, fun h => absurd h hne⟩
    · obtain ⟨htrip, hinto⟩ := hsame s a hP
      obtain ⟨hiff, hkeep⟩ := ih (hinto.trans hs)
      rw [htrip] at hiff hkeep
      exact ⟨⟨fun h => ⟨hP, hiff.mp h⟩, fun h => hiff.mpr h.2⟩, hkeep⟩

variable [FloorRing K]

theorem sealArtifact_same (now : ℕ → ℤ) {fa : FollowedArtifact K}
    (h : ¬ TakesArtifact opts s.trip fa) :
    (sealArtifact opts now s fa).trip = s.trip ∧ (sealArtifact opts now s fa).into = s.into := by
  unfold sealArtifact
  split
  · exact ⟨rfl, rfl⟩
  · rename_i clipped hclip
    exact sealChunk_same fun htakes => h ⟨clipped, hclip, htakes⟩

theorem sealArtifact_takes (now : ℕ → ℤ) {fa : FollowedArtifact K}
    (h : TakesArtifact opts s.trip fa) :
    (sealArtifact opts now s fa).into ≠ [] := by
  obtain ⟨clipped, hclip, htakes⟩ := h
  unfold sealArtifact
  rw [Option.mem_def.mp hclip]
  exact sealChunk_takes htakes

theorem sealArtifact_grows {fa : FollowedArtifact K} (h : s.into ≠ []) :
    (sealArtifact opts now s fa).into ≠ [] := by
  unfold sealArtifact
  split
  · exact h
  · exact sealChunk_grows h

omit [FloorRing K] in
theorem slices_nil : slices ([] : List (TraceFix K)) = [] := by
  simp [slices, maxFixesPerChunk]

omit [FloorRing K] in
/-- The slices, sealed one after the other. -/
theorem slices_into_eq_nil {l : List (List (TraceFix K))} (hs : s.into = []) :
    (l.foldl (fun s fixes => sealChunk opts now s ⟨fixes, []⟩) s).into = [] ↔
      ∀ fixes ∈ l, ¬ Takes opts s.trip ⟨fixes, []⟩ :=
  (foldl_into_eq_nil (P := fun t fixes => Takes opts t ⟨fixes, []⟩)
    (fun _ _ => sealChunk_same) (fun _ _ => sealChunk_takes) (fun _ _ => sealChunk_grows) hs).1

variable (opts now t) in
/-- **When `seal` seals nothing.** -/
theorem sealFixes_into_eq_nil : (sealFixes opts now t).into = [] ↔ ¬ Seals opts t := by
  unfold sealFixes Seals
  simp only
  rw [show (List.filter (fun f => clearOf opts.distanceM f.anchor t.anchors)
    (List.take (sealablePrefix opts.distanceM t.pending t.head) t.pending)) = ready opts t from rfl]
  by_cases hnil : ready opts t = []
  · rw [if_pos hnil, hnil, slices_nil]
    simp
  rw [if_neg hnil]
  by_cases hsealed : t.sealedFixes = true
  · rw [if_pos hsealed, slices_into_eq_nil rfl]
    simp [hsealed, Takes]
  · rw [if_neg hsealed]
    -- first the artifacts held
    generalize hs : (⟨{ t with
      pending := t.pending.drop (sealablePrefix opts.distanceM t.pending t.head)
      lastSealAt := (t.head.map TraceFix.t).getD t.lastSealAt
      sealedFixes := true }, [], false⟩ : Sealing K) = s
    have hartifacts : ∀ fa, TakesArtifact opts s.trip fa ↔ TakesArtifact opts t fa :=
      fun fa => hs ▸ Iff.rfl
    obtain ⟨hiff, hkeep⟩ := foldl_into_eq_nil (l := t.heldArtifacts)
      (f := sealArtifact opts now) (P := TakesArtifact opts) (s := s)
      (fun _ _ => sealArtifact_same now) (fun _ _ => sealArtifact_takes now)
      (fun _ _ => sealArtifact_grows) (hs ▸ rfl)
    by_cases hheld : ∃ fa ∈ t.heldArtifacts, TakesArtifact opts t fa
    · obtain ⟨fa, hfa, htakes⟩ := hheld
      have hne : (t.heldArtifacts.foldl (sealArtifact opts now) s).into ≠ [] :=
        fun h => hiff.mp h fa hfa ((hartifacts fa).mpr htakes)
      refine ⟨fun h => absurd h (foldl_grows (fun _ _ => sealChunk_grows) _ hne), fun h => ?_⟩
      exact absurd (Or.inr ⟨hnil, by simpa using hsealed, fa, hfa, htakes⟩) h
    · have hnone : (t.heldArtifacts.foldl (sealArtifact opts now) s).into = [] :=
        hiff.mpr fun fa hfa htakes => hheld ⟨fa, hfa, (hartifacts fa).mp htakes⟩
      have hseq : (t.heldArtifacts.foldl (sealArtifact opts now) s).trip.nextSeq = t.nextSeq := by
        rw [hkeep hnone, ← hs]
      refine Iff.trans (slices_into_eq_nil ?_) ⟨fun h => ?_, fun h fixes hfixes htakes => ?_⟩
      · exact hnone
      · rintro (⟨fixes, hfixes, htakes⟩ | ⟨-, -, htakes⟩)
        · exact h fixes hfixes ⟨hseq.trans_le htakes.1, htakes.2⟩
        · exact hheld htakes
      · exact h (Or.inl ⟨fixes, hfixes, hseq ▸ htakes.1, htakes.2⟩)

variable (opts now s) in
omit [FloorRing K] in
theorem sealChunk_buffers (c : TraceChunk K) :
    (sealChunk opts now s c).trip.pending = s.trip.pending ∧
      (sealChunk opts now s c).trip.heldArtifacts = s.trip.heldArtifacts := by
  rcases sealChunk_cases opts now s c with h | h
  · rw [h]
    exact ⟨rfl, rfl⟩
  · rw [h]
    exact ⟨rfl, rfl⟩

variable (opts now t) in
/-- What `seal` leaves pending and held. -/
theorem sealFixes_buffers : (sealFixes opts now t).trip.pending = unsealed opts t ∧
    (sealFixes opts now t).trip.heldArtifacts =
      if ready opts t ≠ [] ∧ t.sealedFixes = false then [] else t.heldArtifacts := by
  have hchunks : ∀ (l : List (List (TraceFix K))) (s : Sealing K),
      (l.foldl (fun s fixes => sealChunk opts now s ⟨fixes, []⟩) s).trip.pending = s.trip.pending ∧
        (l.foldl (fun s fixes => sealChunk opts now s ⟨fixes, []⟩) s).trip.heldArtifacts =
          s.trip.heldArtifacts := by
    intro l
    induction l with
    | nil => exact fun s => ⟨rfl, rfl⟩
    | cons fixes l ih =>
      intro s
      obtain ⟨hpending, hheld⟩ := sealChunk_buffers opts now s ⟨fixes, []⟩
      exact ⟨(ih _).1.trans hpending, (ih _).2.trans hheld⟩
  unfold sealFixes
  simp only
  rw [show (List.filter (fun f => clearOf opts.distanceM f.anchor t.anchors)
    (List.take (sealablePrefix opts.distanceM t.pending t.head) t.pending)) = ready opts t from rfl]
  by_cases hnil : ready opts t = []
  · rw [if_pos hnil, if_neg (by simp [hnil])]
    exact ⟨rfl, rfl⟩
  rw [if_neg hnil]
  by_cases hsealed : t.sealedFixes = true
  · rw [if_pos hsealed, if_neg (by simp [hsealed])]
    exact hchunks _ _
  · rw [if_neg hsealed, if_pos ⟨hnil, by simpa using hsealed⟩]
    refine ⟨(hchunks _ _).1.trans ?_, (hchunks _ _).2⟩
    exact (artifacts_order opts now _ t.heldArtifacts).2

end Spec

/-! ## What is durable -/

section Durable

variable (disk : StoredState K) (tripId : String)

/-- The artifacts an item holds. -/
def OutboxItem.artifacts (i : OutboxItem K) : List (FollowedArtifact K) :=
  match i.body with
  | .chunk c => c.artifacts
  | .tripEnd _ => []

/-- The storage has the fix, in the record of the trip or in an item. -/
def FixDurable (f : TraceFix K) : Prop :=
  (∃ t ∈ disk.trips, t.tripId = tripId ∧ f ∈ t.pending) ∨
    ∃ i ∈ disk.outbox, i.key.tripId = tripId ∧ f ∈ i.fixes

/-- The storage has the artifact, in the record of the trip or, clipped, in an item. -/
def ArtifactDurable (fa : FollowedArtifact K) : Prop :=
  (∃ t ∈ disk.trips, t.tripId = tripId ∧ fa ∈ t.heldArtifacts) ∨
    ∃ i ∈ disk.outbox, i.key.tripId = tripId ∧
      fa.effectiveAt ∈ i.artifacts.map FollowedArtifact.effectiveAt

end Durable

/-- `t'` still has what `t` has and the storage has not, under the same next number. -/
structure Keeps (disk : StoredState K) (t t' : TripRecord K) : Prop where
  tripId : t'.tripId = t.tripId
  fixes : ∀ f ∈ t.pending, FixDurable disk t.tripId f ∨ f ∈ t'.pending
  artifacts : ∀ fa ∈ t.heldArtifacts, ArtifactDurable disk t.tripId fa ∨ fa ∈ t'.heldArtifacts
  nextSeq : t'.nextSeq = t.nextSeq

/-- So has the trip in memory. -/
def Kept (disk : StoredState K) (t : Option (TripRecord K)) (mem : Mem K) : Prop :=
  ∀ t₀ ∈ t, ∃ t' ∈ mem.trip, Keeps disk t₀ t'

section Keeps

variable [FloorRing K] {opts : RecorderOptions K} {now : ℕ → ℤ} {disk : StoredState K}
  {t : TripRecord K}

omit [FloorRing K] in
theorem Keeps.refl (disk : StoredState K) (t : TripRecord K) : Keeps disk t t :=
  ⟨rfl, fun _ hf => Or.inr hf, fun _ hfa => Or.inr hfa, rfl⟩

/-- `seal` seals nothing, and removes nothing that is not durable. -/
structure SafeSeal (opts : RecorderOptions K) (disk : StoredState K) (t : TripRecord K) :
    Prop where
  seals : ¬ Seals opts t
  fixes : ∀ f ∈ t.pending, FixDurable disk t.tripId f ∨ f ∈ unsealed opts t
  artifacts : ready opts t ≠ [] → t.sealedFixes = false →
    ∀ fa ∈ t.heldArtifacts, ArtifactDurable disk t.tripId fa

/-- **What `seal` keeps.** -/
theorem keeps_sealFixes : Keeps disk t (sealFixes opts now t).trip ↔ SafeSeal opts disk t := by
  have hnum : Numbered now t (sealFixes opts now t) := sealFixes_numbered t
  obtain ⟨hpending, hheld⟩ := sealFixes_buffers opts now t
  have hseq : (sealFixes opts now t).trip.nextSeq = t.nextSeq ↔ ¬ Seals opts t := by
    rw [← sealFixes_into_eq_nil opts now t, hnum.nextSeq, ← List.length_eq_zero_iff]
    omega
  constructor
  · intro h
    refine ⟨hseq.mp h.nextSeq, fun f hf => hpending ▸ h.fixes f hf, fun hne hs fa hfa => ?_⟩
    refine (h.artifacts fa hfa).resolve_right ?_
    rw [hheld, if_pos ⟨hne, hs⟩]
    exact List.not_mem_nil
  · intro h
    refine ⟨hnum.tripId, fun f hf => hpending ▸ h.fixes f hf, fun fa hfa => ?_,
      hseq.mpr h.seals⟩
    rw [hheld]
    by_cases hcond : ready opts t ≠ [] ∧ t.sealedFixes = false
    · exact Or.inl (h.artifacts hcond.1 hcond.2 fa hfa)
    · rw [if_neg hcond]
      exact Or.inr hfa

/-- **What `sealArtifact` keeps.** -/
theorem keeps_sealArtifact {fa : FollowedArtifact K} :
    Keeps disk t (sealArtifact opts now ⟨t, [], false⟩ fa).trip ↔ ¬ TakesArtifact opts t fa := by
  have hnil : Numbered now t (⟨t, [], false⟩ : Sealing K) := numbered_nil rfl rfl rfl
  have hnum : Numbered now t (sealArtifact opts now ⟨t, [], false⟩ fa) := hnil.sealArtifact fa
  constructor
  · intro h htakes
    have hpos : 0 < (sealArtifact opts now ⟨t, [], false⟩ fa).into.length :=
      List.length_pos_of_ne_nil (sealArtifact_takes now htakes)
    have hseq := hnum.nextSeq.symm.trans h.nextSeq
    omega
  · intro h
    have hsame : (sealArtifact opts now ⟨t, [], false⟩ fa).trip = t := (sealArtifact_same now h).1
    rw [hsame]
    exact Keeps.refl disk t

end Keeps

/-! ## Operations whose write is rejected -/

section Operations

variable [FloorRing K] (opts : RecorderOptions K) (env : Env K) (disk : StoredState K)

/-- The step is one of `addFix`, `reroute`, `startTrip`, `endTrip` or `setEnabled`, and may call
`storage.apply`. -/
def Mem.operates (mem : Mem K) : Bool :=
  match mem.cont, mem.queue with
  | .idle, .addFix _ :: _ | .idle, .reroute _ :: _ | .idle, .startTrip _ _ :: _
  | .idle, .endTrip _ :: _ | .idle, .setEnabled _ :: _ => true
  | .finalizing _ _ (.startTrip _ _) true, _ | .enabling _ true, _ => true
  | _, _ => false

/-- The trip the step has in hand when it seals and writes, with the fix it accepted or the artifact
it holds. -/
def Mem.inHand (mem : Mem K) : Option (TripRecord K) :=
  match mem.cont, mem.queue with
  | .idle, .addFix raw :: _ => mem.trip.bind fun t => (toTraceFix raw).map (acceptFix opts t)
  | .idle, .reroute route :: _ => mem.trip.map fun t =>
    let fa := rerouted env t route
    let t' := followRoute t route fa.effectiveAt
    if t.sealedFixes = true then t'
    else { t' with heldArtifacts := t'.heldArtifacts ++ [fa] }
  | .idle, .startTrip route destination :: _ =>
    some (mem.trip.getD (newTrip env route destination))
  | .finalizing _ _ (.startTrip route destination) true, _ => some (newTrip env route destination)
  | _, _ => mem.trip

/-- The trip the step calls `seal` with. -/
def Mem.sealing (mem : Mem K) : Option (TripRecord K) :=
  match mem.cont, mem.queue with
  | .idle, .addFix raw :: _ => mem.trip.bind fun t => (toTraceFix raw).bind fun fix =>
    if sealIntervalMs ≤ fix.t - t.lastSealAt then some (acceptFix opts t fix) else none
  | .idle, .startTrip _ _ :: _ | .idle, .endTrip _ :: _ => mem.trip
  | .enabling false true, _ => mem.trip
  | _, _ => none

/-- The trip and the artifact `reroute` calls `sealArtifact` with. -/
def Mem.clipping (mem : Mem K) : Option (TripRecord K × FollowedArtifact K) :=
  match mem.cont, mem.queue with
  | .idle, .reroute route :: _ => mem.trip.bind fun t =>
    let fa := rerouted env t route
    if t.sealedFixes = true then some (followRoute t route fa.effectiveAt, fa) else none
  | _, _ => none

/-- The write of the step may be rejected: nothing is sealed, and nothing removed that is not
durable. -/
def SafeToFail (mem : Mem K) : Prop :=
  (∀ t ∈ mem.sealing opts, SafeSeal opts disk t) ∧
    ∀ p ∈ mem.clipping env, ¬ TakesArtifact opts p.1 p.2

variable {opts env disk} {mem : Mem K}

omit [FloorRing K] in
theorem not_apply_nil {out : Out K} (hout : out.2 = []) :
    ¬ ∃ ops, Effect.apply ops false ∈ out.2 := by
  rintro ⟨ops, h⟩
  rw [hout] at h
  exact List.not_mem_nil h

omit [FloorRing K] in
theorem flush_apply (ops : StorageOps K) (ok : Bool) :
    Effect.apply ops ok ∉ (flush opts mem).2 := by
  unfold flush drainLoop
  split
  · split
    · exact List.not_mem_nil
    · split <;> simp
  · exact List.not_mem_nil

/-- What `addFix` leaves in memory when it writes. -/
theorem addFix_writes {raw : RawFix K}
    (hw : ∃ ops, Effect.apply ops false ∈ (addFix opts env mem raw).2) :
    ∃ t fix, mem.trip = some t ∧ toTraceFix raw = some fix ∧
      (addFix opts env mem raw).1.trip =
        some (if sealIntervalMs ≤ fix.t - t.lastSealAt then
          (sealFixes opts env.stamp (acceptFix opts t fix)).trip
        else acceptFix opts t fix) := by
  unfold addFix at hw ⊢
  split at hw
  · exact absurd hw (not_apply_nil rfl)
  · rename_i t ht
    rw [ht]
    simp only
    split at hw
    · exact absurd hw (not_apply_nil rfl)
    · rename_i hrec
      rw [if_neg hrec]
      split at hw
      · exact absurd hw (not_apply_nil rfl)
      · rename_i fix hfix
        rw [hfix]
        split at hw
        · exact absurd hw (not_apply_nil rfl)
        · rename_i hfollows
          rw [if_neg hfollows]
          refine ⟨t, fix, rfl, rfl, ?_⟩
          by_cases hi : sealIntervalMs ≤ fix.t - t.lastSealAt
          · simp [acceptFix, hi]
          · simp [acceptFix, hi]

/-- What `reroute` leaves in memory when it writes. -/
theorem reroute_writes {route : RouteAlternative K}
    (hw : ∃ ops, Effect.apply ops false ∈ (reroute opts env mem route).2) :
    ∃ t, mem.trip = some t ∧ (reroute opts env mem route).1.trip =
      some (if t.sealedFixes = true then
        (sealArtifact opts env.stamp
          ⟨followRoute t route (rerouted env t route).effectiveAt, [], false⟩
          (rerouted env t route)).trip
      else { followRoute t route (rerouted env t route).effectiveAt with
        heldArtifacts := t.heldArtifacts ++ [rerouted env t route] }) := by
  unfold reroute at hw ⊢
  split at hw
  · exact absurd hw (not_apply_nil rfl)
  · rename_i t ht
    rw [ht]
    simp only
    split at hw
    · exact absurd hw (not_apply_nil rfl)
    · rename_i hrec
      rw [if_neg hrec]
      refine ⟨t, rfl, ?_⟩
      by_cases hs : t.sealedFixes = true
      · simp [followRoute, rerouted, hs]
      · simp [followRoute, rerouted, hs]

omit [FloorRing K] in
/-- What `startTrip` leaves in memory when it writes the new trip. -/
theorem startTripOpen_writes {route : RouteAlternative K} {destination : Option (LatLon K)}
    (hw : ∃ ops, Effect.apply ops false ∈ (startTripOpen opts env mem route destination).2) :
    (startTripOpen opts env mem route destination).1.trip =
      some (newTrip env route destination) := by
  unfold startTripOpen at hw ⊢
  split
  · rename_i hrec
    rw [if_pos hrec] at hw
    exact absurd hw (not_apply_nil rfl)
  · rfl

omit [FloorRing K] in
/-- One trip in hand, and one in memory. -/
theorem kept_thrown {t t' : TripRecord K} (ht : mem.trip = some t') :
    Kept disk (some t) mem.thrown.1 ↔ Keeps disk t t' := by
  have ht' : mem.thrown.1.trip = some t' := ht
  unfold Kept
  simp [ht']

/-- A step that seals nothing: the trip in hand is the one in memory. -/
theorem kept_iff_unsealed {mem' : Mem K} {trip : Option (TripRecord K)}
    (hhand : mem.inHand opts env = trip) (hout : mem'.trip = trip)
    (hsealing : mem.sealing opts = none) (hclip : mem.clipping env = none) :
    Kept disk (mem.inHand opts env) mem'.thrown.1 ↔ SafeToFail opts env disk mem := by
  have hkept : Kept disk (mem.inHand opts env) mem'.thrown.1 := by
    rw [hhand]
    exact fun t ht => ⟨t, hout ▸ ht, Keeps.refl disk t⟩
  have hsafe : SafeToFail opts env disk mem := by
    unfold SafeToFail
    rw [hsealing, hclip]
    simp
  exact iff_of_true hkept hsafe

/-- A step that calls `seal`. -/
theorem kept_iff_sealed {mem' : Mem K} {now : ℕ → ℤ} {t : TripRecord K}
    (hhand : mem.inHand opts env = some t) (hout : mem'.trip = some (sealFixes opts now t).trip)
    (hsealing : mem.sealing opts = some t) (hclip : mem.clipping env = none) :
    Kept disk (mem.inHand opts env) mem'.thrown.1 ↔ SafeToFail opts env disk mem := by
  unfold SafeToFail
  rw [hhand, hsealing, hclip]
  refine (kept_thrown hout).trans (keeps_sealFixes.trans ?_)
  simp

theorem opStep_start {op : Op K} {rest : List (Op K)} (hc : mem.cont = .idle)
    (hq : mem.queue = op :: rest) :
    opStep opts env disk mem = start opts env disk { mem with queue := rest } op := by
  unfold opStep
  rw [hc, hq]

/-- `addFix`. -/
theorem addFix_keeps_iff {raw : RawFix K} {rest : List (Op K)}
    (hc : mem.cont = .idle) (hq : mem.queue = .addFix raw :: rest)
    (hw : ∃ ops, Effect.apply ops false ∈ (opStep opts env disk mem).2) :
    Kept disk (mem.inHand opts env) (opStep opts env disk mem).1.thrown.1 ↔
      SafeToFail opts env disk mem := by
  rw [opStep_start hc hq] at hw ⊢
  obtain ⟨t, fix, ht, hfix, hout⟩ := addFix_writes hw
  have ht : mem.trip = some t := ht
  have hhand : mem.inHand opts env = some (acceptFix opts t fix) := by
    simp [Mem.inHand, hc, hq, ht, hfix]
  have hsealing : mem.sealing opts =
      if sealIntervalMs ≤ fix.t - t.lastSealAt then some (acceptFix opts t fix) else none := by
    simp [Mem.sealing, hc, hq, ht, hfix]
  have hclip : mem.clipping env = none := by simp [Mem.clipping, hc, hq]
  by_cases hi : sealIntervalMs ≤ fix.t - t.lastSealAt
  · rw [if_pos hi] at hout hsealing
    exact kept_iff_sealed hhand hout hsealing hclip
  · rw [if_neg hi] at hout hsealing
    exact kept_iff_unsealed hhand hout hsealing hclip

/-- `reroute`. -/
theorem reroute_keeps_iff {route : RouteAlternative K} {rest : List (Op K)}
    (hc : mem.cont = .idle) (hq : mem.queue = .reroute route :: rest)
    (hw : ∃ ops, Effect.apply ops false ∈ (opStep opts env disk mem).2) :
    Kept disk (mem.inHand opts env) (opStep opts env disk mem).1.thrown.1 ↔
      SafeToFail opts env disk mem := by
  rw [opStep_start hc hq] at hw ⊢
  obtain ⟨t, ht, hout⟩ := reroute_writes hw
  have ht : mem.trip = some t := ht
  have hsealing : mem.sealing opts = none := by simp [Mem.sealing, hc, hq]
  by_cases hs : t.sealedFixes = true
  · -- the artifact is sealed on its own
    have hhand : mem.inHand opts env =
        some (followRoute t route (rerouted env t route).effectiveAt) := by
      simp [Mem.inHand, hc, hq, ht, hs]
    have hclip : mem.clipping env = some
        (followRoute t route (rerouted env t route).effectiveAt, rerouted env t route) := by
      simp [Mem.clipping, hc, hq, ht, hs]
    rw [if_pos hs] at hout
    unfold SafeToFail
    rw [hhand, hsealing, hclip]
    refine (kept_thrown hout).trans (keeps_sealArtifact.trans ?_)
    simp
  · have hhand : mem.inHand opts env =
        some { followRoute t route (rerouted env t route).effectiveAt with
          heldArtifacts := t.heldArtifacts ++ [rerouted env t route] } := by
      simp [Mem.inHand, hc, hq, ht, hs, followRoute]
    have hclip : mem.clipping env = none := by simp [Mem.clipping, hc, hq, ht, hs]
    rw [if_neg hs] at hout
    exact kept_iff_unsealed hhand hout hsealing hclip

/-- `startTrip`. -/
theorem startTrip_keeps_iff {route : RouteAlternative K} {destination : Option (LatLon K)}
    {rest : List (Op K)}
    (hc : mem.cont = .idle) (hq : mem.queue = .startTrip route destination :: rest)
    (hw : ∃ ops, Effect.apply ops false ∈ (opStep opts env disk mem).2) :
    Kept disk (mem.inHand opts env) (opStep opts env disk mem).1.thrown.1 ↔
      SafeToFail opts env disk mem := by
  rw [opStep_start hc hq] at hw ⊢
  have hclip : mem.clipping env = none := by simp [Mem.clipping, hc, hq]
  rcases Option.eq_none_or_eq_some mem.trip with ht | ⟨t, ht⟩
  · have hhand : mem.inHand opts env = some (newTrip env route destination) := by
      simp [Mem.inHand, hc, hq, ht]
    have hsealing : mem.sealing opts = none := by simp [Mem.sealing, hc, hq, ht]
    have hstart : start opts env disk { mem with queue := rest } (.startTrip route destination) =
        startTripOpen opts env { mem with queue := rest } route destination := by
      simp [start, ht]
    rw [hstart] at hw ⊢
    exact kept_iff_unsealed hhand (startTripOpen_writes hw) hsealing hclip
  · have hhand : mem.inHand opts env = some t := by simp [Mem.inHand, hc, hq, ht]
    have hsealing : mem.sealing opts = some t := by simp [Mem.sealing, hc, hq, ht]
    have hout : (start opts env disk { mem with queue := rest }
        (.startTrip route destination)).1.trip = some (sealFixes opts env.stamp t).trip := by
      simp [start, ht, finalizeOpen, finalize]
    exact kept_iff_sealed hhand hout hsealing hclip

/-- `endTrip`. -/
theorem endTrip_keeps_iff {arrived : Bool} {rest : List (Op K)}
    (hc : mem.cont = .idle) (hq : mem.queue = .endTrip arrived :: rest) :
    Kept disk (mem.inHand opts env) (opStep opts env disk mem).1.thrown.1 ↔
      SafeToFail opts env disk mem := by
  rw [opStep_start hc hq]
  have hclip : mem.clipping env = none := by simp [Mem.clipping, hc, hq]
  have hhand : mem.inHand opts env = mem.trip := by simp [Mem.inHand, hc, hq]
  have hsealing : mem.sealing opts = mem.trip := by simp [Mem.sealing, hc, hq]
  rcases Option.eq_none_or_eq_some mem.trip with ht | ⟨t, ht⟩
  · have hout : (start opts env disk { mem with queue := rest } (.endTrip arrived)).1.trip =
        none := by
      simp [start, ht, Mem.done]
    exact kept_iff_unsealed (hhand.trans ht) hout (hsealing.trans ht) hclip
  · have hout : (start opts env disk { mem with queue := rest } (.endTrip arrived)).1.trip =
        some (sealFixes opts env.stamp t).trip := by
      simp [start, ht, finalizeOpen, finalize]
    exact kept_iff_sealed (hhand.trans ht) hout (hsealing.trans ht) hclip

/-- `setEnabled`. -/
theorem setEnabled_keeps_iff {enabled : Bool} {rest : List (Op K)}
    (hc : mem.cont = .idle) (hq : mem.queue = .setEnabled enabled :: rest) :
    Kept disk (mem.inHand opts env) (opStep opts env disk mem).1.thrown.1 ↔
      SafeToFail opts env disk mem := by
  rw [opStep_start hc hq]
  have hclip : mem.clipping env = none := by simp [Mem.clipping, hc, hq]
  have hhand : mem.inHand opts env = mem.trip := by simp [Mem.inHand, hc, hq]
  have hsealing : mem.sealing opts = none := by simp [Mem.sealing, hc, hq]
  have hout : (start opts env disk { mem with queue := rest } (.setEnabled enabled)).1.trip =
      mem.trip := by
    unfold start
    simp only
    split
    · rfl
    · rfl
  exact kept_iff_unsealed hhand hout hsealing hclip

/-- `startTrip`, once the open trip has ended. -/
theorem startTrip_rest_keeps_iff {tripId : String} {items : List (OutboxItem K)}
    {route : RouteAlternative K} {destination : Option (LatLon K)}
    (hc : mem.cont = .finalizing tripId items (.startTrip route destination) true)
    (hw : ∃ ops, Effect.apply ops false ∈ (opStep opts env disk mem).2) :
    Kept disk (mem.inHand opts env) (opStep opts env disk mem).1.thrown.1 ↔
      SafeToFail opts env disk mem := by
  have hhand : mem.inHand opts env = some (newTrip env route destination) := by
    simp [Mem.inHand, hc]
  have hclip : mem.clipping env = none := by simp [Mem.clipping, hc]
  have hsealing : mem.sealing opts = none := by simp [Mem.sealing, hc]
  have hstep : opStep opts env disk mem = startTripOpen opts env (Mem.enqueue { mem with
      trip := mem.trip.filter fun t => decide (t.tripId ≠ tripId) } items) route destination := by
    simp [opStep, hc, resume, finalized]
  rw [hstep] at hw ⊢
  exact kept_iff_unsealed hhand (startTripOpen_writes hw) hsealing hclip

/-- `setEnabled`, once the settings are stored. -/
theorem setEnabled_rest_keeps_iff {enabled : Bool}
    (hc : mem.cont = .enabling enabled true)
    (hw : ∃ ops, Effect.apply ops false ∈ (opStep opts env disk mem).2) :
    Kept disk (mem.inHand opts env) (opStep opts env disk mem).1.thrown.1 ↔
      SafeToFail opts env disk mem := by
  have hclip : mem.clipping env = none := by simp [Mem.clipping, hc]
  have hhand : mem.inHand opts env = mem.trip := by simp [Mem.inHand, hc]
  have hstep : opStep opts env disk mem = resume opts env mem (.enabling enabled true) := by
    simp [opStep, hc]
  rw [hstep] at hw ⊢
  -- without a trip to end, or when recording goes on, only `flush` is left, which writes nothing
  rcases Option.eq_none_or_eq_some mem.trip with ht | ⟨t, ht⟩
  · have hflush : resume opts env mem (.enabling enabled true) =
        flush opts { mem with cont := .idle } := by
      cases enabled <;> simp [resume, ht]
    rw [hflush] at hw
    exact absurd hw fun ⟨ops, h⟩ => flush_apply ops false h
  · cases enabled with
    | true => exact absurd hw fun ⟨ops, h⟩ => flush_apply ops false h
    | false =>
      have hsealing : mem.sealing opts = some t := by simp [Mem.sealing, hc, ht]
      have hout : (resume opts env mem (.enabling false true)).1.trip =
          some (sealFixes opts env.stamp t).trip := by
        simp [resume, ht, finalizeOpen, finalize]
      exact kept_iff_sealed (hhand.trans ht) hout hsealing hclip

/-- **A rejected write costs what was sealed.** After the rejection, the trip in memory still has
every fix and every held artifact that is not durable, and its next number, if and only if the step
was safe to fail. -/
theorem rejected_write_keeps_iff (opts : RecorderOptions K) (env : Env K) (disk : StoredState K)
    (mem : Mem K) (hop : mem.operates = true)
    (hw : ∃ ops, Effect.apply ops false ∈ (opStep opts env disk mem).2) :
    Kept disk (mem.inHand opts env) (opStep opts env disk mem).1.thrown.1 ↔
      SafeToFail opts env disk mem := by
  unfold Mem.operates at hop
  split at hop
  · rename_i hc hq
    exact addFix_keeps_iff hc hq hw
  · rename_i hc hq
    exact reroute_keeps_iff hc hq hw
  · rename_i hc hq
    exact startTrip_keeps_iff hc hq hw
  · rename_i hc hq
    exact endTrip_keeps_iff hc hq
  · rename_i hc hq
    exact setEnabled_keeps_iff hc hq
  · rename_i hc
    exact startTrip_rest_keeps_iff hc hw
  · rename_i hc
    exact setEnabled_rest_keeps_iff hc hw
  · cases hop

end Operations

/-! ## A ride on a full disk -/

section Ride

/-- The effect is a rejected write. -/
def Effect.rejects : Effect K → Bool
  | .apply _ false => true
  | _ => false

theorem exists_rejects_iff {L : List (Effect K)} :
    (∃ ops, Effect.apply ops false ∈ L) ↔ L.any Effect.rejects = true := by
  rw [List.any_eq_true]
  constructor
  · exact fun ⟨ops, h⟩ => ⟨_, h, rfl⟩
  · rintro ⟨e, he, hr⟩
    unfold Effect.rejects at hr
    split at hr
    · exact ⟨_, he⟩
    · cases hr

instance decExistsRejects (L : List (Effect K)) :
    Decidable (∃ ops, Effect.apply ops false ∈ L) :=
  decidable_of_iff _ exists_rejects_iff.symm

instance decKeeps (disk : StoredState K) (t t' : TripRecord K) : Decidable (Keeps disk t t') :=
  have : ∀ f, Decidable (FixDurable disk t.tripId f) := fun f => inferInstanceAs (Decidable
    ((∃ r ∈ disk.trips, r.tripId = t.tripId ∧ f ∈ r.pending) ∨
      ∃ i ∈ disk.outbox, i.key.tripId = t.tripId ∧ f ∈ i.fixes))
  have : ∀ fa, Decidable (ArtifactDurable disk t.tripId fa) := fun fa => inferInstanceAs (Decidable
    ((∃ r ∈ disk.trips, r.tripId = t.tripId ∧ fa ∈ r.heldArtifacts) ∨
      ∃ i ∈ disk.outbox, i.key.tripId = t.tripId ∧
        fa.effectiveAt ∈ i.artifacts.map FollowedArtifact.effectiveAt))
  decidable_of_iff (t'.tripId = t.tripId ∧
    (∀ f ∈ t.pending, FixDurable disk t.tripId f ∨ f ∈ t'.pending) ∧
    (∀ fa ∈ t.heldArtifacts, ArtifactDurable disk t.tripId fa ∨ fa ∈ t'.heldArtifacts) ∧
    t'.nextSeq = t.nextSeq)
    ⟨fun ⟨h1, h2, h3, h4⟩ => ⟨h1, h2, h3, h4⟩, fun ⟨h1, h2, h3, h4⟩ => ⟨h1, h2, h3, h4⟩⟩

instance decKept (disk : StoredState K) (t : Option (TripRecord K)) (mem : Mem K) :
    Decidable (Kept disk t mem) :=
  inferInstanceAs (Decidable (∀ t₀ ∈ t, ∃ t' ∈ mem.trip, Keeps disk t₀ t'))

/-- The storage takes no more. -/
def fullEnv : Env ℚ := { nextEnv with ok := false }

/-- A fix of a trip under way is accepted, and not stored. Then the fix arrives that has the trip
sealed. -/
def rideFull : List (Event ℚ) :=
  .launch :: rideOn (.optIn "token") 4 ++
    [.call (.startTrip shortRoute none), .opStep rideEnv, .opStep nextEnv] ++
    rideOn (.addFix (rideFix 0 0)) 2 ++
    [.call (.addFix (rideFix 60000 (5 / 1000))), .opStep fullEnv, .opStep nextEnv,
      .call (.addFix (rideFix 125000 (9 / 1000)))]

/-- The times of what is pending, and the next number. -/
def TripRecord.left (t : TripRecord K) : List ℤ × ℕ := (t.pending.map TraceFix.t, t.nextSeq)

/-- The fix that was not stored is sealed from memory, and a number is used up. -/
theorem rejected_write_loses :
    ∃ mem mem' disk, (run rideOpts rideFull).mem = some mem ∧ mem.operates = true ∧
      disk = (run rideOpts rideFull).disk ∧ mem' = (opStep rideOpts fullEnv disk mem).1.thrown.1 ∧
      (∃ ops, Effect.apply ops false ∈ (opStep rideOpts fullEnv disk mem).2) ∧
      (mem.inHand rideOpts fullEnv).map TripRecord.left = some ([60000, 125000], 0) ∧
      mem'.trip.map TripRecord.left = some ([125000], 1) ∧
      disk.trips.map TripRecord.left = [([], 0)] ∧ disk.outbox = [] ∧
      ¬ Kept disk (mem.inHand rideOpts fullEnv) mem' := by
  have h : (run rideOpts rideFull).mem.any (fun mem => decide (mem.operates = true ∧
      (∃ ops, Effect.apply ops false ∈
        (opStep rideOpts fullEnv (run rideOpts rideFull).disk mem).2) ∧
      (mem.inHand rideOpts fullEnv).map TripRecord.left = some ([60000, 125000], 0) ∧
      (opStep rideOpts fullEnv (run rideOpts rideFull).disk mem).1.thrown.1.trip.map
        TripRecord.left = some ([125000], 1) ∧
      (run rideOpts rideFull).disk.trips.map TripRecord.left = [([], 0)] ∧
      (run rideOpts rideFull).disk.outbox = [] ∧
      ¬ Kept (run rideOpts rideFull).disk (mem.inHand rideOpts fullEnv)
        (opStep rideOpts fullEnv (run rideOpts rideFull).disk mem).1.thrown.1)) = true := by
    decide +kernel
  obtain ⟨mem, hmem, h⟩ := (Option.any_eq_true _ _).mp h
  obtain ⟨hop, hrest⟩ := of_decide_eq_true h
  exact ⟨mem, _, _, hmem, hop, rfl, rfl, hrest⟩

/-- A recorder whose trip has just started, and its first fix. -/
def rideFirst : Mem ℚ :=
  { Mem.init with
    settings := some ⟨"token", "tester", true, false⟩
    trip := some (newTrip rideEnv shortRoute none)
    queue := [.addFix (rideFix 0 0)] }

theorem rejected_write_keeps_first :
    Kept .empty (rideFirst.inHand rideOpts fullEnv)
        (opStep rideOpts fullEnv .empty rideFirst).1.thrown.1 ∧
      SafeToFail rideOpts fullEnv .empty rideFirst := by
  have hkept : Kept .empty (rideFirst.inHand rideOpts fullEnv)
      (opStep rideOpts fullEnv .empty rideFirst).1.thrown.1 := by decide +kernel
  exact ⟨hkept, (rejected_write_keeps_iff rideOpts fullEnv .empty rideFirst (by decide +kernel)
    (by decide +kernel)).mp hkept⟩

end Ride

end RoutePlanner.Recorder
