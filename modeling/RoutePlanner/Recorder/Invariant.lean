import RoutePlanner.Recorder.Machine

/-!
# What the recorder owes to its log

The invariant of a run speaks about the log. `EffectOk` says what each entry owes to the entries
before it; `MemOk` and `DiskOk` say what the memory and the storage owe to the log, so that the next
entries can be as they should be.

* A trip is `Known` if its pending fixes were accepted for it and the artifacts it holds are routes
  it followed, and `Backed` if, once it is marked as sealing, a chunk of its fixes was queued
  (`Covered`). A trip that is kept is both (`TripOk`).
* A write that fails leaves the trip in memory marked but not backed. It stays so only until the
  operation learns of the rejection (`Cont.failed`), or the kill.

Main results:
* `drainStep_ok`: the upload pass keeps the invariant.
* `effectOk_sealed`, `stepOk_sealed`: so do sealing a trip and the write after it.
-/

namespace RoutePlanner.Recorder

open RoutePlanner.Lib

variable {K : Type} [Field K] [LinearOrder K]

/-! ## What a log says -/

/-- `p` is outside the circle of `a`, with and without the uncertainty of the two. -/
def Apart (opts : RecorderOptions K) (p a : Anchor K) : Prop :=
  trimM ≤ separationM opts.distanceM p a ∧ trimM ≤ opts.distanceM p.toLatLon a.toLatLon

/-- What a chunk sealed from `t`, after `L` has happened, may hold: accepted fixes, and routes the
trip had followed, each clipped at the anchors and clear of its own two ends. -/
structure ChunkPrivate [FloorRing K] (opts : RecorderOptions K) (L : List (Effect K))
    (t : TripRecord K) (c : TraceChunk K) : Prop where
  accepted : ∀ f ∈ c.fixes, Effect.accept t.tripId f ∈ L
  fixes : ∀ f ∈ c.fixes, ∀ a ∈ t.anchors, Apart opts f.anchor a
  head : ∀ f ∈ c.fixes, ∃ h, t.head = some h ∧ Apart opts f.anchor h.anchor
  artifacts : ∀ fa ∈ c.artifacts, ∃ route, Effect.follow t.tripId route ∈ L ∧
    clipArtifact opts.distanceM route t.anchors = some fa.artifact ∧
    ∀ x ∈ fa.artifact.places, (∀ a ∈ t.anchors, Apart opts x.anchor a) ∧
      ∀ e ∈ route.ends, Apart opts x.anchor e.anchor

/-- A chunk is an item that was sealed from a trip, which had its id. -/
def SealedIn (L : List (Effect K)) (i : OutboxItem K) : Prop :=
  ∀ c, i.body = .chunk c → ∃ t s, Effect.sealed t s ∈ L ∧ t.tripId = i.key.tripId ∧ i ∈ s.into

/-- An item was put in the outbox. -/
def Put (L : List (Effect K)) (i : OutboxItem K) : Prop :=
  ∃ ops ok, Effect.apply ops ok ∈ L ∧ i ∈ ops.putOutbox

/-- A chunk of the trip's fixes is among the items. -/
def HasFixChunk (items : List (OutboxItem K)) (tripId : String) : Prop :=
  ∃ i ∈ items, i.key.tripId = tripId ∧ i.IsFixChunk

/-- A chunk of the trip's fixes was queued by a write that took effect. -/
def Queued (L : List (Effect K)) (tripId : String) : Prop :=
  ∃ ops, Effect.apply ops true ∈ L ∧ HasFixChunk ops.putOutbox tripId

/-- A chunk of the trip was refused at the limits. -/
def Refused (L : List (Effect K)) (tripId : String) : Prop :=
  ∃ t s, Effect.sealed t s ∈ L ∧ t.tripId = tripId ∧ s.refused = true

/-- A chunk of the trip's fixes was queued, unless a write was rejected or the trip has reached the
limits. -/
def Covered (L : List (Effect K)) (tripId : String) : Prop :=
  Effect.rejected ∈ L ∨ Refused L tripId ∨ Queued L tripId

/-- What a trip holds has happened. -/
structure Known (L : List (Effect K)) (t : TripRecord K) : Prop where
  pending : ∀ f ∈ t.pending, Effect.accept t.tripId f ∈ L
  held : ∀ fa ∈ t.heldArtifacts, Effect.follow t.tripId fa.artifact ∈ L

/-- A trip that is sealing has a chunk of fixes queued. -/
def Backed (L : List (Effect K)) (t : TripRecord K) : Prop :=
  t.sealedFixes = true → Covered L t.tripId

/-- A trip as it is kept. -/
structure TripOk (L : List (Effect K)) (t : TripRecord K) : Prop where
  known : Known L t
  backed : Backed L t

section Mono

variable {L L' : List (Effect K)} {t : TripRecord K} {i : OutboxItem K} {tripId : String}

theorem Put.mono (hL : L ⊆ L') (h : Put L i) : Put L' i :=
  have ⟨ops, ok, hmem, hi⟩ := h
  ⟨ops, ok, hL hmem, hi⟩

theorem Covered.mono (hL : L ⊆ L') (h : Covered L tripId) : Covered L' tripId := by
  rcases h with h | ⟨t, s, h, ht, hs⟩ | ⟨ops, h, hops⟩
  · exact Or.inl (hL h)
  · exact Or.inr (Or.inl ⟨t, s, hL h, ht, hs⟩)
  · exact Or.inr (Or.inr ⟨ops, hL h, hops⟩)

theorem Known.mono (hL : L ⊆ L') (h : Known L t) : Known L' t :=
  ⟨fun f hf => hL (h.pending f hf), fun fa hfa => hL (h.held fa hfa)⟩

theorem Backed.mono (hL : L ⊆ L') (h : Backed L t) : Backed L' t :=
  fun hs => (h hs).mono hL

theorem TripOk.mono (hL : L ⊆ L') (h : TripOk L t) : TripOk L' t :=
  ⟨h.known.mono hL, h.backed.mono hL⟩

end Mono

/-! ## The invariant -/

/-- What an entry of the log owes to the entries before it. -/
def EffectOk [FloorRing K] (opts : RecorderOptions K) (L : List (Effect K)) : Effect K → Prop
  | .sealed t s => ∀ i ∈ s.into, i.key.tripId = t.tripId ∧
      ∃ c, i.body = .chunk c ∧ ChunkPrivate opts L t c
  | .apply ops ok =>
    (∀ t ∈ ops.putTrips, Known L t ∧ (ok = true → Backed (L ++ [.apply ops ok]) t)) ∧
    (∀ i ∈ ops.putOutbox, SealedIn L i) ∧
    (ok = true → ∀ i ∈ ops.putOutbox, i.IsArtifactChunk →
      Covered L i.key.tripId ∨ HasFixChunk ops.putOutbox i.key.tripId)
  | .send i _ => Put L i
  | _ => True

/-- The items an operation holds while it is suspended. -/
def Cont.items : Cont K → List (OutboxItem K)
  | .initLoaded (some state) => state.outbox
  | .finalizing _ items _ _ => items
  | .queued items _ => items
  | _ => []

/-- The trips `init` has yet to finalize. -/
def After.trips : After K → List (TripRecord K)
  | .initTrips rest => rest
  | _ => []

/-- The trips an operation holds while it is suspended. -/
def Cont.trips : Cont K → List (TripRecord K)
  | .initLoaded (some state) => state.trips
  | .finalizing _ _ next _ => next.trips
  | _ => []

/-- The awaited write has failed. -/
def Cont.failed : Cont K → Bool
  | .finalizing _ _ _ ok => !ok
  | .optInStored ok => !ok
  | .enabling _ ok => !ok
  | .forgetting ok => !ok
  | .starting ok => !ok
  | .queued _ ok => !ok
  | _ => false

/-- The items the upload pass holds. -/
def Drain.items : Drain K → List (OutboxItem K)
  | .sending item _ => [item]
  | _ => []

/-- What a suspended operation holds. -/
structure ContOk (L : List (Effect K)) (c : Cont K) : Prop where
  trips : ∀ t ∈ c.trips, TripOk L t
  items : ∀ i ∈ c.items, Put L i

/-- A memory between two operations, or one whose operation has not failed. -/
structure Ready (L : List (Effect K)) (mem : Mem K) : Prop where
  trip : ∀ t ∈ mem.trip, TripOk L t
  outbox : ∀ i ∈ mem.outbox, Put L i
  drain : ∀ i ∈ mem.drain.items, Put L i

/-- A memory. -/
structure MemOk (L : List (Effect K)) (mem : Mem K) : Prop where
  trip : ∀ t ∈ mem.trip, Known L t ∧ (mem.cont.failed = false → Backed L t)
  outbox : ∀ i ∈ mem.outbox, Put L i
  drain : ∀ i ∈ mem.drain.items, Put L i
  cont : ContOk L mem.cont

/-- A storage. -/
structure DiskOk (L : List (Effect K)) (disk : StoredState K) : Prop where
  trips : ∀ t ∈ disk.trips, TripOk L t
  outbox : ∀ i ∈ disk.outbox, Put L i

/-- What a step returns after `L` has happened. -/
def StepOk [FloorRing K] (opts : RecorderOptions K) (L : List (Effect K)) (out : Out K) : Prop :=
  EachAfter (EffectOk opts) L out.2 ∧ MemOk (L ++ out.2) out.1

section Basic

variable {opts : RecorderOptions K} {L L' : List (Effect K)} {mem : Mem K} {disk : StoredState K}
  {c : Cont K}

theorem ContOk.mono (hL : L ⊆ L') (h : ContOk L c) : ContOk L' c :=
  ⟨fun t ht => (h.trips t ht).mono hL,
    fun i hi => (h.items i hi).mono hL⟩

theorem Ready.mono (hL : L ⊆ L') (h : Ready L mem) : Ready L' mem :=
  ⟨fun t ht => (h.trip t ht).mono hL,
    fun i hi => (h.outbox i hi).mono hL, fun i hi => (h.drain i hi).mono hL⟩

theorem MemOk.mono (hL : L ⊆ L') (h : MemOk L mem) : MemOk L' mem :=
  ⟨fun t ht => ⟨(h.trip t ht).1.mono hL, fun hc => ((h.trip t ht).2 hc).mono hL⟩,
    fun i hi => (h.outbox i hi).mono hL, fun i hi => (h.drain i hi).mono hL, h.cont.mono hL⟩

theorem DiskOk.mono (hL : L ⊆ L') (h : DiskOk L disk) : DiskOk L' disk :=
  ⟨fun t ht => (h.trips t ht).mono hL,
    fun i hi => (h.outbox i hi).mono hL⟩

/-- An operation that has not failed may go on. -/
theorem MemOk.ready (h : MemOk L mem) (hc : mem.cont.failed = false) : Ready L mem :=
  ⟨fun t ht => ⟨(h.trip t ht).1, (h.trip t ht).2 hc⟩, h.outbox, h.drain⟩

/-- An operation suspends, and has changed no trip and no item. -/
theorem Ready.suspend {mem' : Mem K} (h : Ready L mem) (ht : mem'.trip = mem.trip)
    (ho : mem'.outbox = mem.outbox) (hd : mem'.drain = mem.drain) (hc : ContOk L mem'.cont) :
    MemOk L mem' :=
  ⟨fun t hmem => ⟨(h.trip t (ht ▸ hmem)).known, fun _ => (h.trip t (ht ▸ hmem)).backed⟩,
    fun i hi => h.outbox i (ho ▸ hi), fun i hi => h.drain i (hd ▸ hi), hc⟩

/-- A continuation that holds nothing. -/
theorem contOk_nil (ht : c.trips = []) (hi : c.items = []) : ContOk L c :=
  ⟨fun _ h => absurd (ht ▸ h) List.not_mem_nil, fun _ h => absurd (hi ▸ h) List.not_mem_nil⟩

/-- The upload pass suspends. -/
theorem MemOk.withDrain {d : Drain K} (h : MemOk L mem) (hd : ∀ i ∈ d.items, Put L i) :
    MemOk L { mem with drain := d } :=
  ⟨h.trip, h.outbox, hd, h.cont⟩

/-- The upload pass stops, or waits for a write. -/
theorem MemOk.withDrain_nil {d : Drain K} (h : MemOk L mem) (hd : d.items = []) :
    MemOk L { mem with drain := d } :=
  h.withDrain fun _ hi => absurd (hd ▸ hi) List.not_mem_nil

theorem MemOk.scheduleRetry {env : DrainEnv K} {asked : Option K} (h : MemOk L mem) :
    MemOk L (scheduleRetry env asked mem) :=
  ⟨h.trip, h.outbox, h.drain, h.cont⟩

variable [FloorRing K]

/-- A step without effects. -/
theorem stepOk_quiet {mem' : Mem K} (h : MemOk L mem') : StepOk opts L (mem', []) :=
  ⟨trivial, (List.append_nil L).symm ▸ h⟩

theorem Ready.done (h : Ready L mem) : StepOk opts L mem.done :=
  stepOk_quiet (h.suspend rfl rfl rfl (contOk_nil rfl rfl))

/-- **After a rejection nothing is promised.** -/
theorem MemOk.thrown (h : MemOk L mem) : StepOk opts L mem.thrown := by
  have hL : L ⊆ L ++ [.rejected] := List.subset_append_left _ _
  refine ⟨⟨trivial, trivial⟩, fun t ht => ⟨(h.trip t ht).1.mono hL, fun _ _ => Or.inl ?_⟩,
    fun i hi => (h.outbox i hi).mono hL, fun i hi => (h.drain i hi).mono hL, contOk_nil rfl rfl⟩
  exact List.mem_append_right _ (List.mem_singleton_self _)

end Basic

/-! ## The upload pass -/

section Upload

variable [FloorRing K] {opts : RecorderOptions K} {L : List (Effect K)} {mem : Mem K}

/-- A write that puts nothing. -/
theorem effectOk_apply_nil {ops : StorageOps K} {ok : Bool} (ht : ops.putTrips = [])
    (hi : ops.putOutbox = []) : EffectOk opts L (.apply ops ok) := by
  refine ⟨fun t h => ?_, fun i h => ?_, fun _ i h => ?_⟩
  · exact absurd (ht ▸ h) List.not_mem_nil
  · exact absurd (hi ▸ h) List.not_mem_nil
  · exact absurd (hi ▸ h) List.not_mem_nil

/-- An operation waits for a write that puts nothing. -/
theorem Ready.write {mem' : Mem K} {ops : StorageOps K} {ok : Bool} (h : Ready L mem)
    (hpt : ops.putTrips = []) (hpo : ops.putOutbox = []) (ht : mem'.trip = mem.trip)
    (ho : mem'.outbox = mem.outbox) (hd : mem'.drain = mem.drain) (hct : mem'.cont.trips = [])
    (hci : mem'.cont.items = []) : StepOk opts L (mem', [.apply ops ok]) :=
  ⟨⟨effectOk_apply_nil hpt hpo, trivial⟩,
    (h.mono (List.subset_append_left _ _)).suspend ht ho hd (contOk_nil hct hci)⟩

theorem drainLoop_ok (h : MemOk L mem) : StepOk opts L (drainLoop opts mem) := by
  unfold drainLoop
  split
  · exact stepOk_quiet (h.withDrain_nil rfl)
  · split
    · rename_i item rest _ houtbox
      have hitem : Put L item := h.outbox item (houtbox ▸ List.mem_cons_self)
      refine ⟨⟨hitem, trivial⟩, (h.mono (List.subset_append_left _ _)).withDrain fun i hi => ?_⟩
      rw [List.mem_singleton.mp hi]
      exact hitem.mono (List.subset_append_left _ _)
    · exact stepOk_quiet (h.withDrain_nil rfl)

theorem flush_ok (h : MemOk L mem) : StepOk opts L (flush opts mem) := by
  unfold flush
  split
  · exact drainLoop_ok h
  · exact stepOk_quiet h

theorem drainAnswer_ok (env : DrainEnv K) (h : MemOk L mem) (item : OutboxItem K)
    (token : String) : StepOk opts L (drainAnswer env mem item token) := by
  have hL : ∀ es : List (Effect K), MemOk (L ++ es) mem :=
    fun es => h.mono (List.subset_append_left L es)
  unfold drainAnswer
  split
  · exact stepOk_quiet (h.scheduleRetry.withDrain_nil rfl)
  · split
    · exact ⟨⟨trivial, trivial⟩, (hL _).scheduleRetry.withDrain_nil rfl⟩
    · split
      · exact ⟨⟨trivial, trivial⟩, (hL _).withDrain_nil rfl⟩
      · exact ⟨⟨trivial, effectOk_apply_nil rfl rfl, trivial⟩, (hL _).trip, (hL _).outbox,
          fun i hi => absurd hi List.not_mem_nil, (hL _).cont⟩
    · exact ⟨⟨trivial, effectOk_apply_nil rfl rfl, trivial⟩, (hL _).trip, (hL _).outbox,
        fun i hi => absurd hi List.not_mem_nil, (hL _).cont⟩

/-- **One step of the upload pass.** It changes no trip and puts nothing. -/
theorem drainStep_ok (env : DrainEnv K) (h : MemOk L mem) :
    StepOk opts L (drainStep opts env mem) := by
  have hrejected : StepOk opts L ({ mem with drain := .idle }, [.rejected]) :=
    ⟨⟨trivial, trivial⟩, (h.mono (List.subset_append_left _ _)).withDrain_nil rfl⟩
  unfold drainStep
  split
  · exact stepOk_quiet h
  · exact drainAnswer_ok env h _ _
  · exact drainLoop_ok ⟨h.trip, fun i hi => h.outbox i (List.mem_filter.mp hi).1, h.drain, h.cont⟩
  · exact hrejected
  · exact stepOk_quiet (h.withDrain_nil rfl)
  · exact hrejected

theorem timerStep_ok (h : MemOk L mem) : StepOk opts L (timerStep opts mem) := by
  unfold timerStep
  split
  · exact flush_ok ⟨h.trip, h.outbox, h.drain, h.cont⟩
  · exact stepOk_quiet h

end Upload

/-! ## Sealing and writing -/

section Sealing

variable [FloorRing K] {opts : RecorderOptions K} {L : List (Effect K)} {t : TripRecord K}
  {s : Sealing K}

omit [FloorRing K] in
theorem apart_of_separation [IsStrictOrderedRing K] {p a : Anchor K}
    (h : trimM ≤ separationM opts.distanceM p a) : Apart opts p a :=
  ⟨h, le_distanceM_of_separation opts.distanceM h⟩

/-- **What is uploadable is private.** -/
theorem chunkPrivate_of_uploadable [IsStrictOrderedRing K]
    {sources : List (FollowedArtifact K)} {c : TraceChunk K} (hk : Known L t)
    (hsources : ∀ fa ∈ sources, Effect.follow t.tripId fa.artifact ∈ L)
    (hc : Uploadable opts t sources c) : ChunkPrivate opts L t c := by
  refine ⟨fun f hf => hk.pending f (hc.pending f hf),
    fun f hf a ha => apart_of_separation (hc.anchors f hf a ha), fun f hf => ?_,
    fun fa hfa => ?_⟩
  · obtain ⟨h, hhead, hsep⟩ := hc.head f hf
    exact ⟨h, hhead, apart_of_separation hsep⟩
  · obtain ⟨src, hsrc, hclip⟩ := hc.artifacts fa hfa
    refine ⟨src.artifact, hsources src hsrc, hclip, fun x hx => ?_⟩
    obtain ⟨hanchors, hends⟩ := clipArtifact_clear opts.distanceM hclip x hx
    exact ⟨fun a ha => apart_of_separation (hanchors a ha),
      fun e he => apart_of_separation (hends e he)⟩

theorem effectOk_sealed [IsStrictOrderedRing K]
    {sources : List (FollowedArtifact K)} (hk : Known L t)
    (hsources : ∀ fa ∈ sources, Effect.follow t.tripId fa.artifact ∈ L)
    (hs : SealedFrom opts t sources s) : EffectOk opts L (.sealed t s) := by
  intro i hi
  obtain ⟨hid, c, hbody, hc⟩ := hs.items i hi
  exact ⟨hid, c, hbody, chunkPrivate_of_uploadable hk hsources hc⟩

theorem SealedFrom.known {sources : List (FollowedArtifact K)}
    (hs : SealedFrom opts t sources s) (hk : Known L t) : Known L s.trip :=
  ⟨fun f hf => hs.tripId ▸ hk.pending f (hs.pending f hf),
    fun fa hfa => hs.tripId ▸ hk.held fa (hs.held fa hfa)⟩

/-- Sealing `t` left a trip marked as sealing, or items, only where fixes were sealed before or are
sealed now. -/
structure Carried (L : List (Effect K)) (t : TripRecord K) (s : Sealing K) : Prop where
  trip : s.trip.sealedFixes = true → Covered L t.tripId ∨ s.HasFixes
  items : s.into ≠ [] → Covered L t.tripId ∨ s.HasFixes

omit [FloorRing K] in
theorem Carried.mono {L' : List (Effect K)} (hL : L ⊆ L') (h : Carried L t s) :
    Carried L' t s :=
  ⟨fun ht => (h.trip ht).imp_left (Covered.mono hL),
    fun hi => (h.items hi).imp_left (Covered.mono hL)⟩

/-- A backed trip is sealed so. -/
theorem sealFixes_carried {now : ℕ → ℤ} (hb : Backed L t) :
    Carried L t (sealFixes opts now t) := by
  refine ⟨fun hsealed => ?_, fun hinto => Or.inr (sealFixes_hasFixes t (Or.inr hinto))⟩
  by_cases ht : t.sealedFixes = true
  · exact Or.inl (hb ht)
  · exact Or.inr (sealFixes_hasFixes t (Or.inl ⟨Bool.eq_false_iff.mpr ht, hsealed⟩))

section Write

variable {ops : StorageOps K} {ok : Bool}

omit [FloorRing K] in
/-- The items of a sealing, once they are written with the rest of `ops`. -/
theorem covered_or_hasFixChunk (hmem : Effect.sealed t s ∈ L)
    (hitems : ∀ i ∈ s.into, i.key.tripId = t.tripId) (hput : ∀ i ∈ s.into, i ∈ ops.putOutbox)
    (h : Covered L t.tripId ∨ s.HasFixes) :
    Covered L t.tripId ∨ HasFixChunk ops.putOutbox t.tripId := by
  rcases h with h | h | ⟨i, hi, hfix⟩
  · exact Or.inl h
  · exact Or.inl (Or.inr (Or.inl ⟨t, s, hmem, rfl, h⟩))
  · exact Or.inr ⟨i, hput i hi, hitems i hi, hfix⟩

omit [FloorRing K] in
/-- **A write that takes effect backs the trip that was sealed.** -/
theorem Carried.backed (hcar : Carried L t s) (hmem : Effect.sealed t s ∈ L)
    (hid : s.trip.tripId = t.tripId) (hitems : ∀ i ∈ s.into, i.key.tripId = t.tripId)
    (hput : ∀ i ∈ s.into, i ∈ ops.putOutbox) :
    Backed (L ++ [.apply ops true]) s.trip := by
  intro hsealed
  rw [hid]
  rcases covered_or_hasFixChunk hmem hitems hput (hcar.trip hsealed) with h | h
  · exact h.mono (List.subset_append_left _ _)
  · exact Or.inr (Or.inr ⟨ops, List.mem_append_right _ (List.mem_singleton_self _), h⟩)

/-- The write after a sealing: its items, others that are no chunks, and the trip it left. -/
theorem effectOk_apply_sealed {extra : List (OutboxItem K)} (hmem : Effect.sealed t s ∈ L)
    (hid : s.trip.tripId = t.tripId) (hitems : ∀ i ∈ s.into, i.key.tripId = t.tripId)
    (hk : Known L s.trip) (hcar : Carried L t s) (htrips : ∀ t' ∈ ops.putTrips, t' = s.trip)
    (hput : ops.putOutbox = s.into ++ extra) (hextra : ∀ i ∈ extra, ∀ c, i.body ≠ .chunk c) :
    EffectOk opts L (.apply ops ok) := by
  have hinto : ∀ i ∈ s.into, i ∈ ops.putOutbox := fun i hi => hput ▸ List.mem_append_left _ hi
  refine ⟨fun t' ht' => ?_, fun i hi c hc => ?_, fun _ i hi hart => ?_⟩
  · rw [htrips t' ht']
    refine ⟨hk, fun hok => ?_⟩
    rw [hok]
    exact hcar.backed hmem hid hitems hinto
  · rcases List.mem_append.mp (hput ▸ hi) with hi | hi
    · exact ⟨t, s, hmem, (hitems i hi).symm, hi⟩
    · exact absurd hc (hextra i hi c)
  · rcases List.mem_append.mp (hput ▸ hi) with hi | hi
    · rw [hitems i hi]
      exact covered_or_hasFixChunk hmem hitems hinto (hcar.items (List.ne_nil_of_mem hi))
    · obtain ⟨c, hc, -⟩ := hart
      exact absurd hc (hextra i hi c)

end Write

/-- One effect first. -/
theorem StepOk.cons {mem : Mem K} {e : Effect K} {es : List (Effect K)} (he : EffectOk opts L e)
    (h : StepOk opts (L ++ [e]) (mem, es)) : StepOk opts L (mem, e :: es) :=
  ⟨⟨he, h.1⟩, (List.append_assoc L [e] es) ▸ h.2⟩

/-- **A trip is sealed, and the operation waits for the write of what was sealed.** The trip in
memory is then the one sealing left, or another one that is backed. -/
theorem stepOk_sealed {mem : Mem K} {ops : StorageOps K} {ok : Bool} {extra : List (OutboxItem K)}
    (hsealed : EffectOk opts L (.sealed t s)) (hid : s.trip.tripId = t.tripId)
    (hk : Known L s.trip) (hcar : Carried L t s) (hputTrips : ∀ t' ∈ ops.putTrips, t' = s.trip)
    (hput : ops.putOutbox = s.into ++ extra) (hextra : ∀ i ∈ extra, ∀ c, i.body ≠ .chunk c)
    (htrip : ∀ t' ∈ mem.trip, TripOk L t' ∨ t' = s.trip)
    (houtbox : ∀ i ∈ mem.outbox, Put L i) (hdrain : ∀ i ∈ mem.drain.items, Put L i)
    (htrips : ∀ t' ∈ mem.cont.trips, TripOk L t')
    (hitems : ∀ i ∈ mem.cont.items, i ∈ ops.putOutbox) (hfailed : mem.cont.failed = !ok) :
    StepOk opts L (mem, [.sealed t s, .apply ops ok]) := by
  have hL : L ⊆ L ++ [Effect.sealed t s] := List.subset_append_left _ _
  have hmem : Effect.sealed t s ∈ L ++ [Effect.sealed t s] :=
    List.mem_append_right _ (List.mem_singleton_self _)
  have hids : ∀ i ∈ s.into, i.key.tripId = t.tripId := fun i hi => (hsealed i hi).1
  refine StepOk.cons hsealed ⟨⟨effectOk_apply_sealed hmem hid hids (hk.mono hL) (hcar.mono hL)
    hputTrips hput hextra, trivial⟩, ?_⟩
  have hL' : L ⊆ L ++ [Effect.sealed t s] ++ [Effect.apply ops ok] :=
    List.Subset.trans hL (List.subset_append_left _ _)
  refine ⟨fun t' ht' => ?_, fun i hi => (houtbox i hi).mono hL',
    fun i hi => (hdrain i hi).mono hL',
    fun t' ht' => (htrips t' ht').mono hL',
    fun i hi => ⟨ops, ok, List.mem_append_right _ (List.mem_singleton_self _), hitems i hi⟩⟩
  rcases htrip t' ht' with h | rfl
  · exact ⟨h.known.mono hL', fun _ => h.backed.mono hL'⟩
  · refine ⟨hk.mono hL', fun hok => ?_⟩
    rw [hfailed, Bool.not_eq_false'] at hok
    rw [hok]
    exact (hcar.mono hL).backed hmem hid hids fun i hi => hput ▸ List.mem_append_left _ hi

end Sealing

end RoutePlanner.Recorder
