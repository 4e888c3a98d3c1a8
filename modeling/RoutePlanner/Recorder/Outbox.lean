import Mathlib.Algebra.Order.Ring.Rat
import Mathlib.Data.Rat.Floor
import RoutePlanner.Recorder.Invariant

/-!
# What a run puts in the outbox

Over every run of the recorder: any order of calls, fixes, reroutes and toggles, any interleaving
with the upload pass, and a kill between any two steps. Every function of the machine has one lemma:
started in a memory that is as it should be it returns one that is, and so are its effects
(`StepOk`).

Main results:
* `step_ok`, `run_ok`: the invariant of a step and of a run.
* `run_private`: what any item holds that a run puts in the outbox, and in which order.
-/

namespace RoutePlanner.Recorder

open RoutePlanner.Lib

variable {K : Type} [Field K] [LinearOrder K] [IsStrictOrderedRing K] [FloorRing K]

section Operations

variable {opts : RecorderOptions K} {L : List (Effect K)} {mem : Mem K} {t : TripRecord K}
  {s : Sealing K}

/-! ## Operations that seal -/

/-- `finalize`. The trip in memory is the one that is finalized, as sealing left it, or another
one. -/
theorem finalize_ok {env : Env K} {arrived : Bool} {endedAt : ℤ} {next : After K}
    (ht : TripOk L t)
    (htrip : ∀ t' ∈ mem.trip, TripOk L t' ∨ t' = (sealFixes opts env.stamp t).trip)
    (houtbox : ∀ i ∈ mem.outbox, Put L i) (hdrain : ∀ i ∈ mem.drain.items, Put L i)
    (hnext : ∀ t' ∈ next.trips, TripOk L t') :
    StepOk opts L (finalize opts env mem t arrived endedAt next) := by
  have hs : SealedFrom opts t t.heldArtifacts (sealFixes opts env.stamp t) := sealFixes_spec t
  refine stepOk_sealed (effectOk_sealed ht.known ht.known.held hs) hs.tripId (hs.known ht.known)
    (sealFixes_carried ht.backed) (fun t' ht' => absurd ht' List.not_mem_nil) rfl
    (fun i hi c hc => ?_)
    htrip houtbox hdrain hnext (fun i hi => hi) rfl
  rw [List.mem_singleton.mp hi] at hc
  cases hc

/-- `finalize` of the trip in memory. -/
theorem finalizeOpen_ok {env : Env K} {arrived : Bool} {next : After K} (h : Ready L mem)
    (ht : t ∈ mem.trip) (hnext : next.trips = []) :
    StepOk opts L (finalizeOpen opts env mem t arrived next) :=
  finalize_ok (h.trip t ht) (fun _ ht' => Or.inr (Option.mem_some.mp ht').symm) h.outbox h.drain
    fun _ ht' => absurd (hnext ▸ ht') List.not_mem_nil

omit [IsStrictOrderedRing K] in
/-- `addFix` and `reroute`, from the sealing on: `e` is what they did to the trip before. -/
theorem queued_ok {e : Effect K} {ok : Bool} (h : Ready L mem) (he : EffectOk opts L e)
    (hsealed : EffectOk opts (L ++ [e]) (.sealed t s)) (hid : s.trip.tripId = t.tripId)
    (hk : Known (L ++ [e]) s.trip) (hcar : Carried (L ++ [e]) t s) :
    StepOk opts L ({ mem with trip := some s.trip, cont := .queued s.into ok },
      [e, .sealed t s, .apply { (StorageOps.nop : StorageOps K) with
        putTrips := [s.trip]
        putOutbox := s.into } ok]) := by
  have h' : Ready (L ++ [e]) mem := h.mono (List.subset_append_left _ _)
  exact StepOk.cons he (stepOk_sealed hsealed hid hk hcar
    (fun t' ht' => List.mem_singleton.mp ht') (List.append_nil _).symm
    (fun i hi => absurd hi List.not_mem_nil) (fun t' ht' => Or.inr (Option.mem_some.mp ht').symm)
    h'.outbox h'.drain (fun t' ht' => absurd ht' List.not_mem_nil) (fun i hi => hi) rfl)

omit [IsStrictOrderedRing K] [FloorRing K] in
/-- An accepted fix is pending only where it was logged. -/
theorem Known.acceptFix {fix : TraceFix K} (hk : Known L t) :
    Known (L ++ [.accept t.tripId fix]) (acceptFix opts t fix) := by
  have hL : L ⊆ L ++ [Effect.accept t.tripId fix] := List.subset_append_left _ _
  refine ⟨fun f hf => ?_, fun fa hfa => hL (hk.held fa hfa)⟩
  unfold Recorder.acceptFix at hf
  simp only at hf
  generalize (if t.head.isNone = true then t.anchors ++ [fix.anchor] else t.anchors) = anchors at hf
  split at hf
  · rcases List.mem_append.mp hf with hf | hf
    · exact hL (hk.pending f hf)
    · rw [List.mem_singleton.mp hf]
      exact List.mem_append_right _ (List.mem_singleton_self _)
  · exact hL (hk.pending f hf)

theorem addFix_ok {env : Env K} {raw : RawFix K} (h : Ready L mem) :
    StepOk opts L (addFix opts env mem raw) := by
  unfold addFix
  split
  · exact h.done
  · rename_i t ht
    obtain ⟨hk, hb⟩ := h.trip t ht
    split
    · exact h.done
    · split
      · exact h.done
      · rename_i fix _
        split
        · exact h.done
        · have hL : L ⊆ L ++ [Effect.accept t.tripId fix] := List.subset_append_left _ _
          have hk' : Known (L ++ [.accept t.tripId fix]) (acceptFix opts t fix) := hk.acceptFix
          have hb' : Backed (L ++ [.accept t.tripId fix]) (acceptFix opts t fix) := hb.mono hL
          have hs : SealedFrom opts (acceptFix opts t fix) (acceptFix opts t fix).heldArtifacts
              (sealFixes opts env.stamp (acceptFix opts t fix)) := sealFixes_spec _
          -- the interval has passed, or nothing is sealed
          simp only
          split
          · exact queued_ok h trivial (effectOk_sealed hk' hk'.held hs) hs.tripId (hs.known hk')
              (sealFixes_carried hb')
          · exact queued_ok h trivial (fun i hi => absurd hi List.not_mem_nil) rfl hk'
              ⟨fun ht => Or.inl (hb' ht), fun hi => absurd rfl hi⟩

theorem reroute_ok {env : Env K} {route : RouteAlternative K} (h : Ready L mem) :
    StepOk opts L (reroute opts env mem route) := by
  unfold reroute
  split
  · exact h.done
  · rename_i t ht
    obtain ⟨hk, hb⟩ := h.trip t ht
    split
    · exact h.done
    · have hL : L ⊆ L ++ [Effect.follow t.tripId route] := List.subset_append_left _ _
      have hfollow : Effect.follow t.tripId route ∈ L ++ [Effect.follow t.tripId route] :=
        List.mem_append_right _ (List.mem_singleton_self _)
      simp only
      generalize max env.now ((t.prediction.map EtaPrediction.effectiveAt).getD 0 + 1) = at'
      have hk' : Known (L ++ [.follow t.tripId route]) (followRoute t route at') :=
        ⟨(hk.mono hL).pending, (hk.mono hL).held⟩
      have hb' : Backed (L ++ [.follow t.tripId route]) (followRoute t route at') := hb.mono hL
      split
      · -- the trip is sealing: the artifact goes out on its own, after a chunk of fixes
        rename_i hsealing
        have hs : SealedFrom opts (followRoute t route at') [⟨at', route⟩]
            (sealArtifact opts env.stamp ⟨followRoute t route at', [], false⟩ ⟨at', route⟩) :=
          SealedFrom.sealArtifact
            (sealedFrom_trip rfl rfl rfl (fun _ hf => hf) (fun _ hfa => hfa) rfl)
            (List.mem_singleton_self _)
        refine queued_ok h trivial (effectOk_sealed hk' (fun fa hfa => ?_) hs) hs.tripId
          (hs.known hk') ⟨fun _ => Or.inl (hb' hsealing), fun _ => Or.inl (hb' hsealing)⟩
        rw [List.mem_singleton.mp hfa]
        exact hfollow
      · -- it is held, until the first chunk of fixes
        refine queued_ok h trivial (fun i hi => absurd hi List.not_mem_nil) rfl
          ⟨hk'.pending, fun fa hfa => ?_⟩ ⟨fun ht => Or.inl (hb' ht), fun hi => absurd rfl hi⟩
        rcases List.mem_append.mp hfa with hfa | hfa
        · exact hk'.held fa hfa
        · rw [List.mem_singleton.mp hfa]
          exact hfollow

/-! ## The other operations -/

omit [IsStrictOrderedRing K] in
theorem startTripOpen_ok {env : Env K} {route : RouteAlternative K}
    {destination : Option (LatLon K)} (h : Ready L mem) :
    StepOk opts L (startTripOpen opts env mem route destination) := by
  unfold startTripOpen
  split
  · exact h.done
  · have hk : ∀ es, Known (L ++ Effect.follow env.tripId route :: es)
        (newTrip env route destination) := by
      intro es
      refine ⟨fun f hf => absurd hf List.not_mem_nil, fun fa hfa => ?_⟩
      rw [List.mem_singleton.mp hfa]
      exact List.mem_append_right _ List.mem_cons_self
    have hb : ∀ L' : List (Effect K), Backed L' (newTrip env route destination) :=
      fun _ hs => absurd hs Bool.false_ne_true
    refine ⟨⟨trivial, ⟨fun t ht => ?_, fun i hi => absurd hi List.not_mem_nil,
      fun _ i hi => absurd hi List.not_mem_nil⟩, trivial⟩, fun t ht => ?_,
      (h.mono (List.subset_append_left _ _)).outbox, (h.mono (List.subset_append_left _ _)).drain,
      contOk_nil rfl rfl⟩
    · rw [List.mem_singleton.mp ht]
      exact ⟨hk [], fun _ => hb _⟩
    · rw [← Option.mem_some.mp ht]
      exact ⟨hk _, fun _ => hb _⟩

theorem initLoop_ok {env : Env K} {trips : List (TripRecord K)} (h : Ready L mem)
    (htrips : ∀ t ∈ trips, TripOk L t) :
    StepOk opts L (initLoop opts env mem trips) := by
  cases trips with
  | nil => exact flush_ok (h.suspend rfl rfl rfl (contOk_nil rfl rfl))
  | cons t rest =>
    exact finalize_ok (htrips t List.mem_cons_self) (fun t' ht' => Or.inl (h.trip t' ht'))
      h.outbox h.drain fun t' ht' => htrips t' (List.mem_cons_of_mem t ht')

omit [IsStrictOrderedRing K] [FloorRing K] in
theorem Ready.enqueue {items : List (OutboxItem K)} (h : Ready L mem)
    (hitems : ∀ i ∈ items, Put L i) : Ready L (mem.enqueue items) := by
  unfold Mem.enqueue
  split
  · exact h
  · refine ⟨h.trip, fun i hi => ?_, h.drain⟩
    rcases List.mem_append.mp (List.mem_mergeSort.mp hi) with hi | hi
    · exact h.outbox i hi
    · exact hitems i hi

/-- `finalize`, after its write. -/
theorem finalized_ok {env : Env K} {tripId : String} {items : List (OutboxItem K)}
    {next : After K} (h : Ready L mem) (hitems : ∀ i ∈ items, Put L i)
    (hnext : ∀ t ∈ next.trips, TripOk L t) :
    StepOk opts L (finalized opts env mem tripId items next) := by
  have hclosed : Ready L { mem with trip := mem.trip.filter fun t => decide (t.tripId ≠ tripId) } :=
    ⟨fun t ht => h.trip t (Option.mem_filter_iff.mp ht).1, h.outbox, h.drain⟩
  have hqueued := hclosed.enqueue hitems
  unfold finalized
  cases next with
  | flush => exact flush_ok (hqueued.suspend rfl rfl rfl (contOk_nil rfl rfl))
  | initTrips rest => exact initLoop_ok hqueued hnext
  | startTrip route destination => exact startTripOpen_ok hqueued

omit [IsStrictOrderedRing K] [FloorRing K] in
theorem contOk_loaded {disk : StoredState K} {ok : Bool}
    (hdisk : DiskOk L disk) :
    ContOk L (.initLoaded (if ok = true then some disk.load else none)) := by
  split
  · exact ⟨hdisk.trips, fun i hi => hdisk.outbox i (StoredState.mem_outbox_load.mp hi)⟩
  · exact contOk_nil rfl rfl

/-- **An operation, up to its first await.** -/
theorem start_ok {env : Env K} {disk : StoredState K} {op : Op K} (h : Ready L mem)
    (hdisk : DiskOk L disk) : StepOk opts L (start opts env disk mem op) := by
  cases op with
  | init => exact stepOk_quiet (h.suspend rfl rfl rfl (contOk_loaded hdisk))
  | optIn token =>
    unfold start
    simp only
    split
    · exact h.done
    · exact stepOk_quiet (h.suspend rfl rfl rfl (contOk_nil rfl rfl))
  | setEnabled enabled =>
    unfold start
    simp only
    split
    · exact h.done
    · exact h.write rfl rfl rfl rfl rfl rfl rfl
  | forget => exact stepOk_quiet (h.suspend rfl rfl rfl (contOk_nil rfl rfl))
  | startTrip route destination =>
    unfold start
    simp only
    split
    · rename_i t ht
      exact finalizeOpen_ok h ht rfl
    · exact startTripOpen_ok h
  | addFix raw => exact addFix_ok h
  | reroute route => exact reroute_ok h
  | endTrip arrived =>
    unfold start
    simp only
    split
    · rename_i t ht
      exact finalizeOpen_ok h ht rfl
    · exact h.done
  | retryNow => exact flush_ok (h.suspend rfl rfl rfl (contOk_nil rfl rfl))

/-- **An operation, from one await to the next.** -/
theorem resume_ok {env : Env K} {c : Cont K} (h : MemOk L mem) (hc : mem.cont = c) :
    StepOk opts L (resume opts env mem c) := by
  have hcont : ContOk L c := hc ▸ h.cont
  have hready : c.failed = false → Ready L mem := fun hf => h.ready (hc ▸ hf)
  unfold resume
  split
  · exact stepOk_quiet h
  · exact (hready rfl).done
  · exact initLoop_ok ⟨(hready rfl).trip, hcont.items, (hready rfl).drain⟩ hcont.trips
  · exact finalized_ok (hready rfl) hcont.items hcont.trips
  · exact h.thrown
  · split
    · exact (hready rfl).done
    · split
      · exact stepOk_quiet ((hready rfl).suspend rfl rfl rfl (contOk_nil rfl rfl))
      · exact (hready rfl).done
  · split
    · exact (hready rfl).done
    · exact (hready rfl).write rfl rfl rfl rfl rfl rfl rfl
  · exact flush_ok ((hready rfl).suspend rfl rfl rfl (contOk_nil rfl rfl))
  · exact h.thrown
  · split
    · rename_i t ht
      exact finalizeOpen_ok (hready rfl) ht rfl
    · exact flush_ok ((hready rfl).suspend rfl rfl rfl (contOk_nil rfl rfl))
  · exact h.thrown
  · exact (hready rfl).done
  · exact (hready rfl).write rfl rfl rfl rfl rfl rfl rfl
  · exact stepOk_quiet ⟨fun t ht => absurd ht (Option.not_mem_none t),
      fun i hi => absurd hi List.not_mem_nil, h.drain, contOk_nil rfl rfl⟩
  · exact h.thrown
  · exact (hready rfl).done
  · exact h.thrown
  · split
    · exact (hready rfl).done
    · exact flush_ok (((hready rfl).enqueue hcont.items).suspend rfl rfl rfl (contOk_nil rfl rfl))
  · exact h.thrown

/-- **One step of the operations.** -/
theorem opStep_ok {env : Env K} {disk : StoredState K} (h : MemOk L mem) (hdisk : DiskOk L disk) :
    StepOk opts L (opStep opts env disk mem) := by
  unfold opStep
  split
  · exact stepOk_quiet h
  · rename_i op rest hc _
    have hready : Ready L mem := h.ready (hc ▸ rfl)
    exact start_ok ⟨hready.trip, hready.outbox, hready.drain⟩ hdisk
  · exact resume_ok h rfl

end Operations

/-! ## Runs -/

section Run

variable {opts : RecorderOptions K} {L : List (Effect K)} {disk : StoredState K}

omit [IsStrictOrderedRing K] in
/-- A write brings to the storage what it owes. -/
theorem DiskOk.onDisk {e : Effect K} (h : DiskOk L disk) (he : EffectOk opts L e) :
    DiskOk (L ++ [e]) (e.onDisk disk) := by
  have hkeep : DiskOk (L ++ [e]) disk := h.mono (List.subset_append_left _ _)
  unfold Effect.onDisk
  split
  · rename_i ops
    refine ⟨fun t ht => ?_, fun i hi => ?_⟩
    · rcases (StoredState.mem_trips_apply ht).1 with ht | ht
      · exact ⟨(he.1 t ht).1.mono (List.subset_append_left _ _), (he.1 t ht).2 rfl⟩
      · exact hkeep.trips t ht
    · rcases StoredState.mem_outbox_apply hi with hi | hi
      · exact ⟨ops, true, List.mem_append_right _ (List.mem_singleton_self _), hi⟩
      · exact hkeep.outbox i hi
  · exact hkeep

omit [IsStrictOrderedRing K] in
theorem DiskOk.foldl {es : List (Effect K)} (h : DiskOk L disk)
    (hes : EachAfter (EffectOk opts) L es) :
    DiskOk (L ++ es) (es.foldl Effect.onDisk disk) := by
  induction es generalizing L disk with
  | nil => exact (List.append_nil L).symm ▸ h
  | cons e es ih =>
    have htail := ih (h.onDisk hes.1) hes.2
    rwa [List.append_assoc] at htail

/-- A world. -/
structure WorldOk (opts : RecorderOptions K) (w : World K) : Prop where
  log : EachAfter (EffectOk opts) [] w.log
  mem : ∀ mem ∈ w.mem, MemOk w.log mem
  disk : DiskOk w.log w.disk

omit [IsStrictOrderedRing K] in
theorem WorldOk.emit {w : World K} {out : Out K} (h : WorldOk opts w)
    (hout : StepOk opts w.log out) : WorldOk opts (w.emit out) := by
  refine ⟨eachAfter_append.mpr ⟨h.log, hout.1⟩, fun mem hmem => ?_, h.disk.foldl hout.1⟩
  rw [← Option.mem_some.mp hmem]
  exact hout.2

/-- **One event.** -/
theorem step_ok {w : World K} {e : Event K} (h : WorldOk opts w) :
    WorldOk opts (step opts w e) := by
  unfold step
  split
  · exact ⟨h.log, fun mem hmem => by
      rw [← Option.mem_some.mp hmem]
      exact ⟨fun t ht => absurd ht (Option.not_mem_none t), fun i hi => absurd hi List.not_mem_nil,
        fun i hi => absurd hi List.not_mem_nil, contOk_nil rfl rfl⟩, h.disk⟩
  · exact h
  · rename_i mem op hmem
    refine ⟨h.log, fun mem' hmem' => ?_, h.disk⟩
    rw [← Option.mem_some.mp hmem']
    have hm := h.mem mem hmem
    exact ⟨hm.trip, hm.outbox, hm.drain, hm.cont⟩
  · rename_i mem env hmem
    exact h.emit (opStep_ok (h.mem mem hmem) h.disk)
  · rename_i mem env hmem
    exact h.emit (drainStep_ok env (h.mem mem hmem))
  · rename_i mem hmem
    exact h.emit (timerStep_ok (h.mem mem hmem))
  · exact ⟨h.log, fun mem hmem => absurd hmem (Option.not_mem_none mem), h.disk⟩
  · exact h

/-- **Every run.** -/
theorem run_ok (opts : RecorderOptions K) (events : List (Event K)) :
    WorldOk opts (run opts events) :=
  foldl_invariant (fun _ _ _ => step_ok)
    ⟨trivial, fun mem hmem => absurd hmem (Option.not_mem_none mem),
      fun _ ht => absurd ht List.not_mem_nil, fun _ hi => absurd hi List.not_mem_nil⟩

/-- What a run of the recorder promises about its outbox. -/
structure RunPrivate (opts : RecorderOptions K) (w : World K) : Prop where
  /-- Every chunk put in the outbox was sealed from a trip of its id. The fixes it holds had been
  accepted for the trip, and are apart from every anchor and from the head the trip then had. The
  artifacts it holds are routes the trip had followed, with every place apart from every anchor and
  from the two ends of the route. -/
  chunks : ∀ i, Put w.log i → ∀ c, i.body = .chunk c →
    ∃ L t s L', w.log = L ++ .sealed t s :: L' ∧ t.tripId = i.key.tripId ∧ i ∈ s.into ∧
      ChunkPrivate opts L t c
  /-- What is in the outbox, in memory or in the storage, or has been sent, was put there by a
  write. -/
  put : ∀ i, ((∃ mem ∈ w.mem, i ∈ mem.outbox) ∨ i ∈ w.disk.outbox ∨
    ∃ token, Effect.send i token ∈ w.log) → Put w.log i
  /-- A write that takes effect and queues an artifact of a trip queues a chunk of the trip's fixes,
  or an earlier one did; unless a write was rejected before, or a chunk of the trip was refused at
  the limits. -/
  order : ∀ L ops L', w.log = L ++ .apply ops true :: L' →
    ∀ i ∈ ops.putOutbox, i.IsArtifactChunk → Effect.rejected ∉ L → ¬ Refused L i.key.tripId →
      HasFixChunk ops.putOutbox i.key.tripId ∨ Queued L i.key.tripId

/-- **Whatever happens, what a run puts in the outbox is private, and no artifact goes before its
trip's fixes.** -/
theorem run_private (opts : RecorderOptions K) (events : List (Event K)) :
    RunPrivate opts (run opts events) := by
  obtain ⟨hlog, hmem, hdisk⟩ := run_ok opts events
  refine ⟨fun i hput c hc => ?_, fun i hi => ?_, fun L ops L' heq i hi hart hrej href => ?_⟩
  · obtain ⟨ops, ok, happly, hi⟩ := hput
    obtain ⟨A, B, hAB⟩ := List.append_of_mem happly
    rw [hAB] at hlog
    obtain ⟨t, s, hsealed, hid, hinto⟩ := hlog.split.2.1 i hi c hc
    obtain ⟨L, L', rfl⟩ := List.append_of_mem hsealed
    rw [List.append_assoc] at hlog hAB
    obtain ⟨-, c', hc', hprivate⟩ := EachAfter.split hlog i hinto
    obtain rfl : c = c' := Body.chunk.inj (hc.symm.trans hc')
    exact ⟨L, t, s, L' ++ .apply ops ok :: B, hAB, hid, hinto, hprivate⟩
  · rcases hi with ⟨mem, hm, hi⟩ | hi | ⟨token, hsend⟩
    · exact (hmem mem hm).outbox i hi
    · exact hdisk.outbox i hi
    · obtain ⟨A, B, hAB⟩ := List.append_of_mem hsend
      rw [hAB] at hlog ⊢
      exact Put.mono (List.subset_append_left _ _) (EachAfter.split hlog)
  · rw [heq] at hlog
    rcases hlog.split.2.2 rfl i hi hart with (h | h | h) | h
    · exact absurd h hrej
    · exact absurd h href
    · exact Or.inr h
    · exact Or.inl h

end Run

/-! ## A ride -/

section Ride

/-- Distances along a meridian, in metres. -/
def rideOpts : RecorderOptions ℚ where
  distanceM a b := 111195 * (|a.lat - b.lat| + |a.lon - b.lon|)
  byteLength _ := 1000
  configured := true

/-- Some 700 m to the north. -/
def rideRoute : RouteAlternative ℚ where
  geometry := [(0, 0), (0, 31 / 10000), (0, 32 / 10000), (0, 63 / 10000)]
  distanceM := 700
  etaS := 60
  segments := []
  unsafePoints := []
  maneuvers := []
  level := "safe"
  profileVersion := none

/-- Everything succeeds. -/
def rideEnv : Env ℚ := ⟨true, 0, fun _ => 0, "ride", some 200, some "tester"⟩

/-- A reading on the meridian. -/
def rideFix (t : ℤ) (lat : ℚ) : RawFix ℚ := ⟨.num t, .num lat, .num 0, none, .num 5, none⟩

/-- A call, and the steps it takes. -/
def rideCall (op : Op ℚ) (steps : ℕ) : List (Event ℚ) :=
  .call op :: List.replicate steps (.opStep rideEnv)

/-- Opt in, follow the route past its end, arrive. -/
def ride : List (Event ℚ) :=
  .launch :: rideCall (.optIn "token") 4 ++ rideCall (.startTrip rideRoute none) 2 ++
    rideCall (.addFix (rideFix 0 0)) 2 ++ rideCall (.addFix (rideFix 60000 (32 / 10000))) 2 ++
    rideCall (.addFix (rideFix 110000 (64 / 10000))) 2 ++ rideCall (.endTrip true) 2

/-- A write that takes effect queues an artifact. -/
def Effect.queuesArtifact : Effect ℚ → Bool
  | .apply ops true => ops.putOutbox.any fun i =>
      match i.body with
      | .chunk c => !c.artifacts.isEmpty
      | .tripEnd _ => false
  | _ => false

/-- A ride queues an artifact. -/
theorem run_private_ride :
    (run rideOpts ride).log.any Effect.queuesArtifact = true ∧
      RunPrivate rideOpts (run rideOpts ride) :=
  ⟨by decide +kernel, run_private rideOpts ride⟩

end Ride

end RoutePlanner.Recorder
