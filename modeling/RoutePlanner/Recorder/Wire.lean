import RoutePlanner.Commute.Schemas
import RoutePlanner.Recorder.Order

/-!
# What the recorder queues, before the server's validation

The bodies of the outbox as wire models of the ingest, and when the server accepts them. What
`toTraceFix` checks of a reading is what the server checks of a fix, but for its time: neither it
nor `followsHead` asks whether the time lies in the server's range, and `reroute` may step over the
end of the range to stay after the artifact before.

* `Body.Valid`: the server accepts the body.
* `TimesFit`: a step brings no time into the trip that is outside the range.
* `TripFits`: whatever will be sealed from the trip is valid. `TripFits.sealFixes`,
  `TripFits.finalItems`: it is.
* `step_fits`: a step whose times fit queues valid bodies, and keeps every trip so.
-/

namespace RoutePlanner.Recorder

open RoutePlanner.Lib
open RoutePlanner.Commute (EpochMs epochMsMin epochMsMax maxEtaS)

variable {K : Type} [Field K] [LinearOrder K]

/-! ## Bodies on the wire -/

/-- A fix, as the server reads it. -/
def TraceFix.wire (f : TraceFix K) : Commute.TraceFix K :=
  ⟨f.t, f.lat, f.lon, f.speedMps, f.accuracyM, f.headingDeg⟩

/-- A prediction, as the server reads it. -/
def EtaPrediction.wire (p : EtaPrediction K) : Commute.EtaPrediction K :=
  ⟨p.effectiveAt, p.etaS, p.level, p.profileVersion⟩

/-- An end, as the server reads it. -/
def TripEnd.wire (e : TripEnd K) : Commute.TripEnd K :=
  ⟨e.endedAt, e.arrived, e.prediction.map EtaPrediction.wire⟩

section Wire

-- the JSON object of an artifact, which the server stores as it is
variable (encode : RouteAlternative K → List (String × Commute.Json K))

/-- An artifact, as the server reads it. -/
def FollowedArtifact.wire (fa : FollowedArtifact K) : Commute.FollowedArtifact K :=
  ⟨fa.effectiveAt, encode fa.artifact⟩

/-- A chunk, as the server reads it. -/
def TraceChunk.wire (c : TraceChunk K) : Commute.TraceChunk K :=
  ⟨c.fixes.map TraceFix.wire, c.artifacts.map (FollowedArtifact.wire encode)⟩

/-- The server accepts the body. -/
def Body.Valid : Body K → Prop
  | .chunk c => (c.wire encode).Valid
  | .tripEnd e => e.wire.Valid

end Wire

/-- What the route server emits, where the ingest has limits of its own. -/
structure RouteAlternative.InRange (r : RouteAlternative K) : Prop where
  etaS : 0 ≤ r.etaS ∧ r.etaS ≤ maxEtaS
  level : 1 ≤ r.level.length ∧ r.level.length ≤ 32
  profileVersion : ∀ v ∈ r.profileVersion, v.length ≤ 128

/-- The routes of an operation. -/
def Op.InRange : Op K → Prop
  | .startTrip route _ => route.InRange
  | .reroute route => route.InRange
  | _ => True

section Bodies

variable {encode : RouteAlternative K → List (String × Commute.Json K)}

/-- **`toTraceFix` checks what the server checks, except the time.** -/
theorem TraceFix.wire_valid [IsStrictOrderedRing K] {f : TraceFix K} :
    f.wire.Valid ↔ EpochMs f.t := by
  constructor
  · exact fun h => h.1
  · intro ht
    have hlat := abs_le.mp f.lat_range
    have hlon := abs_le.mp f.lon_range
    refine ⟨ht, ?_, ?_, f.speed_nonneg, f.accuracy_nonneg, fun d hd => ?_⟩
    · simpa [TraceFix.wire, Commute.latBound] using hlat
    · simpa [TraceFix.wire, Commute.lonBound] using hlon
    · simpa [TraceFix.wire, Commute.headingBound] using f.heading_range d hd

/-- A chunk of fixes. -/
theorem chunk_fixes_valid [IsStrictOrderedRing K] {fixes : List (TraceFix K)} (hne : fixes ≠ [])
    (hlen : fixes.length ≤ maxFixesPerChunk) (hrange : ∀ f ∈ fixes, EpochMs f.t)
    (horder : fixes.Pairwise fun f g => f.t < g.t) :
    (Body.chunk ⟨fixes, []⟩).Valid encode := by
  refine ⟨fun f hf => ?_, ?_, fun a ha => absurd ha List.not_mem_nil, Nat.zero_le _, ?_⟩
  · obtain ⟨f', hf', rfl⟩ := List.mem_map.mp hf
    exact TraceFix.wire_valid.mpr (hrange f' hf')
  · rw [TraceChunk.wire, List.length_map]
    exact hlen
  · refine Commute.TraceChunk.orderedAndNotEmpty_eq_none_iff.mpr ⟨Or.inl ?_, ?_, List.Pairwise.nil⟩
    · simpa [TraceChunk.wire] using hne
    · rw [TraceChunk.wire, List.map_map]
      exact List.pairwise_map.mpr horder

/-- A chunk of one artifact. -/
theorem chunk_artifact_valid {fa : FollowedArtifact K} (hrange : EpochMs fa.effectiveAt) :
    (Body.chunk ⟨[], [fa]⟩).Valid encode := by
  refine ⟨fun f hf => absurd hf List.not_mem_nil, Nat.zero_le _, fun a ha => ?_, ?_, ?_⟩
  · rw [List.mem_singleton.mp ha]
    exact hrange
  · exact Nat.le_add_left 1 15
  · exact Commute.TraceChunk.orderedAndNotEmpty_eq_none_iff.mpr
      ⟨Or.inr (List.cons_ne_nil _ _), List.Pairwise.nil, List.pairwise_singleton _ _⟩

/-- An end. -/
theorem tripEnd_valid {e : TripEnd K} (hrange : EpochMs e.endedAt)
    (hp : ∀ p ∈ e.prediction, p.wire.Valid ∧ p.effectiveAt ≤ e.endedAt) :
    (Body.tripEnd e).Valid encode := by
  refine ⟨hrange, fun p hmem => ?_,
    Commute.TripEnd.predictionPrecedesEnd_eq_none_iff.mpr fun p hmem => ?_⟩
  · obtain ⟨p', hp', rfl⟩ := Option.mem_map.mp hmem
    exact (hp p' hp').1
  · obtain ⟨p', hp', rfl⟩ := Option.mem_map.mp hmem
    exact (hp p' hp').2

theorem predictionOf_valid {route : RouteAlternative K} {at' : ℤ} (hr : route.InRange)
    (hrange : EpochMs at') : (predictionOf route at').wire.Valid :=
  ⟨hrange, hr.etaS, hr.level, hr.profileVersion⟩

end Bodies

/-! ## A trip whose times fit -/

/-- Whatever is sealed from the trip is valid, and so is its end. -/
structure TripFits (t : TripRecord K) : Prop where
  startedAt : EpochMs t.startedAt
  head : ∀ h ∈ t.head, h.t ≤ epochMsMax
  pending : ∀ f ∈ t.pending, EpochMs f.t
  latest : ∀ f ∈ t.pending, ∃ h ∈ t.head, f.t ≤ h.t
  order : t.pending.Pairwise fun f g => f.t < g.t
  held : ∀ fa ∈ t.heldArtifacts, EpochMs fa.effectiveAt
  prediction : ∀ p ∈ t.prediction, p.wire.Valid

/-- The trip fits, and what was sealed from it is valid. -/
structure SealingFits (encode : RouteAlternative K → List (String × Commute.Json K))
    (s : Sealing K) : Prop where
  trip : TripFits s.trip
  into : ∀ i ∈ s.into, i.body.Valid encode

section Sealing

variable {encode : RouteAlternative K → List (String × Commute.Json K)}
  {opts : RecorderOptions K} {now : ℕ → ℤ} {s : Sealing K} {t : TripRecord K}

theorem TripFits.sealing (h : TripFits t) : SealingFits encode ⟨t, [], false⟩ :=
  ⟨h, fun _ hi => absurd hi List.not_mem_nil⟩

theorem SealingFits.sealChunk {c : TraceChunk K} (h : SealingFits encode s)
    (hc : (Body.chunk c).Valid encode) : SealingFits encode (sealChunk opts now s c) := by
  rcases sealChunk_cases opts now s c with heq | heq
  · rw [heq]
    exact ⟨h.trip, h.into⟩
  · obtain ⟨h1, h2, h3, h4, h5, h6, h7⟩ := h.trip
    rw [heq]
    refine ⟨⟨h1, h2, h3, h4, h5, h6, h7⟩, fun i hi => ?_⟩
    rcases List.mem_append.mp hi with hi | hi
    · exact h.into i hi
    · rw [List.mem_singleton.mp hi]
      exact hc

theorem SealingFits.sealArtifact [FloorRing K] {fa : FollowedArtifact K}
    (h : SealingFits encode s) (hfa : EpochMs fa.effectiveAt) :
    SealingFits encode (sealArtifact opts now s fa) := by
  unfold Recorder.sealArtifact
  split
  · exact h
  · exact h.sealChunk (chunk_artifact_valid hfa)

/-- The fixes of a slice stand in the order they were pending in. -/
theorem sublist_of_mem_slices {ready l : List (TraceFix K)} (h : l ∈ slices ready) :
    l.Sublist ready := by
  obtain ⟨i, -, rfl⟩ := List.mem_map.mp h
  exact (List.take_sublist _ _).trans (List.drop_sublist _ _)

variable [FloorRing K]

/-- **What `seal` takes from a trip that fits is valid.** -/
theorem TripFits.sealFixes [IsStrictOrderedRing K] (h : TripFits t) :
    SealingFits encode (sealFixes opts now t) := by
  have hdrop : ∀ n at' (b : Bool), TripFits { t with
      pending := t.pending.drop n, lastSealAt := at', sealedFixes := b } := fun n at' b =>
    ⟨h.startedAt, h.head, fun f hf => h.pending f (List.mem_of_mem_drop hf),
      fun f hf => h.latest f (List.mem_of_mem_drop hf), h.order.sublist (List.drop_sublist _ _),
      h.held, h.prediction⟩
  have hslices : ∀ n (s : Sealing K), SealingFits encode s →
      SealingFits encode ((slices ((t.pending.take n).filter fun f =>
        clearOf opts.distanceM f.anchor t.anchors)).foldl
          (fun s fixes => sealChunk opts now s ⟨fixes, []⟩) s) := by
    intro n s hs
    refine foldl_invariant (I := SealingFits encode) (fun s fixes hfixes hs => ?_) hs
    have hsub : fixes.Sublist t.pending :=
      (sublist_of_mem_slices hfixes).trans (List.filter_sublist.trans (List.take_sublist _ _))
    exact hs.sealChunk (chunk_fixes_valid (ne_nil_of_mem_slices hfixes)
      (length_le_of_mem_slices hfixes) (fun f hf => h.pending f (hsub.subset hf))
      (h.order.sublist hsub))
  unfold Recorder.sealFixes
  simp only
  split_ifs
  · exact (hdrop _ _ _).sealing
  · exact hslices _ _ (hdrop _ _ _).sealing
  · refine hslices _ _ ?_
    -- the artifacts held come first
    obtain ⟨⟨h1, h2, h3, h4, h5, -, h7⟩, hinto⟩ : SealingFits encode (t.heldArtifacts.foldl
        (sealArtifact opts now) ⟨{ t with
          pending := t.pending.drop (sealablePrefix opts.distanceM t.pending t.head)
          lastSealAt := (t.head.map TraceFix.t).getD t.lastSealAt
          sealedFixes := true }, [], false⟩) :=
      foldl_invariant (fun s fa hfa hs => hs.sealArtifact (h.held fa hfa)) (hdrop _ _ _).sealing
    exact ⟨⟨h1, h2, h3, h4, h5, fun _ hfa => absurd hfa List.not_mem_nil, h7⟩, hinto⟩

omit [FloorRing K] in
/-- `endTime` is in range. -/
theorem TripFits.endTime {at' : ℤ} (h : TripFits t) (hat : EpochMs at') :
    EpochMs (endTime t at') := by
  have hzero : 0 ≤ epochMsMax := by decide
  have hhead : (t.head.map TraceFix.t).getD 0 ≤ epochMsMax := by
    cases hh : t.head with
    | none => exact hzero
    | some fix => exact h.head fix hh
  have hpred : (t.prediction.map EtaPrediction.effectiveAt).getD 0 ≤ epochMsMax := by
    cases hp : t.prediction with
    | none => exact hzero
    | some p => exact (h.prediction p hp).1.2
  exact ⟨hat.1.trans (le_max_left _ _), max_le hat.2 (max_le hhead hpred)⟩

/-- **What `finalize` queues of a trip that fits is valid.** -/
theorem TripFits.finalItems [IsStrictOrderedRing K] {env : Env K} {arrived : Bool} {at' : ℤ}
    (h : TripFits t) (hat : EpochMs at') :
    ∀ i ∈ finalItems opts env t arrived (Recorder.endTime t at'), i.body.Valid encode := by
  intro i hi
  rcases List.mem_append.mp hi with hi | hi
  · exact h.sealFixes.into i hi
  · have hspec : SealedFrom opts t t.heldArtifacts (Recorder.sealFixes opts env.stamp t) :=
      sealFixes_spec t
    rw [List.mem_singleton.mp hi]
    refine tripEnd_valid (h.endTime hat) fun p hp => ?_
    have hp : p ∈ t.prediction := hspec.prediction ▸ hp
    refine ⟨h.prediction p hp, ?_⟩
    have hle : p.effectiveAt ≤ Recorder.endTime t at' := by
      unfold Recorder.endTime
      rw [Option.mem_def.mp hp]
      exact (le_max_right _ _).trans (le_max_right _ _)
    exact hle

end Sealing

/-! ## The times a step brings -/

section Times

variable [FloorRing K] (opts : RecorderOptions K)

/-- What the operation brings into the trip is in range: an accepted fix is not after the end of the
range, nor, if it is to be kept, before its beginning; and there is room after the artifact that is
replaced. -/
def Op.TimesFit (t : TripRecord K) : Op K → Prop
  | .addFix raw => ∀ fix ∈ toTraceFix raw, followsHead opts.distanceM t.head fix = true →
      fix.t ≤ epochMsMax ∧
        (clearOf opts.distanceM fix.anchor (acceptFix opts t fix).anchors = true →
          epochMsMin ≤ fix.t)
  | .reroute _ => (t.prediction.map EtaPrediction.effectiveAt).getD 0 < epochMsMax
  | _ => True

instance decOpTimesFit (t : TripRecord K) : (op : Op K) → Decidable (op.TimesFit opts t)
  | .addFix raw => inferInstanceAs (Decidable (∀ fix ∈ toTraceFix raw, _ → _ ∧ (_ → _)))
  | .reroute _ => inferInstanceAs (Decidable (_ < _))
  | .init => isTrue trivial
  | .optIn _ => isTrue trivial
  | .setEnabled _ => isTrue trivial
  | .forget => isTrue trivial
  | .startTrip _ _ => isTrue trivial
  | .endTrip _ => isTrue trivial
  | .retryNow => isTrue trivial

/-- The operation the next step starts. -/
def Mem.starting (mem : Mem K) : Option (Op K) :=
  match mem.cont with
  | .idle => mem.queue.head?
  | _ => none

/-- What the next step brings into the trip is in range, if recording is on. -/
def Mem.TimesFit (mem : Mem K) : Prop :=
  mem.canRecord opts = true → ∀ t ∈ mem.trip, ∀ op ∈ mem.starting, op.TimesFit opts t

instance decMemTimesFit (mem : Mem K) : Decidable (mem.TimesFit opts) :=
  inferInstanceAs (Decidable (_ → ∀ t ∈ mem.trip, ∀ op ∈ mem.starting, op.TimesFit opts t))

variable {opts} {env : Env K} {t t' : TripRecord K} {fix : TraceFix K}
  {route : RouteAlternative K} {e : Effect K} {s : Sealing K} {op : Op K}

omit [FloorRing K] in
theorem newTrip_fits {destination : Option (LatLon K)} (hr : route.InRange)
    (hnow : EpochMs env.now) : TripFits (newTrip env route destination) where
  startedAt := hnow
  head := fun _ hh => absurd hh (Option.not_mem_none _)
  pending := fun _ hf => absurd hf List.not_mem_nil
  latest := fun _ hf => absurd hf List.not_mem_nil
  order := List.Pairwise.nil
  held := fun fa hfa => by
    rw [List.mem_singleton.mp hfa]
    exact hnow
  prediction := fun p hp => by
    rw [← Option.mem_some.mp hp]
    exact predictionOf_valid hr hnow

omit [FloorRing K] in
theorem TripFits.acceptFix (h : TripFits t) (hf : followsHead opts.distanceM t.head fix = true)
    (hmax : fix.t ≤ epochMsMax)
    (hmin : clearOf opts.distanceM fix.anchor (acceptFix opts t fix).anchors = true →
      epochMsMin ≤ fix.t) : TripFits (acceptFix opts t fix) := by
  have hlater : ∀ f ∈ t.pending, f.t < fix.t := by
    intro f hmem
    obtain ⟨head, hhead, hle⟩ := h.latest f hmem
    rw [Option.mem_def.mp hhead] at hf
    have hspaced := spaced_of_followsHead opts.distanceM hf
    unfold minFixIntervalMs at hspaced
    omega
  have hhead : ∀ g ∈ (Recorder.acceptFix opts t fix).head, g.t ≤ epochMsMax := by
    intro g hg
    rw [← Option.mem_some.mp hg]
    exact hmax
  by_cases hclear : clearOf opts.distanceM fix.anchor (Recorder.acceptFix opts t fix).anchors = true
  · have hpending : (Recorder.acceptFix opts t fix).pending = t.pending ++ [fix] := if_pos hclear
    refine ⟨h.startedAt, hhead, fun f hmem => ?_, fun f hmem => ⟨fix, rfl, ?_⟩, ?_, h.held,
      h.prediction⟩
    · rcases List.mem_append.mp (hpending ▸ hmem) with hmem | hmem
      · exact h.pending f hmem
      · rw [List.mem_singleton.mp hmem]
        exact ⟨hmin hclear, hmax⟩
    · rcases List.mem_append.mp (hpending ▸ hmem) with hmem | hmem
      · exact (hlater f hmem).le
      · rw [List.mem_singleton.mp hmem]
    · rw [hpending]
      refine List.pairwise_append.mpr ⟨h.order, List.pairwise_singleton _ _, fun f hmem g hg => ?_⟩
      rw [List.mem_singleton.mp hg]
      exact hlater f hmem
  · have hpending : (Recorder.acceptFix opts t fix).pending = t.pending := if_neg hclear
    refine ⟨h.startedAt, hhead, fun f hmem => h.pending f (hpending ▸ hmem),
      fun f hmem => ⟨fix, rfl, (hlater f (hpending ▸ hmem)).le⟩, ?_, h.held, h.prediction⟩
    rw [hpending]
    exact h.order

omit [FloorRing K] in
theorem TripFits.followRoute {at' : ℤ} (h : TripFits t) (hr : route.InRange)
    (hat : EpochMs at') : TripFits (followRoute t route at') := by
  refine ⟨h.startedAt, h.head, h.pending, h.latest, h.order, h.held, fun p hp => ?_⟩
  rw [← Option.mem_some.mp hp]
  exact predictionOf_valid hr hat

/-- **A fix or a reroute whose time fits.** -/
theorem Advance.fits [IsStrictOrderedRing K]
    {encode : RouteAlternative K → List (String × Commute.Json K)}
    (ha : Advance opts env t e t' s) (h : TripFits t) (hnow : EpochMs env.now)
    (hop : op.Advances e) (hr : op.InRange) (hfit : op.TimesFit opts t) :
    SealingFits encode s := by
  have haccept : ∀ fix, e = .accept t.tripId fix →
      followsHead opts.distanceM t.head fix = true → TripFits (Recorder.acceptFix opts t fix) := by
    rintro fix rfl hf
    cases op with
    | addFix raw =>
      obtain ⟨hmax, hmin⟩ := hfit fix hop hf
      exact h.acceptFix hf hmax hmin
    | _ => exact hop.elim
  have hfollow : ∀ route, e = .follow t.tripId route →
      route.InRange ∧ EpochMs (rerouted env t route).effectiveAt := by
    rintro route rfl
    cases op with
    | reroute route' =>
      obtain rfl : route' = route := hop
      have hlt : (t.prediction.map EtaPrediction.effectiveAt).getD 0 < epochMsMax := hfit
      exact ⟨hr, hnow.1.trans (le_max_left _ _), max_le hnow.2 hlt⟩
    | _ => exact hop.elim
  cases ha with
  | fixSeal hf hi => exact (haccept _ rfl hf).sealFixes
  | fix hf => exact (haccept _ rfl hf).sealing
  | routeSeal hs =>
    obtain ⟨hroute, hat⟩ := hfollow _ rfl
    exact ((h.followRoute hroute hat).sealing).sealArtifact hat
  | route hs =>
    obtain ⟨hroute, hat⟩ := hfollow _ rfl
    obtain ⟨h1, h2, h3, h4, h5, h6, h7⟩ := h.followRoute hroute hat
    refine TripFits.sealing ⟨h1, h2, h3, h4, h5, fun fa hfa => ?_, h7⟩
    rcases List.mem_append.mp hfa with hfa | hfa
    · exact h6 fa hfa
    · rw [List.mem_singleton.mp hfa]
      exact hat

end Times

/-! ## What a step keeps -/

/-- A write that puts trips that fit, and valid items. -/
def Effect.Fits (encode : RouteAlternative K → List (String × Commute.Json K)) :
    Effect K → Prop
  | .apply ops _ => (∀ t ∈ ops.putTrips, TripFits t) ∧ ∀ i ∈ ops.putOutbox, i.body.Valid encode
  | _ => True

/-- What the memory holds fits. -/
structure MemFits (mem : Mem K) : Prop where
  trip : ∀ t ∈ mem.trip, TripFits t
  loaded : ∀ t ∈ mem.cont.trips, TripFits t
  queue : ∀ op ∈ mem.queue, op.InRange
  starting : ∀ tripId items route destination ok,
    mem.cont = .finalizing tripId items (.startTrip route destination) ok → route.InRange

/-- What the memory of an operation that goes on holds fits. -/
structure ReadyFits (mem : Mem K) : Prop where
  trip : ∀ t ∈ mem.trip, TripFits t
  queue : ∀ op ∈ mem.queue, op.InRange

/-- What a step returns. -/
structure StepFits (encode : RouteAlternative K → List (String × Commute.Json K)) (out : Out K) :
    Prop where
  mem : MemFits out.1
  effects : ∀ e ∈ out.2, e.Fits encode

section Steps

variable {encode : RouteAlternative K → List (String × Commute.Json K)}
  {opts : RecorderOptions K} {env : Env K} {disk : StoredState K} {mem mem₁ mem' : Mem K}
  {loaded : List (TripRecord K)} {out : Out K} {t : TripRecord K} {s : Sealing K}
  {route : RouteAlternative K} {destination : Option (LatLon K)}

theorem MemFits.beside (h : MemFits mem) (hb : mem.Beside mem') : MemFits mem' := by
  refine ⟨fun t ht => h.trip t (hb.trip ▸ ht), fun t ht => h.loaded t (hb.cont ▸ ht),
    fun op hop => h.queue op (hb.queue ▸ hop), fun tripId items route destination ok hc => ?_⟩
  exact h.starting tripId items route destination ok (hb.cont ▸ hc)

/-- An operation suspends. -/
theorem ReadyFits.suspend (h : ReadyFits mem) (ht : mem'.trip = mem.trip)
    (hq : mem'.queue = mem.queue) (hl : ∀ t ∈ mem'.cont.trips, TripFits t)
    (hc : ∀ tripId items route destination ok,
      mem'.cont ≠ .finalizing tripId items (.startTrip route destination) ok) : MemFits mem' :=
  ⟨fun t hmem => h.trip t (ht ▸ hmem), hl, fun op hop => h.queue op (hq ▸ hop),
    fun tripId items route destination ok heq =>
      absurd heq (hc tripId items route destination ok)⟩

/-- An operation ends. -/
theorem ReadyFits.idle (h : ReadyFits mem) : MemFits { mem with cont := .idle } :=
  h.suspend rfl rfl (fun _ ht => absurd ht List.not_mem_nil) fun _ _ _ _ _ heq => by cases heq

theorem MemFits.ready (h : MemFits mem) : ReadyFits mem := ⟨h.trip, h.queue⟩

/-- **What an operation goes on with.** -/
theorem MemFits.prep (h : MemFits mem) (hp : Prep mem mem₁ loaded) :
    ReadyFits mem₁ ∧ ∀ t ∈ loaded, TripFits t := by
  have hnil : ∀ t ∈ ([] : List (TripRecord K)), TripFits t :=
    fun _ ht => absurd ht List.not_mem_nil
  cases hp with
  | same hf hcl ht hi hup hk htrip hs ho hd hq =>
    exact ⟨⟨htrip ▸ h.trip, fun op hop => h.queue op (hq op hop)⟩, hnil⟩
  | loaded hc => exact ⟨⟨h.trip, h.queue⟩, by simpa [hc, Cont.trips] using h.loaded⟩
  | finalized hc =>
    refine ⟨⟨fun t ht => ?_, ?_⟩, by simpa [hc, Cont.trips] using h.loaded⟩
    · rw [Mem.enqueue_trip] at ht
      exact h.trip t (Option.mem_filter_iff.mp ht).1
    · rw [Mem.enqueue_queue]
      exact h.queue
  | queued hc =>
    refine ⟨⟨?_, ?_⟩, hnil⟩
    · rw [Mem.enqueue_trip]
      exact h.trip
    · rw [Mem.enqueue_queue]
      exact h.queue
  | cleared hc => exact ⟨⟨fun t ht => absurd ht (Option.not_mem_none t), h.queue⟩, hnil⟩

theorem MemFits.starts (h : MemFits mem) (hs : mem.Starts route destination) : route.InRange := by
  rcases hs with hs | ⟨tripId, items, hc⟩
  · exact h.queue _ (List.mem_of_mem_head? hs)
  · exact h.starting tripId items route destination true hc

/-- A write that puts nothing. -/
theorem fits_apply {ops : StorageOps K} {ok : Bool} (ht : ops.putTrips = [])
    (ho : ops.putOutbox = []) : (Effect.apply ops ok).Fits encode := by
  refine ⟨fun t hmem => ?_, fun i hmem => ?_⟩
  · exact absurd (ht ▸ hmem) List.not_mem_nil
  · exact absurd (ho ▸ hmem) List.not_mem_nil

/-- **The upload pass.** -/
theorem upload_fits (h : MemFits mem) (hup : Upload mem out) : StepFits encode out := by
  refine ⟨h.beside hup.beside, fun e he => ?_⟩
  cases hup with
  | quiet hb hs ho hd hdel hes =>
    rcases hes e he with rfl | ⟨token, status, rfl⟩ <;> trivial
  | send hb hs hs' ho hi hd =>
    rw [List.mem_singleton.mp he]
    trivial
  | delete hb hs ho hd hd' =>
    rcases List.mem_pair.mp he with rfl | rfl
    · trivial
    · exact fits_apply rfl rfl
  | mark hb hd hs hs' ho hd' =>
    rcases List.mem_pair.mp he with rfl | rfl
    · trivial
    · exact fits_apply rfl rfl
  | busy hb hs ho hd => exact absurd he List.not_mem_nil

/-- A write of the trip in memory and of what was sealed from it. -/
theorem SealingFits.effect (h : SealingFits encode s) (ok : Bool) :
    (Effect.apply { (StorageOps.nop : StorageOps K) with
      putTrips := [s.trip]
      putOutbox := s.into } ok).Fits encode := by
  refine ⟨fun t ht => ?_, h.into⟩
  rw [List.mem_singleton.mp ht]
  exact h.trip

variable [IsStrictOrderedRing K] [FloorRing K]

/-- **A trip ends.** -/
theorem finalize_fits {arrived : Bool} {at' : ℤ} {next : After K} (h : ReadyFits mem)
    (ht : TripFits t) (hat : EpochMs at') (hnext : ∀ t' ∈ next.trips, TripFits t')
    (hstart : ∀ route destination, next = .startTrip route destination → route.InRange) :
    StepFits encode (finalize opts env mem t arrived (endTime t at') next) := by
  refine ⟨⟨h.trip, hnext, h.queue, ?_⟩, fun e he => ?_⟩
  · intro tripId items route destination ok hc
    obtain ⟨-, -, hnext, -⟩ := Cont.finalizing.inj hc
    exact hstart route destination hnext
  · rcases List.mem_pair.mp he with rfl | rfl
    · trivial
    · exact ⟨fun _ ht => absurd ht List.not_mem_nil, ht.finalItems hat⟩

/-- `finalize` of the trip in memory. -/
theorem finalizeOpen_fits {arrived : Bool} {next : After K} (h : ReadyFits mem) (ht : t ∈ mem.trip)
    (hnow : EpochMs env.now) (hnext : next.trips = [])
    (hstart : ∀ route destination, next = .startTrip route destination → route.InRange) :
    StepFits encode (finalizeOpen opts env mem t arrived next) := by
  have hs : SealingFits encode (sealFixes opts env.stamp t) := (h.trip t ht).sealFixes
  have hsealed : ReadyFits { mem with trip := some (sealFixes opts env.stamp t).trip } := by
    refine ⟨fun t' ht' => ?_, h.queue⟩
    rw [← Option.mem_some.mp ht']
    exact hs.trip
  exact finalize_fits hsealed (h.trip t ht) hnow
    (fun _ ht' => absurd (hnext ▸ ht') List.not_mem_nil) hstart

omit [IsStrictOrderedRing K] [FloorRing K] in
/-- **A trip starts.** -/
theorem startTrip_fits (h : ReadyFits mem) (hr : route.InRange) (hnow : EpochMs env.now) :
    StepFits encode
      ({ mem with trip := some (newTrip env route destination), cont := .starting env.ok },
        [.follow env.tripId route,
          .apply { StorageOps.nop with putTrips := [newTrip env route destination] } env.ok]) := by
  have hnew : TripFits (newTrip env route destination) := newTrip_fits hr hnow
  refine ⟨⟨fun t ht => ?_, fun _ ht => absurd ht List.not_mem_nil, h.queue,
    fun _ _ _ _ _ hc => by cases hc⟩, fun e he => ?_⟩
  · rw [← Option.mem_some.mp ht]
    exact hnew
  · rcases List.mem_pair.mp he with rfl | rfl
    · trivial
    · refine ⟨fun t ht => ?_, fun _ hi => absurd hi List.not_mem_nil⟩
      rw [List.mem_singleton.mp ht]
      exact hnew

/-- **Every move.** -/
theorem move_fits (h : MemFits mem) (hdisk : ∀ t ∈ disk.trips, TripFits t)
    (hnow : EpochMs env.now) (hfit : mem.TimesFit opts) (hm : Move opts env disk mem out) :
    StepFits encode out := by
  have hnone : ∀ e ∈ ([] : List (Effect K)), e.Fits encode :=
    fun _ he => absurd he List.not_mem_nil
  cases hm with
  | rest hc => exact ⟨h, hnone⟩
  | thrown hc =>
    refine ⟨h.ready.idle, fun e he => ?_⟩
    rw [List.mem_singleton.mp he]
    trivial
  | wait hp hl hc =>
    refine ⟨(h.prep hp).1.suspend rfl rfl ?_ ?_, hnone⟩
    · cases hc with
      | initLoaded => exact hdisk
      | _ => exact fun _ ht => absurd ht List.not_mem_nil
    · intro tripId items route destination ok heq
      subst heq
      cases hc
  | flush hp hl =>
    exact upload_fits (h.prep hp).1.idle (flush_upload (Mem.Beside.refl _) rfl rfl rfl)
  | closeOpen hp hl ht arrived hn hop =>
    exact finalizeOpen_fits (h.prep hp).1 ht hnow hn fun route destination hnext =>
      h.queue _ (List.mem_of_mem_head? (hop route destination hnext))
  | closeLoaded hp =>
    obtain ⟨hmem, hloaded⟩ := h.prep hp
    have ht := hloaded _ List.mem_cons_self
    exact finalize_fits hmem ht ht.startedAt
      (fun t' ht' => hloaded t' (List.mem_cons_of_mem _ ht')) fun _ _ hnext => by cases hnext
  | startTrip hp hl hop => exact startTrip_fits (h.prep hp).1 (h.starts hop) hnow
  | advance hp hl hc hrec ht hop ha =>
    obtain ⟨hmem, -⟩ := h.prep hp
    obtain ⟨op, hhead, hop⟩ := hop
    have hstarting : op ∈ mem.starting := by
      unfold Mem.starting
      rw [hc]
      exact hhead
    have htimes := hfit hrec _ ((hp.trip_of_idle hc).symm.trans ht) op hstarting
    have hs : SealingFits encode _ := ha.fits (hmem.trip _ ht) hnow hop
      (h.queue op (List.mem_of_mem_head? hhead)) htimes
    refine ⟨⟨fun t ht => ?_, fun _ ht => absurd ht List.not_mem_nil, hmem.queue,
      fun _ _ _ _ _ hc => by cases hc⟩, fun e he => ?_⟩
    · rw [← Option.mem_some.mp ht]
      exact hs.trip
    · rcases List.mem_cons.mp he with rfl | he
      · cases ha <;> trivial
      · rcases List.mem_pair.mp he with rfl | rfl
        · trivial
        · exact hs.effect env.ok
  | settings hp hl hs hc =>
    refine ⟨(h.prep hp).1.suspend rfl rfl (fun t ht => ?_) ?_, fun e he => ?_⟩
    · rcases hc with rfl | ⟨enabled, rfl⟩ <;> exact absurd ht List.not_mem_nil
    · intro tripId items route destination ok heq
      subst heq
      rcases hc with hc | ⟨enabled, hc⟩ <;> cases hc
    · rw [List.mem_singleton.mp he]
      exact fits_apply rfl rfl
  | forget hc =>
    refine ⟨h.ready.suspend rfl rfl (fun _ ht => absurd ht List.not_mem_nil)
      (fun _ _ _ _ _ hc => by cases hc), fun e he => ?_⟩
    rw [List.mem_singleton.mp he]
    exact fits_apply rfl rfl

end Steps

/-! ## Runs -/

section Run

variable [FloorRing K] {encode : RouteAlternative K → List (String × Commute.Json K)}
  {opts : RecorderOptions K} {w : World K} {e : Event K}

/-- The clock and the routes of an event. -/
def Event.InRange : Event K → Prop
  | .call op => op.InRange
  | .opStep env => EpochMs env.now
  | _ => True

/-- A step brings no time into the trip that is out of range. -/
def TimesFit (opts : RecorderOptions K) (w : World K) : Event K → Prop
  | .opStep _ => ∀ mem ∈ w.mem, mem.TimesFit opts
  | _ => True

instance decTimesFit (opts : RecorderOptions K) (w : World K) :
    (e : Event K) → Decidable (TimesFit opts w e)
  | .opStep _ => inferInstanceAs (Decidable (∀ mem ∈ w.mem, mem.TimesFit opts))
  | .call _ => isTrue trivial
  | .drainStep _ => isTrue trivial
  | .timer => isTrue trivial
  | .kill => isTrue trivial
  | .launch => isTrue trivial

/-- A world all of whose trips fit, and which has queued valid bodies. -/
structure WorldFits (encode : RouteAlternative K → List (String × Commute.Json K)) (w : World K) :
    Prop where
  mem : ∀ mem ∈ w.mem, MemFits mem
  disk : ∀ t ∈ w.disk.trips, TripFits t
  log : ∀ e ∈ w.log, e.Fits encode

omit [FloorRing K] in
/-- A write stores trips that fit. -/
theorem Effect.Fits.onDisk {e : Effect K} {disk : StoredState K} (he : e.Fits encode)
    (h : ∀ t ∈ disk.trips, TripFits t) : ∀ t ∈ (e.onDisk disk).trips, TripFits t := by
  unfold Effect.onDisk
  split
  · intro t ht
    rcases (StoredState.mem_trips_apply ht).1 with ht | ht
    · exact he.1 t ht
    · exact h t ht
  · exact h

omit [FloorRing K] in
theorem WorldFits.emit {out : Out K} (h : WorldFits encode w) (hout : StepFits encode out) :
    WorldFits encode (w.emit out) := by
  refine ⟨fun mem hmem => ?_, ?_, fun e he => ?_⟩
  · rw [← Option.mem_some.mp hmem]
    exact hout.mem
  · exact foldl_invariant (I := fun disk : StoredState K => ∀ t ∈ disk.trips, TripFits t)
      (fun _ e he hdisk => (hout.effects e he).onDisk hdisk) h.disk
  · rcases List.mem_append.mp he with he | he
    · exact h.log e he
    · exact hout.effects e he

/-- **One event.** -/
theorem step_fits [IsStrictOrderedRing K] (he : e.InRange) (hfit : TimesFit opts w e)
    (h : WorldFits encode w) : WorldFits encode (step opts w e) := by
  unfold step
  split
  · refine ⟨fun mem hmem => ?_, h.disk, h.log⟩
    rw [← Option.mem_some.mp hmem]
    exact ⟨fun _ ht => absurd ht (Option.not_mem_none _), fun _ ht => absurd ht List.not_mem_nil,
      fun _ hop => absurd hop List.not_mem_nil, fun _ _ _ _ _ hc => by cases hc⟩
  · exact h
  · rename_i mem op hmem
    refine ⟨fun mem' hmem' => ?_, h.disk, h.log⟩
    rw [← Option.mem_some.mp hmem']
    obtain ⟨h1, h2, h3, h4⟩ := h.mem mem hmem
    refine ⟨h1, h2, fun op' hop => ?_, h4⟩
    rcases List.mem_append.mp hop with hop | hop
    · exact h3 op' hop
    · rw [List.mem_singleton.mp hop]
      exact he
  · rename_i mem env hmem
    exact h.emit (move_fits (h.mem mem hmem) h.disk he (hfit mem hmem) opStep_move)
  · rename_i mem env hmem
    exact h.emit (upload_fits (h.mem mem hmem) (drainStep_upload env))
  · rename_i mem hmem
    exact h.emit (upload_fits (h.mem mem hmem) timerStep_upload)
  · exact ⟨fun mem hmem => absurd hmem (Option.not_mem_none mem), h.disk, h.log⟩
  · exact h

/-- **The server accepts what is queued**, as long as the times fit: in every run on a clock in
range and on routes in range, whatever the readings are and in whatever order the calls come. -/
theorem bodies_valid_when [IsStrictOrderedRing K] (opts : RecorderOptions K)
    (encode : RouteAlternative K → List (String × Commute.Json K)) (events : List (Event K))
    (hin : ∀ e ∈ events, e.InRange) (hfit : Along (step opts) (TimesFit opts) .init events) :
    ∀ i, Put (run opts events).log i → i.body.Valid encode := by
  have hinit : WorldFits encode (World.init : World K) :=
    ⟨fun mem hmem => absurd hmem (Option.not_mem_none mem), fun _ ht => absurd ht List.not_mem_nil,
      fun _ he => absurd he List.not_mem_nil⟩
  have hrun : WorldFits encode (run opts events) :=
    ((along_of_forall hin).and hfit).invariant (fun _ _ h => step_fits h.1 h.2) hinit
  rintro i ⟨ops, ok, happly, hi⟩
  exact (hrun.log _ happly).2 i hi

end Run

/-! ## A ride on a clock in range -/

section Ride

instance decRouteInRange (r : RouteAlternative K) : Decidable r.InRange :=
  decidable_of_iff ((0 ≤ r.etaS ∧ r.etaS ≤ maxEtaS) ∧ (1 ≤ r.level.length ∧ r.level.length ≤ 32) ∧
    ∀ v ∈ r.profileVersion, v.length ≤ 128)
    ⟨fun ⟨h1, h2, h3⟩ => ⟨h1, h2, h3⟩, fun ⟨h1, h2, h3⟩ => ⟨h1, h2, h3⟩⟩

instance decOpInRange : (op : Op K) → Decidable op.InRange
  | .startTrip route _ => decRouteInRange route
  | .reroute route => decRouteInRange route
  | .init => isTrue trivial
  | .optIn _ => isTrue trivial
  | .setEnabled _ => isTrue trivial
  | .forget => isTrue trivial
  | .addFix _ => isTrue trivial
  | .endTrip _ => isTrue trivial
  | .retryNow => isTrue trivial

instance decEventInRange : (e : Event K) → Decidable e.InRange
  | .call op => decOpInRange op
  | .opStep env => Commute.decEpochMs env.now
  | .drainStep _ => isTrue trivial
  | .timer => isTrue trivial
  | .kill => isTrue trivial
  | .launch => isTrue trivial

/-- The fixes of a valid chunk are in range. -/
theorem epochMs_of_valid {encode : RouteAlternative K → List (String × Commute.Json K)}
    {i : OutboxItem K} (h : i.body.Valid encode) : ∀ f ∈ i.fixes, EpochMs f.t := by
  intro f hf
  unfold OutboxItem.fixes at hf
  split at hf
  · rename_i c hbody
    rw [hbody] at h
    exact (h.1 f.wire (List.mem_map_of_mem hf)).1
  · exact absurd hf List.not_mem_nil

/-- A call in the year 2020. -/
def rideIn2020 (op : Op ℚ) (steps : ℕ) : List (Event ℚ) :=
  .call op :: List.replicate steps (.opStep { rideEnv with now := 1600000000000 })

/-- A trip that seals one fix, and ends. The readings count their time from `t`. -/
def rideFrom (t : ℤ) : List (Event ℚ) :=
  .launch :: rideIn2020 (.optIn "token") 4 ++ rideIn2020 (.startTrip shortRoute none) 2 ++
    rideIn2020 (.addFix (rideFix t 0)) 2 ++
    rideIn2020 (.addFix (rideFix (t + 60000) (5 / 1000))) 2 ++
    rideIn2020 (.addFix (rideFix (t + 110000) (9 / 1000))) 2 ++ rideIn2020 (.endTrip true) 1

/-- Readings that count from the start of the phone are sealed into a chunk that the server
refuses. -/
theorem chunk_refused :
    (∀ e ∈ rideFrom 0, e.InRange) ∧ ∃ i, Put (run rideOpts (rideFrom 0)).log i ∧
      i.key = ⟨"ride", .chunk 0⟩ ∧ ∀ encode, ¬ i.body.Valid encode := by
  have h : ∃ i ∈ queuedItems (run rideOpts (rideFrom 0)).log,
      i.key = ⟨"ride", .chunk 0⟩ ∧ ∃ f ∈ i.fixes, ¬ EpochMs f.t := by
    decide +kernel
  obtain ⟨i, hi, hkey, f, hf, hrange⟩ := h
  exact ⟨by decide +kernel, i, put_of_mem_queuedItems hi, hkey,
    fun encode hvalid => hrange (epochMs_of_valid hvalid f hf)⟩

/-- Readings by the clock queue a chunk and an end, which are valid. -/
theorem bodies_valid_2020 :
    (queuedItems (run rideOpts (rideFrom 1600000000000)).log).map OutboxItem.key =
        [⟨"ride", .chunk 0⟩, ⟨"ride", .tripEnd⟩] ∧
      ∀ i, Put (run rideOpts (rideFrom 1600000000000)).log i → i.body.Valid fun _ => [] :=
  ⟨by decide +kernel, bodies_valid_when rideOpts (fun _ => []) (rideFrom 1600000000000)
    (by decide +kernel) (by decide +kernel)⟩

end Ride

end RoutePlanner.Recorder
