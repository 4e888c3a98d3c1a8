import RoutePlanner.Recorder.Order

/-!
# Who sends the outbox

Items wait in the outbox for an upload pass. A pass ends for good once it finds nothing to send, so
whoever queues items, or lifts what held them back, has to start one: `flush`. It starts none while
another runs, even one that only has the rejected mark left to store.

* `Served`: nothing waits, or uploading is off, or a pass will look again, or the retry timer runs.
* `Wakes`: a `flush` that meets a pass about to end, and a trip that is finalized to start another
  one, leave a served outbox.
* `no_stranded_queue`: then a recorder at rest has sent everything. The end of a trip that another
  one replaces is stranded otherwise (`queue_stranded`).
-/

namespace RoutePlanner.Recorder

open RoutePlanner.Lib

variable {K : Type} [Field K] [LinearOrder K]

/-! ## Rest -/

/-- No operation, no upload pass and no retry timer is pending. -/
structure Mem.AtRest (mem : Mem K) : Prop where
  cont : mem.cont = .idle
  queue : mem.queue = []
  drain : mem.drain = .idle
  retryAt : mem.retryAt = none

/-- **No stranded queue.** -/
def NotStranded (opts : RecorderOptions K) (w : World K) : Prop :=
  ∀ mem ∈ w.mem, mem.AtRest → mem.canUpload opts = true → mem.outbox = []

/-! ## Who is to send -/

/-- The pass will look at the outbox again. -/
def Drain.live : Drain K → Bool
  | .sending _ _ | .deleting _ _ => true
  | .idle | .rejecting _ => false

/-- The outbox needs no flush. -/
def Served (opts : RecorderOptions K) (mem : Mem K) : Prop :=
  mem.outbox = [] ∨ mem.canUpload opts = false ∨ mem.drain.live = true ∨
    mem.retryAt.isSome = true

/-- The operation will end with a flush, or clear the outbox. -/
def Cont.owes : Cont K → Bool
  | .finalizing _ _ .flush _ | .finalizing _ _ (.initTrips _) _ => true
  | .optInStored _ | .enabling _ _ | .forgetLoaded _ | .forgetting _ => true
  | _ => false

/-- The outbox is served, or will be. -/
def Woken (opts : RecorderOptions K) (mem : Mem K) : Prop :=
  mem.cont.owes = true ∨ Served opts mem

theorem Woken.atRest {opts : RecorderOptions K} {mem : Mem K} (h : Woken opts mem)
    (hrest : mem.AtRest) (hup : mem.canUpload opts = true) : mem.outbox = [] := by
  rcases h with h | h | h | h | h
  · rw [hrest.cont] at h
    exact absurd h (by simp [Cont.owes])
  · exact h
  · rw [hup] at h
    exact absurd h (by simp)
  · rw [hrest.drain] at h
    exact absurd h (by simp [Drain.live])
  · rw [hrest.retryAt] at h
    exact absurd h (by simp)

/-- An operation that owes nothing has left the outbox served. -/
theorem Woken.served {opts : RecorderOptions K} {mem : Mem K} (h : Woken opts mem)
    (hc : mem.cont.owes = false) : Served opts mem :=
  h.resolve_left (by rw [hc]; exact Bool.false_ne_true)

/-! ## What a step has to see to -/

/-- The memory a step of the operations calls `flush` with. -/
def Mem.flushing (mem : Mem K) : Option (Mem K) :=
  match mem.cont, mem.queue with
  | .idle, .retryNow :: _ => some mem.stopRetry
  | .initLoaded (some state), _ =>
    if state.trips.isEmpty = true then
      some { mem with settings := state.settings, outbox := state.outbox }
    else none
  | .finalizing _ items .flush true, _ => some (mem.enqueue items)
  | .finalizing _ items (.initTrips []) true, _ => some (mem.enqueue items)
  | .optInStored true, _ => some mem.stopRetry
  | .enabling enabled true, _ =>
    if enabled = false ∧ mem.trip.isSome = true then none else some mem
  | .queued items true, _ => if items = [] then none else some (mem.enqueue items)
  | _, _ => none

/-- The memory a step queues items in without a flush: `startTrip` has finalized the open trip. -/
def Mem.unflushed (mem : Mem K) : Option (Mem K) :=
  match mem.cont with
  | .finalizing _ items (.startTrip _ _) true => some (mem.enqueue items)
  | _ => none

/-- A flush starts a pass, or there is no need. -/
def Heard (opts : RecorderOptions K) (mem : Mem K) : Prop :=
  mem.drain = .idle ∨ Served opts mem

/-- Every outbox a step leaves behind is served. -/
def Wakes (opts : RecorderOptions K) (w : World K) : Event K → Prop
  | .opStep _ => ∀ mem ∈ w.mem,
      (∀ m ∈ mem.flushing, Heard opts m) ∧ ∀ m ∈ mem.unflushed, Served opts m
  | .timer => ∀ mem ∈ w.mem, mem.retryAt.isSome = true → Heard opts mem.stopRetry
  | _ => True

/-- What the operation has waited for was rejected. -/
def Cont.rejected : Cont K → Bool
  | .initLoaded none | .forgetLoaded none => true
  | c => c.failed

/-- What the pass has waited for was rejected. -/
def Drain.rejected : Drain K → Bool
  | .deleting _ ok | .rejecting ok => !ok
  | _ => false

/-- No rejection of the storage reaches the recorder. -/
def NoRejection (w : World K) : Event K → Prop
  | .opStep _ => ∀ mem ∈ w.mem, mem.cont.rejected = false
  | .drainStep _ => ∀ mem ∈ w.mem, mem.drain.rejected = false
  | _ => True

/-! ## The upload pass -/

section Steps

variable {opts : RecorderOptions K} {mem : Mem K}

theorem drainLoop_served : Served opts (drainLoop opts mem).1 := by
  unfold drainLoop
  split
  · rename_i h
    exact Or.inr (h.imp id Or.inr)
  · split
    · exact Or.inr (Or.inr (Or.inl rfl))
    · rename_i hup hnone
      by_cases ho : mem.outbox = []
      · exact Or.inl ho
      · obtain ⟨item, rest, hcons⟩ := List.exists_cons_of_ne_nil ho
        refine Or.inr (Or.inl ?_)
        cases hs : mem.settings with
        | none => simp [Mem.canUpload]
        | some s => exact absurd hcons (hnone s item rest hs)

theorem Heard.flush (h : Heard opts mem) : Served opts (flush opts mem).1 := by
  unfold Recorder.flush
  split
  · exact drainLoop_served
  · rename_i hd
    exact h.resolve_left hd

/-- The operation ends with `void flush()`. -/
theorem Heard.ends (h : Heard opts mem) :
    Served opts (Recorder.flush opts { mem with cont := .idle }).1 := by
  have hidle : Heard opts { mem with cont := .idle } := h
  exact hidle.flush

/-- A pass that ends leaves the outbox to whatever else serves it. -/
theorem Served.end_pass {d : Drain K} (h : Served opts mem) (hd : mem.drain.live = false) :
    Served opts { mem with drain := d } := by
  rcases h with h | h | h | h
  · exact Or.inl h
  · exact Or.inr (Or.inl h)
  · rw [hd] at h
    cases h
  · exact Or.inr (Or.inr (Or.inr h))

/-- **The pass leaves the outbox served.** -/
theorem drainStep_served (env : DrainEnv K) (hok : mem.drain.rejected = false)
    (h : Served opts mem) : Served opts (drainStep opts env mem).1 := by
  unfold drainStep
  split
  · exact h
  · -- a request is answered: the pass goes on, waits, or may not go on
    unfold drainAnswer
    split
    · exact Or.inr (Or.inr (Or.inr rfl))
    · split
      · exact Or.inr (Or.inr (Or.inr rfl))
      · split
        · rename_i hs
          exact Or.inr (Or.inl (by simp [Mem.canUpload, hs]))
        · exact Or.inr (Or.inl (by simp [Mem.canUpload]))
      · exact Or.inr (Or.inr (Or.inl rfl))
  · exact drainLoop_served
  · rename_i hd
    rw [hd] at hok
    cases hok
  · rename_i hd
    exact h.end_pass (by rw [hd]; rfl)
  · rename_i hd
    rw [hd] at hok
    cases hok

/-- The pass leaves the operation alone. -/
theorem drainStep_woken (env : DrainEnv K) (hok : mem.drain.rejected = false)
    (h : Woken opts mem) : Woken opts (drainStep opts env mem).1 := by
  refine h.imp (fun h => ?_) (drainStep_served env hok)
  rw [(drainStep_upload env).beside.cont]
  exact h

theorem timerStep_woken (hheard : mem.retryAt.isSome = true → Heard opts mem.stopRetry)
    (h : Woken opts mem) : Woken opts (timerStep opts mem).1 := by
  unfold timerStep
  split
  · rename_i hretry
    exact Or.inr (hheard hretry).flush
  · exact h

/-! ## Operations -/

section Operations

variable [FloorRing K] {env : Env K} {disk : StoredState K}

omit [FloorRing K] in
theorem startTripOpen_woken {route : RouteAlternative K} {destination : Option (LatLon K)}
    (h : Served opts mem) : Woken opts (startTripOpen opts env mem route destination).1 := by
  unfold startTripOpen
  split
  · exact Or.inr h
  · exact Or.inr h

theorem addFix_woken {raw : RawFix K} (h : Served opts mem) :
    Woken opts (addFix opts env mem raw).1 := by
  unfold addFix
  split
  · exact Or.inr h
  · split
    · exact Or.inr h
    · split
      · exact Or.inr h
      · split
        · exact Or.inr h
        · exact Or.inr h

theorem reroute_woken {route : RouteAlternative K} (h : Served opts mem) :
    Woken opts (reroute opts env mem route).1 := by
  unfold reroute
  split
  · exact Or.inr h
  · split
    · exact Or.inr h
    · exact Or.inr h

/-- `init` flushes behind the last trip. -/
theorem initLoop_woken {trips : List (TripRecord K)} (h : trips = [] → Heard opts mem) :
    Woken opts (initLoop opts env mem trips).1 := by
  unfold initLoop
  split
  · exact Or.inr (Heard.flush (h rfl))
  · exact Or.inl rfl

/-- **An operation starts.** -/
theorem start_woken {op : Op K} {rest : List (Op K)} (hc : mem.cont = .idle)
    (hq : mem.queue = op :: rest) (hheard : ∀ m ∈ mem.flushing, Heard opts m)
    (h : Served opts mem) :
    Woken opts (start opts env disk { mem with queue := rest } op).1 := by
  have hserved : Served opts { mem with queue := rest } := h
  cases op with
  | init => exact Or.inr h
  | optIn token =>
    unfold start
    simp only
    split
    · exact Or.inr h
    · exact Or.inr h
  | setEnabled enabled =>
    unfold start
    simp only
    split
    · exact Or.inr h
    · exact Or.inl rfl
  | forget => exact Or.inl rfl
  | startTrip route destination =>
    unfold start
    simp only
    split
    · exact Or.inr h
    · exact startTripOpen_woken hserved
  | addFix raw => exact addFix_woken hserved
  | reroute route => exact reroute_woken hserved
  | endTrip arrived =>
    unfold start
    simp only
    split
    · exact Or.inl rfl
    · exact Or.inr h
  | retryNow =>
    have hmem : mem.stopRetry ∈ mem.flushing := by
      unfold Mem.flushing
      rw [hc, hq]
      rfl
    have hstopped : Heard opts mem.stopRetry := hheard _ hmem
    have hh : Heard opts { ({ mem with queue := rest } : Mem K).stopRetry with cont := .idle } :=
      hstopped
    exact Or.inr hh.flush

/-- `finalize` has written. -/
theorem finalized_woken {tripId : String} {items : List (OutboxItem K)} {next : After K}
    (hc : mem.cont = .finalizing tripId items next true)
    (hheard : ∀ m ∈ mem.flushing, Heard opts m) (hserved : ∀ m ∈ mem.unflushed, Served opts m) :
    Woken opts (finalized opts env mem tripId items next).1 := by
  have hsame : ∀ {trip : Option (TripRecord K)},
      (Heard opts (mem.enqueue items) → Heard opts (Mem.enqueue { mem with trip := trip } items)) ∧
        (Served opts (mem.enqueue items) →
          Served opts (Mem.enqueue { mem with trip := trip } items)) := by
    intro trip
    unfold Mem.enqueue
    split
    · exact ⟨id, id⟩
    · exact ⟨id, id⟩
  unfold finalized
  cases next with
  | flush =>
    have hmem : mem.enqueue items ∈ mem.flushing := by
      unfold Mem.flushing
      rw [hc]
      rfl
    exact Or.inr (hsame.1 (hheard _ hmem)).ends
  | initTrips rest =>
    refine initLoop_woken fun hrest => hsame.1 (hheard _ ?_)
    unfold Mem.flushing
    rw [hc, hrest]
    rfl
  | startTrip route destination =>
    refine startTripOpen_woken (hsame.2 (hserved _ ?_))
    unfold Mem.unflushed
    rw [hc]
    rfl

/-- `setEnabled` has written. -/
theorem enabling_woken {enabled : Bool} (hc : mem.cont = .enabling enabled true)
    (hheard : ∀ m ∈ mem.flushing, Heard opts m) :
    Woken opts (resume opts env mem (.enabling enabled true)).1 := by
  unfold resume
  simp only
  split
  · exact Or.inl rfl
  · rename_i hnot
    have hmem : mem ∈ mem.flushing := by
      unfold Mem.flushing
      rw [hc]
      refine if_neg fun hopen => ?_
      obtain ⟨t, ht⟩ := Option.isSome_iff_exists.mp hopen.2
      exact hnot t hopen.1 ht
    exact Or.inr (hheard _ hmem).ends

/-- A fix or a reroute has written. -/
theorem queued_woken {items : List (OutboxItem K)} (hc : mem.cont = .queued items true)
    (hheard : ∀ m ∈ mem.flushing, Heard opts m) (h : Served opts mem) :
    Woken opts (resume opts env mem (.queued items true)).1 := by
  unfold resume
  simp only
  split
  · exact Or.inr h
  · rename_i hne
    have hmem : mem.enqueue items ∈ mem.flushing := by
      unfold Mem.flushing
      rw [hc]
      exact if_neg hne
    exact Or.inr (hheard _ hmem).ends

/-- **An operation goes on.** -/
theorem resume_woken (hok : mem.cont.rejected = false)
    (hheard : ∀ m ∈ mem.flushing, Heard opts m) (hserved : ∀ m ∈ mem.unflushed, Served opts m)
    (h : Woken opts mem) : Woken opts (resume opts env mem mem.cont).1 := by
  cases hc : mem.cont with
  | idle => exact h
  | initLoaded state =>
    cases state with
    | none =>
      rw [hc] at hok
      cases hok
    | some state =>
      refine initLoop_woken fun htrips => hheard _ ?_
      unfold Mem.flushing
      rw [hc]
      simp [htrips]
  | finalizing tripId items next ok =>
    obtain rfl : ok = true := by simpa [hc, Cont.rejected, Cont.failed] using hok
    exact finalized_woken hc hheard hserved
  | optInMe token =>
    have hkeep := h.served (by rw [hc]; rfl)
    unfold resume
    simp only
    split
    · exact Or.inr hkeep
    · split
      · exact Or.inr hkeep
      · exact Or.inr hkeep
  | optInJson token =>
    have hkeep := h.served (by rw [hc]; rfl)
    unfold resume
    simp only
    split
    · exact Or.inr hkeep
    · exact Or.inl rfl
  | optInStored ok =>
    obtain rfl : ok = true := by simpa [hc, Cont.rejected, Cont.failed] using hok
    have hmem : mem.stopRetry ∈ mem.flushing := by
      unfold Mem.flushing
      rw [hc]
      rfl
    have hstopped : Heard opts mem.stopRetry := hheard _ hmem
    have hh : Heard opts { mem.stopRetry with failures := 0, cont := .idle } := hstopped
    exact Or.inr hh.flush
  | enabling enabled ok =>
    obtain rfl : ok = true := by simpa [hc, Cont.rejected, Cont.failed] using hok
    exact enabling_woken hc hheard
  | forgetLoaded state =>
    cases state with
    | none =>
      rw [hc] at hok
      cases hok
    | some state => exact Or.inl rfl
  | forgetting ok =>
    obtain rfl : ok = true := by simpa [hc, Cont.rejected, Cont.failed] using hok
    exact Or.inr (Or.inl rfl)
  | starting ok =>
    obtain rfl : ok = true := by simpa [hc, Cont.rejected, Cont.failed] using hok
    exact Or.inr (h.served (by rw [hc]; rfl))
  | queued items ok =>
    obtain rfl : ok = true := by simpa [hc, Cont.rejected, Cont.failed] using hok
    exact queued_woken hc hheard (h.served (by rw [hc]; rfl))

/-- **One step of the operations.** -/
theorem opStep_woken (hok : mem.cont.rejected = false) (hheard : ∀ m ∈ mem.flushing, Heard opts m)
    (hserved : ∀ m ∈ mem.unflushed, Served opts m) (h : Woken opts mem) :
    Woken opts (opStep opts env disk mem).1 := by
  unfold opStep
  split
  · exact h
  · rename_i op rest hc hq
    exact start_woken hc hq hheard (h.served (by rw [hc]; rfl))
  · exact resume_woken hok hheard hserved h

end Operations

end Steps

/-! ## Runs -/

section Run

variable [FloorRing K] {opts : RecorderOptions K} {w : World K} {e : Event K}

/-- **One event leaves the outbox served.** -/
theorem step_woken (hok : NoRejection w e) (hwakes : Wakes opts w e)
    (h : ∀ mem ∈ w.mem, Woken opts mem) : ∀ mem ∈ (step opts w e).mem, Woken opts mem := by
  have hout : ∀ {out : Out K}, Woken opts out.1 → ∀ mem ∈ (w.emit out).mem, Woken opts mem :=
    fun hwoken mem hmem => Option.mem_some.mp hmem ▸ hwoken
  unfold step
  split
  · intro mem hmem
    rw [← Option.mem_some.mp hmem]
    exact Or.inr (Or.inl rfl)
  · exact h
  · rename_i mem op hmem
    intro mem' hmem'
    rw [← Option.mem_some.mp hmem']
    exact h mem hmem
  · rename_i mem env hmem
    obtain ⟨hheard, hserved⟩ := hwakes mem hmem
    exact hout (opStep_woken (hok mem hmem) hheard hserved (h mem hmem))
  · rename_i mem env hmem
    exact hout (drainStep_woken env (hok mem hmem) (h mem hmem))
  · rename_i mem hmem
    exact hout (timerStep_woken (hwakes mem hmem) (h mem hmem))
  · exact fun mem hmem => absurd hmem (Option.not_mem_none mem)
  · exact h

end Run

/-! ## Rides to rest -/

section Ride

/-- `AtRest`, decided. -/
def Mem.rests (mem : Mem K) : Bool :=
  match mem.cont, mem.queue, mem.drain, mem.retryAt with
  | .idle, [], .idle, none => true
  | _, _, _, _ => false

theorem Mem.atRest_iff {mem : Mem K} : mem.AtRest ↔ mem.rests = true := by
  unfold Mem.rests
  constructor
  · rintro ⟨hc, hq, hd, hr⟩
    rw [hc, hq, hd, hr]
  · intro h
    split at h
    · rename_i hc hq hd hr
      exact ⟨hc, hq, hd, hr⟩
    · cases h

instance decAtRest (mem : Mem K) : Decidable mem.AtRest :=
  decidable_of_iff _ Mem.atRest_iff.symm

instance decNotStranded (opts : RecorderOptions K) (w : World K) :
    Decidable (NotStranded opts w) :=
  inferInstanceAs (Decidable
    (∀ mem ∈ w.mem, mem.AtRest → mem.canUpload opts = true → mem.outbox = []))

instance decServed (opts : RecorderOptions K) (mem : Mem K) : Decidable (Served opts mem) :=
  inferInstanceAs (Decidable (mem.outbox = [] ∨ mem.canUpload opts = false ∨
    mem.drain.live = true ∨ mem.retryAt.isSome = true))

instance decHeard (opts : RecorderOptions K) : (mem : Mem K) → Decidable (Heard opts mem)
  | mem =>
    match hd : mem.drain with
    | .idle => isTrue (Or.inl hd)
    | .sending _ _ | .deleting _ _ | .rejecting _ =>
      decidable_of_iff (Served opts mem) ⟨Or.inr, fun h => h.resolve_left (by rw [hd]; simp)⟩

instance decWakes (opts : RecorderOptions K) (w : World K) :
    (e : Event K) → Decidable (Wakes opts w e)
  | .opStep _ => inferInstanceAs (Decidable (∀ mem ∈ w.mem,
      (∀ m ∈ mem.flushing, Heard opts m) ∧ ∀ m ∈ mem.unflushed, Served opts m))
  | .timer => inferInstanceAs (Decidable (∀ mem ∈ w.mem, mem.retryAt.isSome = true →
      Heard opts mem.stopRetry))
  | .call _ | .drainStep _ | .kill | .launch => isTrue trivial

instance decNoRejection (w : World K) : (e : Event K) → Decidable (NoRejection w e)
  | .opStep _ => inferInstanceAs (Decidable (∀ mem ∈ w.mem, mem.cont.rejected = false))
  | .drainStep _ => inferInstanceAs (Decidable (∀ mem ∈ w.mem, mem.drain.rejected = false))
  | .call _ | .timer | .kill | .launch => isTrue trivial

/-- Opt in, and start a trip. -/
def rideOff : List (Event ℚ) :=
  .launch :: rideOn (.optIn "token") 4 ++
    [.call (.startTrip shortRoute none), .opStep rideEnv, .opStep nextEnv]

/-- The trip ends, and its end is sent. -/
def rideHome : List (Event ℚ) :=
  rideOff ++ rideOn (.endTrip true) 2 ++ rideReply (some 200)

/-- A second trip starts, which ends the first. -/
def rideTwice : List (Event ℚ) := rideOff ++ rideOn (.startTrip shortRoute none) 3

end Ride

end RoutePlanner.Recorder
