import RoutePlanner.Recorder.Invariant

/-!
# What one step of the recorder can do

The steps of the machine, read off once. An operation's step first takes over what it waited for
(`Prep`) and then does one thing (`Move`). The upload pass and the timer send the first item, delete
one, mark the settings or stop (`Upload`). An invariant of the recorder is a case analysis over
these.

* `opStep_move`: every step of an operation is a `Move`.
* `drainStep_upload`, `flush_upload`, `timerStep_upload`: every step beside it is an `Upload`.
* `Advance`: what a fix or a reroute does to the open trip.
-/

namespace RoutePlanner.Recorder

variable {K : Type} [Field K] [LinearOrder K]

/-! ## The upload pass -/

/-- The memory of the operations is untouched. -/
structure Mem.Beside (mem mem' : Mem K) : Prop where
  trip : mem'.trip = mem.trip
  cont : mem'.cont = mem.cont
  queue : mem'.queue = mem.queue

/-- The outbox as it is, or without the item whose deletion from the storage has just succeeded. -/
def Mem.Purge (mem : Mem K) (outbox : List (OutboxItem K)) : Prop :=
  outbox = mem.outbox ∨ ∃ key, mem.drain = .deleting key true ∧
    outbox = mem.outbox.filter fun i => decide (i.key ≠ key)

theorem Mem.Purge.sublist {mem : Mem K} {outbox : List (OutboxItem K)} (h : mem.Purge outbox) :
    outbox.Sublist mem.outbox := by
  rcases h with rfl | ⟨key, -, rfl⟩
  · exact List.Sublist.refl _
  · exact List.filter_sublist

/-- What the upload pass and the timer can do. -/
inductive Upload (mem : Mem K) : Out K → Prop where
  /-- Nothing that leaves the memory. -/
  | quiet {mem' es} (hb : mem.Beside mem') (hs : mem'.settings = mem.settings)
    (ho : mem.Purge mem'.outbox) (hd : mem'.drain.items = [])
    (hdel : ∀ key ok, mem'.drain ≠ .deleting key ok)
    (hes : ∀ e ∈ es, e = .rejected ∨ ∃ token status, e = .answered token status) :
    Upload mem (mem', es)
  /-- The first item of the outbox is sent, with the token of the settings. -/
  | send {mem' s item rest} (hb : mem.Beside mem') (hs : mem.settings = some s)
    (hs' : mem'.settings = mem.settings) (ho : mem.Purge mem'.outbox)
    (hi : mem'.outbox = item :: rest) (hd : mem'.drain = .sending item s.token) :
    Upload mem (mem', [.send item s.token])
  /-- An item that was sent is deleted from the storage. -/
  | delete {mem' item token status ok} (hb : mem.Beside mem') (hs : mem'.settings = mem.settings)
    (ho : mem'.outbox = mem.outbox) (hd : mem.drain = .sending item token)
    (hd' : mem'.drain = .deleting item.key ok) :
    Upload mem (mem', [.answered token status,
      .apply { StorageOps.nop with deleteOutbox := [item.key] } ok])
  /-- A request that carried `token` was answered 401, and the settings of now are marked. -/
  | mark {mem' item token s ok} (hb : mem.Beside mem') (hd : mem.drain = .sending item token)
    (hs : mem.settings = some s) (hs' : mem'.settings = some { s with rejected := true })
    (ho : mem'.outbox = mem.outbox) (hd' : mem'.drain = .rejecting ok) :
    Upload mem (mem', [.answered token 401,
      .apply { StorageOps.nop with settings := some (some { s with rejected := true }) } ok])
  /-- The timer fires, or an operation flushes, while the pass runs. -/
  | busy {mem'} (hb : mem.Beside mem') (hs : mem'.settings = mem.settings)
    (ho : mem'.outbox = mem.outbox) (hd : mem'.drain = mem.drain) : Upload mem (mem', [])

section Upload

variable {opts : RecorderOptions K} {mem : Mem K}

theorem Mem.Beside.refl (mem : Mem K) : mem.Beside mem := ⟨rfl, rfl, rfl⟩

theorem Upload.beside {out : Out K} (h : Upload mem out) : mem.Beside out.1 := by
  cases h <;> assumption

theorem drainLoop_upload {mem₀ : Mem K} (hb : mem₀.Beside mem) (hs : mem.settings = mem₀.settings)
    (ho : mem₀.Purge mem.outbox) : Upload mem₀ (drainLoop opts mem) := by
  unfold drainLoop
  split
  · exact .quiet ⟨hb.trip, hb.cont, hb.queue⟩ hs ho rfl (by simp) (by simp)
  · split
    · rename_i s item rest hset hout
      exact .send ⟨hb.trip, hb.cont, hb.queue⟩ (hs ▸ hset) hs ho hout rfl
    · exact .quiet ⟨hb.trip, hb.cont, hb.queue⟩ hs ho rfl (by simp) (by simp)

theorem flush_upload {mem₀ : Mem K} (hb : mem₀.Beside mem) (hs : mem.settings = mem₀.settings)
    (ho : mem.outbox = mem₀.outbox) (hd : mem.drain = mem₀.drain) :
    Upload mem₀ (flush opts mem) := by
  unfold flush
  split
  · exact drainLoop_upload hb hs (Or.inl ho)
  · exact .busy hb hs ho hd

theorem timerStep_upload : Upload mem (timerStep opts mem) := by
  unfold timerStep
  split
  · exact flush_upload ⟨rfl, rfl, rfl⟩ rfl rfl rfl
  · exact .busy (Mem.Beside.refl mem) rfl rfl rfl

theorem classify_unauthorized {status : ℕ} (h : classify status = .unauthorized) :
    status = 401 := by
  unfold classify at h
  split_ifs at h
  assumption

/-- **The upload pass.** -/
theorem drainStep_upload (env : DrainEnv K) : Upload mem (drainStep opts env mem) := by
  have hrefl : mem.Purge mem.outbox := Or.inl rfl
  unfold drainStep
  split
  · exact .busy (Mem.Beside.refl mem) rfl rfl rfl
  · rename_i item token hd
    unfold drainAnswer
    split
    · exact .quiet ⟨rfl, rfl, rfl⟩ rfl hrefl rfl (by simp) (by simp)
    · rename_i status _
      split
      · exact .quiet ⟨rfl, rfl, rfl⟩ rfl hrefl rfl (by simp) (by simp)
      · rename_i hclass
        obtain rfl := classify_unauthorized hclass
        split
        · exact .quiet ⟨rfl, rfl, rfl⟩ rfl hrefl rfl (by simp) (by simp)
        · rename_i s hs
          exact .mark ⟨rfl, rfl, rfl⟩ hd hs rfl rfl rfl
      · exact .delete ⟨rfl, rfl, rfl⟩ rfl rfl hd rfl
  · rename_i key hd
    exact drainLoop_upload ⟨rfl, rfl, rfl⟩ rfl (Or.inr ⟨key, hd, rfl⟩)
  · exact .quiet ⟨rfl, rfl, rfl⟩ rfl hrefl rfl (by simp) (by simp)
  · exact .quiet ⟨rfl, rfl, rfl⟩ rfl hrefl rfl (by simp) (by simp)
  · exact .quiet ⟨rfl, rfl, rfl⟩ rfl hrefl rfl (by simp) (by simp)

end Upload

/-! ## Operations -/

/-- The trip whose end was queued by the awaited write. -/
def Cont.closing : Cont K → Option String
  | .finalizing tripId _ _ true => some tripId
  | _ => none

section Enqueue

variable {mem : Mem K} {items : List (OutboxItem K)} {i : OutboxItem K}

@[simp] theorem Mem.enqueue_trip : (mem.enqueue items).trip = mem.trip := by
  unfold Mem.enqueue
  split <;> rfl

@[simp] theorem Mem.enqueue_drain : (mem.enqueue items).drain = mem.drain := by
  unfold Mem.enqueue
  split <;> rfl

@[simp] theorem Mem.enqueue_settings : (mem.enqueue items).settings = mem.settings := by
  unfold Mem.enqueue
  split <;> rfl

@[simp] theorem Mem.enqueue_queue : (mem.enqueue items).queue = mem.queue := by
  unfold Mem.enqueue
  split <;> rfl

@[simp] theorem Mem.enqueue_retryAt : (mem.enqueue items).retryAt = mem.retryAt := by
  unfold Mem.enqueue
  split <;> rfl

theorem Mem.mem_enqueue : i ∈ (mem.enqueue items).outbox ↔ i ∈ mem.outbox ∨ i ∈ items := by
  unfold Mem.enqueue
  split
  · rename_i h
    simp [h]
  · exact List.mem_mergeSort.trans List.mem_append

end Enqueue

/-- The outbox as the awaited write or load will leave it. -/
def Cont.upcoming (outbox : List (OutboxItem K)) : Cont K → List (OutboxItem K)
  | .initLoaded (some state) => state.outbox
  | .finalizing _ items _ true => outbox ++ items
  | .queued items true => outbox ++ items
  | _ => outbox

/-- `forget` has cleared the storage, and has yet to clear the memory. -/
def Cont.clears : Cont K → Bool
  | .forgetting ok => ok
  | _ => false

/-- What an operation waits for that has no write under way. -/
inductive Cont.Waits (disk : StoredState K) : Cont K → Prop where
  | idle : Waits disk .idle
  | initUnloaded : Waits disk (.initLoaded none)
  | initLoaded : Waits disk (.initLoaded (some disk.load))
  | forgetUnloaded : Waits disk (.forgetLoaded none)
  | forgetLoaded : Waits disk (.forgetLoaded (some disk.load))
  | optInMe (token : String) : Waits disk (.optInMe token)
  | optInJson (token : String) : Waits disk (.optInJson token)

/-- `Prep mem mem₁ loaded`: an operation that goes on, or starts, takes over what it waited for.
`loaded` are the trips `init` has yet to finalize. -/
inductive Prep (mem : Mem K) : Mem K → List (TripRecord K) → Prop where
  /-- Nothing that counts: the queue, the timer and the failures apart. -/
  | same {mem₁} (hfailed : mem.cont.failed = false) (hclosing : mem.cont.closing = none)
    (htrips : mem.cont.trips = []) (hitems : mem.cont.items = [])
    (hup : mem.cont.upcoming mem.outbox = mem.outbox) (hkeep : mem.cont.clears = false)
    (ht : mem₁.trip = mem.trip) (hs : mem₁.settings = mem.settings)
    (ho : mem₁.outbox = mem.outbox) (hd : mem₁.drain = mem.drain)
    (hq : ∀ op ∈ mem₁.queue, op ∈ mem.queue) : Prep mem mem₁ []
  /-- `init` has loaded the storage. -/
  | loaded {state} (hc : mem.cont = .initLoaded (some state)) :
    Prep mem { mem with settings := state.settings, outbox := state.outbox } state.trips
  /-- `finalize` has written. -/
  | finalized {tripId items next} (hc : mem.cont = .finalizing tripId items next true) :
    Prep mem
      (Mem.enqueue { mem with trip := mem.trip.filter fun t => decide (t.tripId ≠ tripId) } items)
      next.trips
  /-- A fix or a reroute has written. -/
  | queued {items} (hc : mem.cont = .queued items true) : Prep mem (mem.enqueue items) []
  /-- `forget` has written. -/
  | cleared (hc : mem.cont = .forgetting true) :
    Prep mem { mem with settings := none, trip := none, outbox := [], failures := 0 } []

section Defs

variable [FloorRing K] (opts : RecorderOptions K) (env : Env K)

/-- The artifact a reroute begins to follow. -/
def rerouted (t : TripRecord K) (route : RouteAlternative K) : FollowedArtifact K :=
  ⟨max env.now ((t.prediction.map EtaPrediction.effectiveAt).getD 0 + 1), route⟩

/-- `Advance opts env t e t' s`: a fix or a reroute (`e`) makes `t` into `t'` and seals `s` from
it. -/
inductive Advance (t : TripRecord K) : Effect K → TripRecord K → Sealing K → Prop where
  /-- A fix is accepted, and the interval has passed. -/
  | fixSeal {fix} (hf : followsHead opts.distanceM t.head fix = true)
    (hi : sealIntervalMs ≤ fix.t - t.lastSealAt) :
    Advance t (.accept t.tripId fix) (acceptFix opts t fix)
      (sealFixes opts env.stamp (acceptFix opts t fix))
  /-- A fix is accepted. -/
  | fix {fix} (hf : followsHead opts.distanceM t.head fix = true) :
    Advance t (.accept t.tripId fix) (acceptFix opts t fix) ⟨acceptFix opts t fix, [], false⟩
  /-- A route is followed by a trip that is sealing. -/
  | routeSeal {route} (hs : t.sealedFixes = true) :
    Advance t (.follow t.tripId route) (followRoute t route (rerouted env t route).effectiveAt)
      (sealArtifact opts env.stamp
        ⟨followRoute t route (rerouted env t route).effectiveAt, [], false⟩ (rerouted env t route))
  /-- A route is followed, and held. -/
  | route {route} (hs : t.sealedFixes = false) :
    Advance t (.follow t.tripId route) (followRoute t route (rerouted env t route).effectiveAt)
      ⟨{ followRoute t route (rerouted env t route).effectiveAt with
        heldArtifacts := t.heldArtifacts ++ [rerouted env t route] }, [], false⟩

/-- The operation advances the open trip by `e`. -/
def Op.Advances : Effect K → Op K → Prop
  | .accept _ fix, .addFix raw => toTraceFix raw = some fix
  | .follow _ route, .reroute route' => route' = route
  | _, _ => False

/-- `startTrip` starts, or has ended the trip before. -/
def Mem.Starts (mem : Mem K) (route : RouteAlternative K) (destination : Option (LatLon K)) :
    Prop :=
  .startTrip route destination ∈ mem.queue.head? ∨
    ∃ tripId items, mem.cont = .finalizing tripId items (.startTrip route destination) true

/-- **What an operation can do in one step.** -/
inductive Move (disk : StoredState K) (mem : Mem K) : Out K → Prop where
  /-- There is nothing to do. -/
  | rest (hc : mem.cont = .idle) : Move disk mem (mem, [])
  /-- The awaited write was rejected. -/
  | thrown (hc : mem.cont.failed = true) : Move disk mem mem.thrown
  /-- The operation ends, or waits. -/
  | wait {mem₁ loaded c} (hp : Prep mem mem₁ loaded) (hl : loaded = []) (hc : c.Waits disk) :
    Move disk mem ({ mem₁ with cont := c }, [])
  /-- The operation ends with `void flush()`. -/
  | flush {mem₁ loaded} (hp : Prep mem mem₁ loaded) (hl : loaded = []) :
    Move disk mem (flush opts { mem₁ with cont := .idle })
  /-- The open trip is finalized. -/
  | closeOpen {mem₁ loaded t next} (hp : Prep mem mem₁ loaded) (hl : loaded = [])
    (ht : mem₁.trip = some t) (arrived : Bool) (hn : next.trips = [])
    (hop : ∀ route destination, next = .startTrip route destination →
      .startTrip route destination ∈ mem.queue.head?) :
    Move disk mem (finalizeOpen opts env mem₁ t arrived next)
  /-- A trip that was left open is finalized. -/
  | closeLoaded {mem₁ t rest} (hp : Prep mem mem₁ (t :: rest)) :
    Move disk mem (finalize opts env mem₁ t false (endTime t t.startedAt) (.initTrips rest))
  /-- A trip starts. -/
  | startTrip {mem₁ loaded route destination} (hp : Prep mem mem₁ loaded) (hl : loaded = [])
    (hop : mem.Starts route destination) :
    Move disk mem
      ({ mem₁ with trip := some (newTrip env route destination), cont := .starting env.ok },
        [.follow env.tripId route,
          .apply { StorageOps.nop with putTrips := [newTrip env route destination] } env.ok])
  /-- A fix or a reroute starts, and recording is on. -/
  | advance {mem₁ loaded t e t' s} (hp : Prep mem mem₁ loaded) (hl : loaded = [])
    (hc : mem.cont = .idle) (hrec : mem.canRecord opts = true) (ht : mem₁.trip = some t)
    (hop : ∃ op ∈ mem.queue.head?, op.Advances e) (ha : Advance opts env t e t' s) :
    Move disk mem ({ mem₁ with trip := some s.trip, cont := .queued s.into env.ok },
      [e, .sealed t' s, .apply { (StorageOps.nop : StorageOps K) with
        putTrips := [s.trip]
        putOutbox := s.into } env.ok])
  /-- Settings are written. A mark comes from the settings before, with their token. -/
  | settings {mem₁ loaded s c} (hp : Prep mem mem₁ loaded) (hl : loaded = [])
    (hs : s.rejected = true → ∃ s₀ ∈ mem.settings, s₀.rejected = true ∧ s₀.token = s.token)
    (hc : c = .optInStored env.ok ∨ ∃ enabled, c = .enabling enabled env.ok) :
    Move disk mem ({ mem₁ with settings := some s, cont := c },
      [.apply { StorageOps.nop with settings := some (some s) } env.ok])
  /-- Everything that was stored is deleted. -/
  | forget {state} (hc : mem.cont = .forgetLoaded (some state)) :
    Move disk mem ({ mem with cont := .forgetting env.ok },
      [.apply
        { settings := some none
          putTrips := []
          deleteTrips := state.trips.map TripRecord.tripId
          putOutbox := []
          deleteOutbox := state.outbox.map OutboxItem.key } env.ok])

end Defs

section Moves

variable [FloorRing K] {opts : RecorderOptions K} {env : Env K} {disk : StoredState K}
  {mem mem₁ : Mem K} {op : Op K} {rest : List (Op K)}

omit [FloorRing K] in
/-- An operation starts. -/
theorem Prep.begin (hc : mem.cont = .idle) (hq : mem.queue = op :: rest)
    (ht : mem₁.trip = mem.trip) (hs : mem₁.settings = mem.settings)
    (ho : mem₁.outbox = mem.outbox) (hd : mem₁.drain = mem.drain) (hq' : mem₁.queue = rest) :
    Prep mem mem₁ [] := by
  refine .same (by rw [hc]; rfl) (by rw [hc]; rfl) (by rw [hc]; rfl) (by rw [hc]; rfl)
    (by rw [hc]; rfl) (by rw [hc]; rfl) ht hs ho hd fun op' hop => ?_
  rw [hq]
  exact List.mem_cons_of_mem op (hq' ▸ hop)

omit [FloorRing K] in
/-- An operation that starts finds the trip as it was. -/
theorem Prep.trip_of_idle {loaded : List (TripRecord K)} (hp : Prep mem mem₁ loaded)
    (hc : mem.cont = .idle) : mem₁.trip = mem.trip := by
  cases hp with
  | same _ _ _ _ _ _ ht => exact ht
  | loaded hc' => cases hc.symm.trans hc'
  | finalized hc' => cases hc.symm.trans hc'
  | queued hc' => cases hc.symm.trans hc'
  | cleared hc' => cases hc.symm.trans hc'

omit [FloorRing K] in
/-- `forget` has loaded the storage. -/
theorem prep_forget {state : StoredState K} (hc : mem.cont = .forgetLoaded (some state)) :
    Prep mem mem [] :=
  .same (by rw [hc]; rfl) (by rw [hc]; rfl) (by rw [hc]; rfl) (by rw [hc]; rfl) (by rw [hc]; rfl)
    (by rw [hc]; rfl) rfl rfl rfl rfl fun _ h => h

theorem advances_head {e : Effect K} (hq : mem.queue = op :: rest) (h : op.Advances e) :
    ∃ op ∈ mem.queue.head?, op.Advances e :=
  ⟨op, by rw [hq]; rfl, h⟩

theorem startTripOpen_move {loaded : List (TripRecord K)} (hp : Prep mem mem₁ loaded)
    (hl : loaded = []) {route : RouteAlternative K} {destination : Option (LatLon K)}
    (hop : mem.Starts route destination) :
    Move opts env disk mem (startTripOpen opts env mem₁ route destination) := by
  unfold startTripOpen
  split
  · exact .wait hp hl .idle
  · exact .startTrip hp hl hop

omit [FloorRing K] in
theorem canRecord_of_ne (hs : mem₁.settings = mem.settings)
    (hoff : ¬ mem₁.canRecord opts = false) : mem.canRecord opts = true := by
  unfold Mem.canRecord Mem.canUpload at hoff ⊢
  rw [hs] at hoff
  exact Bool.eq_true_of_not_eq_false hoff

theorem addFix_move {raw : RawFix K} (hp : Prep mem mem₁ []) (hc : mem.cont = .idle)
    (hs : mem₁.settings = mem.settings) (hq : mem.queue = .addFix raw :: rest) :
    Move opts env disk mem (addFix opts env mem₁ raw) := by
  unfold addFix
  split
  · exact .wait hp rfl .idle
  · rename_i t ht
    split
    · exact .wait hp rfl .idle
    · rename_i hoff
      have hrec := canRecord_of_ne hs hoff
      split
      · exact .wait hp rfl .idle
      · rename_i fix hfix
        split
        · exact .wait hp rfl .idle
        · rename_i hfollows
          have hf : followsHead opts.distanceM t.head fix = true := by simpa using hfollows
          have hop : ∃ op ∈ mem.queue.head?, op.Advances (.accept t.tripId fix) :=
            advances_head hq hfix
          simp only
          split
          · rename_i hi
            exact .advance hp rfl hc hrec ht hop (.fixSeal hf hi)
          · exact .advance hp rfl hc hrec ht hop (.fix hf)

theorem reroute_move {route : RouteAlternative K} (hp : Prep mem mem₁ []) (hc : mem.cont = .idle)
    (hs : mem₁.settings = mem.settings) (hq : mem.queue = .reroute route :: rest) :
    Move opts env disk mem (reroute opts env mem₁ route) := by
  unfold reroute
  split
  · exact .wait hp rfl .idle
  · rename_i t ht
    have hop : ∃ op ∈ mem.queue.head?, op.Advances (.follow t.tripId route) :=
      advances_head hq rfl
    split
    · exact .wait hp rfl .idle
    · rename_i hoff
      have hrec := canRecord_of_ne hs hoff
      simp only
      split
      · rename_i hsealed
        exact .advance hp rfl hc hrec ht hop (.routeSeal hsealed)
      · rename_i hsealed
        exact .advance hp rfl hc hrec ht hop (.route (by simpa [followRoute] using hsealed))

omit [FloorRing K] in
theorem waits_loaded {ok : Bool} :
    Cont.Waits disk (.initLoaded (if ok = true then some disk.load else none)) := by
  split
  · exact .initLoaded
  · exact .initUnloaded

omit [FloorRing K] in
theorem waits_forgetLoaded {ok : Bool} :
    Cont.Waits disk (.forgetLoaded (if ok = true then some disk.load else none)) := by
  split
  · exact .forgetLoaded
  · exact .forgetUnloaded

/-- An operation starts. -/
theorem start_move (hc : mem.cont = .idle) (hq : mem.queue = op :: rest) :
    Move opts env disk mem (start opts env disk { mem with queue := rest } op) := by
  have hp : Prep mem { mem with queue := rest } [] := .begin hc hq rfl rfl rfl rfl rfl
  have hstop : Prep mem { mem with queue := rest, retryAt := none } [] :=
    .begin hc hq rfl rfl rfl rfl rfl
  cases op with
  | init => exact .wait hp rfl waits_loaded
  | optIn token =>
    unfold start
    simp only
    split
    · exact .wait hp rfl .idle
    · exact .wait hp rfl (.optInMe token)
  | setEnabled enabled =>
    unfold start
    simp only
    split
    · exact .wait hp rfl .idle
    · rename_i s hs
      exact .settings hp rfl (fun h => ⟨s, hs, h, rfl⟩) (Or.inr ⟨enabled, rfl⟩)
  | forget => exact .wait hstop rfl waits_forgetLoaded
  | startTrip route destination =>
    unfold start
    simp only
    split
    · rename_i t ht
      refine .closeOpen hp rfl ht false rfl fun route' destination' h => ?_
      obtain ⟨rfl, rfl⟩ := After.startTrip.inj h
      rw [hq]
      rfl
    · exact startTripOpen_move hp rfl (Or.inl (by rw [hq]; rfl))
  | addFix raw => exact addFix_move hp hc rfl hq
  | reroute route => exact reroute_move hp hc rfl hq
  | endTrip arrived =>
    unfold start
    simp only
    split
    · rename_i t ht
      exact .closeOpen hp rfl ht arrived rfl fun route' destination' h => by cases h
    · exact .wait hp rfl .idle
  | retryNow => exact .flush hstop rfl

theorem initLoop_move {loaded : List (TripRecord K)} (hp : Prep mem mem₁ loaded) :
    Move opts env disk mem (initLoop opts env mem₁ loaded) := by
  cases loaded with
  | nil => exact .flush hp rfl
  | cons t rest => exact .closeLoaded hp

/-- An operation goes on. -/
theorem resume_move {c : Cont K} (hc : mem.cont = c) (hne : c ≠ .idle) :
    Move opts env disk mem (resume opts env mem c) := by
  have hsame : c.failed = false → c.closing = none → c.trips = [] → c.items = [] →
      c.upcoming mem.outbox = mem.outbox → c.clears = false →
      ∀ mem₁ : Mem K, mem₁.trip = mem.trip → mem₁.settings = mem.settings →
      mem₁.outbox = mem.outbox → mem₁.drain = mem.drain → mem₁.queue = mem.queue →
      Prep mem mem₁ [] := by
    intro h1 h2 h3 h4 h5 h6 mem₁ ht hs ho hd hq
    subst hc
    exact .same h1 h2 h3 h4 h5 h6 ht hs ho hd fun op hop => hq ▸ hop
  unfold resume
  split
  · exact absurd rfl hne
  · exact .wait (hsame rfl rfl rfl rfl rfl rfl mem rfl rfl rfl rfl rfl) rfl .idle
  · exact initLoop_move (.loaded hc)
  · rename_i tripId items next
    have hp := Prep.finalized hc
    unfold finalized
    cases next with
    | flush => exact .flush hp rfl
    | initTrips trips => exact initLoop_move hp
    | startTrip route destination =>
      exact startTripOpen_move hp rfl (Or.inr ⟨tripId, items, hc⟩)
  · exact .thrown (by rw [hc]; rfl)
  · rename_i token
    have hp := hsame rfl rfl rfl rfl rfl rfl mem rfl rfl rfl rfl rfl
    split
    · exact .wait hp rfl .idle
    · split
      · exact .wait hp rfl (.optInJson token)
      · exact .wait hp rfl .idle
  · rename_i token
    have hp := hsame rfl rfl rfl rfl rfl rfl mem rfl rfl rfl rfl rfl
    split
    · exact .wait hp rfl .idle
    · exact .settings hp rfl (fun h => by cases h) (Or.inl rfl)
  · exact .flush (hsame rfl rfl rfl rfl rfl rfl { mem with retryAt := none, failures := 0 } rfl rfl
      rfl rfl rfl) rfl
  · exact .thrown (by rw [hc]; rfl)
  · have hp := hsame rfl rfl rfl rfl rfl rfl mem rfl rfl rfl rfl rfl
    split
    · rename_i t ht
      exact .closeOpen hp rfl ht false rfl fun route' destination' h => by cases h
    · exact .flush hp rfl
  · exact .thrown (by rw [hc]; rfl)
  · exact .wait (hsame rfl rfl rfl rfl rfl rfl mem rfl rfl rfl rfl rfl) rfl .idle
  · exact .forget hc
  · exact .wait (.cleared hc) rfl .idle
  · exact .thrown (by rw [hc]; rfl)
  · exact .wait (hsame rfl rfl rfl rfl rfl rfl mem rfl rfl rfl rfl rfl) rfl .idle
  · exact .thrown (by rw [hc]; rfl)
  · have hp := Prep.queued hc
    split
    · rename_i hnil
      rw [Mem.enqueue, if_pos hnil] at hp
      exact .wait hp rfl .idle
    · exact .flush hp rfl
  · exact .thrown (by rw [hc]; rfl)

/-- **Every step of an operation is a move.** -/
theorem opStep_move : Move opts env disk mem (opStep opts env disk mem) := by
  unfold opStep
  split
  · rename_i hc _
    exact .rest hc
  · rename_i op rest hc hq
    exact start_move hc hq
  · rename_i hnil hcons
    refine resume_move rfl fun hc => ?_
    cases hq : mem.queue with
    | nil => exact hnil hc hq
    | cons op rest => exact hcons op rest hc hq

end Moves

end RoutePlanner.Recorder
