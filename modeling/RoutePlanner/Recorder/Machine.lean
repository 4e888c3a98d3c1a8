import RoutePlanner.Recorder.Sealing

/-!
# `web/lib/tripRecorder.ts`: the recorder as a state machine

The recorder runs one operation at a time, in call order, beside at most one upload pass (`drain`).
Both are suspended at every `await`; between two awaits nothing else runs. One step of the machine
is what runs from one await to the next, and the environment chooses whose turn it is.

* `Cont` says where the running operation is suspended, `Drain` where the upload pass is. Both hold
  what the code reads when it goes on.
* A step returns the new memory and its `Effect`s in order. `storage.apply` takes effect on the
  storage when it is called, or not at all; the caller learns which when it goes on. A kill in
  between is a write that was lost, not a rejected one.
* `World` adds the storage and the log of all effects. A kill empties the memory.

Left out: the status shown to listeners, the recorded error name and `settled`.
-/

namespace RoutePlanner.Recorder

open RoutePlanner.Lib

variable {K : Type} [Field K] [LinearOrder K]

/-! ## State -/

/-- The calls of the interface. `optIn` carries the token after `trim()`. -/
inductive Op (K : Type) where
  | init
  | optIn (token : String)
  | setEnabled (enabled : Bool)
  | forget
  | startTrip (route : RouteAlternative K) (destination : Option (LatLon K))
  | addFix (raw : RawFix K)
  | reroute (route : RouteAlternative K)
  | endTrip (arrived : Bool)
  | retryNow

/-- What an operation does once `finalize` has returned. -/
inductive After (K : Type) [Field K] [LinearOrder K] where
  /-- `void flush()`. -/
  | flush
  /-- The rest of `init`'s loop. -/
  | initTrips (rest : List (TripRecord K))
  /-- The rest of `startTrip`. -/
  | startTrip (route : RouteAlternative K) (destination : Option (LatLon K))

/-- The await the running operation is suspended at. `ok` is how the awaited write went, and the
loaded state is absent when `load` was rejected. -/
inductive Cont (K : Type) [Field K] [LinearOrder K] where
  | idle
  | initLoaded (state : Option (StoredState K))
  | finalizing (tripId : String) (items : List (OutboxItem K)) (next : After K) (ok : Bool)
  | optInMe (token : String)
  | optInJson (token : String)
  | optInStored (ok : Bool)
  | enabling (enabled : Bool) (ok : Bool)
  | forgetLoaded (state : Option (StoredState K))
  | forgetting (ok : Bool)
  | starting (ok : Bool)
  | queued (items : List (OutboxItem K)) (ok : Bool)

/-- The await the upload pass is suspended at. A pass that returns clears `flushing` in the next
microtask, before another operation or timer runs. -/
inductive Drain (K : Type) [Field K] [LinearOrder K] where
  /-- `flushing` is null. -/
  | idle
  | sending (item : OutboxItem K) (token : String)
  | deleting (key : Key) (ok : Bool)
  | rejecting (ok : Bool)

/-- The variables of `createTripRecorder`. -/
structure Mem (K : Type) [Field K] [LinearOrder K] where
  settings : Option DeviceSettings
  trip : Option (TripRecord K)
  outbox : List (OutboxItem K)
  failures : ℕ
  /-- `retryAt`, while the retry timer runs. -/
  retryAt : Option K
  drain : Drain K
  queue : List (Op K)
  cont : Cont K

/-- A recorder that was just created. -/
def Mem.init : Mem K := ⟨none, none, [], 0, none, .idle, [], .idle⟩

/-- What a step does outside the memory. `accept`, `follow` and `sealed` only record what
happened. -/
inductive Effect (K : Type) [Field K] [LinearOrder K] where
  /-- A fix was accepted for a trip. -/
  | accept (tripId : String) (fix : TraceFix K)
  /-- A trip began to follow a route. -/
  | follow (tripId : String) (route : RouteAlternative K)
  /-- Items were sealed from a trip that was `t` then. -/
  | sealed (t : TripRecord K) (s : Sealing K)
  /-- `storage.apply` was called. -/
  | apply (ops : StorageOps K) (ok : Bool)
  /-- The rejection of a write reached its caller. -/
  | rejected
  /-- A request left the phone. -/
  | send (item : OutboxItem K) (token : String)
  /-- The server answered a request that carried `token`. -/
  | answered (token : String) (status : ℕ)

/-- What a step ends with. -/
abbrev Out (K : Type) [Field K] [LinearOrder K] : Type := Mem K × List (Effect K)

/-- What one step of an operation reads from its surroundings. -/
structure Env (K : Type) where
  /-- How the write or the load this step starts goes. -/
  ok : Bool
  /-- The first `now()` of the step. -/
  now : ℤ
  /-- `now()` at the `i`-th item. -/
  stamp : ℕ → ℤ
  /-- `newTripId()`. -/
  tripId : String
  /-- The status of `GET /v1/me`, or none when it was unreachable. -/
  me : Option ℕ
  /-- The label in its answer, or none when that is no JSON. -/
  label : Option String

/-- What one step of the upload pass reads from its surroundings. -/
structure DrainEnv (K : Type) where
  ok : Bool
  now : ℤ
  random : K
  /-- The status of the answer, or none when `fetch` threw. -/
  reply : Option ℕ
  /-- `retryAfterMs` of its header. -/
  retryAfterMs : Option K

namespace Mem

variable (opts : RecorderOptions K) (mem : Mem K)

/-- `canUpload`. -/
def canUpload : Bool :=
  opts.configured && mem.settings.any fun s => s.enabled && !s.rejected

/-- `canRecord = canUpload`. -/
def canRecord : Bool := mem.canUpload opts

/-- `enqueue`. -/
def enqueue (items : List (OutboxItem K)) : Mem K :=
  if items = [] then mem
  else { mem with outbox := (mem.outbox ++ items).mergeSort outboxOrder }

/-- `stopRetry`. -/
def stopRetry : Mem K := { mem with retryAt := none }

/-- The operation is over. -/
def done : Out K := ({ mem with cont := .idle }, [])

/-- The operation ends by throwing: its write was rejected. -/
def thrown : Out K := ({ mem with cont := .idle }, [.rejected])

end Mem

/-! ## The upload pass -/

/-- `classify`. -/
inductive SendKind where
  | done
  | permanent
  | unauthorized
  | transient
  deriving DecidableEq, Repr

def classify (status : ℕ) : SendKind :=
  if 200 ≤ status ∧ status < 300 then .done
  else if status = 401 then .unauthorized
  else if status = 408 ∨ status = 425 ∨ status = 429 ∨ 500 ≤ status then .transient
  else .permanent

/-- `BACKOFF_BASE_MS`. -/
def backoffBaseMs : K := 5000

/-- `BACKOFF_MAX_MS`. -/
def backoffMaxMs : K := 600000

/-- The delay `scheduleRetry` computes, after `failures` failures in a row. -/
def retryDelay (failures : ℕ) (random : K) (serverAskedMs : Option K) : K :=
  let two : K := (2 : ℕ)
  let base := min backoffMaxMs (backoffBaseMs * two ^ min (failures - 1) 20)
  let delay := base * (1 / two + random / two)
  match serverAskedMs with
  | none => delay
  | some asked => min backoffMaxMs (max delay asked)

/-- `scheduleRetry`. -/
def scheduleRetry (env : DrainEnv K) (serverAskedMs : Option K) (mem : Mem K) : Mem K :=
  { mem with
    failures := mem.failures + 1
    retryAt := some (env.now + retryDelay (mem.failures + 1) env.random serverAskedMs) }

section Steps

variable (opts : RecorderOptions K)

/-- The head of `drain`'s loop, up to its `fetch`. -/
def drainLoop (mem : Mem K) : Out K :=
  if mem.canUpload opts = false ∨ mem.retryAt.isSome = true then
    ({ mem with drain := .idle }, [])
  else
    match mem.settings, mem.outbox with
    | some s, item :: _ => ({ mem with drain := .sending item s.token }, [.send item s.token])
    | _, _ => ({ mem with drain := .idle }, [])

/-- `void flush()`. -/
def flush (mem : Mem K) : Out K :=
  match mem.drain with
  | .idle => drainLoop opts mem
  | _ => (mem, [])

/-- `drain`, from the answer to a request on. -/
def drainAnswer (env : DrainEnv K) (mem : Mem K) (item : OutboxItem K) (token : String) : Out K :=
  match env.reply with
  | none => ({ scheduleRetry env none mem with drain := .idle }, [])
  | some status =>
    match classify status with
    | .transient =>
      ({ scheduleRetry env env.retryAfterMs mem with drain := .idle }, [.answered token status])
    | .unauthorized =>
      match mem.settings with
      | none => ({ mem with drain := .idle }, [.answered token status])
      | some s =>
        ({ mem with settings := some { s with rejected := true }, drain := .rejecting env.ok },
          [.answered token status,
            .apply { StorageOps.nop with settings := some (some { s with rejected := true }) }
              env.ok])
    | _ =>
      ({ mem with failures := 0, drain := .deleting item.key env.ok },
        [.answered token status,
          .apply { StorageOps.nop with deleteOutbox := [item.key] } env.ok])

/-- One step of the upload pass. -/
def drainStep (env : DrainEnv K) (mem : Mem K) : Out K :=
  match mem.drain with
  | .idle => (mem, [])
  | .sending item token => drainAnswer env mem item token
  | .deleting key true =>
    drainLoop opts { mem with outbox := mem.outbox.filter fun i => decide (i.key ≠ key) }
  | .deleting _ false => ({ mem with drain := .idle }, [.rejected])
  | .rejecting true => ({ mem with drain := .idle }, [])
  | .rejecting false => ({ mem with drain := .idle }, [.rejected])

/-! ## Operations -/

variable [FloorRing K]

/-- The items of `finalize`: the final seal and the end. -/
def finalItems (env : Env K) (t : TripRecord K) (arrived : Bool) (endedAt : ℤ) :
    List (OutboxItem K) :=
  let s := sealFixes opts env.stamp t
  s.into ++ [endItem s.trip arrived endedAt (env.stamp s.into.length)]

/-- `finalize`, up to its write. -/
def finalize (env : Env K) (mem : Mem K) (t : TripRecord K) (arrived : Bool) (endedAt : ℤ)
    (next : After K) : Out K :=
  let items := finalItems opts env t arrived endedAt
  ({ mem with cont := .finalizing t.tripId items next env.ok },
    [.sealed t (sealFixes opts env.stamp t),
      .apply { StorageOps.nop with putOutbox := items, deleteTrips := [t.tripId] } env.ok])

/-- `finalize` of the trip in memory, which sealing changes. -/
def finalizeOpen (env : Env K) (mem : Mem K) (t : TripRecord K) (arrived : Bool)
    (next : After K) : Out K :=
  finalize opts env { mem with trip := some (sealFixes opts env.stamp t).trip } t arrived
    (endTime t env.now) next

/-- The trip `startTrip` makes. -/
def newTrip (env : Env K) (route : RouteAlternative K) (destination : Option (LatLon K)) :
    TripRecord K where
  tripId := env.tripId
  startedAt := env.now
  anchors := (route.geometry.head?.map fun c => (ll c).anchor).toList ++ (endOf route).toList ++
    (destination.map LatLon.anchor).toList
  head := none
  pending := []
  lastSealAt := env.now
  nextSeq := 0
  sealedFixes := false
  heldArtifacts := [⟨env.now, route⟩]
  prediction := some (predictionOf route env.now)

/-- `startTrip`, once no trip is open. -/
def startTripOpen (env : Env K) (mem : Mem K) (route : RouteAlternative K)
    (destination : Option (LatLon K)) : Out K :=
  if mem.canRecord opts = false then mem.done
  else
    let t := newTrip env route destination
    ({ mem with trip := some t, cont := .starting env.ok },
      [.follow t.tripId route, .apply { StorageOps.nop with putTrips := [t] } env.ok])

/-- `init`'s loop over the trips left open. -/
def initLoop (env : Env K) (mem : Mem K) (trips : List (TripRecord K)) : Out K :=
  match trips with
  | [] => flush opts { mem with cont := .idle }
  | t :: rest => finalize opts env mem t false (endTime t t.startedAt) (.initTrips rest)

/-- The trip after `addFix` has accepted `fix`: its origin becomes a private point, and a fix inside
a private point's circle is not kept. -/
def acceptFix (t : TripRecord K) (fix : TraceFix K) : TripRecord K :=
  let anchors := if t.head.isNone = true then t.anchors ++ [fix.anchor] else t.anchors
  { t with
    anchors := anchors
    head := some fix
    pending := if clearOf opts.distanceM fix.anchor anchors = true then t.pending ++ [fix]
      else t.pending }

/-- `addFix`, up to its write. -/
def addFix (env : Env K) (mem : Mem K) (raw : RawFix K) : Out K :=
  match mem.trip with
  | none => mem.done
  | some t =>
    if mem.canRecord opts = false then mem.done
    else
      match toTraceFix raw with
      | none => mem.done
      | some fix =>
        if followsHead opts.distanceM t.head fix = false then mem.done
        else
          let t := acceptFix opts t fix
          let s : Sealing K :=
            if sealIntervalMs ≤ fix.t - t.lastSealAt then sealFixes opts env.stamp t
            else ⟨t, [], false⟩
          ({ mem with trip := some s.trip, cont := .queued s.into env.ok },
            [.accept t.tripId fix, .sealed t s, .apply { (StorageOps.nop : StorageOps K) with
              putTrips := [s.trip]
              putOutbox := s.into } env.ok])

/-- The trip after `reroute` has begun to follow `route`. -/
def followRoute (t : TripRecord K) (route : RouteAlternative K) (at' : ℤ) : TripRecord K :=
  { t with
    anchors := t.anchors ++ (endOf route).toList
    prediction := some (predictionOf route at') }

/-- `reroute`, up to its write. -/
def reroute (env : Env K) (mem : Mem K) (route : RouteAlternative K) : Out K :=
  match mem.trip with
  | none => mem.done
  | some t =>
    if mem.canRecord opts = false then mem.done
    else
      let at' := max env.now ((t.prediction.map EtaPrediction.effectiveAt).getD 0 + 1)
      let t := followRoute t route at'
      let fa : FollowedArtifact K := ⟨at', route⟩
      let s : Sealing K :=
        if t.sealedFixes = true then sealArtifact opts env.stamp ⟨t, [], false⟩ fa
        else ⟨{ t with heldArtifacts := t.heldArtifacts ++ [fa] }, [], false⟩
      ({ mem with trip := some s.trip, cont := .queued s.into env.ok },
        [.follow t.tripId route, .sealed t s, .apply { (StorageOps.nop : StorageOps K) with
          putTrips := [s.trip]
          putOutbox := s.into } env.ok])

/-- An operation, up to its first await. -/
def start (env : Env K) (disk : StoredState K) (mem : Mem K) : Op K → Out K
  | .init => ({ mem with cont := .initLoaded (if env.ok = true then some disk.load else none) }, [])
  | .optIn token =>
    if opts.configured = false ∨ token = "" then mem.done
    else ({ mem with cont := .optInMe token }, [])
  | .setEnabled enabled =>
    match mem.settings with
    | none => mem.done
    | some s =>
      ({ mem with
          settings := some { s with enabled := enabled }
          cont := .enabling enabled env.ok },
        [.apply { StorageOps.nop with settings := some (some { s with enabled := enabled }) }
          env.ok])
  | .forget =>
    ({ mem.stopRetry with
      cont := .forgetLoaded (if env.ok = true then some disk.load else none) }, [])
  | .startTrip route destination =>
    match mem.trip with
    | some t => finalizeOpen opts env mem t false (.startTrip route destination)
    | none => startTripOpen opts env mem route destination
  | .addFix raw => addFix opts env mem raw
  | .reroute route => reroute opts env mem route
  | .endTrip arrived =>
    match mem.trip with
    | some t => finalizeOpen opts env mem t arrived .flush
    | none => mem.done
  | .retryNow => flush opts { mem.stopRetry with cont := .idle }

/-- `finalize`, from its write on. -/
def finalized (env : Env K) (mem : Mem K) (tripId : String) (items : List (OutboxItem K)) :
    After K → Out K :=
  let mem : Mem K := { mem with
    trip := mem.trip.filter fun t => decide (t.tripId ≠ tripId) }
  let mem := mem.enqueue items
  fun
  | .flush => flush opts { mem with cont := .idle }
  | .initTrips rest => initLoop opts env mem rest
  | .startTrip route destination => startTripOpen opts env mem route destination

/-- The running operation, from the await it is suspended at to the next. -/
def resume (env : Env K) (mem : Mem K) : Cont K → Out K
  | .idle => (mem, [])
  | .initLoaded none => mem.done
  | .initLoaded (some state) =>
    initLoop opts env { mem with settings := state.settings, outbox := state.outbox } state.trips
  | .finalizing tripId items next true => finalized opts env mem tripId items next
  | .finalizing _ _ _ false => mem.thrown
  | .optInMe token =>
    match env.me with
    | none => mem.done
    | some status =>
      if 200 ≤ status ∧ status < 300 then ({ mem with cont := .optInJson token }, [])
      else mem.done
  | .optInJson token =>
    match env.label with
    | none => mem.done
    | some label =>
      ({ mem with settings := some ⟨token, label, true, false⟩, cont := .optInStored env.ok },
        [.apply { StorageOps.nop with settings := some (some ⟨token, label, true, false⟩) }
          env.ok])
  | .optInStored true =>
    flush opts { mem.stopRetry with failures := 0, cont := .idle }
  | .optInStored false => mem.thrown
  | .enabling enabled true =>
    match enabled, mem.trip with
    | false, some t => finalizeOpen opts env mem t false .flush
    | _, _ => flush opts { mem with cont := .idle }
  | .enabling _ false => mem.thrown
  | .forgetLoaded none => mem.done
  | .forgetLoaded (some state) =>
    ({ mem with cont := .forgetting env.ok },
      [.apply
        { settings := some none
          putTrips := []
          deleteTrips := state.trips.map TripRecord.tripId
          putOutbox := []
          deleteOutbox := state.outbox.map OutboxItem.key } env.ok])
  | .forgetting true =>
    ({ mem with settings := none, trip := none, outbox := [], failures := 0, cont := .idle }, [])
  | .forgetting false => mem.thrown
  | .starting true => mem.done
  | .starting false => mem.thrown
  | .queued items true =>
    if items = [] then mem.done else flush opts { mem.enqueue items with cont := .idle }
  | .queued _ false => mem.thrown

/-- One step of the operations: the running one goes on, or the next one starts. -/
def opStep (env : Env K) (disk : StoredState K) (mem : Mem K) : Out K :=
  match mem.cont, mem.queue with
  | .idle, [] => (mem, [])
  | .idle, op :: rest => start opts env disk { mem with queue := rest } op
  | c, _ => resume opts env mem c

/-- The retry timer fires. -/
def timerStep (mem : Mem K) : Out K :=
  if mem.retryAt.isSome = true then flush opts { mem with retryAt := none } else (mem, [])

end Steps

/-! ## Runs -/

/-- What happens next. -/
inductive Event (K : Type) where
  /-- The app calls the recorder. -/
  | call (op : Op K)
  | opStep (env : Env K)
  | drainStep (env : DrainEnv K)
  | timer
  /-- The app dies; its storage stays. -/
  | kill
  /-- The app starts, with a new recorder on the storage. -/
  | launch

/-- The app, when it runs, the storage, and everything that happened. -/
structure World (K : Type) [Field K] [LinearOrder K] where
  mem : Option (Mem K)
  disk : StoredState K
  log : List (Effect K)

/-- A device that never ran the app. -/
def World.init : World K := ⟨none, .empty, []⟩

/-- A write takes effect as a whole, or not at all. -/
def Effect.onDisk (disk : StoredState K) : Effect K → StoredState K
  | .apply ops true => disk.apply ops
  | _ => disk

/-- The world after a step. -/
def World.emit (w : World K) (out : Out K) : World K :=
  ⟨some out.1, out.2.foldl Effect.onDisk w.disk, w.log ++ out.2⟩

section Run

variable (opts : RecorderOptions K) [FloorRing K]

/-- One event. -/
def step (w : World K) (e : Event K) : World K :=
  match w.mem, e with
  | none, .launch => { w with mem := some .init }
  | none, _ => w
  | some mem, .call op => { w with mem := some { mem with queue := mem.queue ++ [op] } }
  | some mem, .opStep env => w.emit (opStep opts env w.disk mem)
  | some mem, .drainStep env => w.emit (drainStep opts env mem)
  | some mem, .timer => w.emit (timerStep opts mem)
  | some _, .kill => { w with mem := none }
  | some _, .launch => w

/-- **A run of the recorder.** -/
def run (events : List (Event K)) : World K := events.foldl (step opts) .init

end Run

end RoutePlanner.Recorder
