import Mathlib.Data.Fintype.Basic
import Mathlib.Logic.Function.Basic
import RoutePlanner.Delivery.Outgoing

/-!
# Phones, the network and the ingest

Any number of phones, each a recorder on its own storage, and one ingest service. A request that has
left a phone may arrive at any time, any number of times, in any order, or never; an answer may be
lost on its way back. The service looks up the tester token first and writes later, and anything
may happen in between.

* `Allowed`: what a run may assume. New trip ids are unseen, nobody but a phone sends the requests
  of its trips, and a final answer comes from the service.
* `SentBy`, `Answered`: a request, and an answer, in the words of the phone.
-/

namespace RoutePlanner.Delivery

open RoutePlanner.Lib RoutePlanner.Recorder

variable {D K : Type} [Field K] [LinearOrder K]

/-! ## The system -/

/-- What is fixed in a run: the recorder's options, the JSON object of a route, the libraries of
the service. -/
structure Setting (K : Type) [Field K] [LinearOrder K] where
  opts : RecorderOptions K
  encode : RouteAlternative K → List (String × Commute.Json K)
  lib : Commute.Stdlib K
  fw : Commute.Framework K

/-- The phones and the service. -/
structure State (D K : Type) [Field K] [LinearOrder K] where
  phones : D → World K
  db : Commute.Db K
  /-- Calls that were admitted, with their requests; their writes are to come. -/
  calls : List (Commute.Request K × Commute.Call K)
  /-- What the service has answered. -/
  answers : List (Commute.Request K × Commute.Response)

/-- Phones that never ran the app, and an empty store. -/
def State.init : State D K := ⟨fun _ => .init, .empty, [], []⟩

/-- What happens next. -/
inductive Event (D K : Type) where
  | phone (d : D) (e : Recorder.Event K)
  /-- A request arrives. -/
  | arrive (r : Commute.Request K)
  /-- A call writes, and is answered. -/
  | write (n : ℕ) (claimedAt receivedAt : ℤ)
  /-- A call dies with its process or its connection. -/
  | lose (n : ℕ)
  /-- The owner runs `commute.tokens` or `commute.retention`. -/
  | operate (op : Commute.Op K)

section Step

variable [DecidableEq D] [FloorRing K] (st : Setting K)

/-- One event. -/
def step (s : State D K) : Event D K → State D K
  | .phone d e => { s with
      phones := Function.update s.phones d (Recorder.step st.opts (s.phones d) e) }
  | .arrive r =>
    match Commute.admitCall st.lib st.fw s.db r with
    | .error response => { s with answers := s.answers ++ [(r, response)] }
    | .ok call => { s with calls := s.calls ++ [(r, call)] }
  | .write n claimedAt receivedAt =>
    match s.calls[n]? with
    | none => s
    | some (r, call) =>
      let result := call.handle st.lib s.db claimedAt receivedAt
      { s with
        db := result.1
        calls := s.calls.eraseIdx n
        answers := s.answers ++ [(r, result.2)] }
  | .lose n => { s with calls := s.calls.eraseIdx n }
  | .operate op => { s with db := (Commute.step st.lib s.db op).1 }

/-- **A run of the whole system.** -/
def run (events : List (Event D K)) : State D K := events.foldl (step st) .init

end Step

/-! ## What a run may assume -/

section Allowed

variable (st : Setting K)

/-- No request has named the trip. -/
structure Unseen (s : State D K) (tripId : String) : Prop where
  db : s.db.trip? tripId = none
  calls : ∀ p ∈ s.calls, p.2.tripId ≠ tripId
  answers : ∀ p ∈ s.answers, st.fw.uuid p.1.tripId ≠ some tripId

/-- `newTripId()`: a UUID as `str` writes it, which nobody has used. -/
structure FreshId (s : State D K) (tripId : String) : Prop where
  uuid : st.fw.uuid tripId = some tripId
  phones : ∀ d, ¬ Started (s.phones d).log tripId
  unseen : Unseen st s tripId

/-- The request was sent by the phone. -/
def SentBy (L : List (Effect K)) (r : Commute.Request K) : Prop :=
  ∃ item token, Effect.send item token ∈ L ∧ item.request? st.opts st.encode token = some r

/-- The service has given this answer to the request of the item. -/
def Answered (s : State D K) (item : OutboxItem K) (token : String) (status : ℕ) : Prop :=
  ∃ p ∈ s.answers, item.request? st.opts st.encode token = some p.1 ∧ p.2.status = status

/-- What a run may assume of its next event: of a phone's, that new ids are fresh and that an
answer which is final was given by the service; of a request to a phone's trip, that the phone has
sent it; of an operator's, that it is no write. -/
def Allowed (s : State D K) : Event D K → Prop
  | .phone _ (.opStep env) => FreshId st s env.tripId
  | .phone d (.drainStep env) => ∀ mem ∈ (s.phones d).mem, ∀ item token,
      mem.drain = .sending item token → ∀ status ∈ env.reply,
        classify status = .done ∨ classify status = .permanent → Answered st s item token status
  | .phone _ _ => True
  | .arrive r => ∀ d tripId, st.fw.uuid r.tripId = some tripId →
      Started (s.phones d).log tripId → SentBy st (s.phones d).log r
  | .write _ _ _ => True
  | .lose _ => True
  | .operate op => op.write? st.lib = none

end Allowed

/-! ## Runs that evaluate -/

section Decide

variable [DecidableEq K] (st : Setting K) (s : State D K)

instance decUnseen (tripId : String) : Decidable (Unseen st s tripId) :=
  decidable_of_iff (s.db.trip? tripId = none ∧ (∀ p ∈ s.calls, p.2.tripId ≠ tripId) ∧
    ∀ p ∈ s.answers, st.fw.uuid p.1.tripId ≠ some tripId)
    ⟨fun ⟨h1, h2, h3⟩ => ⟨h1, h2, h3⟩, fun ⟨h1, h2, h3⟩ => ⟨h1, h2, h3⟩⟩

instance decFreshId [Fintype D] (tripId : String) : Decidable (FreshId st s tripId) :=
  decidable_of_iff (st.fw.uuid tripId = some tripId ∧
    (∀ d, ¬ Started (s.phones d).log tripId) ∧ Unseen st s tripId)
    ⟨fun ⟨h1, h2, h3⟩ => ⟨h1, h2, h3⟩, fun ⟨h1, h2, h3⟩ => ⟨h1, h2, h3⟩⟩

/-- The effect sends the request. -/
def sendsRequest (r : Commute.Request K) : Effect K → Bool
  | .send item token => decide (item.request? st.opts st.encode token = some r)
  | _ => false

instance decSentBy (L : List (Effect K)) (r : Commute.Request K) : Decidable (SentBy st L r) :=
  decidable_of_iff (L.any (sendsRequest st r) = true) (by
    rw [List.any_eq_true]
    constructor
    · rintro ⟨e, he, hr⟩
      cases e with
      | send item token => exact ⟨item, token, he, of_decide_eq_true hr⟩
      | _ => exact absurd hr Bool.false_ne_true
    · rintro ⟨item, token, hsend, hr⟩
      exact ⟨_, hsend, decide_eq_true hr⟩)

instance decAnswered (item : OutboxItem K) (token : String) (status : ℕ) :
    Decidable (Answered st s item token status) :=
  inferInstanceAs (Decidable (∃ p ∈ s.answers, _ ∧ _))

/-- The final answer that the upload pass reads was given by the service. -/
def DrainAllowed (env : DrainEnv K) : Drain K → Prop
  | .sending item token => ∀ status ∈ env.reply,
      classify status = .done ∨ classify status = .permanent → Answered st s item token status
  | _ => True

instance decDrainAllowed (env : DrainEnv K) : (d : Drain K) → Decidable (DrainAllowed st s env d)
  | .sending _ _ => inferInstanceAs (Decidable (∀ status ∈ env.reply, _ → _))
  | .idle => isTrue trivial
  | .deleting _ _ => isTrue trivial
  | .rejecting _ => isTrue trivial

omit [DecidableEq K] in
theorem drainAllowed_iff {env : DrainEnv K} {d : D} :
    (∀ mem ∈ (s.phones d).mem, DrainAllowed st s env mem.drain) ↔
      Allowed st s (.phone d (.drainStep env)) := by
  constructor
  · intro h mem hmem item token hd
    have := h mem hmem
    rwa [hd] at this
  · intro h mem hmem
    cases hd : mem.drain with
    | sending item token => exact h mem hmem item token hd
    | _ => trivial

instance decAllowed [Fintype D] : (e : Event D K) → Decidable (Allowed st s e)
  | .phone _ (.opStep env) => decFreshId st s env.tripId
  | .phone d (.drainStep env) =>
    have : Decidable (∀ mem ∈ (s.phones d).mem, DrainAllowed st s env mem.drain) :=
      inferInstanceAs (Decidable (∀ mem ∈ _, _))
    decidable_of_iff _ (drainAllowed_iff st s)
  | .phone _ (.call _) => isTrue trivial
  | .phone _ .timer => isTrue trivial
  | .phone _ .kill => isTrue trivial
  | .phone _ .launch => isTrue trivial
  | .arrive r =>
    have : Decidable (∀ tripId ∈ st.fw.uuid r.tripId, ∀ d, Started (s.phones d).log tripId →
      SentBy st (s.phones d).log r) := inferInstanceAs (Decidable (∀ tripId ∈ _, _))
    decidable_of_iff _ ⟨fun h d tripId hid => h tripId hid d, fun h tripId hid d => h d tripId hid⟩
  | .write _ _ _ => isTrue trivial
  | .lose _ => isTrue trivial
  | .operate op => decidable_of_iff ((op.write? st.lib).isNone = true) Option.isNone_iff_eq_none

end Decide

end RoutePlanner.Delivery
