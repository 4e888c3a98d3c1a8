import RoutePlanner.Commute.BodyLimit
import RoutePlanner.Commute.Json
import RoutePlanner.Commute.Tables

/-!
# `commute/app.py`: the ingest over HTTP

A write takes two transactions. `admitCall` is what happens before the handler is called: the limit
on the body, the tester token and the validation. `Call.handle` is the handler and its transaction.
Those of other requests may come between the two.

* **`authenticate_iff`**: whom `authenticate` accepts, over any history.
* `admitCall_eq_ok`, `admitCall_status`: which requests are admitted, and how the others are
  answered.
* `handle_cases`: the four ways a call goes.
-/

namespace RoutePlanner.Commute

variable {K : Type} [Field K] [LinearOrder K]

/-! ## `commute/tokens.py`: reading -/

/-- `Tester`. -/
structure Tester where
  id : ℤ
  label : String
  deriving DecidableEq, Repr

omit [Field K] [LinearOrder K] in
/-- **`authenticate`.** -/
def authenticate (lib : Stdlib K) (db : Db K) (token : String) : Option Tester :=
  (db.tokens.find? fun r =>
    decide (r.tokenSha256 = hashToken lib token) && r.revokedAt.isNone).map fun r => ⟨r.id, r.label⟩

/-! ## Requests -/

/-- `MAX_SEQ`. -/
def maxSeq : ℤ := 99999

/-- What a write is to store, by its endpoint. -/
inductive Payload (K : Type) where
  /-- `PUT /v1/trips/{trip_id}/chunks/{seq}`. -/
  | chunk (seq : ℤ) (body : TraceChunk K)
  /-- `POST /v1/trips/{trip_id}/end`. -/
  | tripEnd (body : TripEnd K)
  deriving DecidableEq

/-- A request to one of the two. The body was JSON of the shape of its model; `bytes` is its size,
`credentials` what follows `Bearer`. -/
structure Request (K : Type) where
  tripId : String
  payload : Payload K
  bytes : ℕ
  credentials : Option String
  deriving DecidableEq

/-- `Seq`, and the model of the body. -/
def Payload.Valid : Payload K → Prop
  | .chunk seq body => (0 ≤ seq ∧ seq ≤ maxSeq) ∧ body.Valid
  | .tripEnd body => body.Valid

instance decPayloadValid : (p : Payload K) → Decidable p.Valid
  | .chunk _ _ => inferInstanceAs (Decidable (_ ∧ _))
  | .tripEnd body => decTripEndValid body

/-! ## Errors -/

/-- A part of the `loc` of a validation error. -/
inductive LocPart where
  | field (name : String)
  | index (i : ℤ)
  deriving DecidableEq, Repr

/-- What `describe_errors` reads of a validation error. -/
structure ValidationError where
  loc : List LocPart
  msg : String
  deriving DecidableEq, Repr

/-- The path of a field: `body` is left out. -/
def fieldPath (loc : List LocPart) : String :=
  loc.foldl (fun path part =>
    match part with
    | .index i => path ++ "[" ++ toString i ++ "]"
    | .field name =>
      if name = "body" then path else if path = "" then name else path ++ "." ++ name) ""

/-- A field with its message. -/
def ValidationError.describe (e : ValidationError) : String :=
  (if fieldPath e.loc = "" then "body" else fieldPath e.loc) ++ ": " ++ e.msg

/-- **`describe_errors`**, with its default limit. -/
def describeErrors (errors : List ValidationError) : String :=
  let parts := (errors.take 3).map ValidationError.describe
  "; ".intercalate
    (if 3 < errors.length then parts ++ [s!"and {errors.length - 3} more"] else parts)

example : describeErrors [⟨[.field "body", .field "fixes", .index 0, .field "t"], "too small"⟩] =
    "fixes[0].t: too small" := by decide +kernel

/-- What the service answers. -/
inductive Response where
  /-- `TesterInfo`. -/
  | me (label : String)
  /-- `ChunkReceipt`, `TripEndReceipt`. -/
  | receipt (tripId : String) (seq : Option ℤ) (created : Bool)
  /-- An error with its `detail`. -/
  | error (status : ℕ) (detail : String)
  deriving DecidableEq, Repr

/-- The status line. -/
def Response.status : Response → ℕ
  | .me _ => 200
  | .receipt _ _ created => if created then 201 else 200
  | .error status _ => status

/-- What the framework does: `str(uuid.UUID(s))`, which fails on anything else, and the errors of
a request that its models refuse. -/
structure Framework (K : Type) where
  uuid : String → Option String
  errors : Request K → List ValidationError

/-! ## Handlers -/

/-- What a handler is called with. -/
structure Call (K : Type) where
  tester : Tester
  tripId : String
  payload : Payload K

section Handlers

variable (lib : Stdlib K) (fw : Framework K)

/-- `_validation_error`. -/
def validationError (r : Request K) : Response :=
  let detail := describeErrors (fw.errors r)
  .error 422 (if detail = "" then "invalid request" else detail)

omit [Field K] [LinearOrder K] in
/-- `current_tester`. -/
def currentTester (db : Db K) : Option String → Except Response Tester
  | none => .error (.error 401 "missing bearer tester token")
  | some token =>
    match authenticate lib db token with
    | none => .error (.error 401 "unknown or revoked tester token")
    | some tester => .ok tester

omit [Field K] [LinearOrder K] in
/-- `me`. -/
def me (db : Db K) (credentials : Option String) : Response :=
  match currentTester lib db credentials with
  | .ok tester => .me tester.label
  | .error response => response

/-- **Before the handler**: the limit on the body, then the tester token, then the validation. -/
def admitCall (db : Db K) (r : Request K) : Except Response (Call K) :=
  if maxBodyBytes < r.bytes then .error (.error 413 (tooLargeDetail maxBodyBytes))
  else
    match currentTester lib db r.credentials with
    | .error response => .error response
    | .ok tester =>
      match fw.uuid r.tripId with
      | none => .error (validationError fw r)
      | some tripId =>
        if r.payload.Valid then .ok ⟨tester, tripId, r.payload⟩ else .error (validationError fw r)

variable {lib fw}

omit [Field K] [LinearOrder K] in
/-- The transaction of a call, at the readings of its clock. -/
def Call.op (c : Call K) (claimedAt receivedAt : ℤ) : Op K :=
  match c.payload with
  | .chunk seq body => .putChunk c.tester.id c.tripId seq body claimedAt receivedAt
  | .tripEnd body => .endTrip c.tester.id c.tripId body claimedAt receivedAt

omit [Field K] [LinearOrder K] in
/-- What the handler makes of an outcome. -/
def Call.response (c : Call K) : Outcome → Response
  | .created =>
    match c.payload with
    | .chunk seq _ => .receipt c.tripId (some seq) true
    | .tripEnd _ => .receipt c.tripId none true
  | .replayed =>
    match c.payload with
    | .chunk seq _ => .receipt c.tripId (some seq) false
    | .tripEnd _ => .receipt c.tripId none false
  | .notYours => .error 404 "no such trip for this tester token"
  | .conflict =>
    match c.payload with
    | .chunk seq _ =>
      .error 409 s!"chunk {seq} of this trip is already stored with different content"
    | .tripEnd _ => .error 409 "this trip already ended with different content"

omit [Field K] [LinearOrder K] in
/-- **`put_chunk` and `end_trip`.** A transaction that raises is a 500. -/
def Call.handle (lib : Stdlib K) (c : Call K) (db : Db K) (claimedAt receivedAt : ℤ) :
    Db K × Response :=
  match step lib db (c.op claimedAt receivedAt) with
  | (db, .outcome o) => (db, c.response o)
  | (db, _) => (db, .error 500 "Internal Server Error")

end Handlers

/-! ## Whom it accepts -/

section Authenticate

omit [Field K] [LinearOrder K]

variable {lib : Stdlib K} {db : Db K} {token : String} {tester : Tester}

theorem authenticate_eq_some (h : db.KeysHold) :
    authenticate lib db token = some tester ↔
      ∃ r ∈ db.tokens, r.tokenSha256 = hashToken lib token ∧ r.revokedAt = none ∧
        tester = ⟨r.id, r.label⟩ := by
  unfold authenticate
  rw [Option.map_eq_some_iff]
  constructor
  · rintro ⟨r, hr, rfl⟩
    have hp := List.find?_some hr
    rw [Bool.and_eq_true, decide_eq_true_eq, Option.isNone_iff_eq_none] at hp
    exact ⟨r, List.mem_of_find?_eq_some hr, hp.1, hp.2, rfl⟩
  · rintro ⟨r, hr, hsha, hnull, rfl⟩
    refine ⟨r, h.tokenSha256.find?_eq hr ?_ fun b hb => ?_, rfl⟩
    · rw [hnull, Bool.and_eq_true, decide_eq_true_eq]
      exact ⟨hsha, rfl⟩
    · rw [Bool.and_eq_true, decide_eq_true_eq] at hb
      exact hb.1.trans hsha.symm

/-- **A bearer token is accepted just when it was issued and not revoked since**: after any
transactions, and as the tester that was named when it was issued. -/
theorem authenticate_iff (lib : Stdlib K) (hsha : Function.Injective lib.sha256)
    (ops : List (Op K)) (token : String) (tester : Tester) :
    authenticate lib (run lib ops) token = some tester ↔
      ∃ before label now after, ops = before ++ .issue label token now :: after ∧
        (step lib (run lib before) (.issue label token now)).2 = .issued tester.id ∧
        tester.label = strip label ∧ ∀ now', Op.revoke tester.id now' ∉ after := by
  rw [authenticate_eq_some (run_keysHold lib ops)]
  constructor
  · rintro ⟨r, hr, htoken, hnull, rfl⟩
    obtain ⟨before, label, token', now, after, rfl, hissued, rfl, hafter⟩ :=
      (active_iff lib ops).mp ⟨hr, hnull⟩
    obtain rfl : token' = token := hsha htoken
    exact ⟨before, label, now, after, rfl, hissued, rfl, hafter⟩
  · rintro ⟨before, label, now, after, rfl, hissued, hlabel, hafter⟩
    have hid : tester.id = (tokenRow lib (run lib before) label token now).id := by
      have hne := hissued
      unfold step issue at hne
      simp only at hne
      split_ifs at hne
      · cases hne
      · cases hne
      · exact (Answer.issued.inj hne).symm
    obtain ⟨hmem, hnull⟩ := (active_iff lib _).mpr
      ⟨before, label, token, now, after, rfl, hid ▸ hissued, rfl, hid ▸ hafter⟩
    refine ⟨_, hmem, rfl, hnull, ?_⟩
    rw [← hid, show (tokenRow lib (run lib before) label token now).label = tester.label from
      hlabel.symm]

/-- A token issued to a device, and revoked: the second one still stands. -/
def tokenOps : List (Op ℚ) :=
  [.issue " a " "srt_a" 10, .issue "b" "srt_b" 11, .revoke 1 12]

theorem authenticate_iff_sample :
    authenticate sampleLib (run sampleLib tokenOps) "srt_b" = some ⟨2, "b"⟩ :=
  (authenticate_iff sampleLib sampleSha256_injective tokenOps "srt_b" ⟨2, "b"⟩).mpr
    ⟨[.issue " a " "srt_a" 10], "b", 11, [.revoke 1 12], rfl, by decide +kernel, by decide +kernel,
      fun now' => by simp⟩

end Authenticate

/-! ## Admitted calls -/

section Calls

/-- The number of a chunk, none for an end. -/
def Payload.slot : Payload K → Option ℤ
  | .chunk seq _ => some seq
  | .tripEnd _ => none

/-- The text that is hashed. -/
def Payload.text (lib : Stdlib K) : Payload K → String
  | .chunk _ body => body.text lib
  | .tripEnd body => body.text lib

/-- The write of a call. -/
def Call.write (lib : Stdlib K) (c : Call K) : Write :=
  ⟨c.tester.id, c.tripId, c.payload.slot, c.payload.text lib⟩

variable {lib : Stdlib K} {fw : Framework K} {db : Db K} {r : Request K} {c : Call K}

omit [Field K] [LinearOrder K] in
theorem Call.write?_op (c : Call K) (claimedAt receivedAt : ℤ) :
    (c.op claimedAt receivedAt).write? lib = some (c.write lib) := by
  unfold Call.op Call.write
  cases c.payload <;> rfl

/-- What is owed to a call that was admitted. -/
structure Admitted (lib : Stdlib K) (fw : Framework K) (db : Db K) (r : Request K) (c : Call K) :
    Prop where
  bytes : r.bytes ≤ maxBodyBytes
  token : ∃ token, r.credentials = some token ∧ authenticate lib db token = some c.tester
  tripId : fw.uuid r.tripId = some c.tripId
  payload : c.payload = r.payload
  valid : r.payload.Valid

omit [Field K] [LinearOrder K] in
theorem currentTester_eq_ok {credentials : Option String} {tester : Tester} :
    currentTester lib db credentials = .ok tester ↔
      ∃ token, credentials = some token ∧ authenticate lib db token = some tester := by
  unfold currentTester
  cases credentials with
  | none => simp
  | some token =>
    simp only [Option.some.injEq, exists_eq_left']
    split
    · rename_i h
      simp [h]
    · rename_i h
      simp [h]

/-- **When a request is admitted.** -/
theorem admitCall_eq_ok : admitCall lib fw db r = .ok c ↔ Admitted lib fw db r c := by
  unfold admitCall
  constructor
  · intro h
    split at h
    · cases h
    · rename_i hbytes
      split at h
      · cases h
      · rename_i tester htester
        split at h
        · cases h
        · rename_i tripId hid
          split_ifs at h with hvalid
          obtain rfl := Except.ok.inj h
          exact ⟨by omega, currentTester_eq_ok.mp htester, hid, rfl, hvalid⟩
  · rintro ⟨hbytes, htoken, hid, hpayload, hvalid⟩
    rw [if_neg (by omega), currentTester_eq_ok.mpr htoken]
    simp only [hid]
    rw [if_pos hvalid, ← hpayload]

/-- The answer to a request that is not admitted. -/
theorem admitCall_status {response : Response} (h : admitCall lib fw db r = .error response) :
    response.status = 401 ∨ response.status = 413 ∧ maxBodyBytes < r.bytes ∨
      response.status = 422 ∧ (fw.uuid r.tripId = none ∨ ¬ r.payload.Valid) := by
  unfold admitCall at h
  split at h
  · rename_i hbytes
    obtain rfl := Except.error.inj h
    exact Or.inr (Or.inl ⟨rfl, hbytes⟩)
  · split at h
    · rename_i htester
      obtain rfl := Except.error.inj h
      left
      unfold currentTester at htester
      split at htester
      · exact Except.error.inj htester ▸ rfl
      · split at htester
        · exact Except.error.inj htester ▸ rfl
        · cases htester
    · split at h
      · rename_i hid
        obtain rfl := Except.error.inj h
        exact Or.inr (Or.inr ⟨rfl, Or.inl hid⟩)
      · split_ifs at h with hvalid
        obtain rfl := Except.error.inj h
        exact Or.inr (Or.inr ⟨rfl, Or.inr hvalid⟩)

omit [Field K] [LinearOrder K] in
/-- **The four ways a call goes.** -/
theorem handle_cases (lib : Stdlib K) (hwf : db.WellFormed) (c : Call K)
    (claimedAt receivedAt : ℤ) :
    (db.trip? c.tripId = none ∧ db.token? c.tester.id = none ∧
      c.handle lib db claimedAt receivedAt = (db, .error 500 "Internal Server Error")) ∨
    (db.Foreign c.tripId c.tester.id ∧
      c.handle lib db claimedAt receivedAt = (db, c.response .notYours)) ∨
    (¬ db.Foreign c.tripId c.tester.id ∧ ∃ sha, db.digest? c.tripId c.payload.slot = some sha ∧
      c.handle lib db claimedAt receivedAt = (db, c.response
        (if sha = contentDigest lib (c.payload.text lib) then .replayed else .conflict))) ∨
    (¬ db.Foreign c.tripId c.tester.id ∧ db.digest? c.tripId c.payload.slot = none ∧
      ∃ db', c.handle lib db claimedAt receivedAt = (db', c.response .created) ∧
        Inserts lib db (c.write lib) db') := by
  unfold Call.handle
  rcases step_write hwf (c.write?_op claimedAt receivedAt) with
    ⟨ht, hk, h⟩ | ⟨hf, h⟩ | ⟨hf, sha, hs, h⟩ | ⟨hf, hs, db', h, hins⟩
  · exact Or.inl ⟨ht, hk, by rw [h]⟩
  · exact Or.inr (Or.inl ⟨hf, by rw [h]⟩)
  · exact Or.inr (Or.inr (Or.inl ⟨hf, sha, hs, by rw [h]; rfl⟩))
  · exact Or.inr (Or.inr (Or.inr ⟨hf, hs, db', by rw [h], hins⟩))

omit [Field K] [LinearOrder K] in
/-- A call changes the file as its transaction does. -/
theorem handle_fst (c : Call K) (claimedAt receivedAt : ℤ) :
    (c.handle lib db claimedAt receivedAt).1 = (step lib db (c.op claimedAt receivedAt)).1 := by
  unfold Call.handle
  split <;> simp [*]

omit [Field K] [LinearOrder K] in
theorem response_created_status (c : Call K) : (c.response .created).status = 201 := by
  unfold Call.response
  cases c.payload <;> rfl

omit [Field K] [LinearOrder K] in
theorem response_replayed_status (c : Call K) : (c.response .replayed).status = 200 := by
  unfold Call.response
  cases c.payload <;> rfl

end Calls

end RoutePlanner.Commute
