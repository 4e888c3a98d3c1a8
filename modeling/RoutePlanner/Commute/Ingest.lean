import Mathlib.Data.List.Induction
import RoutePlanner.Commute.Store
import RoutePlanner.Lib.Run

/-!
# The ingest store over whole histories

What holds after any sequence of transactions, in any order.

* `Kept`, `kept_run`: what no transaction takes back or changes.
* `step_write`: the four ways a write goes.
* `stored_iff`: the digest under a key is that of the write that was answered `CREATED` there.
* **`ingest_append_only`**: the three together, with what a purge clears.
-/

namespace RoutePlanner.Commute

open RoutePlanner.Lib

variable {K : Type} {lib : Stdlib K} {db db' : Db K}

/-! ## What is kept -/

/-- The same chunk later: its record unchanged, its body the same or cleared. -/
structure ChunkRow.Keeps (row row' : ChunkRow) : Prop where
  tripId : row'.tripId = row.tripId
  seq : row'.seq = row.seq
  receivedAt : row'.receivedAt = row.receivedAt
  contentSha256 : row'.contentSha256 = row.contentSha256
  fixCount : row'.fixCount = row.fixCount
  firstT : row'.firstT = row.firstT
  lastT : row'.lastT = row.lastT
  body : row'.body = row.body ∨ row'.body = none

theorem ChunkRow.Keeps.refl (row : ChunkRow) : row.Keeps row :=
  ⟨rfl, rfl, rfl, rfl, rfl, rfl, rfl, Or.inl rfl⟩

theorem ChunkRow.Keeps.trans {a b c : ChunkRow} (h : a.Keeps b) (h' : b.Keeps c) : a.Keeps c where
  tripId := h'.tripId.trans h.tripId
  seq := h'.seq.trans h.seq
  receivedAt := h'.receivedAt.trans h.receivedAt
  contentSha256 := h'.contentSha256.trans h.contentSha256
  fixCount := h'.fixCount.trans h.fixCount
  firstT := h'.firstT.trans h.firstT
  lastT := h'.lastT.trans h.lastT
  body := by
    rcases h'.body with hb | hb
    · rw [hb]
      exact h.body
    · exact Or.inr hb

/-- What is in `db` is in `db'`: owners and ends as they were, chunks but for their bodies. -/
structure Kept (db db' : Db K) : Prop where
  token : ∀ id, (db.token? id).isSome → (db'.token? id).isSome
  trip : ∀ tripId row, db.trip? tripId = some row → db'.trip? tripId = some row
  chunk : ∀ tripId seq row, db.chunk? tripId seq = some row →
    ∃ row', db'.chunk? tripId seq = some row' ∧ row.Keeps row'
  tripEnd : ∀ tripId row, db.end? tripId = some row → db'.end? tripId = some row

theorem Kept.refl (db : Db K) : Kept db db :=
  ⟨fun _ h => h, fun _ _ h => h, fun _ _ row h => ⟨row, h, ChunkRow.Keeps.refl row⟩, fun _ _ h => h⟩

theorem Kept.trans {a b c : Db K} (h : Kept a b) (h' : Kept b c) : Kept a c where
  token id hid := h'.token id (h.token id hid)
  trip tripId row hrow := h'.trip tripId row (h.trip tripId row hrow)
  chunk tripId seq row hrow := by
    obtain ⟨row', hrow', hkeeps⟩ := h.chunk tripId seq row hrow
    obtain ⟨row'', hrow'', hkeeps'⟩ := h'.chunk tripId seq row' hrow'
    exact ⟨row'', hrow'', hkeeps.trans hkeeps'⟩
  tripEnd tripId row hrow := h'.tripEnd tripId row (h.tripEnd tripId row hrow)

/-- A row found in a table is found after an `INSERT`. -/
theorem find?_append_of_some {α : Type} {p : α → Bool} {l l' : List α} {a : α}
    (h : l.find? p = some a) : (l ++ l').find? p = some a := by
  rw [List.find?_append, h]
  rfl

/-- An `UPDATE` that leaves a key alone changes the row found under it. -/
theorem find?_map_of_key {α : Type} {p : α → Bool} {f : α → α} (hf : ∀ a, p (f a) = p a)
    (l : List α) : (l.map f).find? p = (l.find? p).map f := by
  rw [List.find?_map]
  congr 1
  exact congrArg (fun q => l.find? q) (funext hf)

theorem Kept.addTrip (db : Db K) (row : Trip) : Kept db { db with trips := db.trips ++ [row] } :=
  { Kept.refl db with trip := fun _ _ h => find?_append_of_some h }

theorem Kept.addChunk (db : Db K) (row : ChunkRow) :
    Kept db { db with chunks := db.chunks ++ [row] } :=
  { Kept.refl db with
    chunk := fun _ _ row h => ⟨row, find?_append_of_some h, ChunkRow.Keeps.refl row⟩ }

theorem Kept.addEnd (db : Db K) (row : EndRow K) : Kept db { db with ends := db.ends ++ [row] } :=
  { Kept.refl db with tripEnd := fun _ _ h => find?_append_of_some h }

/-! ## The claim -/

/-- The trip is owned by another token. -/
def Db.Foreign (db : Db K) (tripId : String) (tokenId : ℤ) : Prop :=
  ∃ row, db.trip? tripId = some row ∧ row.tokenId ≠ tokenId

/-- The file once the trip is claimed. -/
def Db.claimed (db : Db K) (tripId : String) (tokenId now : ℤ) : Db K :=
  if (db.trip? tripId).isNone then { db with trips := db.trips ++ [⟨tripId, tokenId, now⟩] } else db

theorem claimed_of_isSome {tripId : String} (tokenId now : ℤ) (h : (db.trip? tripId).isSome) :
    db.claimed tripId tokenId now = db := by
  unfold Db.claimed
  rw [if_neg]
  simp [Option.isSome_iff_ne_none.mp h]

theorem kept_claimed (tripId : String) (tokenId now : ℤ) :
    Kept db (db.claimed tripId tokenId now) := by
  unfold Db.claimed
  split_ifs
  · exact Kept.addTrip db _
  · exact Kept.refl db

theorem trip?_claimed (tripId : String) (tokenId now : ℤ) :
    ((db.claimed tripId tokenId now).trip? tripId).isSome := by
  unfold Db.claimed
  split_ifs with h
  · rw [Db.trip?, List.find?_append]
    simp
  · exact Option.isSome_iff_ne_none.mpr (by simpa using h)

theorem claimed_chunks (tripId : String) (tokenId now : ℤ) :
    (db.claimed tripId tokenId now).chunks = db.chunks := by
  unfold Db.claimed
  split_ifs <;> rfl

theorem claimed_ends (tripId : String) (tokenId now : ℤ) :
    (db.claimed tripId tokenId now).ends = db.ends := by
  unfold Db.claimed
  split_ifs <;> rfl

/-- **`_claim_trip`**: it fails for an unknown token's first write, refuses a foreign trip, and
otherwise leaves the trip claimed. -/
theorem claimTrip_cases (db : Db K) (tripId : String) (tokenId now : ℤ) :
    (db.trip? tripId = none ∧ db.token? tokenId = none ∧
      claimTrip db tripId tokenId now = none) ∨
    (db.Foreign tripId tokenId ∧ claimTrip db tripId tokenId now = some (db, false)) ∨
    (¬ db.Foreign tripId tokenId ∧
      claimTrip db tripId tokenId now = some (db.claimed tripId tokenId now, true)) := by
  unfold claimTrip Db.Foreign Db.claimed
  cases htrip : db.trip? tripId with
  | none =>
    cases htoken : db.token? tokenId with
    | none => exact Or.inl ⟨rfl, rfl, by simp [Db.insertTrip, htoken]⟩
    | some token => exact Or.inr (Or.inr ⟨by simp, by simp [Db.insertTrip, htrip, htoken]⟩)
  | some row =>
    by_cases hrow : row.tokenId = tokenId
    · exact Or.inr (Or.inr ⟨by simp [hrow], by simp [hrow]⟩)
    · exact Or.inr (Or.inl ⟨⟨row, rfl, hrow⟩, by simp [hrow]⟩)

/-- **The four ways a write goes**: it raises, the trip is another's, the key is taken, or the row
is inserted. -/
theorem write_cases {tripId : String} {tokenId claimedAt : ℤ} (stored : Db K → Option String)
    (digest : String) (insert : Db K → Option (Db K))
    (hclaim : stored (db.claimed tripId tokenId claimedAt) = stored db)
    (htrip : (stored db).isSome → (db.trip? tripId).isSome) :
    (db.trip? tripId = none ∧ db.token? tokenId = none ∧
      write db tripId tokenId claimedAt stored digest insert = none) ∨
    (db.Foreign tripId tokenId ∧
      write db tripId tokenId claimedAt stored digest insert = some (db, .notYours)) ∨
    (¬ db.Foreign tripId tokenId ∧ ∃ sha, stored db = some sha ∧
      write db tripId tokenId claimedAt stored digest insert =
        some (db, if sha = digest then .replayed else .conflict)) ∨
    (¬ db.Foreign tripId tokenId ∧ stored db = none ∧
      write db tripId tokenId claimedAt stored digest insert =
        (insert (db.claimed tripId tokenId claimedAt)).map fun db => (db, .created)) := by
  unfold write
  rcases claimTrip_cases db tripId tokenId claimedAt with ⟨ht, hk, h⟩ | ⟨hf, h⟩ | ⟨hf, h⟩
  · exact Or.inl ⟨ht, hk, by rw [h]⟩
  · exact Or.inr (Or.inl ⟨hf, by rw [h]⟩)
  · rw [h]
    simp only [hclaim]
    cases hstored : stored db with
    | none => exact Or.inr (Or.inr (Or.inr ⟨hf, rfl, rfl⟩))
    | some sha =>
      have hsame := claimed_of_isSome tokenId claimedAt
        (htrip (by rw [hstored]; rfl))
      exact Or.inr (Or.inr (Or.inl ⟨hf, sha, rfl, by rw [hsame]⟩))

/-! ## Writes by their key -/

/-- A write: whose it is, its key (a chunk's number or the end) and its canonical text. -/
structure Write where
  tokenId : ℤ
  tripId : String
  slot : Option ℤ
  text : String

/-- The write of a transaction. -/
def Op.write? (lib : Stdlib K) : Op K → Option Write
  | .putChunk tokenId tripId seq chunk _ _ => some ⟨tokenId, tripId, some seq, chunk.text lib⟩
  | .endTrip tokenId tripId e _ _ => some ⟨tokenId, tripId, none, e.text lib⟩
  | _ => none

/-- The digest stored under a key. -/
def Db.digest? (db : Db K) (tripId : String) : Option ℤ → Option String
  | some seq => (db.chunk? tripId seq).map ChunkRow.contentSha256
  | none => (db.end? tripId).map EndRow.contentSha256

/-- Chunks and ends belong to trips. -/
structure Db.WellFormed (db : Db K) : Prop where
  chunk : ∀ row ∈ db.chunks, (db.trip? row.tripId).isSome
  tripEnd : ∀ row ∈ db.ends, (db.trip? row.tripId).isSome

theorem Db.WellFormed.trip_of_digest (hwf : db.WellFormed) {tripId : String} {slot : Option ℤ}
    (h : (db.digest? tripId slot).isSome) : (db.trip? tripId).isSome := by
  cases slot with
  | none =>
    rw [Db.digest?, Option.isSome_map] at h
    obtain ⟨row, hrow⟩ := Option.isSome_iff_exists.mp h
    have htrip := hwf.tripEnd row (List.mem_of_find?_eq_some hrow)
    have hid := List.find?_some hrow
    rwa [of_decide_eq_true hid] at htrip
  | some seq =>
    rw [Db.digest?, Option.isSome_map] at h
    obtain ⟨row, hrow⟩ := Option.isSome_iff_exists.mp h
    have htrip := hwf.chunk row (List.mem_of_find?_eq_some hrow)
    have hid := List.find?_some hrow
    rwa [(of_decide_eq_true hid).1] at htrip

theorem digest?_claimed (db : Db K) (tripId tripId' : String) (tokenId now : ℤ) (slot : Option ℤ) :
    (db.claimed tripId tokenId now).digest? tripId' slot = db.digest? tripId' slot := by
  cases slot with
  | none => rw [Db.digest?, Db.digest?, Db.end?, Db.end?, claimed_ends]
  | some seq => rw [Db.digest?, Db.digest?, Db.chunk?, Db.chunk?, claimed_chunks]

/-- `db'` holds the write, and otherwise the digests of `db`. -/
structure Inserts (lib : Stdlib K) (db : Db K) (w : Write) (db' : Db K) : Prop where
  kept : Kept db db'
  wellFormed : db'.WellFormed
  held : db'.digest? w.tripId w.slot = some (contentDigest lib w.text)
  others : ∀ tripId slot, ¬ (tripId = w.tripId ∧ slot = w.slot) →
    db'.digest? tripId slot = db.digest? tripId slot

theorem inserts_chunk (hwf : db.WellFormed) {w : Write} {row : ChunkRow} {seq : ℤ}
    (htrip : (db.trip? w.tripId).isSome) (hnone : db.chunk? w.tripId seq = none)
    (hw : w.slot = some seq) (hid : row.tripId = w.tripId) (hseq : row.seq = seq)
    (hsha : row.contentSha256 = contentDigest lib w.text) :
    ∃ db', db.insertChunk row = some db' ∧ Inserts lib db w db' := by
  refine ⟨{ db with chunks := db.chunks ++ [row] }, ?_, Kept.addChunk db row, ⟨?_, hwf.tripEnd⟩,
    ?_, ?_⟩
  · rw [Db.insertChunk, hid, hseq, hnone, if_pos ⟨rfl, htrip⟩]
  · intro r hr
    rcases List.mem_append.mp hr with hr | hr
    · exact hwf.chunk r hr
    · rw [List.mem_singleton.mp hr, hid]
      exact htrip
  · rw [Db.chunk?] at hnone
    rw [hw, Db.digest?, Db.chunk?, List.find?_append, hnone]
    simp [hid, hseq, hsha]
  · intro tripId slot hne
    cases slot with
    | none => rfl
    | some s =>
      have hkey : ¬ (row.tripId = tripId ∧ row.seq = s) := by
        rintro ⟨h1, h2⟩
        exact hne ⟨by rw [← h1, hid], by rw [hw, ← h2, hseq]⟩
      simp only [Db.digest?, Db.chunk?, List.find?_append]
      simp [hkey]

theorem inserts_end (hwf : db.WellFormed) {w : Write} {row : EndRow K}
    (htrip : (db.trip? w.tripId).isSome) (hnone : db.end? w.tripId = none)
    (hw : w.slot = none) (hid : row.tripId = w.tripId)
    (hsha : row.contentSha256 = contentDigest lib w.text) :
    ∃ db', db.insertEnd row = some db' ∧ Inserts lib db w db' := by
  refine ⟨{ db with ends := db.ends ++ [row] }, ?_, Kept.addEnd db row, ⟨hwf.chunk, ?_⟩, ?_, ?_⟩
  · rw [Db.insertEnd, hid, hnone, if_pos ⟨rfl, htrip⟩]
  · intro r hr
    rcases List.mem_append.mp hr with hr | hr
    · exact hwf.tripEnd r hr
    · rw [List.mem_singleton.mp hr, hid]
      exact htrip
  · rw [Db.end?] at hnone
    rw [hw, Db.digest?, Db.end?, List.find?_append, hnone]
    simp [hid, hsha]
  · intro tripId slot hne
    cases slot with
    | some s => rfl
    | none =>
      have hkey : ¬ row.tripId = tripId := fun h => hne ⟨by rw [← h, hid], hw.symm⟩
      simp only [Db.digest?, Db.end?, List.find?_append]
      simp [hkey]

theorem wellFormed_claimed (hwf : db.WellFormed) (tripId : String) (tokenId now : ℤ) :
    (db.claimed tripId tokenId now).WellFormed := by
  have hkeep : ∀ id, (db.trip? id).isSome → ((db.claimed tripId tokenId now).trip? id).isSome := by
    intro id hid
    obtain ⟨row, hrow⟩ := Option.isSome_iff_exists.mp hid
    rw [(kept_claimed tripId tokenId now).trip id row hrow]
    rfl
  constructor
  · intro row hrow
    rw [claimed_chunks] at hrow
    exact hkeep _ (hwf.chunk row hrow)
  · intro row hrow
    rw [claimed_ends] at hrow
    exact hkeep _ (hwf.tripEnd row hrow)

/-- What follows a claim follows the write. -/
theorem Inserts.of_claimed {w : Write} {tokenId now : ℤ}
    (h : Inserts lib (db.claimed w.tripId tokenId now) w db') : Inserts lib db w db' where
  kept := (kept_claimed w.tripId tokenId now).trans h.kept
  wellFormed := h.wellFormed
  held := h.held
  others tripId slot hne := by
    rw [h.others tripId slot hne, digest?_claimed]

/-- The four ways of a write with key and text `w`. -/
def WriteCases (lib : Stdlib K) (db : Db K) (w : Write) (result : Db K × Answer) : Prop :=
  (db.trip? w.tripId = none ∧ db.token? w.tokenId = none ∧ result = (db, .raised)) ∨
  (db.Foreign w.tripId w.tokenId ∧ result = (db, .outcome .notYours)) ∨
  (¬ db.Foreign w.tripId w.tokenId ∧ ∃ sha, db.digest? w.tripId w.slot = some sha ∧
    result = (db, .outcome (if sha = contentDigest lib w.text then .replayed else .conflict))) ∨
  (¬ db.Foreign w.tripId w.tokenId ∧ db.digest? w.tripId w.slot = none ∧
    ∃ db', result = (db', .outcome .created) ∧ Inserts lib db w db')

theorem settle_write (hwf : db.WellFormed) (w : Write) (claimedAt : ℤ)
    {insert : Db K → Option (Db K)}
    (hinsert : ∀ db : Db K, db.WellFormed → (db.trip? w.tripId).isSome →
      db.digest? w.tripId w.slot = none → ∃ db', insert db = some db' ∧ Inserts lib db w db') :
    WriteCases lib db w (settle db .outcome (write db w.tripId w.tokenId claimedAt
      (fun db => db.digest? w.tripId w.slot) (contentDigest lib w.text) insert)) := by
  have hclaim := digest?_claimed db w.tripId w.tripId w.tokenId claimedAt w.slot
  rcases write_cases (fun db => db.digest? w.tripId w.slot) (contentDigest lib w.text) insert
    hclaim hwf.trip_of_digest with
    ⟨ht, hk, h⟩ | ⟨hf, h⟩ | ⟨hf, sha, hs, h⟩ | ⟨hf, hs, h⟩
  · exact Or.inl ⟨ht, hk, by rw [h]; rfl⟩
  · exact Or.inr (Or.inl ⟨hf, by rw [h]; rfl⟩)
  · exact Or.inr (Or.inr (Or.inl ⟨hf, sha, hs, by rw [h]; rfl⟩))
  · obtain ⟨db', hdb', hins⟩ := hinsert _ (wellFormed_claimed hwf w.tripId w.tokenId claimedAt)
      (trip?_claimed w.tripId w.tokenId claimedAt) (hclaim.trans hs)
    exact Or.inr (Or.inr (Or.inr ⟨hf, hs, db', by rw [h, hdb']; rfl, hins.of_claimed⟩))

/-- **A write by its key**: it raises for an unknown token, is refused on a foreign trip, is
compared with what is stored, or is inserted. -/
theorem step_write (hwf : db.WellFormed) {op : Op K} {w : Write} (hop : op.write? lib = some w) :
    WriteCases lib db w (step lib db op) := by
  cases op with
  | putChunk tokenId tripId seq chunk claimedAt receivedAt =>
    obtain rfl := Option.some.inj hop
    refine settle_write hwf ⟨tokenId, tripId, some seq, chunk.text lib⟩ claimedAt
      fun db hdb htrip hnone => ?_
    exact inserts_chunk hdb htrip (Option.map_eq_none_iff.mp hnone) rfl rfl rfl rfl
  | endTrip tokenId tripId e claimedAt receivedAt =>
    obtain rfl := Option.some.inj hop
    refine settle_write hwf ⟨tokenId, tripId, none, e.text lib⟩ claimedAt
      fun db hdb htrip hnone => ?_
    exact inserts_end hdb htrip (Option.map_eq_none_iff.mp hnone) rfl rfl rfl
  | purge now maxAgeDays => exact absurd hop (by simp [Op.write?])
  | issue label token now => exact absurd hop (by simp [Op.write?])
  | revoke tokenId now => exact absurd hop (by simp [Op.write?])

/-! ## Purges and tokens -/

/-- What a purge makes of a chunk. -/
def purged (now maxAgeDays : ℤ) (row : ChunkRow) : ChunkRow :=
  if row.body.isSome && decide (row.receivedAt < cutoff now maxAgeDays) then
    { row with body := none, purgedAt := some now }
  else row

theorem purged_keeps (now maxAgeDays : ℤ) (row : ChunkRow) :
    row.Keeps (purged now maxAgeDays row) := by
  unfold purged
  split_ifs
  · exact ⟨rfl, rfl, rfl, rfl, rfl, rfl, rfl, Or.inr rfl⟩
  · exact ChunkRow.Keeps.refl row

/-- The trigger lets a purge through. -/
theorem purgeRawTraces_eq (db : Db K) (now maxAgeDays : ℤ) :
    purgeRawTraces db now maxAgeDays =
      some ({ db with chunks := db.chunks.map (purged now maxAgeDays) },
        db.chunks.countP fun r =>
          r.body.isSome && decide (r.receivedAt < cutoff now maxAgeDays)) := by
  unfold purgeRawTraces Db.updateChunks
  rw [if_neg]
  · rfl
  · simp [Db.appendOnlyRaises]

theorem chunk?_map {f : ChunkRow → ChunkRow} (hf : ∀ r : ChunkRow, r.Keeps (f r)) (db : Db K)
    (tripId : String) (seq : ℤ) :
    ({ db with chunks := db.chunks.map f } : Db K).chunk? tripId seq =
      (db.chunk? tripId seq).map f :=
  find?_map_of_key (fun r => by rw [(hf r).tripId, (hf r).seq]) db.chunks

theorem digest?_map {f : ChunkRow → ChunkRow} (hf : ∀ r : ChunkRow, r.Keeps (f r)) (db : Db K)
    (tripId : String) (slot : Option ℤ) :
    ({ db with chunks := db.chunks.map f } : Db K).digest? tripId slot =
      db.digest? tripId slot := by
  cases slot with
  | none => rfl
  | some seq =>
    rw [Db.digest?, Db.digest?, chunk?_map hf, Option.map_map]
    congr 1
    exact funext fun r => (hf r).contentSha256

theorem token?_revoke (db : Db K) (tokenId now id : ℤ) (h : (db.token? id).isSome) :
    ((revoke db tokenId now).1.token? id).isSome := by
  unfold revoke
  split
  · exact h
  · split_ifs
    · rw [Db.token?, find?_map_of_key]
      · rw [Option.isSome_map]
        exact h
      · intro r
        split_ifs <;> rfl
    · exact h

/-! ## One transaction -/

/-- The file after a transaction that is not a write. -/
structure Quiet (db db' : Db K) : Prop where
  kept : Kept db db'
  wellFormed : db.WellFormed → db'.WellFormed
  digest : ∀ tripId slot, db'.digest? tripId slot = db.digest? tripId slot

theorem Quiet.refl (db : Db K) : Quiet db db := ⟨Kept.refl db, fun h => h, fun _ _ => rfl⟩

theorem quiet_purge (db : Db K) (now maxAgeDays : ℤ) :
    Quiet db { db with chunks := db.chunks.map (purged now maxAgeDays) } where
  kept :=
    { Kept.refl db with
      chunk := fun tripId seq row h => ⟨purged now maxAgeDays row,
        by rw [chunk?_map (purged_keeps now maxAgeDays), h]; rfl, purged_keeps now maxAgeDays row⟩ }
  wellFormed hwf := by
    refine ⟨fun row hrow => ?_, hwf.tripEnd⟩
    obtain ⟨r, hr, rfl⟩ := List.mem_map.mp hrow
    rw [(purged_keeps now maxAgeDays r).tripId]
    exact hwf.chunk r hr
  digest := digest?_map (purged_keeps now maxAgeDays) db

theorem quiet_tokens {tokens : List TesterToken}
    (h : ∀ id, (db.token? id).isSome → (({ db with tokens := tokens } : Db K).token? id).isSome) :
    Quiet db { db with tokens := tokens } where
  kept := { Kept.refl db with token := h }
  wellFormed hwf := ⟨hwf.chunk, hwf.tripEnd⟩
  digest _ _ := rfl

/-- A transaction that is not a write keeps every digest. -/
theorem step_quiet {op : Op K} (hop : op.write? lib = none) : Quiet db (step lib db op).1 := by
  cases op with
  | putChunk tokenId tripId seq chunk claimedAt receivedAt => exact absurd hop (by simp [Op.write?])
  | endTrip tokenId tripId e claimedAt receivedAt => exact absurd hop (by simp [Op.write?])
  | purge now maxAgeDays =>
    rw [step, purgeRawTraces_eq]
    exact quiet_purge db now maxAgeDays
  | issue label token now =>
    unfold step issue
    simp only
    split_ifs
    · exact Quiet.refl db
    · exact Quiet.refl db
    · refine quiet_tokens fun id h => ?_
      obtain ⟨row, hrow⟩ := Option.isSome_iff_exists.mp h
      rw [Db.token?, find?_append_of_some hrow]
      rfl
  | revoke tokenId now =>
    have htoken := token?_revoke db tokenId now
    unfold step revoke at *
    simp only [settle] at *
    split at *
    · exact Quiet.refl db
    · split_ifs at * with hnone
      · exact quiet_tokens htoken
      · exact Quiet.refl db

/-- **One transaction**: what is stored is kept, and the file stays well formed. -/
theorem step_kept (hwf : db.WellFormed) (op : Op K) :
    Kept db (step lib db op).1 ∧ (step lib db op).1.WellFormed := by
  cases hop : op.write? lib with
  | none => exact ⟨(step_quiet hop).kept, (step_quiet hop).wellFormed hwf⟩
  | some w =>
    rcases step_write hwf hop with ⟨-, -, h⟩ | ⟨-, h⟩ | ⟨-, sha, -, h⟩ | ⟨-, -, db', h, hins⟩
    · rw [h]
      exact ⟨Kept.refl db, hwf⟩
    · rw [h]
      exact ⟨Kept.refl db, hwf⟩
    · rw [h]
      exact ⟨Kept.refl db, hwf⟩
    · rw [h]
      exact ⟨hins.kept, hins.wellFormed⟩

/-! ## Runs -/

theorem run_append (ops more : List (Op K)) :
    run lib (ops ++ more) = more.foldl (fun db op => (step lib db op).1) (run lib ops) :=
  List.foldl_append

theorem run_concat (ops : List (Op K)) (op : Op K) :
    run lib (ops ++ [op]) = (step lib (run lib ops) op).1 := run_append ops [op]

theorem run_wellFormed (lib : Stdlib K) (ops : List (Op K)) : (run lib ops).WellFormed :=
  foldl_invariant (I := Db.WellFormed) (fun _ op _ hwf => (step_kept hwf op).2)
    ⟨fun _ h => absurd h List.not_mem_nil, fun _ h => absurd h List.not_mem_nil⟩

/-- **What is stored is kept** by any further transactions. -/
theorem kept_run (lib : Stdlib K) (ops more : List (Op K)) :
    Kept (run lib ops) (run lib (ops ++ more)) := by
  rw [run_append]
  have hwf := run_wellFormed lib ops
  exact (foldl_invariant (I := fun db : Db K => Kept (run lib ops) db ∧ db.WellFormed)
    (fun db op _ h => ⟨h.1.trans (step_kept h.2 op).1, (step_kept h.2 op).2⟩)
    ⟨Kept.refl _, hwf⟩).1

/-! ## History -/

/-- `text` is what was stored under the key: a write of it was answered `CREATED`. -/
def Stored (lib : Stdlib K) (ops : List (Op K)) (tripId : String) (slot : Option ℤ)
    (text : String) : Prop :=
  ∃ before op after tokenId, ops = before ++ op :: after ∧
    op.write? lib = some ⟨tokenId, tripId, slot, text⟩ ∧
    (step lib (run lib before) op).2 = .outcome .created

theorem Stored.append {ops : List (Op K)} {tripId : String} {slot : Option ℤ} {text : String}
    (h : Stored lib ops tripId slot text) (more : List (Op K)) :
    Stored lib (ops ++ more) tripId slot text := by
  obtain ⟨before, op, after, tokenId, rfl, hw, hc⟩ := h
  exact ⟨before, op, after ++ more, tokenId, by rw [List.append_assoc]; rfl, hw, hc⟩

theorem Kept.digest (h : Kept db db') {tripId : String} {slot : Option ℤ} {sha : String}
    (hsha : db.digest? tripId slot = some sha) : db'.digest? tripId slot = some sha := by
  cases slot with
  | none =>
    obtain ⟨row, hrow, rfl⟩ := Option.map_eq_some_iff.mp hsha
    rw [Db.digest?, h.tripEnd tripId row hrow]
    rfl
  | some seq =>
    obtain ⟨row, hrow, rfl⟩ := Option.map_eq_some_iff.mp hsha
    obtain ⟨row', hrow', hkeeps⟩ := h.chunk tripId seq row hrow
    rw [Db.digest?, hrow', Option.map_some, hkeeps.contentSha256]

/-- What was stored is found by its digest. -/
theorem digest_of_stored {ops : List (Op K)} {tripId : String} {slot : Option ℤ} {text : String}
    (h : Stored lib ops tripId slot text) :
    (run lib ops).digest? tripId slot = some (contentDigest lib text) := by
  obtain ⟨before, op, after, tokenId, rfl, hw, hc⟩ := h
  have hcreated : (run lib (before ++ [op])).digest? tripId slot =
      some (contentDigest lib text) := by
    rw [run_concat]
    rcases step_write (run_wellFormed lib before) hw with
      ⟨-, -, h⟩ | ⟨-, h⟩ | ⟨-, sha, -, h⟩ | ⟨-, -, db', h, hins⟩
    · rw [h] at hc
      cases hc
    · rw [h] at hc
      cases hc
    · rw [h] at hc
      split_ifs at hc <;> cases hc
    · rw [h]
      exact hins.held
  have hkept := kept_run lib (before ++ [op]) after
  rw [List.append_assoc, List.singleton_append] at hkept
  exact hkept.digest hcreated

/-- A digest is that of something stored. -/
theorem stored_of_digest {ops : List (Op K)} {tripId : String} {slot : Option ℤ} {sha : String}
    (h : (run lib ops).digest? tripId slot = some sha) :
    ∃ text, Stored lib ops tripId slot text ∧ sha = contentDigest lib text := by
  induction ops using List.reverseRecOn with
  | nil => cases slot <;> exact absurd h (by simp [run, Db.empty, Db.digest?, Db.chunk?, Db.end?])
  | append_singleton ops op ih =>
    have hold : (run lib ops).digest? tripId slot = some sha →
        ∃ text, Stored lib (ops ++ [op]) tripId slot text ∧ sha = contentDigest lib text := by
      intro h
      obtain ⟨text, hstored, hsha⟩ := ih h
      exact ⟨text, hstored.append [op], hsha⟩
    rw [run_concat] at h
    cases hop : op.write? lib with
    | none =>
      rw [(step_quiet hop).digest] at h
      exact hold h
    | some w =>
      rcases step_write (run_wellFormed lib ops) hop with
        ⟨-, -, hs⟩ | ⟨-, hs⟩ | ⟨-, sha', -, hs⟩ | ⟨-, -, db', hs, hins⟩
      · rw [hs] at h
        exact hold h
      · rw [hs] at h
        exact hold h
      · rw [hs] at h
        exact hold h
      · rw [hs] at h
        by_cases hkey : tripId = w.tripId ∧ slot = w.slot
        · obtain ⟨rfl, rfl⟩ := hkey
          refine ⟨w.text, ⟨ops, op, [], w.tokenId, rfl, hop, by rw [hs]⟩, ?_⟩
          rw [hins.held] at h
          exact (Option.some.inj h).symm
        · rw [hins.others _ _ hkey] at h
          exact hold h

/-- What a write is answered after `ops`. -/
structure Answers (lib : Stdlib K) (ops : List (Op K)) (w : Write) (o : Outcome) : Prop where
  notYours : o = .notYours ↔ (run lib ops).Foreign w.tripId w.tokenId
  created : o = .created ↔ ¬ (run lib ops).Foreign w.tripId w.tokenId ∧
    (run lib ops).digest? w.tripId w.slot = none
  replayed : o = .replayed ↔ ¬ (run lib ops).Foreign w.tripId w.tokenId ∧
    Stored lib ops w.tripId w.slot w.text
  conflict : o = .conflict ↔ ¬ (run lib ops).Foreign w.tripId w.tokenId ∧
    (run lib ops).digest? w.tripId w.slot ≠ none ∧ ¬ Stored lib ops w.tripId w.slot w.text

/-- The digest under a key is that of a text iff the text was stored there. -/
theorem stored_iff (hsha : Function.Injective lib.sha256) {ops : List (Op K)} {tripId : String}
    {slot : Option ℤ} {text : String} :
    Stored lib ops tripId slot text ↔
      (run lib ops).digest? tripId slot = some (contentDigest lib text) := by
  constructor
  · exact digest_of_stored
  · intro h
    obtain ⟨text', hstored, heq⟩ := stored_of_digest h
    rwa [hsha heq]

/-- **The outcomes.** A write raises only for an unknown token's first write to a trip; otherwise
it is answered by what is stored, and only `CREATED` changes the file. -/
theorem step_answers (hsha : Function.Injective lib.sha256) (ops : List (Op K)) {op : Op K}
    {w : Write} (hop : op.write? lib = some w) :
    ((run lib ops).token? w.tokenId = none ∧ step lib (run lib ops) op = (run lib ops, .raised)) ∨
    ∃ o, (step lib (run lib ops) op).2 = .outcome o ∧ Answers lib ops w o ∧
      (o ≠ .created → (step lib (run lib ops) op).1 = run lib ops) := by
  rcases step_write (run_wellFormed lib ops) hop with
    ⟨-, hk, h⟩ | ⟨hf, h⟩ | ⟨hf, sha, hs, h⟩ | ⟨hf, hs, db', h, -⟩
  · exact Or.inl ⟨hk, h⟩
  · refine Or.inr ⟨.notYours, by rw [h], ⟨?_, ?_, ?_, ?_⟩, fun _ => by rw [h]⟩ <;> simp [hf]
  · right
    by_cases heq : sha = contentDigest lib w.text
    · rw [if_pos heq] at h
      have hstored := (stored_iff hsha).mpr (heq ▸ hs)
      refine ⟨.replayed, by rw [h], ⟨?_, ?_, ?_, ?_⟩, fun _ => by rw [h]⟩ <;>
        simp [hf, hs, hstored]
    · rw [if_neg heq] at h
      have hstored : ¬ Stored lib ops w.tripId w.slot w.text := by
        rw [stored_iff hsha, hs]
        exact fun e => heq (Option.some.inj e)
      refine ⟨.conflict, by rw [h], ⟨?_, ?_, ?_, ?_⟩, fun _ => by rw [h]⟩ <;>
        simp [hf, hs, hstored]
  · right
    have hstored : ¬ Stored lib ops w.tripId w.slot w.text := by
      rw [stored_iff hsha, hs]
      exact fun e => by cases e
    refine ⟨.created, by rw [h], ⟨?_, ?_, ?_, ?_⟩, fun hne => absurd rfl hne⟩ <;>
      simp [hf, hs, hstored]

/-- **The ingest store is append-only and idempotent.** After any transactions: what is stored
stays as it is under any further ones; a write by any token is answered by what is stored under its
key, and only `CREATED` changes the file; a purge clears the bodies received before its cutoff and
changes nothing else; and a cleared body stays cleared, while a replay of it is still one. -/
theorem ingest_append_only (lib : Stdlib K) (hsha : Function.Injective lib.sha256)
    (ops : List (Op K)) :
    (∀ more, Kept (run lib ops) (run lib (ops ++ more))) ∧
    (∀ op w, op.write? lib = some w →
      ((run lib ops).token? w.tokenId = none ∧
        step lib (run lib ops) op = (run lib ops, .raised)) ∨
      ∃ o, (step lib (run lib ops) op).2 = .outcome o ∧ Answers lib ops w o ∧
        (o ≠ .created → (step lib (run lib ops) op).1 = run lib ops)) ∧
    (∀ now maxAgeDays,
      (step lib (run lib ops) (.purge now maxAgeDays)).1 =
        { run lib ops with chunks := (run lib ops).chunks.map (purged now maxAgeDays) }) ∧
    ∀ tripId seq row, (run lib ops).chunk? tripId seq = some row → row.body = none → ∀ more,
      (∃ row', (run lib (ops ++ more)).chunk? tripId seq = some row' ∧ row'.body = none) ∧
      ∀ op tokenId text, op.write? lib = some ⟨tokenId, tripId, some seq, text⟩ →
        ¬ (run lib (ops ++ more)).Foreign tripId tokenId → Stored lib ops tripId (some seq) text →
        step lib (run lib (ops ++ more)) op = (run lib (ops ++ more), .outcome .replayed) := by
  refine ⟨kept_run lib ops, fun op w hop => step_answers hsha ops hop, fun now maxAgeDays => ?_, ?_⟩
  · rw [step, purgeRawTraces_eq]
    rfl
  · intro tripId seq row hrow hbody more
    constructor
    · obtain ⟨row', hrow', hkeeps⟩ := (kept_run lib ops more).chunk tripId seq row hrow
      refine ⟨row', hrow', ?_⟩
      rcases hkeeps.body with h | h
      · rw [h, hbody]
      · exact h
    · intro op tokenId text hop hmine hstored
      have hdigest := digest_of_stored (hstored.append more)
      rcases step_write (run_wellFormed lib (ops ++ more)) hop with
        ⟨ht, -, -⟩ | ⟨hf, -⟩ | ⟨-, sha, hs, h⟩ | ⟨-, hs, -⟩
      · have htrip := (run_wellFormed lib (ops ++ more)).trip_of_digest
          (hdigest ▸ rfl : ((run lib (ops ++ more)).digest? tripId (some seq)).isSome)
        rw [ht] at htrip
        cases htrip
      · exact absurd hf hmine
      · rw [hdigest] at hs
        rw [h, if_pos (Option.some.inj hs).symm]
      · rw [hdigest] at hs
        cases hs

/-! ## A purged chunk put again -/

/-- The text of the chunk below. -/
def sampleText : String :=
  "\x7b\"artifacts\":[\x7b\"artifact\":\x7b\x7d,\"effective_at\":1000000000000\x7d]," ++
    "\"fixes\":[]\x7d"

/-- SHA-256 on the texts below, and other digests for other texts. -/
def sampleSha256 (text : String) : String :=
  if text = "srt_a" then "8d5a1936d2ec4859c44cf0f7efa014fb764310495c06a17816772067247287f8"
  else if text = sampleText then "ba89ffdb2f56fa60ee61ed4f008fcda85e2f1a85e3da64eeb4afc35c29a0e863"
  else "~" ++ text

theorem sampleSha256_injective : Function.Injective sampleSha256 := by
  have hother : ∀ (hex text : String), hex.toList.head? ≠ some '~' → hex ≠ "~" ++ text := by
    intro hex text hne h
    rw [h, String.toList_append] at hne
    exact hne rfl
  intro a b h
  unfold sampleSha256 at h
  split_ifs at h with ha hb hb ha hb hb hb hb
  · rw [ha, hb]
  · exact absurd h (by decide)
  · exact absurd h (hother _ _ (by decide))
  · exact absurd h (by decide)
  · rw [ha, hb]
  · exact absurd h (hother _ _ (by decide))
  · exact absurd h.symm (hother _ _ (by decide))
  · exact absurd h.symm (hother _ _ (by decide))
  · have htext := congrArg String.toList h
    rw [String.toList_append, String.toList_append] at htext
    exact String.ext (List.append_cancel_left htext)

/-- The library of the sample: it renders no float. -/
def sampleLib : Stdlib ℚ := ⟨fun x => toString x, sampleSha256⟩

/-- A chunk of one empty artifact. -/
def sampleChunk : TraceChunk ℚ := ⟨[], [⟨1000000000000, []⟩]⟩

example : sampleChunk.text sampleLib = sampleText := by decide +kernel

/-- The first token puts the chunk. -/
def samplePut : Op ℚ := .putChunk 1 "trip" 0 sampleChunk 20 21

/-- A token is issued, puts the chunk, and the chunk is purged a hundred days later. -/
def sampleOps : List (Op ℚ) := [.issue "a" "srt_a" 10, samplePut, .purge 8640000022 99]

/-- The purged chunk put again is a replay, and stays purged. -/
theorem ingest_append_only_purged :
    step sampleLib (run sampleLib sampleOps) samplePut =
      (run sampleLib sampleOps, .outcome .replayed) := by
  have hrow : (run sampleLib sampleOps).chunk? "trip" 0 =
      some (purged 8640000022 99 (chunkRow sampleLib "trip" 0 sampleChunk 21)) := by
    decide +kernel
  have htrip : (run sampleLib sampleOps).trip? "trip" = some ⟨"trip", 1, 20⟩ := by decide +kernel
  have hmine : ¬ (run sampleLib (sampleOps ++ [])).Foreign "trip" 1 := by
    rintro ⟨row, hrow, hne⟩
    rw [List.append_nil, htrip] at hrow
    exact hne (by rw [← Option.some.inj hrow])
  have h := ((ingest_append_only sampleLib sampleSha256_injective sampleOps).2.2.2 "trip" 0 _ hrow
    rfl []).2 samplePut 1 (sampleChunk.text sampleLib) rfl hmine
    ⟨[.issue "a" "srt_a" 10], samplePut, [.purge 8640000022 99], 1, rfl, rfl, by decide +kernel⟩
  rwa [List.append_nil] at h

end RoutePlanner.Commute
