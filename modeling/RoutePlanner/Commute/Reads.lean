import Mathlib.Data.Finset.Card
import RoutePlanner.Commute.Canonical
import RoutePlanner.Commute.Tables

/-!
# What the ingest store reads back

`read_chunk`, `eta_log` and `list_tokens` after any history of transactions, in the words of the
history alone.

* **`read_chunk_history`**: a chunk is read back as it was uploaded, until it is purged.
* **`eta_log_history`**: the log has one row for each end that was accepted, under the label of the
  tester who sent it, in the order of their times.
* **`list_tokens_history`**: the list has one row for each token that was issued, in order, with
  the trips it owns.
-/

namespace RoutePlanner.Commute

open RoutePlanner.Lib

variable {K : Type}

/-! ## A write that was accepted -/

section Created

variable {lib : Stdlib K} {db : Db K} {op : Op K} {w : Write}

/-- A write is accepted, or changes nothing. -/
theorem created_or_same (hwf : db.WellFormed) (hop : op.write? lib = some w) :
    (step lib db op).2 = .outcome .created ∨ (step lib db op).1 = db := by
  rcases step_write hwf hop with ⟨-, -, h⟩ | ⟨-, h⟩ | ⟨-, sha, -, h⟩ | ⟨-, -, db', h, -⟩
  · exact Or.inr (by rw [h])
  · exact Or.inr (by rw [h])
  · exact Or.inr (by rw [h])
  · exact Or.inl (by rw [h])

/-- A write that is accepted was not stored, and is. -/
theorem inserts_of_created (hwf : db.WellFormed) (hop : op.write? lib = some w)
    (hc : (step lib db op).2 = .outcome .created) :
    db.digest? w.tripId w.slot = none ∧ Inserts lib db w (step lib db op).1 := by
  rcases step_write hwf hop with ⟨-, -, h⟩ | ⟨-, h⟩ | ⟨-, sha, -, h⟩ | ⟨-, hnone, db', h, hins⟩
  · rw [h] at hc
    cases hc
  · rw [h] at hc
    cases hc
  · rw [h] at hc
    split_ifs at hc <;> cases hc
  · rw [h]
    exact ⟨hnone, hins⟩

/-- **A chunk that is accepted** is the next row, of a trip of its tester. -/
theorem created_chunk {tokenId seq claimedAt receivedAt : ℤ} {tripId : String}
    {chunk : TraceChunk K} (hwf : db.WellFormed)
    (hc : (step lib db (.putChunk tokenId tripId seq chunk claimedAt receivedAt)).2 =
      .outcome .created) :
    ¬ db.Foreign tripId tokenId ∧ ((db.trip? tripId).isSome ∨ (db.token? tokenId).isSome) ∧
      db.chunk? tripId seq = none ∧
      (step lib db (.putChunk tokenId tripId seq chunk claimedAt receivedAt)).1 =
        { db.claimed tripId tokenId claimedAt with
          chunks := db.chunks ++ [chunkRow lib tripId seq chunk receivedAt] } := by
  obtain ⟨hnone, hins⟩ := inserts_of_created hwf rfl hc
  have htables : Tables lib db _ (step lib db _).1 :=
    step_tables hwf (.putChunk tokenId tripId seq chunk claimedAt receivedAt)
  generalize (step lib db (.putChunk tokenId tripId seq chunk claimedAt receivedAt)).1 = db'
    at hins htables ⊢
  cases htables with
  | same =>
    rw [hins.held] at hnone
    cases hnone
  | chunk hmine hknown hfree => exact ⟨hmine, hknown, hfree, rfl⟩

/-- **An end that is accepted** is the next row, of a trip of its tester. -/
theorem created_end {tokenId claimedAt receivedAt : ℤ} {tripId : String} {e : TripEnd K}
    (hwf : db.WellFormed)
    (hc : (step lib db (.endTrip tokenId tripId e claimedAt receivedAt)).2 = .outcome .created) :
    ¬ db.Foreign tripId tokenId ∧ ((db.trip? tripId).isSome ∨ (db.token? tokenId).isSome) ∧
      db.end? tripId = none ∧
      (step lib db (.endTrip tokenId tripId e claimedAt receivedAt)).1 =
        { db.claimed tripId tokenId claimedAt with
          ends := db.ends ++ [endRow lib tripId e receivedAt] } := by
  obtain ⟨hnone, hins⟩ := inserts_of_created hwf rfl hc
  have htables : Tables lib db _ (step lib db _).1 :=
    step_tables hwf (.endTrip tokenId tripId e claimedAt receivedAt)
  generalize (step lib db (.endTrip tokenId tripId e claimedAt receivedAt)).1 = db'
    at hins htables ⊢
  cases htables with
  | same =>
    rw [hins.held] at hnone
    cases hnone
  | tripEnd hmine hknown hfree => exact ⟨hmine, hknown, hfree, rfl⟩

end Created

/-! ## `read_chunk` -/

/-- `StoredChunk`. -/
structure StoredChunk (K : Type) where
  tripId : String
  seq : ℤ
  receivedAt : ℤ
  fixCount : ℕ
  firstT : Option ℤ
  lastT : Option ℤ
  body : Option (Json K)
  purgedAt : Option ℤ

/-- The row of a chunk as `read_chunk` returns it; none where `json.loads` raises. -/
def storedChunk (parseFloat : String → K) (row : ChunkRow) : Option (StoredChunk K) := do
  let body ← match row.body with
    | none => some none
    | some text => (loads parseFloat text).map some
  return ⟨row.tripId, row.seq, row.receivedAt, row.fixCount, row.firstT, row.lastT, body,
    row.purgedAt⟩

/-- **`read_chunk`**: a chunk or none; it raises where `json.loads` does. -/
def readChunk (parseFloat : String → K) (db : Db K) (tripId : String) (seq : ℤ) :
    Option (Option (StoredChunk K)) :=
  match db.chunk? tripId seq with
  | none => some none
  | some row => (storedChunk parseFloat row).map some

/-- When a chunk that was received at `receivedAt` is purged. -/
def purgeTime (receivedAt : ℤ) : List (Op K) → Option ℤ
  | [] => none
  | .purge now maxAgeDays :: ops =>
    if receivedAt < cutoff now maxAgeDays then some now else purgeTime receivedAt ops
  | _ :: ops => purgeTime receivedAt ops

/-- What a transaction does to a chunk that is there. -/
def Op.onChunk (row : ChunkRow) : Op K → ChunkRow
  | .purge now maxAgeDays => purged now maxAgeDays row
  | _ => row

section ReadChunk

variable {lib : Stdlib K} {db : Db K} {row : ChunkRow} {tripId : String} {seq : ℤ}

theorem chunk?_step (hwf : db.WellFormed) (op : Op K) (h : db.chunk? tripId seq = some row) :
    (step lib db op).1.chunk? tripId seq = some (op.onChunk row) := by
  have hclaimed : ∀ {tripId' tokenId now},
      (db.claimed tripId' tokenId now).chunk? tripId seq = some row := by
    intro tripId' tokenId now
    rw [Db.chunk?, claimed_chunks]
    exact h
  have htables : Tables lib db op (step lib db op).1 := step_tables hwf op
  cases op with
  | purge now maxAgeDays =>
    rw [show step lib db (.purge now maxAgeDays) =
      settle db .purged (purgeRawTraces db now maxAgeDays) from rfl, purgeRawTraces_eq]
    refine (chunk?_map (purged_keeps now maxAgeDays) db tripId seq).trans ?_
    rw [h]
    rfl
  | putChunk tokenId tripId' seq' chunk claimedAt receivedAt =>
    generalize (step lib db _).1 = db' at htables ⊢
    cases htables with
    | same => exact h
    | chunk => exact find?_append_of_some h
  | endTrip tokenId tripId' e claimedAt receivedAt =>
    generalize (step lib db _).1 = db' at htables ⊢
    cases htables with
    | same => exact h
    | tripEnd => exact hclaimed
  | issue label token now =>
    generalize (step lib db _).1 = db' at htables ⊢
    cases htables <;> exact h
  | revoke tokenId now =>
    generalize (step lib db _).1 = db' at htables ⊢
    cases htables <;> exact h

/-- Any number of transactions. -/
theorem chunk?_foldl (lib : Stdlib K) (hwf : db.WellFormed) (ops : List (Op K))
    (h : db.chunk? tripId seq = some row) :
    (ops.foldl (fun db op => (step lib db op).1) db).chunk? tripId seq =
      some (ops.foldl Op.onChunk row) := by
  induction ops generalizing db row with
  | nil => exact h
  | cons op ops ih => exact ih (step_kept hwf op).2 (chunk?_step hwf op h)

/-- A body that is cleared stays so. -/
theorem onChunk_cleared (h : row.body = none) (ops : List (Op K)) :
    ops.foldl Op.onChunk row = row := by
  induction ops with
  | nil => rfl
  | cons op ops ih =>
    have hop : op.onChunk row = row := by
      cases op with
      | purge now maxAgeDays => simp [Op.onChunk, purged, h]
      | _ => rfl
    rw [List.foldl_cons, hop, ih]

/-- **The first purge that is late enough clears the body**, and nothing else changes a chunk. -/
theorem onChunk_foldl {text : String} (h : row.body = some text) (ops : List (Op K)) :
    ops.foldl Op.onChunk row =
      match purgeTime row.receivedAt ops with
      | none => row
      | some now => { row with body := none, purgedAt := some now } := by
  induction ops with
  | nil => rfl
  | cons op ops ih =>
    cases op with
    | purge now maxAgeDays =>
      rw [List.foldl_cons, Op.onChunk, purged, purgeTime, h, Option.isSome_some, Bool.true_and]
      by_cases hlate : row.receivedAt < cutoff now maxAgeDays
      · rw [if_pos (decide_eq_true hlate), if_pos hlate]
        exact onChunk_cleared rfl ops
      · rw [if_neg (by simpa using hlate), if_neg hlate]
        exact ih
    | _ => exact ih

/-- A chunk that is there was accepted. -/
theorem created_of_chunk {ops : List (Op K)}
    (h : ((run lib ops).chunk? tripId seq).isSome) :
    ∃ before after tokenId chunk claimedAt receivedAt,
      ops = before ++ .putChunk tokenId tripId seq chunk claimedAt receivedAt :: after ∧
      (step lib (run lib before) (.putChunk tokenId tripId seq chunk claimedAt receivedAt)).2 =
        .outcome .created := by
  obtain ⟨row, hrow⟩ := Option.isSome_iff_exists.mp h
  have hdigest : (run lib ops).digest? tripId (some seq) = some row.contentSha256 := by
    rw [Db.digest?, hrow]
    rfl
  obtain ⟨text, ⟨before, op, after, tokenId, rfl, hop, hc⟩, -⟩ := stored_of_digest hdigest
  cases op with
  | putChunk tokenId' tripId' seq' chunk claimedAt receivedAt =>
    obtain ⟨rfl, rfl, hslot, -⟩ := Write.mk.inj (Option.some.inj hop)
    obtain rfl := Option.some.inj hslot
    exact ⟨before, after, tokenId', chunk, claimedAt, receivedAt, rfl, hc⟩
  | endTrip => cases (Write.mk.inj (Option.some.inj hop)).2.2.1
  | purge => cases hop
  | issue => cases hop
  | revoke => cases hop

/-- The dump of a chunk has a key twice only in an artifact. -/
theorem distinct_modelDump {chunk : TraceChunk K}
    (h : ∀ a ∈ chunk.artifacts, (Json.obj a.artifact).Distinct) : chunk.modelDump.Distinct := by
  have hoptional : ∀ x : Option K, (Json.optional Json.float x).Distinct := fun x => by
    cases x <;> trivial
  refine ⟨by simp, distinctItems_iff.mpr fun item hitem => ?_,
    distinctItems_iff.mpr fun item hitem => ?_, trivial⟩
  · obtain ⟨f, -, rfl⟩ := List.mem_map.mp hitem
    exact ⟨by simp, trivial, trivial, trivial, hoptional _, trivial, hoptional _, trivial⟩
  · obtain ⟨a, ha, rfl⟩ := List.mem_map.mp hitem
    exact ⟨by simp, trivial, h a ha, trivial⟩

variable {parseFloat : String → K}

/-- **A chunk is read back as it was uploaded**, with its keys in order, until the first purge that
finds it old enough, and then without its body; a chunk that was never accepted is not there. -/
theorem read_chunk_history (lib : Stdlib K) (h : FloatText lib.floatRepr parseFloat)
    (tripId : String) (seq : ℤ) :
    (∀ (before after : List (Op K)) tokenId chunk claimedAt receivedAt,
      (∀ a ∈ chunk.artifacts, (Json.obj a.artifact).Distinct) →
      (step lib (run lib before) (.putChunk tokenId tripId seq chunk claimedAt receivedAt)).2 =
        .outcome .created →
      readChunk parseFloat (run lib (before ++
          .putChunk tokenId tripId seq chunk claimedAt receivedAt :: after)) tripId seq =
        some (some
          { tripId, seq, receivedAt
            fixCount := chunk.fixes.length
            firstT := (chunk.fixes.map TraceFix.t).head?
            lastT := (chunk.fixes.map TraceFix.t).getLast?
            body := if purgeTime receivedAt after = none then some chunk.modelDump.sorted else none
            purgedAt := purgeTime receivedAt after })) ∧
    ∀ ops : List (Op K),
      (∀ before after tokenId chunk claimedAt receivedAt,
        ops = before ++ .putChunk tokenId tripId seq chunk claimedAt receivedAt :: after →
        (step lib (run lib before) (.putChunk tokenId tripId seq chunk claimedAt receivedAt)).2 ≠
          .outcome .created) →
      readChunk parseFloat (run lib ops) tripId seq = some none := by
  constructor
  · intro before after tokenId chunk claimedAt receivedAt hdistinct hc
    obtain ⟨-, -, hfree, hstep⟩ := created_chunk (run_wellFormed lib before) hc
    have hrow : (run lib (before ++
        [.putChunk tokenId tripId seq chunk claimedAt receivedAt])).chunk? tripId seq =
        some (chunkRow lib tripId seq chunk receivedAt) := by
      rw [run_concat, hstep, Db.chunk?, List.find?_append]
      rw [Db.chunk?] at hfree
      rw [hfree]
      simp [chunkRow]
    have hbody : (chunkRow lib tripId seq chunk receivedAt).body = some (chunk.text lib) := rfl
    have hafter := chunk?_foldl lib (run_wellFormed lib _) after hrow
    rw [← run_append, List.append_assoc, List.singleton_append, onChunk_foldl hbody] at hafter
    have hloads : loads parseFloat (chunk.text lib) = some chunk.modelDump.sorted :=
      loads_canonicalJson h (distinct_modelDump hdistinct)
    have hreceived : (chunkRow lib tripId seq chunk receivedAt).receivedAt = receivedAt := rfl
    rw [hreceived] at hafter
    unfold readChunk
    rw [hafter]
    cases hpurge : purgeTime receivedAt after with
    | none => simp [storedChunk, chunkRow, hloads]
    | some now => simp [storedChunk, chunkRow]
  · intro ops hnever
    have hnone : (run lib ops).chunk? tripId seq = none := by
      by_contra hsome
      obtain ⟨before, after, tokenId, chunk, claimedAt, receivedAt, heq, hc⟩ :=
        created_of_chunk (Option.isSome_iff_ne_none.mpr hsome)
      exact hnever before after tokenId chunk claimedAt receivedAt heq hc
    unfold readChunk
    rw [hnone]

/-- One fix, at a whole place. -/
def wholeChunk : TraceChunk ℤ := ⟨[⟨1600000060000, 1, 0, none, 5, none⟩], []⟩

/-- SHA-256, on what is needed. -/
def wholeLib : Stdlib ℤ where
  floatRepr := wholeRepr
  sha256 text :=
    if text = "srt_a" then "8d5a1936d2ec4859c44cf0f7efa014fb764310495c06a17816772067247287f8"
    else if text = canonicalJson wholeRepr wholeChunk.modelDump then
      "32e50495cd327962256edf8f5b8a744bd05172e4042b72e266bd159a0359ef34"
    else text

/-- Uploaded at 20, purged by the second purge. -/
theorem read_chunk_history_whole :
    readChunk parseWhole (run wholeLib ([.issue "a" "srt_a" 10] ++
        .putChunk 1 "trip" 0 wholeChunk 20 20 :: [.purge 8640000000 100, .purge 9000000000 100]))
        "trip" 0 =
      some (some ⟨"trip", 0, 20, 1, some 1600000060000, some 1600000060000, none,
        some 9000000000⟩) :=
  (read_chunk_history wholeLib floatText_whole "trip" 0).1 _ _ _ _ _ _
    (fun _ ha => absurd ha List.not_mem_nil) (by decide +kernel)

end ReadChunk

/-! ## `eta_log` -/

/-- `EtaLogRow`. -/
structure EtaLogRow (K : Type) where
  tripId : String
  testerLabel : String
  receivedAt : ℤ
  endedAt : ℤ
  arrived : Bool
  predictedEffectiveAt : Option ℤ
  predictedEtaS : Option K
  level : Option String
  profileVersion : Option String

/-- `eta_error_s`: actual minus predicted arrival, of a trip that arrived with a prediction. -/
def EtaLogRow.etaErrorS [Field K] (row : EtaLogRow K) : Option K :=
  match row.arrived, row.predictedEtaS, row.predictedEffectiveAt with
  | true, some etaS, some effectiveAt =>
    some (((row.endedAt : K) - ((effectiveAt : K) + etaS * ((1000 : ℕ) : K))) / ((1000 : ℕ) : K))
  | _, _, _ => none

/-- A row of the join. -/
def etaLogRow (e : EndRow K) (k : TesterToken) : EtaLogRow K :=
  ⟨e.tripId, k.label, e.receivedAt, e.endedAt, e.arrived, e.predictedEffectiveAt, e.predictedEtaS,
    e.level, e.profileVersion⟩

/-- `trip_ends e JOIN trips t ON t.trip_id = e.trip_id JOIN tester_tokens k ON k.id = t.token_id`.
-/
def joinEnds (db : Db K) : List (EtaLogRow K) :=
  db.ends.flatMap fun e => (db.trips.filter fun t => decide (t.tripId = e.tripId)).flatMap fun t =>
    (db.tokens.filter fun k => decide (k.id = t.tokenId)).map (etaLogRow e)

/-- `ORDER BY e.ended_at, e.trip_id`. -/
def EtaLogRow.Before (r s : EtaLogRow K) : Prop :=
  r.endedAt < s.endedAt ∨ r.endedAt = s.endedAt ∧ r.tripId ≤ s.tripId

instance decBefore : DecidableRel (EtaLogRow.Before (K := K)) :=
  fun _ _ => inferInstanceAs (Decidable (_ ∨ _ ∧ _))

/-- **`eta_log`**. -/
def etaLog (db : Db K) : List (EtaLogRow K) := (joinEnds db).insertionSort EtaLogRow.Before

/-! ## Tokens and trips over a history -/

/-- What a transaction does to a tester token that is there. -/
def Op.onToken (row : TesterToken) : Op K → TesterToken
  | .revoke tokenId now =>
    if row.id = tokenId ∧ row.revokedAt = none then { row with revokedAt := some now } else row
  | _ => row

/-- When a token is revoked. -/
def revokeTime (id : ℤ) : List (Op K) → Option ℤ
  | [] => none
  | .revoke tokenId now :: ops => if id = tokenId then some now else revokeTime id ops
  | _ :: ops => revokeTime id ops

section Tokens

variable {lib : Stdlib K} {db : Db K}

theorem onToken_id (row : TesterToken) (op : Op K) : (op.onToken row).id = row.id := by
  cases op with
  | revoke tokenId now =>
    simp only [Op.onToken]
    split_ifs <;> rfl
  | _ => rfl

/-- **The tester tokens after one transaction.** -/
theorem tokens_step (lib : Stdlib K) (h : db.KeysHold) (op : Op K) :
    (∃ label token now, op = .issue label token now ∧
      (step lib db op).2 = .issued (nextId db) ∧
      (step lib db op).1.tokens = db.tokens ++ [tokenRow lib db label token now]) ∨
    ((∀ id, (step lib db op).2 ≠ .issued id) ∧
      (step lib db op).1.tokens = db.tokens.map op.onToken) := by
  have hsame : ∀ op : Op K, (∀ row, op.onToken row = row) → db.tokens = db.tokens.map op.onToken :=
    fun op hop => ((List.map_congr_left fun row _ => hop row).trans (List.map_id _)).symm
  cases op with
  | putChunk tokenId tripId seq chunk claimedAt receivedAt =>
    refine Or.inr ⟨fun id => ?_, ?_⟩
    · rw [step]
      cases putChunk lib db tokenId tripId seq chunk claimedAt receivedAt <;> simp [settle]
    · rw [tokens_of_write h.wellFormed rfl]
      exact hsame _ fun _ => rfl
  | endTrip tokenId tripId e claimedAt receivedAt =>
    refine Or.inr ⟨fun id => ?_, ?_⟩
    · rw [step]
      cases endTrip lib db tokenId tripId e claimedAt receivedAt <;> simp [settle]
    · rw [tokens_of_write h.wellFormed rfl]
      exact hsame _ fun _ => rfl
  | purge now maxAgeDays =>
    rw [show step lib db (.purge now maxAgeDays) =
      settle db .purged (purgeRawTraces db now maxAgeDays) from rfl, purgeRawTraces_eq]
    exact Or.inr ⟨fun id heq => (by cases heq), hsame (.purge now maxAgeDays) fun _ => rfl⟩
  | issue label token now =>
    unfold step issue
    simp only
    split_ifs with hlabel hused
    · exact Or.inr ⟨fun id heq => (by cases heq), hsame (.issue label token now) fun _ => rfl⟩
    · exact Or.inr ⟨fun id heq => (by cases heq), hsame (.issue label token now) fun _ => rfl⟩
    · exact Or.inl ⟨label, token, now, rfl, rfl, rfl⟩
  | revoke tokenId now =>
    refine Or.inr ⟨fun id heq => (by cases heq), ?_⟩
    unfold step revoke
    simp only [settle]
    -- the row under the id is the one that `revoke` finds
    split
    · rename_i hunknown
      refine (List.map_congr_left fun row hrow => ?_).trans (List.map_id _) |>.symm
      refine if_neg fun hid => ?_
      rw [← hid.1, h.token?_eq hrow] at hunknown
      cases hunknown
    · rename_i r hr
      split_ifs with hnull
      · refine List.map_congr_left fun row hrow => ?_
        show _ = if row.id = tokenId ∧ row.revokedAt = none then
          { row with revokedAt := some now } else row
        by_cases hid : row.id = tokenId
        · have hrow' : r = row := by
            rw [← hid, h.token?_eq hrow] at hr
            exact (Option.some.inj hr).symm
          rw [if_pos hid, if_pos ⟨hid, hrow' ▸ Option.isNone_iff_eq_none.mp hnull⟩]
        · rw [if_neg hid, if_neg fun hrow => hid hrow.1]
      · refine (List.map_congr_left fun row hrow => ?_).trans (List.map_id _) |>.symm
        refine if_neg fun hid => hnull ?_
        have hrow' : r = row := by
          rw [← hid.1, h.token?_eq hrow] at hr
          exact (Option.some.inj hr).symm
        rw [hrow', hid.2]
        rfl

/-- **Where a tester token comes from**: it was issued, and what came after changed it. -/
theorem mem_tokens_run (lib : Stdlib K) (ops : List (Op K)) {row : TesterToken} :
    row ∈ (run lib ops).tokens ↔
      ∃ before label token now after, ops = before ++ .issue label token now :: after ∧
        (step lib (run lib before) (.issue label token now)).2 = .issued row.id ∧
        row = after.foldl Op.onToken (tokenRow lib (run lib before) label token now) := by
  induction ops using List.reverseRecOn generalizing row with
  | nil =>
    constructor
    · exact fun h => absurd h List.not_mem_nil
    · rintro ⟨before, label, token, now, after, h, -⟩
      exact absurd h (by simp)
  | append_singleton ops op ih =>
    -- a row that was there, or the one that is issued last
    have hsplit : (∃ before label token now after,
        ops ++ [op] = before ++ .issue label token now :: after ∧
          (step lib (run lib before) (.issue label token now)).2 = .issued row.id ∧
          row = after.foldl Op.onToken (tokenRow lib (run lib before) label token now)) ↔
        (∃ row₀ ∈ (run lib ops).tokens, op.onToken row₀ = row) ∨
        ∃ label token now, op = .issue label token now ∧
          (step lib (run lib ops) op).2 = .issued row.id ∧
          row = tokenRow lib (run lib ops) label token now := by
      constructor
      · rintro ⟨before, label, token, now, after, heq, hissued, hrow⟩
        rcases List.eq_nil_or_concat after with rfl | ⟨after, last, rfl⟩
        · obtain ⟨rfl, hop⟩ := List.append_inj' heq rfl
          obtain rfl := List.head_eq_of_cons_eq hop
          exact Or.inr ⟨label, token, now, rfl, hissued, hrow⟩
        · rw [List.concat_eq_append, ← List.cons_append, ← List.append_assoc] at heq
          obtain ⟨rfl, hop⟩ := List.append_inj' heq rfl
          obtain rfl := List.head_eq_of_cons_eq hop
          rw [List.concat_eq_append, List.foldl_concat] at hrow
          refine Or.inl ⟨_, ih.mpr ⟨before, label, token, now, after, rfl, ?_, rfl⟩, hrow.symm⟩
          rw [hrow, onToken_id] at hissued
          exact hissued
      · rintro (⟨row₀, hrow₀, rfl⟩ | ⟨label, token, now, rfl, hissued, hrow⟩)
        · obtain ⟨before, label, token, now, after, rfl, hissued, hrow⟩ := ih.mp hrow₀
          refine ⟨before, label, token, now, after ++ [op], by simp, ?_, ?_⟩
          · rw [onToken_id]
            exact hissued
          · rw [List.foldl_concat, ← hrow]
        · exact ⟨ops, label, token, now, [], rfl, hissued, hrow⟩
    rw [hsplit, run_concat]
    rcases tokens_step lib (run_keysHold lib ops) op with
      ⟨label, token, now, rfl, hissued, htokens⟩ | ⟨hnot, htokens⟩
    · rw [htokens, List.mem_append, List.mem_singleton]
      constructor
      · rintro (hrow | rfl)
        · exact Or.inl ⟨row, hrow, rfl⟩
        · exact Or.inr ⟨label, token, now, rfl, hissued, rfl⟩
      · rintro (⟨row₀, hrow₀, rfl⟩ | ⟨label', token', now', hop, -, hrow⟩)
        · exact Or.inl hrow₀
        · obtain ⟨rfl, rfl, rfl⟩ := Op.issue.inj hop
          exact Or.inr hrow
    · rw [htokens, List.mem_map]
      constructor
      · exact fun hrow => Or.inl hrow
      · rintro (hrow | ⟨label, token, now, -, hissued, -⟩)
        · exact hrow
        · exact absurd hissued (hnot row.id)

/-- **Where an end comes from**: it was accepted. -/
theorem mem_ends_run (lib : Stdlib K) (ops : List (Op K)) {row : EndRow K} :
    row ∈ (run lib ops).ends ↔
      ∃ before op after, ops = before ++ op :: after ∧
        ∃ tokenId tripId e claimedAt receivedAt,
          op = .endTrip tokenId tripId e claimedAt receivedAt ∧
          (step lib (run lib before) op).2 = .outcome .created ∧
          row = endRow lib tripId e receivedAt := by
  refine foldl_collects (I := Db.WellFormed) (H := fun db => row ∈ db.ends)
    (A := fun db op => ∃ tokenId tripId e claimedAt receivedAt,
      op = .endTrip tokenId tripId e claimedAt receivedAt ∧
      (step lib db op).2 = .outcome .created ∧ row = endRow lib tripId e receivedAt)
    (fun db op hwf => (step_kept hwf op).2) (fun db op hwf => ⟨fun hrow => ?_, ?_⟩)
    keysHold_empty.wellFormed List.not_mem_nil ops
  · rcases mem_ends_step hwf hrow with
      hrow' | ⟨tokenId, tripId, e, claimedAt, receivedAt, rfl, hrow'⟩
    · exact Or.inl hrow'
    · have hop : Op.write? lib (.endTrip tokenId tripId e claimedAt receivedAt) =
          some ⟨tokenId, tripId, none, e.text lib⟩ := rfl
      rcases created_or_same hwf hop with hc | hsame
      · exact Or.inr ⟨tokenId, tripId, e, claimedAt, receivedAt, rfl, hc, hrow'⟩
      · exact Or.inl (hsame ▸ hrow)
  · rintro (hrow | ⟨tokenId, tripId, e, claimedAt, receivedAt, rfl, hc, rfl⟩)
    · have htables : Tables lib db op (step lib db op).1 := step_tables hwf op
      generalize (step lib db op).1 = db' at htables
      cases htables with
      | chunk => exact (claimed_ends _ _ _).symm ▸ hrow
      | tripEnd => exact List.mem_append_left _ hrow
      | _ => exact hrow
    · rw [(created_end hwf hc).2.2.2]
      exact List.mem_append_right _ (List.mem_singleton_self _)

/-- Once it is claimed, the trip is its tester's. -/
theorem owner_claimed {tripId : String} {tokenId : ℤ} (hmine : ¬ db.Foreign tripId tokenId)
    (now : ℤ) : ∃ t ∈ (db.claimed tripId tokenId now).trips,
      t.tripId = tripId ∧ t.tokenId = tokenId := by
  unfold Db.claimed
  cases htrip : db.trip? tripId with
  | none => exact ⟨_, List.mem_append_right _ (List.mem_singleton_self _), rfl, rfl⟩
  | some t =>
    obtain ⟨hmem, hid⟩ := mem_of_trip? htrip
    exact ⟨t, hmem, hid, not_not.mp fun hne => hmine ⟨t, htrip, hne⟩⟩

/-- **Whose a trip is**: a write of the tester was accepted for it. -/
theorem mem_trips_run (lib : Stdlib K) (ops : List (Op K)) {tripId : String} {tokenId : ℤ} :
    (∃ t ∈ (run lib ops).trips, t.tripId = tripId ∧ t.tokenId = tokenId) ↔
      ∃ before op after, ops = before ++ op :: after ∧
        ∃ w, op.write? lib = some w ∧ (step lib (run lib before) op).2 = .outcome .created ∧
          w.tripId = tripId ∧ w.tokenId = tokenId := by
  refine foldl_collects (I := Db.WellFormed)
    (H := fun db => ∃ t ∈ db.trips, t.tripId = tripId ∧ t.tokenId = tokenId)
    (A := fun db op => ∃ w, op.write? lib = some w ∧ (step lib db op).2 = .outcome .created ∧
      w.tripId = tripId ∧ w.tokenId = tokenId)
    (fun db op hwf => (step_kept hwf op).2) (fun db op hwf => ⟨?_, ?_⟩)
    keysHold_empty.wellFormed (fun ⟨_, h, _⟩ => absurd h List.not_mem_nil) ops
  · rintro ⟨t, ht, hid, htoken⟩
    rcases mem_trips_step hwf ht with ht' | ⟨w, hop, hid', htoken'⟩
    · exact Or.inl ⟨t, ht', hid, htoken⟩
    · rcases created_or_same hwf hop with hc | hsame
      · exact Or.inr ⟨w, hop, hc, hid'.symm.trans hid, htoken'.symm.trans htoken⟩
      · exact Or.inl ⟨t, hsame ▸ ht, hid, htoken⟩
  · rintro (⟨t, ht, hid, htoken⟩ | ⟨w, hop, hc, rfl, rfl⟩)
    · refine ⟨t, ?_, hid, htoken⟩
      have hclaimed : ∀ {tripId : String} {tokenId now : ℤ},
          t ∈ (db.claimed tripId tokenId now).trips := by
        intro tripId tokenId now
        unfold Db.claimed
        split_ifs
        · exact List.mem_append_left _ ht
        · exact ht
      have htables : Tables lib db op (step lib db op).1 := step_tables hwf op
      generalize (step lib db op).1 = db' at htables
      cases htables with
      | chunk => exact hclaimed
      | tripEnd => exact hclaimed
      | _ => exact ht
    · cases op with
      | putChunk tokenId tripId seq chunk claimedAt receivedAt =>
        obtain rfl := Option.some.inj hop
        obtain ⟨hmine, -, -, hstep⟩ := created_chunk hwf hc
        rw [hstep]
        exact owner_claimed hmine claimedAt
      | endTrip tokenId tripId e claimedAt receivedAt =>
        obtain rfl := Option.some.inj hop
        obtain ⟨hmine, -, -, hstep⟩ := created_end hwf hc
        rw [hstep]
        exact owner_claimed hmine claimedAt
      | _ => cases hop

end Tokens

/-! ## The ETA log over a history -/

section EtaLog

variable {lib : Stdlib K} {db : Db K}

/-- The token was issued under the label. -/
def Issued (lib : Stdlib K) (ops : List (Op K)) (id : ℤ) (label : String) : Prop :=
  ∃ before label' token now after, ops = before ++ .issue label' token now :: after ∧
    (step lib (run lib before) (.issue label' token now)).2 = .issued id ∧ label = strip label'

theorem Issued.append {ops : List (Op K)} {id : ℤ} {label : String} (h : Issued lib ops id label)
    (more : List (Op K)) : Issued lib (ops ++ more) id label := by
  obtain ⟨before, label', token, now, after, rfl, hissued, hlabel⟩ := h
  exact ⟨before, label', token, now, after ++ more, by rw [List.append_assoc]; rfl, hissued, hlabel⟩

/-- What comes after a token was issued keeps its id, its label and its time. -/
theorem onToken_foldl (row : TesterToken) (ops : List (Op K)) :
    (ops.foldl Op.onToken row).id = row.id ∧ (ops.foldl Op.onToken row).label = row.label ∧
      (ops.foldl Op.onToken row).createdAt = row.createdAt := by
  refine foldl_invariant (I := fun r : TesterToken =>
    r.id = row.id ∧ r.label = row.label ∧ r.createdAt = row.createdAt) (fun r op _ hr => ?_)
    ⟨rfl, rfl, rfl⟩
  cases op with
  | revoke tokenId now =>
    simp only [Op.onToken]
    split_ifs <;> exact hr
  | _ => exact hr

/-- The id that is returned is that of the row. -/
theorem tokenRow_id {before : List (Op K)} {label token : String} {now id : ℤ}
    (h : (step lib (run lib before) (.issue label token now)).2 = .issued id) :
    (tokenRow lib (run lib before) label token now).id = id := by
  rcases tokens_step lib (run_keysHold lib before) (.issue label token now) with
    ⟨-, -, -, -, hnext, -⟩ | ⟨hnot, -⟩
  · rw [hnext] at h
    exact Answer.issued.inj h
  · exact absurd h (hnot id)

theorem issued_iff {ops : List (Op K)} {id : ℤ} {label : String} :
    Issued lib ops id label ↔ ∃ k ∈ (run lib ops).tokens, k.id = id ∧ k.label = label := by
  constructor
  · rintro ⟨before, label', token, now, after, rfl, hissued, rfl⟩
    have hkeep := onToken_foldl (tokenRow lib (run lib before) label' token now) after
    have hid := tokenRow_id hissued
    refine ⟨_, (mem_tokens_run lib _).mpr ⟨before, label', token, now, after, rfl, ?_, rfl⟩, ?_, ?_⟩
    · rw [hkeep.1, hid]
      exact hissued
    · rw [hkeep.1, hid]
    · rw [hkeep.2.1]
      rfl
  · rintro ⟨k, hk, rfl, rfl⟩
    obtain ⟨before, label', token, now, after, rfl, hissued, hrow⟩ := (mem_tokens_run lib ops).mp hk
    refine ⟨before, label', token, now, after, rfl, hissued, ?_⟩
    rw [hrow, (onToken_foldl _ after).2.1]
    rfl

theorem mem_joinEnds {row : EtaLogRow K} :
    row ∈ joinEnds db ↔ ∃ e ∈ db.ends, ∃ t ∈ db.trips, ∃ k ∈ db.tokens,
      t.tripId = e.tripId ∧ k.id = t.tokenId ∧ row = etaLogRow e k := by
  unfold joinEnds
  simp only [List.mem_flatMap, List.mem_filter, List.mem_map, decide_eq_true_eq]
  constructor
  · rintro ⟨e, he, t, ⟨ht, hid⟩, k, ⟨hk, htoken⟩, rfl⟩
    exact ⟨e, he, t, ht, k, hk, hid, htoken, rfl⟩
  · rintro ⟨e, he, t, ht, k, hk, hid, htoken, rfl⟩
    exact ⟨e, he, t, ⟨ht, hid⟩, k, ⟨hk, htoken⟩, rfl⟩

/-- **Every end has one row in the join.** -/
theorem tripIds_joinEnds (h : db.KeysHold) :
    (joinEnds db).map EtaLogRow.tripId = db.ends.map EndRow.tripId := by
  have hrow : ∀ e ∈ db.ends, ∃ t ∈ db.trips, t.tripId = e.tripId := by
    intro e he
    obtain ⟨t, ht⟩ := Option.isSome_iff_exists.mp (h.wellFormed.tripEnd e he)
    exact ⟨t, mem_of_trip? ht⟩
  have htoken : ∀ t ∈ db.trips, ∃ k ∈ db.tokens, k.id = t.tokenId := by
    intro t ht
    obtain ⟨k, hk⟩ := Option.isSome_iff_exists.mp (h.owner t ht)
    exact ⟨k, mem_of_token? hk⟩
  unfold joinEnds
  rw [List.map_flatMap, List.map_eq_flatMap]
  refine List.flatMap_congr fun e he => ?_
  obtain ⟨t, ht, hid⟩ := hrow e he
  obtain ⟨k, hk, hkey⟩ := htoken t ht
  rw [← hid, h.trip.filter_eq ht, List.flatMap_singleton, ← hkey, h.tokenId.filter_eq hk]
  exact congrArg (fun id => [id]) hid.symm

theorem before_total (r s : EtaLogRow K) : r.Before s ∨ s.Before r := by
  unfold EtaLogRow.Before
  rcases lt_trichotomy r.endedAt s.endedAt with h | h | h
  · exact Or.inl (Or.inl h)
  · rcases le_total r.tripId s.tripId with h' | h'
    · exact Or.inl (Or.inr ⟨h, h'⟩)
    · exact Or.inr (Or.inr ⟨h.symm, h'⟩)
  · exact Or.inr (Or.inl h)

theorem before_trans {q r s : EtaLogRow K} (h : q.Before r) (h' : r.Before s) : q.Before s := by
  rcases h with h | ⟨h, hid⟩ <;> rcases h' with h' | ⟨h', hid'⟩
  · exact Or.inl (h.trans h')
  · exact Or.inl (h' ▸ h)
  · exact Or.inl (h ▸ h')
  · exact Or.inr ⟨h.trans h', hid.trans hid'⟩

instance totalBefore : Std.Total (EtaLogRow.Before (K := K)) := ⟨before_total⟩

instance transBefore : IsTrans (EtaLogRow K) EtaLogRow.Before := ⟨fun _ _ _ => before_trans⟩

/-- **Whose an accepted end is**: a token that was issued before, which owns the trip for good. -/
theorem tester_of_created {before : List (Op K)} {tokenId claimedAt receivedAt : ℤ}
    {tripId : String} {e : TripEnd K}
    (hc : (step lib (run lib before) (.endTrip tokenId tripId e claimedAt receivedAt)).2 =
      .outcome .created) (after : List (Op K)) :
    (∃ label, Issued lib before tokenId label) ∧
      ∃ t ∈ (run lib (before ++ .endTrip tokenId tripId e claimedAt receivedAt :: after)).trips,
        t.tripId = tripId ∧ t.tokenId = tokenId := by
  have hkeys := run_keysHold lib before
  obtain ⟨hmine, hknown, -, -⟩ := created_end hkeys.wellFormed hc
  constructor
  · have hk : ∃ k ∈ (run lib before).tokens, k.id = tokenId := by
      cases htrip : (run lib before).trip? tripId with
      | none =>
        rw [htrip] at hknown
        obtain ⟨k, hk⟩ := Option.isSome_iff_exists.mp (hknown.resolve_left (by simp))
        exact ⟨k, mem_of_token? hk⟩
      | some t =>
        have howner : t.tokenId = tokenId := not_not.mp fun hne => hmine ⟨t, htrip, hne⟩
        obtain ⟨k, hk⟩ := Option.isSome_iff_exists.mp (hkeys.owner t (mem_of_trip? htrip).1)
        exact ⟨k, howner ▸ mem_of_token? hk⟩
    obtain ⟨k, hk, hid⟩ := hk
    exact ⟨k.label, issued_iff.mpr ⟨k, hk, hid, rfl⟩⟩
  · exact (mem_trips_run lib _).mpr ⟨before, _, after, rfl, _, rfl, hc, rfl, rfl⟩

/-- **The ETA log** after any history: strictly in the order of the times and the ids, one row for
each end that was accepted, under the label of the tester who sent it. Nothing else adds to it or
takes from it: no replay, purge or revocation. -/
theorem eta_log_history (lib : Stdlib K) (ops : List (Op K)) :
    (etaLog (run lib ops)).Pairwise (fun r s => r.Before s ∧ r.tripId ≠ s.tripId) ∧
    ∀ row, row ∈ etaLog (run lib ops) ↔
      ∃ before tokenId tripId e claimedAt receivedAt after label,
        ops = before ++ .endTrip tokenId tripId e claimedAt receivedAt :: after ∧
        (step lib (run lib before) (.endTrip tokenId tripId e claimedAt receivedAt)).2 =
          .outcome .created ∧
        Issued lib before tokenId label ∧
        row =
          { tripId, testerLabel := label, receivedAt, endedAt := e.endedAt, arrived := e.arrived
            predictedEffectiveAt := e.prediction.map EtaPrediction.effectiveAt
            predictedEtaS := e.prediction.map EtaPrediction.etaS
            level := e.prediction.map EtaPrediction.level
            profileVersion := e.prediction.bind EtaPrediction.profileVersion } := by
  have hkeys := run_keysHold lib ops
  constructor
  · have hsorted : (etaLog (run lib ops)).Pairwise EtaLogRow.Before :=
      List.pairwise_insertionSort _ _
    have hids : ((etaLog (run lib ops)).map EtaLogRow.tripId).Nodup := by
      refine (((List.perm_insertionSort _ _).map _).nodup_iff).mpr ?_
      rw [tripIds_joinEnds hkeys]
      exact hkeys.tripEnd
    exact hsorted.and (List.pairwise_map.mp hids)
  · intro row
    rw [etaLog, List.mem_insertionSort, mem_joinEnds]
    constructor
    · rintro ⟨e, he, t, ht, k, hk, hid, htoken, rfl⟩
      obtain ⟨before, op, after, rfl, tokenId, tripId, e', claimedAt, receivedAt, rfl, hc, rfl⟩ :=
        (mem_ends_run lib ops).mp he
      obtain ⟨⟨label, hlabel⟩, t', ht', hid', htoken'⟩ := tester_of_created hc after
      obtain rfl : t = t' := hkeys.trip.eq_of_key ht ht' (hid.trans hid'.symm)
      obtain ⟨k', hk', hkid, hklabel⟩ := issued_iff.mp (hlabel.append
        (.endTrip tokenId tripId e' claimedAt receivedAt :: after))
      obtain rfl : k = k' :=
        hkeys.tokenId.eq_of_key hk hk' ((htoken.trans htoken').trans hkid.symm)
      refine ⟨before, tokenId, tripId, e', claimedAt, receivedAt, after, label, rfl, hc, hlabel, ?_⟩
      rw [← hklabel]
      rfl
    · rintro ⟨before, tokenId, tripId, e, claimedAt, receivedAt, after, label, rfl, hc, hlabel, rfl⟩
      obtain ⟨-, t, ht, hid, htoken⟩ := tester_of_created hc after
      obtain ⟨k, hk, hkid, hklabel⟩ := issued_iff.mp (hlabel.append
        (.endTrip tokenId tripId e claimedAt receivedAt :: after))
      have he : endRow lib tripId e receivedAt ∈ (run lib (before ++
          .endTrip tokenId tripId e claimedAt receivedAt :: after)).ends :=
        (mem_ends_run lib _).mpr
          ⟨before, _, after, rfl, tokenId, tripId, e, claimedAt, receivedAt, rfl, hc, rfl⟩
      refine ⟨_, he, t, ht, k, hk, hid, hkid.trans htoken.symm, ?_⟩
      rw [← hklabel]
      rfl

end EtaLog

/-! ## `list_tokens` -/

/-- `TesterToken` of `commute/tokens.py`: never its hash. -/
@[ext] structure ListedToken where
  id : ℤ
  label : String
  createdAt : ℤ
  revokedAt : Option ℤ
  trips : ℕ
  deriving DecidableEq

/-- `COUNT(t.trip_id)` over the left join: the trips of the token. -/
def listedToken (db : Db K) (k : TesterToken) : ListedToken :=
  ⟨k.id, k.label, k.createdAt, k.revokedAt, db.trips.countP fun t => decide (t.tokenId = k.id)⟩

/-- **`list_tokens`**: `GROUP BY k.id ORDER BY k.id`. -/
def listTokens (db : Db K) : List ListedToken :=
  (db.tokens.map (listedToken db)).insertionSort fun a b => a.id ≤ b.id

section ListTokens

variable {lib : Stdlib K} {db : Db K}

/-- `1, 2, …, n`. -/
def idsTo (n : ℕ) : List ℤ := (List.range n).map fun i : ℕ => (i : ℤ) + 1

theorem idsTo_succ (n : ℕ) : idsTo (n + 1) = idsTo n ++ [(n : ℤ) + 1] := by
  unfold idsTo
  rw [List.range_succ, List.map_append, List.map_singleton]

theorem foldl_max_idsTo (n : ℕ) : (idsTo n).foldl max 0 = n := by
  induction n with
  | zero => rfl
  | succ n ih =>
    rw [idsTo_succ, List.foldl_concat, ih]
    push_cast
    omega

theorem pairwise_idsTo (n : ℕ) : (idsTo n).Pairwise (· ≤ ·) := by
  unfold idsTo
  refine List.pairwise_map.mpr (List.pairwise_lt_range.imp fun h => ?_)
  omega

/-- **Tokens are numbered as they are issued.** -/
theorem ids_run (lib : Stdlib K) (ops : List (Op K)) :
    (run lib ops).tokens.map TesterToken.id = idsTo (run lib ops).tokens.length := by
  induction ops using List.reverseRecOn with
  | nil => rfl
  | append_singleton ops op ih =>
    rw [run_concat]
    rcases tokens_step lib (run_keysHold lib ops) op with
      ⟨label, token, now, -, -, htokens⟩ | ⟨-, htokens⟩
    · rw [htokens, List.map_append, ih, List.length_append, List.length_singleton, idsTo_succ,
        List.map_singleton]
      refine congrArg (fun id => idsTo (run lib ops).tokens.length ++ [id]) ?_
      show nextId (run lib ops) = _
      rw [nextId, ih, foldl_max_idsTo]
    · rw [htokens, List.map_map, List.length_map, ← ih]
      exact List.map_congr_left fun row _ => onToken_id row op

theorem listTokens_run (lib : Stdlib K) (ops : List (Op K)) :
    listTokens (run lib ops) = (run lib ops).tokens.map (listedToken (run lib ops)) := by
  have hsorted : ((run lib ops).tokens.map (listedToken (run lib ops))).Pairwise
      fun a b => a.id ≤ b.id := by
    have hids := pairwise_idsTo (run lib ops).tokens.length
    rw [← ids_run lib ops] at hids
    exact List.pairwise_map.mpr (List.pairwise_map.mp hids)
  exact hsorted.insertionSort_eq

/-- **The first revocation** of a token stands. -/
theorem revokedAt_foldl (row : TesterToken) (ops : List (Op K)) :
    (ops.foldl Op.onToken row).revokedAt =
      if row.revokedAt = none then revokeTime row.id ops else row.revokedAt := by
  induction ops generalizing row with
  | nil =>
    show row.revokedAt = if row.revokedAt = none then none else row.revokedAt
    split_ifs with h <;> simp [h]
  | cons op ops ih =>
    rw [List.foldl_cons, ih, onToken_id]
    cases op with
    | revoke tokenId now =>
      simp only [Op.onToken, revokeTime]
      by_cases hid : row.id = tokenId <;> by_cases hnull : row.revokedAt = none <;>
        simp [hid, hnull]
    | _ => rfl

/-- A write of the tester was accepted for the trip. -/
def Uploaded (lib : Stdlib K) (ops : List (Op K)) (tokenId : ℤ) (tripId : String) : Prop :=
  ∃ before op after, ops = before ++ op :: after ∧
    ∃ w, op.write? lib = some w ∧ (step lib (run lib before) op).2 = .outcome .created ∧
      w.tripId = tripId ∧ w.tokenId = tokenId

/-- The trips that a tester owns are those uploaded with the token. -/
theorem exists_trips (lib : Stdlib K) (ops : List (Op K)) (tokenId : ℤ) :
    ∃ trips : Finset String,
      trips.card = (run lib ops).trips.countP (fun t => decide (t.tokenId = tokenId)) ∧
        ∀ tripId, tripId ∈ trips ↔ Uploaded lib ops tokenId tripId := by
  have hkeys := run_keysHold lib ops
  let mine := (run lib ops).trips.filter fun t => decide (t.tokenId = tokenId)
  have hnodup : (mine.map Trip.tripId).Nodup :=
    hkeys.trip.sublist (List.filter_sublist.map _)
  refine ⟨(mine.map Trip.tripId).toFinset, ?_, fun tripId => ?_⟩
  · rw [List.toFinset_card_of_nodup hnodup, List.length_map, List.countP_eq_length_filter]
  · rw [List.mem_toFinset, List.mem_map]
    refine Iff.trans ?_ (mem_trips_run lib ops)
    constructor
    · rintro ⟨t, ht, hid⟩
      obtain ⟨hmem, htoken⟩ := List.mem_filter.mp ht
      exact ⟨t, hmem, hid, of_decide_eq_true htoken⟩
    · rintro ⟨t, ht, hid, htoken⟩
      exact ⟨t, List.mem_filter.mpr ⟨ht, decide_eq_true htoken⟩, hid⟩

/-- **The list of tokens** after any history: numbered as they were issued, one row for each, with
the time of its first revocation and the number of trips that were uploaded with it; every trip is
counted once. -/
theorem list_tokens_history (lib : Stdlib K) (ops : List (Op K)) :
    (listTokens (run lib ops)).map ListedToken.id = idsTo (listTokens (run lib ops)).length ∧
    (∀ row, row ∈ listTokens (run lib ops) ↔
      ∃ before label token now after,
        ops = before ++ .issue label token now :: after ∧
        (step lib (run lib before) (.issue label token now)).2 = .issued row.id ∧
        row.label = strip label ∧ row.createdAt = now ∧
        row.revokedAt = revokeTime row.id after ∧
        ∃ trips : Finset String, row.trips = trips.card ∧
          ∀ tripId, tripId ∈ trips ↔ Uploaded lib ops row.id tripId) ∧
    ((listTokens (run lib ops)).map ListedToken.trips).sum = (run lib ops).trips.length := by
  have hkeys := run_keysHold lib ops
  rw [listTokens_run]
  refine ⟨?_, fun row => ?_, ?_⟩
  · rw [List.map_map, List.length_map, ← ids_run lib ops]
    rfl
  · rw [List.mem_map]
    constructor
    · rintro ⟨k, hk, rfl⟩
      obtain ⟨before, label, token, now, after, rfl, hissued, hrow⟩ :=
        (mem_tokens_run lib ops).mp hk
      obtain ⟨hid, hlabel, hcreated⟩ :=
        onToken_foldl (tokenRow lib (run lib before) label token now) after
      obtain ⟨trips, hcard, htrips⟩ := exists_trips lib
        (before ++ .issue label token now :: after) k.id
      refine ⟨before, label, token, now, after, rfl, hissued, ?_, ?_, ?_, trips, hcard.symm, htrips⟩
      · show k.label = _
        rw [hrow, hlabel]
        rfl
      · show k.createdAt = _
        rw [hrow, hcreated]
        rfl
      · show k.revokedAt = revokeTime k.id after
        rw [hrow, revokedAt_foldl, hid]
        rfl
    · rintro ⟨before, label, token, now, after, rfl, hissued, hlabel, hcreated, hrevoked, trips,
        hcard, htrips⟩
      obtain ⟨hid, hlabel', hcreated'⟩ :=
        onToken_foldl (tokenRow lib (run lib before) label token now) after
      rw [tokenRow_id hissued] at hid
      obtain ⟨trips', hcard', htrips'⟩ := exists_trips lib
        (before ++ .issue label token now :: after) row.id
      have htrips_eq : trips = trips' :=
        Finset.ext fun tripId => (htrips tripId).trans (htrips' tripId).symm
      refine ⟨_, (mem_tokens_run lib _).mpr ⟨before, label, token, now, after, rfl, ?_, rfl⟩, ?_⟩
      · rw [hid]
        exact hissued
      · refine ListedToken.ext hid (hlabel'.trans hlabel.symm) (hcreated'.trans hcreated.symm) ?_ ?_
        · show TesterToken.revokedAt _ = row.revokedAt
          rw [revokedAt_foldl, tokenRow_id hissued, hrevoked]
          rfl
        · show (run lib _).trips.countP (fun t => decide (t.tokenId = TesterToken.id _)) = row.trips
          rw [hid, ← hcard', hcard, htrips_eq]
  · rw [List.map_map]
    exact hkeys.tokenId.sum_countP fun t ht => by
      obtain ⟨k, hk⟩ := Option.isSome_iff_exists.mp (hkeys.owner t ht)
      exact ⟨k, mem_of_token? hk⟩

end ListTokens

end RoutePlanner.Commute
