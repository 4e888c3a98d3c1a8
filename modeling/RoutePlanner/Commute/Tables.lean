import RoutePlanner.Commute.Ingest
import RoutePlanner.Lib.Keyed

/-!
# The tables of the ingest store

What each transaction does to the rows, and the keys of the schema over whole histories: primary
keys, the `UNIQUE` hash of a tester token, and the references between the tables.

* `step_tables`: every transaction is one of `Tables`.
* `run_keysHold`: the keys hold after any transactions.
* `mem_chunks_step`, `mem_ends_step`, `mem_trips_step`: where a row of the next file comes from.
* `active_iff`: the active rows of `tester_tokens` are the tokens that were issued and not revoked
  since.
-/

namespace RoutePlanner.Commute

open RoutePlanner.Lib

variable {K : Type}

/-! ## One transaction -/

/-- The row `issue` inserts. -/
def tokenRow (lib : Stdlib K) (db : Db K) (label token : String) (now : ℤ) : TesterToken :=
  ⟨nextId db, strip label, hashToken lib token, now, none⟩

/-- The rows after `revoke`. -/
def revokedAt (tokenId now : ℤ) (r : TesterToken) : TesterToken :=
  if r.id = tokenId then { r with revokedAt := some now } else r

/-- **What a transaction can do to the tables.** -/
inductive Tables (lib : Stdlib K) (db : Db K) : Op K → Db K → Prop
  /-- It raises, or there is nothing to change. -/
  | same {op : Op K} : Tables lib db op db
  | chunk {tokenId tripId seq chunk claimedAt receivedAt} (hmine : ¬ db.Foreign tripId tokenId)
    (hknown : (db.trip? tripId).isSome ∨ (db.token? tokenId).isSome)
    (hnone : db.chunk? tripId seq = none) :
    Tables lib db (.putChunk tokenId tripId seq chunk claimedAt receivedAt)
      { db.claimed tripId tokenId claimedAt with
        chunks := db.chunks ++ [chunkRow lib tripId seq chunk receivedAt] }
  | tripEnd {tokenId tripId e claimedAt receivedAt} (hmine : ¬ db.Foreign tripId tokenId)
    (hknown : (db.trip? tripId).isSome ∨ (db.token? tokenId).isSome)
    (hnone : db.end? tripId = none) :
    Tables lib db (.endTrip tokenId tripId e claimedAt receivedAt)
      { db.claimed tripId tokenId claimedAt with
        ends := db.ends ++ [endRow lib tripId e receivedAt] }
  | purge {now maxAgeDays} :
    Tables lib db (.purge now maxAgeDays)
      { db with chunks := db.chunks.map (purged now maxAgeDays) }
  | issue {label token now} (hlabel : strip label ≠ "")
    (hfresh : ∀ r ∈ db.tokens, r.tokenSha256 ≠ hashToken lib token) :
    Tables lib db (.issue label token now)
      { db with tokens := db.tokens ++ [tokenRow lib db label token now] }
  | revoke {tokenId now row} (hrow : db.token? tokenId = some row) (hnull : row.revokedAt = none) :
    Tables lib db (.revoke tokenId now)
      { db with tokens := db.tokens.map (revokedAt tokenId now) }

section Step

variable {lib : Stdlib K} {db : Db K}

/-- An unknown token's first write raises. -/
theorem write_unknown {tripId : String} {tokenId claimedAt : ℤ} {stored : Db K → Option String}
    {digest : String} {insert : Db K → Option (Db K)} (ht : db.trip? tripId = none)
    (hk : db.token? tokenId = none) :
    write db tripId tokenId claimedAt stored digest insert = none := by
  have hclaim : claimTrip db tripId tokenId claimedAt = none := by
    simp [claimTrip, Db.insertTrip, ht, hk]
  unfold write
  rw [hclaim]

/-- A write changes nothing, or claims the trip and inserts its row. -/
theorem write_result (db : Db K) (tripId : String) (tokenId claimedAt : ℤ)
    (stored : Db K → Option String) (digest : String) (insert : Db K → Option (Db K))
    (hclaim : stored (db.claimed tripId tokenId claimedAt) = stored db)
    (htrip : (stored db).isSome → (db.trip? tripId).isSome) :
    (settle db .outcome (write db tripId tokenId claimedAt stored digest insert)).1 = db ∨
    (¬ db.Foreign tripId tokenId ∧ ((db.trip? tripId).isSome ∨ (db.token? tokenId).isSome) ∧
      stored db = none ∧
      (settle db .outcome (write db tripId tokenId claimedAt stored digest insert)).1 =
        (insert (db.claimed tripId tokenId claimedAt)).getD db) := by
  by_cases hunknown : db.trip? tripId = none ∧ db.token? tokenId = none
  · rw [write_unknown hunknown.1 hunknown.2]
    exact Or.inl rfl
  · rcases write_cases stored digest insert hclaim htrip with
      ⟨ht, hk, -⟩ | ⟨-, h⟩ | ⟨-, sha, -, h⟩ | ⟨hmine, hnone, h⟩
    · exact absurd ⟨ht, hk⟩ hunknown
    · rw [h]
      exact Or.inl rfl
    · rw [h]
      exact Or.inl rfl
    · refine Or.inr ⟨hmine, ?_, hnone, ?_⟩
      · rw [Option.isSome_iff_ne_none, Option.isSome_iff_ne_none]
        exact not_and_or.mp hunknown
      · rw [h]
        cases insert (db.claimed tripId tokenId claimedAt) <;> rfl

/-- **Every transaction is one of `Tables`.** -/
theorem step_tables (hwf : db.WellFormed) (op : Op K) : Tables lib db op (step lib db op).1 := by
  cases op with
  | putChunk tokenId tripId seq chunk claimedAt receivedAt =>
    have hstored := digest?_claimed db tripId tripId tokenId claimedAt (some seq)
    rcases write_result db tripId tokenId claimedAt (fun db => db.digest? tripId (some seq))
      (contentDigest lib (chunk.text lib))
      (fun db => db.insertChunk (chunkRow lib tripId seq chunk receivedAt)) hstored
      hwf.trip_of_digest with h | ⟨hmine, hknown, hnone, h⟩
    · rw [show (step lib db (.putChunk tokenId tripId seq chunk claimedAt receivedAt)).1 = db
        from h]
      exact .same
    · have hfree : (db.claimed tripId tokenId claimedAt).chunk? tripId seq = none :=
        Option.map_eq_none_iff.mp (hstored.trans hnone)
      have hclaimed : ((db.claimed tripId tokenId claimedAt).trip? tripId).isSome :=
        trip?_claimed tripId tokenId claimedAt
      rw [show (step lib db (.putChunk tokenId tripId seq chunk claimedAt receivedAt)).1 = _ from h]
      simp only [Db.insertChunk, chunkRow, hfree, hclaimed, Option.isNone_none, and_self, if_true,
        Option.getD_some, claimed_chunks]
      exact .chunk hmine hknown (Option.map_eq_none_iff.mp hnone)
  | endTrip tokenId tripId e claimedAt receivedAt =>
    have hstored := digest?_claimed db tripId tripId tokenId claimedAt none
    rcases write_result db tripId tokenId claimedAt (fun db => db.digest? tripId none)
      (contentDigest lib (e.text lib))
      (fun db => db.insertEnd (endRow lib tripId e receivedAt)) hstored
      hwf.trip_of_digest with h | ⟨hmine, hknown, hnone, h⟩
    · rw [show (step lib db (.endTrip tokenId tripId e claimedAt receivedAt)).1 = db from h]
      exact .same
    · have hfree : (db.claimed tripId tokenId claimedAt).end? tripId = none :=
        Option.map_eq_none_iff.mp (hstored.trans hnone)
      have hclaimed : ((db.claimed tripId tokenId claimedAt).trip? tripId).isSome :=
        trip?_claimed tripId tokenId claimedAt
      rw [show (step lib db (.endTrip tokenId tripId e claimedAt receivedAt)).1 = _ from h]
      simp only [Db.insertEnd, endRow, hfree, hclaimed, Option.isNone_none, and_self, if_true,
        Option.getD_some, claimed_ends]
      exact .tripEnd hmine hknown (Option.map_eq_none_iff.mp hnone)
  | purge now maxAgeDays =>
    rw [show step lib db (.purge now maxAgeDays) =
      settle db .purged (purgeRawTraces db now maxAgeDays) from rfl, purgeRawTraces_eq]
    exact .purge
  | issue label token now =>
    unfold step issue
    simp only
    split_ifs with hlabel hused
    · exact .same
    · exact .same
    · refine .issue hlabel fun r hr heq => hused ?_
      exact List.any_eq_true.mpr ⟨r, hr, decide_eq_true heq⟩
  | revoke tokenId now =>
    unfold step revoke
    simp only [settle]
    split
    · exact .same
    · rename_i row hrow
      split_ifs with hnull
      · exact .revoke hrow (Option.isNone_iff_eq_none.mp hnull)
      · exact .same

end Step

/-! ## Keys -/

/-- The keys of the schema. -/
structure Db.KeysHold (db : Db K) : Prop where
  wellFormed : db.WellFormed
  tokenId : Keyed TesterToken.id db.tokens
  tokenSha256 : Keyed TesterToken.tokenSha256 db.tokens
  trip : Keyed Trip.tripId db.trips
  chunk : Keyed (fun r => (r.tripId, r.seq)) db.chunks
  tripEnd : Keyed EndRow.tripId db.ends
  owner : ∀ t ∈ db.trips, (db.token? t.tokenId).isSome

section Keys

variable {lib : Stdlib K} {db : Db K}

theorem keysHold_empty : (Db.empty : Db K).KeysHold where
  wellFormed := ⟨fun _ h => absurd h List.not_mem_nil, fun _ h => absurd h List.not_mem_nil⟩
  tokenId := keyed_nil
  tokenSha256 := keyed_nil
  trip := keyed_nil
  chunk := keyed_nil
  tripEnd := keyed_nil
  owner := fun _ h => absurd h List.not_mem_nil

theorem lt_nextId {r : TesterToken} (h : r ∈ db.tokens) : r.id < nextId db := by
  have hle : ∀ (l : List ℤ) (n : ℤ), n ≤ l.foldl max n ∧ ∀ i ∈ l, i ≤ l.foldl max n := by
    intro l
    induction l with
    | nil => exact fun n => ⟨le_rfl, fun _ hi => absurd hi List.not_mem_nil⟩
    | cons a l ih =>
      intro n
      obtain ⟨hn, hl⟩ := ih (max n a)
      refine ⟨(le_max_left n a).trans hn, fun i hi => ?_⟩
      rcases List.mem_cons.mp hi with rfl | hi
      · exact (le_max_right n i).trans hn
      · exact hl i hi
  have := (hle (db.tokens.map TesterToken.id) 0).2 r.id (List.mem_map_of_mem h)
  unfold nextId
  omega

theorem Db.KeysHold.token?_eq (h : db.KeysHold) {r : TesterToken} (hr : r ∈ db.tokens) :
    db.token? r.id = some r :=
  h.tokenId.find?_eq hr (decide_eq_true rfl) fun _ hb => of_decide_eq_true hb

theorem Db.KeysHold.trip?_eq (h : db.KeysHold) {r : Trip} (hr : r ∈ db.trips) :
    db.trip? r.tripId = some r :=
  h.trip.find?_eq hr (decide_eq_true rfl) fun _ hb => of_decide_eq_true hb

theorem mem_of_token? {id : ℤ} {r : TesterToken} (h : db.token? id = some r) :
    r ∈ db.tokens ∧ r.id = id :=
  ⟨List.mem_of_find?_eq_some h, of_decide_eq_true (List.find?_some h :)⟩

theorem mem_of_trip? {tripId : String} {r : Trip} (h : db.trip? tripId = some r) :
    r ∈ db.trips ∧ r.tripId = tripId :=
  ⟨List.mem_of_find?_eq_some h, of_decide_eq_true (List.find?_some h :)⟩

theorem ne_of_find?_eq_none {α κ : Type} [DecidableEq κ] {key : α → κ} {l : List α} {k : κ}
    (h : l.find? (fun r => decide (key r = k)) = none) : ∀ r ∈ l, key r ≠ k :=
  fun r hr hkey => List.find?_eq_none.mp h r hr (decide_eq_true hkey)

/-- The trip is claimed by a tester that is known. -/
theorem Db.KeysHold.claimed (h : db.KeysHold) {tripId : String} {tokenId : ℤ} (now : ℤ)
    (hknown : (db.trip? tripId).isSome ∨ (db.token? tokenId).isSome) :
    (db.claimed tripId tokenId now).KeysHold := by
  cases htrip : db.trip? tripId with
  | some row =>
    rw [claimed_of_isSome tokenId now (by rw [htrip]; rfl)]
    exact h
  | none =>
    have hwf := wellFormed_claimed h.wellFormed tripId tokenId now
    have htoken : (db.token? tokenId).isSome := by
      rw [htrip] at hknown
      exact hknown.resolve_left (by simp)
    unfold Db.claimed at hwf ⊢
    rw [htrip, Option.isNone_none, if_pos rfl] at hwf ⊢
    refine { h with
      wellFormed := hwf
      trip := h.trip.concat (ne_of_find?_eq_none htrip)
      owner := fun t ht => ?_ }
    rcases List.mem_append.mp ht with ht | ht
    · exact h.owner t ht
    · rw [List.mem_singleton.mp ht]
      exact htoken

/-- **One transaction keeps the keys.** -/
theorem step_keysHold (h : db.KeysHold) (op : Op K) : (step lib db op).1.KeysHold := by
  have hwf : (step lib db op).1.WellFormed := (step_kept h.wellFormed op).2
  have htables : Tables lib db op (step lib db op).1 := step_tables h.wellFormed op
  generalize (step lib db op).1 = db' at hwf htables
  cases htables with
  | same => exact h
  | chunk hmine hknown hnone =>
    refine { h.claimed _ hknown with
      wellFormed := hwf
      chunk := h.chunk.concat fun r hr hkey => ?_ }
    obtain ⟨hid, hseq⟩ := Prod.mk.inj hkey
    exact List.find?_eq_none.mp hnone r hr (decide_eq_true ⟨hid, hseq⟩)
  | tripEnd hmine hknown hnone =>
    exact { h.claimed _ hknown with
      wellFormed := hwf, tripEnd := h.tripEnd.concat (ne_of_find?_eq_none hnone) }
  | purge =>
    refine { h with wellFormed := hwf, chunk := h.chunk.map_of_key fun r => ?_ }
    rw [(purged_keeps _ _ r).tripId, (purged_keeps _ _ r).seq]
  | issue hlabel hfresh =>
    refine { h with
      wellFormed := hwf
      tokenId := h.tokenId.concat fun r hr => (lt_nextId hr).ne
      tokenSha256 := h.tokenSha256.concat hfresh
      owner := fun t ht => ?_ }
    obtain ⟨row, hrow⟩ := Option.isSome_iff_exists.mp (h.owner t ht)
    rw [Db.token?, find?_append_of_some hrow]
    rfl
  | revoke hrow hnull =>
    rename_i tokenId now row
    have hid : ∀ r, (revokedAt tokenId now r).id = r.id := fun r => by
      unfold revokedAt
      split_ifs <;> rfl
    refine { h with
      wellFormed := hwf
      tokenId := h.tokenId.map_of_key hid
      tokenSha256 := h.tokenSha256.map_of_key fun r => ?_
      owner := fun t ht => ?_ }
    · unfold revokedAt
      split_ifs <;> rfl
    · rw [Db.token?, find?_map_of_key fun r => by rw [hid], Option.isSome_map]
      exact h.owner t ht

/-- **The keys hold after any transactions.** -/
theorem run_keysHold (lib : Stdlib K) (ops : List (Op K)) : (run lib ops).KeysHold :=
  foldl_invariant (I := Db.KeysHold) (fun _ op _ h => step_keysHold h op) keysHold_empty

end Keys

/-! ## Where a row comes from -/

section Rows

variable {lib : Stdlib K} {db : Db K} {op : Op K}

/-- A chunk is an earlier one, perhaps purged, or the one this transaction puts. -/
theorem mem_chunks_step (hwf : db.WellFormed) {row : ChunkRow}
    (h : row ∈ (step lib db op).1.chunks) :
    (∃ old ∈ db.chunks, old.Keeps row) ∨
    ∃ tokenId tripId seq chunk claimedAt receivedAt,
      op = .putChunk tokenId tripId seq chunk claimedAt receivedAt ∧
        row = chunkRow lib tripId seq chunk receivedAt := by
  have hkeep : row ∈ db.chunks → ∃ old ∈ db.chunks, old.Keeps row :=
    fun hr => ⟨row, hr, ChunkRow.Keeps.refl row⟩
  have hclaimed : ∀ {tripId tokenId now}, (db.claimed tripId tokenId now).chunks = db.chunks :=
    claimed_chunks _ _ _
  have htables : Tables lib db op (step lib db op).1 := step_tables hwf op
  generalize (step lib db op).1 = db' at h htables
  cases htables with
  | same => exact Or.inl (hkeep h)
  | chunk =>
    rcases List.mem_append.mp h with h | h
    · exact Or.inl (hkeep h)
    · exact Or.inr ⟨_, _, _, _, _, _, rfl, List.mem_singleton.mp h⟩
  | tripEnd =>
    exact Or.inl (hkeep (hclaimed ▸ h))
  | purge =>
    obtain ⟨old, hold, rfl⟩ := List.mem_map.mp h
    exact Or.inl ⟨old, hold, purged_keeps _ _ old⟩
  | issue => exact Or.inl (hkeep h)
  | revoke => exact Or.inl (hkeep h)

/-- An end is an earlier one, or the one this transaction logs. -/
theorem mem_ends_step (hwf : db.WellFormed) {row : EndRow K}
    (h : row ∈ (step lib db op).1.ends) :
    row ∈ db.ends ∨
    ∃ tokenId tripId e claimedAt receivedAt,
      op = .endTrip tokenId tripId e claimedAt receivedAt ∧
        row = endRow lib tripId e receivedAt := by
  have hclaimed : ∀ {tripId tokenId now}, (db.claimed tripId tokenId now).ends = db.ends :=
    claimed_ends _ _ _
  have htables : Tables lib db op (step lib db op).1 := step_tables hwf op
  generalize (step lib db op).1 = db' at h htables
  cases htables with
  | chunk => exact Or.inl (hclaimed ▸ h)
  | tripEnd =>
    rcases List.mem_append.mp h with h | h
    · exact Or.inl h
    · exact Or.inr ⟨_, _, _, _, _, rfl, List.mem_singleton.mp h⟩
  | _ => exact Or.inl h

/-- A trip is an earlier one, or claimed by the tester of this transaction. -/
theorem mem_trips_step (hwf : db.WellFormed) {row : Trip} (h : row ∈ (step lib db op).1.trips) :
    row ∈ db.trips ∨
    ∃ w, op.write? lib = some w ∧ row.tripId = w.tripId ∧ row.tokenId = w.tokenId := by
  have hclaimed : ∀ {tripId : String} {tokenId now : ℤ},
      row ∈ (db.claimed tripId tokenId now).trips →
        row ∈ db.trips ∨ row.tripId = tripId ∧ row.tokenId = tokenId := by
    intro tripId tokenId now hrow
    unfold Db.claimed at hrow
    split_ifs at hrow
    · rcases List.mem_append.mp hrow with hrow | hrow
      · exact Or.inl hrow
      · rw [List.mem_singleton.mp hrow]
        exact Or.inr ⟨rfl, rfl⟩
    · exact Or.inl hrow
  have htables : Tables lib db op (step lib db op).1 := step_tables hwf op
  generalize (step lib db op).1 = db' at h htables
  cases htables with
  | chunk => exact (hclaimed h).imp_right fun hrow => ⟨_, rfl, hrow⟩
  | tripEnd => exact (hclaimed h).imp_right fun hrow => ⟨_, rfl, hrow⟩
  | _ => exact Or.inl h

/-- A tester token keeps its hash and its label. -/
theorem token_kept_step (hwf : db.WellFormed) {row : TesterToken} (h : row ∈ db.tokens) :
    ∃ row' ∈ (step lib db op).1.tokens,
      row'.id = row.id ∧ row'.tokenSha256 = row.tokenSha256 ∧ row'.label = row.label := by
  have hclaimed : ∀ {tripId : String} {tokenId now : ℤ},
      (db.claimed tripId tokenId now).tokens = db.tokens := by
    intro tripId tokenId now
    unfold Db.claimed
    split_ifs <;> rfl
  have htables : Tables lib db op (step lib db op).1 := step_tables hwf op
  generalize (step lib db op).1 = db' at htables
  cases htables with
  | chunk => exact ⟨row, hclaimed.symm ▸ h, rfl, rfl, rfl⟩
  | tripEnd => exact ⟨row, hclaimed.symm ▸ h, rfl, rfl, rfl⟩
  | issue => exact ⟨row, List.mem_append_left _ h, rfl, rfl, rfl⟩
  | revoke =>
    refine ⟨_, List.mem_map_of_mem h, ?_⟩
    unfold revokedAt
    split_ifs <;> exact ⟨rfl, rfl, rfl⟩
  | _ => exact ⟨row, h, rfl, rfl, rfl⟩

end Rows

/-! ## Tester tokens over a history -/

section Tokens

variable {lib : Stdlib K} {db : Db K}

theorem claimed_tokens (tripId : String) (tokenId now : ℤ) :
    (db.claimed tripId tokenId now).tokens = db.tokens := by
  unfold Db.claimed
  split_ifs <;> rfl

/-- A write leaves the tester tokens. -/
theorem tokens_of_write (hwf : db.WellFormed) {op : Op K} (hop : (op.write? lib).isSome) :
    (step lib db op).1.tokens = db.tokens := by
  have htables : Tables lib db op (step lib db op).1 := step_tables hwf op
  generalize (step lib db op).1 = db' at htables
  cases htables with
  | same => rfl
  | chunk => exact claimed_tokens _ _ _
  | tripEnd => exact claimed_tokens _ _ _
  | _ => exact absurd hop (by simp [Op.write?])

/-- A row that is still active was not revoked. -/
theorem mem_map_revokedAt {tokenId now : ℤ} {rows : List TesterToken} {row : TesterToken} :
    (row ∈ rows.map (revokedAt tokenId now) ∧ row.revokedAt = none) ↔
      row ∈ rows ∧ row.revokedAt = none ∧ row.id ≠ tokenId := by
  constructor
  · rintro ⟨hmem, hnull⟩
    obtain ⟨r, hr, rfl⟩ := List.mem_map.mp hmem
    unfold revokedAt at hnull ⊢
    split_ifs at hnull ⊢ with hid
    exact ⟨hr, hnull, hid⟩
  · rintro ⟨hmem, hnull, hid⟩
    exact ⟨List.mem_map.mpr ⟨row, hmem, if_neg hid⟩, hnull⟩

/-- **The active rows after one transaction.** -/
theorem active_step (h : db.KeysHold) (op : Op K) {row : TesterToken} :
    (row ∈ (step lib db op).1.tokens ∧ row.revokedAt = none) ↔
      (row ∈ db.tokens ∧ row.revokedAt = none ∧ ∀ now, op ≠ .revoke row.id now) ∨
      ∃ label token now, op = .issue label token now ∧
        (step lib db op).2 = .issued row.id ∧ row = tokenRow lib db label token now := by
  cases op with
  | putChunk tokenId tripId seq chunk claimedAt receivedAt =>
    rw [tokens_of_write h.wellFormed rfl]
    simp
  | endTrip tokenId tripId e claimedAt receivedAt =>
    rw [tokens_of_write h.wellFormed rfl]
    simp
  | purge now maxAgeDays =>
    rw [show step lib db (.purge now maxAgeDays) =
      settle db .purged (purgeRawTraces db now maxAgeDays) from rfl, purgeRawTraces_eq]
    simp [settle]
  | issue label token now =>
    have hnew : (∃ label' token' now',
        Op.issue label token now = (.issue label' token' now' : Op K) ∧
          (step lib db (.issue label token now)).2 = .issued row.id ∧
            row = tokenRow lib db label' token' now') ↔
        (step lib db (.issue label token now)).2 = .issued row.id ∧
          row = tokenRow lib db label token now := by
      constructor
      · rintro ⟨label', token', now', heq, hrow⟩
        obtain ⟨rfl, rfl, rfl⟩ := Op.issue.inj heq
        exact hrow
      · exact fun hrow => ⟨label, token, now, rfl, hrow⟩
    rw [hnew]
    unfold step issue
    simp only
    split_ifs with hlabel hused
    · simp [settle]
    · simp [settle]
    · simp only [settle, List.mem_append, List.mem_singleton]
      constructor
      · rintro ⟨hmem | rfl, hnull⟩
        · exact Or.inl ⟨hmem, hnull, fun _ heq => by cases heq⟩
        · exact Or.inr ⟨rfl, rfl⟩
      · rintro (⟨hmem, hnull, -⟩ | ⟨-, rfl⟩)
        · exact ⟨Or.inl hmem, hnull⟩
        · exact ⟨Or.inr rfl, rfl⟩
  | revoke tokenId now =>
    have hne : (∀ now', Op.revoke tokenId now ≠ (.revoke row.id now' : Op K)) ↔
        row.id ≠ tokenId := by
      constructor
      · rintro hall rfl
        exact hall now rfl
      · intro hid now' heq
        exact hid (Op.revoke.inj heq).1.symm
    rw [hne]
    have hnone : ∀ p : Prop, p ↔ p ∨ ∃ label token now', Op.revoke tokenId now =
        (.issue label token now' : Op K) ∧ (step lib db (.revoke tokenId now)).2 = .issued row.id ∧
          row = tokenRow lib db label token now' := by simp
    rw [← hnone]
    -- a row under the id is the one that `revoke` finds
    have hsame : (∀ r, db.token? tokenId = some r → r.revokedAt ≠ none) →
        ((row ∈ db.tokens ∧ row.revokedAt = none) ↔
          row ∈ db.tokens ∧ row.revokedAt = none ∧ row.id ≠ tokenId) := by
      intro hrevoked
      constructor
      · rintro ⟨hmem, hnull⟩
        exact ⟨hmem, hnull, fun hid => hrevoked row (hid ▸ h.token?_eq hmem) hnull⟩
      · rintro ⟨hmem, hnull, -⟩
        exact ⟨hmem, hnull⟩
    unfold step revoke
    simp only [settle]
    split
    · rename_i hunknown
      exact hsame fun r hr => by rw [hunknown] at hr; cases hr
    · rename_i r hr
      split_ifs with hnull
      · exact mem_map_revokedAt
      · refine hsame fun r' hr' hnull' => hnull ?_
        rw [hr] at hr'
        rw [Option.some.inj hr', hnull']
        rfl

/-- **Tester tokens over a history.** A row is active just when its token was issued, and not
revoked since. -/
theorem active_iff (lib : Stdlib K) (ops : List (Op K)) {row : TesterToken} :
    (row ∈ (run lib ops).tokens ∧ row.revokedAt = none) ↔
      ∃ before label token now after, ops = before ++ .issue label token now :: after ∧
        (step lib (run lib before) (.issue label token now)).2 = .issued row.id ∧
        row = tokenRow lib (run lib before) label token now ∧
        ∀ now', Op.revoke row.id now' ∉ after := by
  induction ops using List.reverseRecOn with
  | nil =>
    constructor
    · exact fun h => absurd h.1 List.not_mem_nil
    · rintro ⟨before, label, token, now, after, h, -⟩
      exact absurd h (by simp)
  | append_singleton ops op ih =>
    rw [run_concat, active_step (run_keysHold lib ops) op]
    constructor
    · rintro (⟨hmem, hnull, hop⟩ | ⟨label, token, now, rfl, hissued, hrow⟩)
      · obtain ⟨before, label, token, now, after, rfl, hissued, hrow, hafter⟩ := ih.mp ⟨hmem, hnull⟩
        refine ⟨before, label, token, now, after ++ [op], by simp, hissued, hrow, fun now' h => ?_⟩
        rcases List.mem_append.mp h with h | h
        · exact hafter now' h
        · exact hop now' (List.mem_singleton.mp h).symm
      · exact ⟨ops, label, token, now, [], rfl, hissued, hrow, fun _ => List.not_mem_nil⟩
    · rintro ⟨before, label, token, now, after, heq, hissued, hrow, hafter⟩
      rcases List.eq_nil_or_concat after with rfl | ⟨after, last, rfl⟩
      · obtain ⟨rfl, hop⟩ := List.append_inj' heq rfl
        exact Or.inr ⟨label, token, now, List.head_eq_of_cons_eq hop, by
          rw [List.head_eq_of_cons_eq hop]; exact hissued, hrow⟩
      · rw [List.concat_eq_append, ← List.cons_append, ← List.append_assoc] at heq
        obtain ⟨rfl, hop⟩ := List.append_inj' heq rfl
        obtain rfl := List.head_eq_of_cons_eq hop
        rw [List.concat_eq_append] at hafter
        obtain ⟨hmem, hnull⟩ := ih.mpr ⟨before, label, token, now, after, rfl, hissued, hrow,
          fun now' h => hafter now' (List.mem_append_left _ h)⟩
        refine Or.inl ⟨hmem, hnull, fun now' hop => hafter now' ?_⟩
        rw [hop]
        exact List.mem_append_right _ (List.mem_singleton_self _)

end Tokens

end RoutePlanner.Commute
