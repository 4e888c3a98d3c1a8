import RoutePlanner.Delivery.Network

/-!
# Where everything at the service comes from

What the service holds, works on and has answered, for the trips of phones: every row, every call
and every answer goes back to an item that the phone sent. The phones enter by their logs alone.

* `Provenance.grow`: a step of a phone keeps it.
* `Provenance.arrive`, `Provenance.write`, `Provenance.operate`: so does the service.
* `AnswerOk`: how the service answers a phone.
-/

namespace RoutePlanner.Delivery

open RoutePlanner.Lib RoutePlanner.Recorder

variable {D K : Type} [Field K] [LinearOrder K]

/-! ## Tokens -/

/-- The id of the tester whose token this is. -/
def Holder (lib : Commute.Stdlib K) (db : Commute.Db K) (token : String) (id : ℤ) : Prop :=
  ∃ row ∈ db.tokens, row.id = id ∧ row.tokenSha256 = Commute.hashToken lib token

/-- Two tokens were used for the trip. -/
def TwoTokens (L : List (Effect K)) (tripId : String) : Prop :=
  ∃ i j token token', Effect.send i token ∈ L ∧ Effect.send j token' ∈ L ∧
    i.key.tripId = tripId ∧ j.key.tripId = tripId ∧ token ≠ token'

section Tokens

variable {lib : Commute.Stdlib K} {db : Commute.Db K} {token : String} {id id' : ℤ}

omit [Field K] [LinearOrder K] in
/-- One token is one tester. -/
theorem Holder.eq (hdb : db.KeysHold) (h : Holder lib db token id) (h' : Holder lib db token id') :
    id = id' := by
  obtain ⟨r, hr, rfl, hsha⟩ := h
  obtain ⟨r', hr', rfl, hsha'⟩ := h'
  rw [hdb.tokenSha256.eq_of_key hr hr' (hsha.trans hsha'.symm)]

omit [Field K] [LinearOrder K] in
theorem Holder.step (hwf : db.WellFormed) (op : Commute.Op K) (h : Holder lib db token id) :
    Holder lib (Commute.step lib db op).1 token id := by
  obtain ⟨r, hr, rfl, hsha⟩ := h
  obtain ⟨r', hr', hid, hsha', -⟩ : ∃ r' ∈ (Commute.step lib db op).1.tokens, r'.id = r.id ∧
      r'.tokenSha256 = r.tokenSha256 ∧ r'.label = r.label := Commute.token_kept_step hwf hr
  exact ⟨r', hr', hid, hsha'.trans hsha⟩

theorem TwoTokens.mono {L es : List (Effect K)} {tripId : String} (h : TwoTokens L tripId) :
    TwoTokens (L ++ es) tripId := by
  obtain ⟨i, j, token, token', hi, hj, h⟩ := h
  exact ⟨i, j, token, token', List.mem_append_left _ hi, List.mem_append_left _ hj, h⟩

end Tokens

/-! ## The invariant -/

section Invariant

variable (st : Setting K)

/-- The service holds what the item says, under its key. -/
def Held (db : Commute.Db K) (i : OutboxItem K) : Prop :=
  ∃ payload, i.payload? st.encode = some payload ∧
    db.digest? i.key.tripId payload.slot =
      some (Commute.contentDigest st.lib (payload.text st.lib))

/-- **How the service answers a phone.** It holds the item; or it refuses the token; or the trip
was uploaded with another token before; or it refuses a body that is not valid, as too large or as
unprocessable. -/
def AnswerOk (db : Commute.Db K) (L : List (Effect K)) (item : OutboxItem K)
    (status : ℕ) : Prop :=
  (status = 200 ∨ status = 201) ∧ Held st db item ∨ status = 401 ∨
    status = 404 ∧ TwoTokens L item.key.tripId ∨
      (status = 413 ∨ status = 422) ∧ ¬ item.body.Valid st.encode

/-- What is owed to a call. -/
structure CallOk (logs : D → List (Effect K)) (db : Commute.Db K) (r : Commute.Request K)
    (c : Commute.Call K) : Prop where
  token : ∃ token, r.credentials = some token ∧ Holder st.lib db token c.tester.id
  tripId : st.fw.uuid r.tripId = some c.tripId
  payload : c.payload = r.payload
  sent : ∀ d, Started (logs d) c.tripId → SentBy st (logs d) r

/-- Everything about the trips of phones goes back to what they sent. -/
structure Provenance (logs : D → List (Effect K)) (db : Commute.Db K)
    (calls : List (Commute.Request K × Commute.Call K))
    (answers : List (Commute.Request K × Commute.Response)) : Prop where
  keys : db.KeysHold
  calls : ∀ p ∈ calls, CallOk st logs db p.1 p.2
  trips : ∀ row ∈ db.trips, ∀ d, Started (logs d) row.tripId →
    ∃ item token, Effect.send item token ∈ logs d ∧ item.key.tripId = row.tripId ∧
      Holder st.lib db token row.tokenId
  chunks : ∀ row ∈ db.chunks, ∀ d, Started (logs d) row.tripId →
    ∃ item token n c receivedAt, Effect.send item token ∈ logs d ∧
      item.key = ⟨row.tripId, .chunk n⟩ ∧ item.body = .chunk c ∧
      (Commute.chunkRow st.lib row.tripId n (c.wire st.encode) receivedAt).Keeps row
  ends : ∀ row ∈ db.ends, ∀ d, Started (logs d) row.tripId →
    ∃ item token e receivedAt, Effect.send item token ∈ logs d ∧
      item.key = ⟨row.tripId, .tripEnd⟩ ∧ item.body = .tripEnd e ∧
      row = Commute.endRow st.lib row.tripId e.wire receivedAt
  answers : ∀ p ∈ answers, ∀ d tripId, st.fw.uuid p.1.tripId = some tripId →
    Started (logs d) tripId →
    ∃ item token, Effect.send item token ∈ logs d ∧
      item.request? st.opts st.encode token = some p.1 ∧ AnswerOk st db (logs d) item p.2.status

end Invariant

section Steps

variable {st : Setting K} {logs logs' : D → List (Effect K)} {db db' : Commute.Db K}
  {calls : List (Commute.Request K × Commute.Call K)}
  {answers : List (Commute.Request K × Commute.Response)}

theorem provenance_init (logs : D → List (Effect K)) :
    Provenance st logs Commute.Db.empty [] [] where
  keys := Commute.keysHold_empty
  calls _ h := absurd h List.not_mem_nil
  trips _ h := absurd h List.not_mem_nil
  chunks _ h := absurd h List.not_mem_nil
  ends _ h := absurd h List.not_mem_nil
  answers _ h := absurd h List.not_mem_nil

theorem Held.kept {i : OutboxItem K} (hk : Commute.Kept db db') (h : Held st db i) :
    Held st db' i := by
  obtain ⟨payload, hp, hdigest⟩ := h
  exact ⟨payload, hp, hk.digest hdigest⟩

theorem AnswerOk.mono {L es : List (Effect K)} {i : OutboxItem K} {status : ℕ}
    (h : AnswerOk st db L i status) : AnswerOk st db (L ++ es) i status :=
  h.imp_right fun h => h.imp_right fun h => h.imp_left fun ⟨hs, h⟩ => ⟨hs, h.mono⟩

theorem AnswerOk.kept {L : List (Effect K)} {i : OutboxItem K} {status : ℕ}
    (hk : Commute.Kept db db') (h : AnswerOk st db L i status) : AnswerOk st db' L i status :=
  h.imp_left fun ⟨hs, h⟩ => ⟨hs, h.kept hk⟩

theorem SentBy.mono {L es : List (Effect K)} {r : Commute.Request K} (h : SentBy st L r) :
    SentBy st (L ++ es) r := by
  obtain ⟨item, token, hsend, hr⟩ := h
  exact ⟨item, token, List.mem_append_left _ hsend, hr⟩

/-- **A phone goes on.** What it starts anew, nobody has seen. -/
theorem Provenance.grow (h : Provenance st logs db calls answers)
    (hlogs : ∀ d, ∃ es, logs' d = logs d ++ es)
    (hnew : ∀ d tripId, Started (logs' d) tripId → Started (logs d) tripId ∨
      db.trip? tripId = none ∧ (∀ p ∈ calls, p.2.tripId ≠ tripId) ∧
        ∀ p ∈ answers, st.fw.uuid p.1.tripId ≠ some tripId) :
    Provenance st logs' db calls answers := by
  have hkeep : ∀ {d} {e : Effect K}, e ∈ logs d → e ∈ logs' d := by
    intro d e he
    obtain ⟨es, hes⟩ := hlogs d
    exact hes ▸ List.mem_append_left _ he
  have hold : ∀ {d tripId}, Started (logs' d) tripId → (db.trip? tripId).isSome →
      Started (logs d) tripId := by
    intro d tripId hs htrip
    refine (hnew d tripId hs).resolve_right fun hunseen => ?_
    rw [hunseen.1] at htrip
    cases htrip
  constructor
  · exact h.keys
  · intro p hp
    have hcall := h.calls p hp
    refine ⟨hcall.token, hcall.tripId, hcall.payload, fun d hs => ?_⟩
    obtain ⟨es, hes⟩ := hlogs d
    rw [hes]
    exact (hcall.sent d ((hnew d _ hs).resolve_right fun hunseen => hunseen.2.1 p hp rfl)).mono
  · intro row hrow d hs
    obtain ⟨item, token, hsend, hrest⟩ :=
      h.trips row hrow d (hold hs (h.keys.trip?_eq hrow ▸ rfl))
    exact ⟨item, token, hkeep hsend, hrest⟩
  · intro row hrow d hs
    obtain ⟨item, token, n, c, at', hsend, hrest⟩ :=
      h.chunks row hrow d (hold hs (h.keys.wellFormed.chunk row hrow))
    exact ⟨item, token, n, c, at', hkeep hsend, hrest⟩
  · intro row hrow d hs
    obtain ⟨item, token, e, at', hsend, hrest⟩ :=
      h.ends row hrow d (hold hs (h.keys.wellFormed.tripEnd row hrow))
    exact ⟨item, token, e, at', hkeep hsend, hrest⟩
  · intro p hp d tripId hid hs
    have hs' := (hnew d _ hs).resolve_right fun hunseen => hunseen.2.2 p hp hid
    obtain ⟨item, token, hsend, hr, hok⟩ := h.answers p hp d tripId hid hs'
    obtain ⟨es, hes⟩ := hlogs d
    exact ⟨item, token, hkeep hsend, hr, hes ▸ hok.mono⟩

end Steps

/-! ## Items and their requests -/

/-- What is used of the phones: their books, and that their ids are UUIDs of their own. -/
structure Phones (st : Setting K) (logs : D → List (Effect K)) : Prop where
  ledger : ∀ d, LedgerOk (logs d)
  sendable : ∀ d, ∀ e ∈ logs d, e.Sendable st.opts
  uuid : ∀ d tripId, Started (logs d) tripId → st.fw.uuid tripId = some tripId

section Items

variable {st : Setting K} {logs : D → List (Effect K)} {d : D} {i : OutboxItem K}
  {r : Commute.Request K} {token : String}

theorem payload?_eq_chunk {seq : ℤ} {body : Commute.TraceChunk K}
    (h : i.payload? st.encode = some (.chunk seq body)) :
    ∃ (n : ℕ) (c : TraceChunk K), i.key.slot = .chunk n ∧ i.body = .chunk c ∧ seq = n ∧
      body = c.wire st.encode := by
  unfold OutboxItem.payload? at h
  split at h
  · rename_i n c hslot hbody
    obtain ⟨rfl, rfl⟩ := Commute.Payload.chunk.inj (Option.some.inj h)
    exact ⟨n, c, hslot, hbody, rfl, rfl⟩
  · cases h
  · cases h

theorem payload?_eq_tripEnd {body : Commute.TripEnd K}
    (h : i.payload? st.encode = some (.tripEnd body)) :
    ∃ e : TripEnd K, i.key.slot = .tripEnd ∧ i.body = .tripEnd e ∧ body = e.wire := by
  unfold OutboxItem.payload? at h
  split at h
  · cases h
  · rename_i e hslot hbody
    obtain rfl := Commute.Payload.tripEnd.inj (Option.some.inj h)
    exact ⟨e, hslot, hbody, rfl⟩
  · cases h

theorem request?_eq_some (h : i.request? st.opts st.encode token = some r) :
    i.payload? st.encode = some r.payload ∧ r.tripId = i.key.tripId ∧
      r.bytes = st.opts.byteLength i.body ∧ r.credentials = some token := by
  unfold OutboxItem.request? at h
  obtain ⟨payload, hp, rfl⟩ := Option.map_eq_some_iff.mp h
  exact ⟨hp, rfl, rfl, rfl⟩

theorem payload?_slot {payload : Commute.Payload K} (h : i.payload? st.encode = some payload) :
    payload.slot = i.key.slot.number := by
  cases payload with
  | chunk seq body =>
    obtain ⟨n, c, hslot, -, rfl, -⟩ := payload?_eq_chunk h
    rw [hslot]
    rfl
  | tripEnd body =>
    obtain ⟨e, hslot, -, -⟩ := payload?_eq_tripEnd h
    rw [hslot]
    rfl

/-- The request says which key it is for. -/
theorem key_of_request? {j : OutboxItem K} {token' : String}
    (hi : i.request? st.opts st.encode token = some r)
    (hj : j.request? st.opts st.encode token' = some r) : i.key = j.key := by
  obtain ⟨hpi, hidi, -, -⟩ := request?_eq_some hi
  obtain ⟨hpj, hidj, -, -⟩ := request?_eq_some hj
  have hslot : i.key.slot = j.key.slot :=
    Slot.number_injective ((payload?_slot hpi).symm.trans (payload?_slot hpj))
  have hid : i.key.tripId = j.key.tripId := hidi.symm.trans hidj
  exact congrArg₂ Key.mk hid hslot

/-- A request to a trip of the phone is that of an item it has queued. -/
theorem Phones.item (hph : Phones st logs) {item : OutboxItem K}
    (hsend : Effect.send item token ∈ logs d)
    (hr : item.request? st.opts st.encode token = some r) {tripId : String}
    (hid : st.fw.uuid r.tripId = some tripId) :
    item ∈ queuedItems (logs d) ∧ item.key.tripId = tripId := by
  have hqueued := (hph.ledger d).sent item token hsend
  refine ⟨hqueued, ?_⟩
  have huuid := hph.uuid d _ ((hph.ledger d).queued item hqueued)
  rw [(request?_eq_some hr).2.1, huuid] at hid
  exact Option.some.inj hid

end Items

/-! ## The service -/

section Service

variable {st : Setting K} {logs : D → List (Effect K)} {db : Commute.Db K}
  {calls : List (Commute.Request K × Commute.Call K)}
  {answers : List (Commute.Request K × Commute.Response)} {r : Commute.Request K}
  {c : Commute.Call K}

/-- The call says what an item does that the phone sent. -/
def CallOf (st : Setting K) (logs : D → List (Effect K)) (db : Commute.Db K)
    (c : Commute.Call K) : Prop :=
  ∀ d, Started (logs d) c.tripId → ∃ item token, Effect.send item token ∈ logs d ∧
    item.key.tripId = c.tripId ∧ item.payload? st.encode = some c.payload ∧
    Holder st.lib db token c.tester.id

theorem CallOk.callOf (hph : Phones st logs) (h : CallOk st logs db r c) :
    CallOf st logs db c := by
  intro d hs
  obtain ⟨item, token, hsend, hr⟩ := h.sent d hs
  obtain ⟨hp, -, -, hcred⟩ := request?_eq_some hr
  obtain ⟨token', hcred', hholder⟩ := h.token
  obtain rfl := Option.some.inj (hcred.symm.trans hcred')
  exact ⟨item, token, hsend, (hph.item hsend hr h.tripId).2, h.payload ▸ hp, hholder⟩

omit [Field K] [LinearOrder K] in
theorem op_inj {c c' : Commute.Call K} {a b a' b' : ℤ} (h : c.op a b = c'.op a' b') :
    c.tester.id = c'.tester.id ∧ c.tripId = c'.tripId ∧ c.payload = c'.payload := by
  obtain ⟨⟨id, label⟩, tripId, payload⟩ := c
  obtain ⟨⟨id', label'⟩, tripId', payload'⟩ := c'
  cases payload with
  | chunk seq body =>
    cases payload' with
    | chunk seq' body' =>
      obtain ⟨rfl, rfl, rfl, rfl, -⟩ := Commute.Op.putChunk.inj h
      exact ⟨rfl, rfl, rfl⟩
    | tripEnd body' => cases h
  | tripEnd body =>
    cases payload' with
    | chunk seq' body' => cases h
    | tripEnd body' =>
      obtain ⟨rfl, rfl, rfl, -⟩ := Commute.Op.endTrip.inj h
      exact ⟨rfl, rfl, rfl⟩

omit [Field K] [LinearOrder K] in
/-- A write is the transaction of a call. -/
theorem exists_call {op : Commute.Op K} {lib : Commute.Stdlib K} {w : Commute.Write}
    (h : op.write? lib = some w) :
    ∃ (c : Commute.Call K) (a b : ℤ), op = c.op a b ∧ c.tripId = w.tripId ∧
      c.tester.id = w.tokenId := by
  cases op with
  | putChunk tokenId tripId seq chunk a b =>
    obtain rfl := Option.some.inj h
    exact ⟨⟨⟨tokenId, ""⟩, tripId, .chunk seq chunk⟩, a, b, rfl, rfl, rfl⟩
  | endTrip tokenId tripId e a b =>
    obtain rfl := Option.some.inj h
    exact ⟨⟨⟨tokenId, ""⟩, tripId, .tripEnd e⟩, a, b, rfl, rfl, rfl⟩
  | _ => cases h

theorem key_eq {i : OutboxItem K} {tripId : String} {slot : Slot} (hid : i.key.tripId = tripId)
    (hslot : i.key.slot = slot) : i.key = ⟨tripId, slot⟩ := by
  rw [← hid, ← hslot]

/-- **One transaction.** -/
theorem Provenance.transact (h : Provenance st logs db calls answers) (op : Commute.Op K)
    (hop : ∀ c a b, op = c.op a b → CallOf st logs db c) :
    Provenance st logs (Commute.step st.lib db op).1 calls answers := by
  have hwf := h.keys.wellFormed
  have hkept : Commute.Kept db (Commute.step st.lib db op).1 := (Commute.step_kept hwf op).1
  constructor
  · exact Commute.step_keysHold h.keys op
  · intro p hp
    have hcall := h.calls p hp
    obtain ⟨token, hcred, hholder⟩ := hcall.token
    exact ⟨⟨token, hcred, hholder.step hwf op⟩, hcall.tripId, hcall.payload, hcall.sent⟩
  · intro row hrow d hs
    rcases Commute.mem_trips_step hwf hrow with hrow | ⟨w, hw, hid, htoken⟩
    · obtain ⟨item, token, hsend, hkey, hholder⟩ := h.trips row hrow d hs
      exact ⟨item, token, hsend, hkey, hholder.step hwf op⟩
    · obtain ⟨c, a, b, hcall, hc, hid'⟩ := exists_call hw
      obtain ⟨item, token, hsend, hkey, -, hholder⟩ := hop c a b hcall d (hc ▸ hid ▸ hs)
      refine ⟨item, token, hsend, hkey.trans (hc.trans hid.symm), ?_⟩
      rw [htoken, ← hid']
      exact hholder.step hwf op
  · intro row hrow d hs
    rcases Commute.mem_chunks_step hwf hrow with
      ⟨old, hold, hkeeps⟩ | ⟨tokenId, tripId, seq, chunk, a, b, hcall, rfl⟩
    · rw [hkeeps.tripId] at hs ⊢
      obtain ⟨item, token, n, c, at', hsend, hkey, hbody, hrow⟩ := h.chunks old hold d hs
      exact ⟨item, token, n, c, at', hsend, hkey, hbody, hrow.trans hkeeps⟩
    · obtain ⟨item, token, hsend, hid, hp, -⟩ :=
        hop ⟨⟨tokenId, ""⟩, tripId, .chunk seq chunk⟩ a b hcall d hs
      obtain ⟨n, c, hslot, hbody, rfl, rfl⟩ := payload?_eq_chunk hp
      exact ⟨item, token, n, c, b, hsend, key_eq hid hslot, hbody, Commute.ChunkRow.Keeps.refl _⟩
  · intro row hrow d hs
    rcases Commute.mem_ends_step hwf hrow with hrow | ⟨tokenId, tripId, e, a, b, hcall, rfl⟩
    · exact h.ends row hrow d hs
    · obtain ⟨item, token, hsend, hid, hp, -⟩ :=
        hop ⟨⟨tokenId, ""⟩, tripId, .tripEnd e⟩ a b hcall d hs
      obtain ⟨e, hslot, hbody, rfl⟩ := payload?_eq_tripEnd hp
      exact ⟨item, token, e, b, hsend, key_eq hid hslot, hbody, rfl⟩
  · intro p hp d tripId hid hs
    obtain ⟨item, token, hsend, hr, hok⟩ := h.answers p hp d tripId hid hs
    exact ⟨item, token, hsend, hr, hok.kept hkept⟩

/-- The owner's commands write nothing. -/
theorem Provenance.operate (h : Provenance st logs db calls answers) {op : Commute.Op K}
    (hop : op.write? st.lib = none) :
    Provenance st logs (Commute.step st.lib db op).1 calls answers := by
  refine h.transact op fun c a b hcall => ?_
  rw [hcall, c.write?_op] at hop
  cases hop

/-- A call dies. -/
theorem Provenance.lose (h : Provenance st logs db calls answers) (n : ℕ) :
    Provenance st logs db (calls.eraseIdx n) answers :=
  { h with calls := fun p hp => h.calls p (List.mem_of_mem_eraseIdx hp) }

theorem Provenance.answer (h : Provenance st logs db calls answers) {response : Commute.Response}
    (ha : ∀ d tripId, st.fw.uuid r.tripId = some tripId → Started (logs d) tripId →
      ∃ item token, Effect.send item token ∈ logs d ∧
        item.request? st.opts st.encode token = some r ∧
        AnswerOk st db (logs d) item response.status) :
    Provenance st logs db calls (answers ++ [(r, response)]) := by
  refine { h with answers := fun p hp => ?_ }
  rcases List.mem_append.mp hp with hp | hp
  · exact h.answers p hp
  · rw [List.mem_singleton.mp hp]
    exact ha

/-- **Agreement.** What the service holds under the key of an item is what the item says. -/
theorem Provenance.digest (hph : Phones st logs) (h : Provenance st logs db calls answers) {d : D}
    {item : OutboxItem K} (hq : item ∈ queuedItems (logs d)) {payload : Commute.Payload K}
    (hp : item.payload? st.encode = some payload) {sha : String}
    (hsha : db.digest? item.key.tripId payload.slot = some sha) :
    sha = Commute.contentDigest st.lib (payload.text st.lib) := by
  have hstarted := (hph.ledger d).queued item hq
  have hsame : ∀ {i token}, Effect.send i token ∈ logs d → i.key = item.key → i = item :=
    fun hsend hkey => (hph.ledger d).eq_of_key ((hph.ledger d).sent _ _ hsend) hq hkey
  cases payload with
  | chunk seq body =>
    obtain ⟨n, c, hslot, hbody, rfl, rfl⟩ := payload?_eq_chunk hp
    obtain ⟨row, hrow, rfl⟩ := Option.map_eq_some_iff.mp hsha
    have hfound := of_decide_eq_true (List.find?_some hrow :)
    obtain ⟨i, token, m, c', at', hsend, hkey, hbody', hkeeps⟩ :=
      h.chunks row (List.mem_of_find?_eq_some hrow) d (hfound.1 ▸ hstarted)
    have hseq : (m : ℤ) = n := hkeeps.seq.symm.trans hfound.2
    obtain rfl : i = item := by
      refine hsame hsend ?_
      rw [hkey, hfound.1, key_eq rfl hslot, Int.ofNat_inj.mp hseq]
    obtain rfl := Body.chunk.inj (hbody'.symm.trans hbody)
    exact hkeeps.contentSha256
  | tripEnd body =>
    obtain ⟨e, hslot, hbody, rfl⟩ := payload?_eq_tripEnd hp
    obtain ⟨row, hrow, rfl⟩ := Option.map_eq_some_iff.mp hsha
    have hfound := of_decide_eq_true (List.find?_some hrow :)
    obtain ⟨i, token, e', at', hsend, hkey, hbody', hrow'⟩ :=
      h.ends row (List.mem_of_find?_eq_some hrow) d (hfound ▸ hstarted)
    obtain rfl : i = item := by
      refine hsame hsend ?_
      rw [hkey, hfound, key_eq rfl hslot]
    obtain rfl := Body.tripEnd.inj (hbody'.symm.trans hbody)
    rw [hrow']
    rfl

/-- A body that is valid is within the limit of the service. -/
theorem bytes_le (hend : ∀ e : TripEnd K, (Body.tripEnd e).Valid st.encode →
    st.opts.byteLength (.tripEnd e) ≤ Commute.maxBodyBytes) {item : OutboxItem K}
    (hs : item.Sendable st.opts) (hv : item.body.Valid st.encode) :
    st.opts.byteLength item.body ≤ Commute.maxBodyBytes := by
  unfold OutboxItem.Sendable at hs
  split at hs
  · rename_i n c hslot hbody
    rw [hbody]
    exact hs.2
  · rename_i e hslot hbody
    rw [hbody] at hv ⊢
    exact hend e hv
  · exact absurd hs id

/-- **A request arrives.** It is refused, or admitted. -/
theorem Provenance.arrive (hph : Phones st logs) (h : Provenance st logs db calls answers)
    (hend : ∀ e : TripEnd K, (Body.tripEnd e).Valid st.encode →
      st.opts.byteLength (.tripEnd e) ≤ Commute.maxBodyBytes)
    (hsent : ∀ d tripId, st.fw.uuid r.tripId = some tripId → Started (logs d) tripId →
      SentBy st (logs d) r) :
    (∀ response, Commute.admitCall st.lib st.fw db r = .error response →
      Provenance st logs db calls (answers ++ [(r, response)])) ∧
    ∀ c, Commute.admitCall st.lib st.fw db r = .ok c →
      Provenance st logs db (calls ++ [(r, c)]) answers := by
  constructor
  · intro response hadmit
    refine h.answer fun d tripId hid hs => ?_
    obtain ⟨item, token, hsend, hr⟩ := hsent d tripId hid hs
    refine ⟨item, token, hsend, hr, ?_⟩
    obtain ⟨hp, -, hbytes, -⟩ := request?_eq_some hr
    have hsendable := sendable_of_queued (hph.sendable d) (hph.item hsend hr hid).1
    obtain ⟨payload, hp', -, hvalid⟩ := hsendable.payload st.encode
    obtain rfl := Option.some.inj (hp.symm.trans hp')
    rcases Commute.admitCall_status hadmit with h | ⟨hstatus, hlarge⟩ | ⟨hstatus, h | h⟩
    · exact Or.inr (Or.inl h)
    · refine Or.inr (Or.inr (Or.inr ⟨Or.inl hstatus, fun hv => ?_⟩))
      have := bytes_le hend hsendable hv
      omega
    · rw [h] at hid
      cases hid
    · exact Or.inr (Or.inr (Or.inr ⟨Or.inr hstatus, fun hv => h (hvalid.mpr hv)⟩))
  · intro c hadmit
    obtain ⟨-, ⟨token, hcred, htoken⟩, hid, hpayload, -⟩ := Commute.admitCall_eq_ok.mp hadmit
    refine { h with calls := fun p hp => ?_ }
    rcases List.mem_append.mp hp with hp | hp
    · exact h.calls p hp
    · rw [List.mem_singleton.mp hp]
      obtain ⟨row, hrow, hsha, -, htester⟩ := (Commute.authenticate_eq_some h.keys).mp htoken
      exact ⟨⟨token, hcred, row, hrow, by rw [htester], hsha⟩, hid, hpayload,
        fun d hs => hsent d _ hid hs⟩

/-- **A call writes, and is answered.** -/
theorem Provenance.write (hph : Phones st logs) (h : Provenance st logs db calls answers)
    (hcall : CallOk st logs db r c) (claimedAt receivedAt : ℤ) :
    Provenance st logs (c.handle st.lib db claimedAt receivedAt).1 calls
      (answers ++ [(r, (c.handle st.lib db claimedAt receivedAt).2)]) := by
  have hnext : Provenance st logs (c.handle st.lib db claimedAt receivedAt).1 calls answers := by
    rw [Commute.handle_fst]
    refine h.transact _ fun c' a b heq => ?_
    obtain ⟨hid, htrip, hpayload⟩ := op_inj heq
    have hof := hcall.callOf hph
    unfold CallOf at hof ⊢
    rwa [← hid, ← htrip, ← hpayload]
  refine hnext.answer fun d tripId hid hs => ?_
  obtain rfl : c.tripId = tripId := Option.some.inj (hcall.tripId.symm.trans hid)
  obtain ⟨item, token, hsend, hr⟩ := hcall.sent d hs
  refine ⟨item, token, hsend, hr, ?_⟩
  obtain ⟨hq, hkey⟩ := hph.item hsend hr hid
  obtain ⟨hp, -, -, hcred⟩ := request?_eq_some hr
  rw [← hcall.payload] at hp
  obtain ⟨token', hcred', hholder⟩ := hcall.token
  obtain rfl : token = token' := Option.some.inj (hcred.symm.trans hcred')
  rcases Commute.handle_cases st.lib h.keys.wellFormed c claimedAt receivedAt with
    ⟨-, hunknown, -⟩ | ⟨⟨row, hrow, hne⟩, hresult⟩ | ⟨-, sha, hsha, hresult⟩ |
      ⟨-, -, db', hresult, hins⟩
  · -- the tester is known
    obtain ⟨row, hrow, hrowid, -⟩ := hholder
    rw [← hrowid, h.keys.token?_eq hrow] at hunknown
    cases hunknown
  · -- the trip was claimed with another token
    obtain ⟨hmem, hrowid⟩ := Commute.mem_of_trip? hrow
    obtain ⟨first, token', hsend', hkey', hholder'⟩ := h.trips row hmem d (hrowid ▸ hs)
    refine Or.inr (Or.inr (Or.inl ⟨by rw [hresult]; rfl, first, item, token', token, hsend', hsend,
      hkey'.trans (hrowid.trans hkey.symm), rfl, fun htoken => hne ?_⟩))
    exact (htoken ▸ hholder').eq h.keys hholder
  · -- the key is taken, by the item itself
    rw [← hkey] at hsha
    obtain rfl := h.digest hph hq hp hsha
    rw [hresult, if_pos rfl]
    exact Or.inl ⟨Or.inl (Commute.response_replayed_status c), _, hp, hsha⟩
  · rw [hresult]
    refine Or.inl ⟨Or.inr (Commute.response_created_status c), _, hp, ?_⟩
    rw [hkey]
    exact hins.held

end Service

end RoutePlanner.Delivery
