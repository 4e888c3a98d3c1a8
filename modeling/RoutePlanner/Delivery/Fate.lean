import RoutePlanner.Delivery.Provenance

/-!
# What becomes of a trace

Over every run of the phones, the network and the ingest: any interleaving, requests that are lost,
repeated or late, answers that are lost, phones and the service killed at any point, tokens issued
and revoked, traces purged.

* `step_ok`, `run_ok`: the invariant of an event and of a run.
* **`no_lost_update`**: what has become of an item that was queued.
* **`answers_ok`**: how the service answers a phone. It never answers 409 or 500.
* **`server_agrees`**: what the service holds of a trip is what the phone queued, once, and private.
-/

namespace RoutePlanner.Delivery

open RoutePlanner.Lib RoutePlanner.Recorder

variable {D K : Type} [Field K] [LinearOrder K]

/-! ## The invariant -/

section Invariant

variable (st : Setting K)

/-- The service holds the item, or has refused it for good. -/
def Settled (db : Commute.Db K) (L : List (Effect K)) (i : OutboxItem K) : Prop :=
  Held st db i ∨ TwoTokens L i.key.tripId ∨ ¬ i.body.Valid st.encode

/-- A write that deletes a key: `forget`, or the item under it is settled. -/
def DeleteOk (db : Commute.Db K) (L : List (Effect K)) (e : Effect K) (key : Key) : Prop :=
  (∃ ops, e = .apply ops true ∧ ops.settings = some none) ∨
    ∃ i ∈ queuedItems L, i.key = key ∧ Settled st db L i

/-- What every reachable state satisfies. -/
structure Ok [FloorRing K] (s : State D K) : Prop where
  ledger : ∀ d, WorldLedger (s.phones d)
  world : ∀ d, WorldOk st.opts (s.phones d)
  waiting : ∀ d, Waiting (s.phones d).log (s.phones d).disk
  phones : Phones st fun d => (s.phones d).log
  apart : ∀ d d' tripId, Started (s.phones d).log tripId → Started (s.phones d').log tripId → d = d'
  provenance : Provenance st (fun d => (s.phones d).log) s.db s.calls s.answers
  deletes : ∀ d, ∀ e ∈ (s.phones d).log, ∀ key ∈ e.deletes,
    DeleteOk st s.db (s.phones d).log e key

end Invariant

section Steps

variable {st : Setting K} {s : State D K} {db db' : Commute.Db K} {L es : List (Effect K)}
  {i : OutboxItem K} {e : Effect K} {key : Key}

theorem Settled.mono (h : Settled st db L i) : Settled st db (L ++ es) i :=
  h.imp_right fun h => h.imp_left TwoTokens.mono

theorem DeleteOk.mono (h : DeleteOk st db L e key) : DeleteOk st db (L ++ es) e key :=
  h.imp_right fun ⟨i, hi, hkey, hs⟩ => ⟨i, subset_queuedItems_append hi, hkey, hs.mono⟩

theorem DeleteOk.kept (hk : Commute.Kept db db') (h : DeleteOk st db L e key) :
    DeleteOk st db' L e key :=
  h.imp_right fun ⟨i, hi, hkey, hs⟩ => ⟨i, hi, hkey, hs.imp_left (Held.kept hk)⟩

/-- An answer that is final settles the item. -/
theorem AnswerOk.settled {status : ℕ} (h : AnswerOk st db L i status)
    (hfinal : classify status = .done ∨ classify status = .permanent) : Settled st db L i := by
  rcases h with ⟨-, h⟩ | rfl | ⟨-, h⟩ | ⟨-, h⟩
  · exact Or.inl h
  · rcases hfinal with h | h <;> exact absurd h (by decide)
  · exact Or.inr (Or.inl h)
  · exact Or.inr (Or.inr h)

variable [FloorRing K]

theorem ok_init [IsStrictOrderedRing K] : Ok st (State.init : State D K) where
  ledger _ := worldLedger_init
  world _ := Recorder.run_ok st.opts []
  waiting _ := waiting_nil _
  phones :=
    { ledger := fun _ => ledgerOk_nil
      sendable := fun _ _ he => absurd he List.not_mem_nil
      uuid := fun _ _ ⟨_, h⟩ => absurd h List.not_mem_nil }
  apart _ _ _ h := absurd h fun ⟨_, h⟩ => absurd h List.not_mem_nil
  provenance := provenance_init _
  deletes _ _ he := absurd he List.not_mem_nil

/-- The service goes on. -/
theorem Ok.serve (h : Ok st s) {s' : State D K} (hphones : s'.phones = s.phones)
    (hk : Commute.Kept s.db s'.db)
    (hp : Provenance st (fun d => (s.phones d).log) s'.db s'.calls s'.answers) : Ok st s' := by
  obtain ⟨h1, h2, h3, h4, h5, -, h7⟩ := h
  rw [← hphones] at h1 h2 h3 h4 h5 hp h7
  exact ⟨h1, h2, h3, h4, h5, hp, fun d e he key hkey => (h7 d e he key hkey).kept hk⟩

/-- The item in flight has been answered for good. -/
theorem Ok.settled (h : Ok st s) {d : D} {mem : Mem K} (hmem : mem ∈ (s.phones d).mem)
    {item : OutboxItem K} {token : String} (hd : mem.drain = .sending item token) {status : ℕ}
    (ha : Answered st s item token status)
    (hfinal : classify status = .done ∨ classify status = .permanent) :
    item ∈ queuedItems (s.phones d).log ∧ Settled st s.db (s.phones d).log item := by
  have hq : item ∈ queuedItems (s.phones d).log :=
    ((h.ledger d).mem mem hmem).drain item (by rw [hd]; exact List.mem_singleton_self _)
  refine ⟨hq, ?_⟩
  obtain ⟨p, hp, hr, rfl⟩ := ha
  have hid := (request?_eq_some hr).2.1
  have hstarted := (h.phones.ledger d).queued item hq
  have huuid := h.phones.uuid d _ hstarted
  obtain ⟨item', token', hsend, hr', hok⟩ :=
    h.provenance.answers p hp d item.key.tripId (hid ▸ huuid) hstarted
  obtain rfl : item' = item := (h.phones.ledger d).eq_of_key
    ((h.phones.ledger d).sent _ _ hsend) hq (key_of_request? hr' hr)
  exact hok.settled hfinal

variable [DecidableEq D] [IsStrictOrderedRing K]

omit [DecidableEq D] [IsStrictOrderedRing K] in
/-- The log grows. -/
theorem log_grows (w : World K) (e : Recorder.Event K) :
    ∃ es, (Recorder.step st.opts w e).log = w.log ++ es := by
  rcases step_cases w e with ⟨-, hlog⟩ | ⟨mem, hmem, out, -, hstep⟩
  · exact ⟨[], by rw [hlog, List.append_nil]⟩
  · exact ⟨out.2, by rw [hstep]; rfl⟩

omit [DecidableEq D] [IsStrictOrderedRing K] [FloorRing K] in
/-- What a phone may assume of its next event. -/
theorem freshId_of_allowed {d : D} {e : Recorder.Event K} (ha : Allowed st s (.phone d e)) :
    Recorder.FreshId (s.phones d) e := by
  cases e with
  | opStep env => exact ha.phones d
  | _ => trivial

omit [DecidableEq D] [IsStrictOrderedRing K] in
/-- A trip that the phone starts anew is unseen, and no other phone's. -/
theorem Ok.started (h : Ok st s) {d : D} {e : Recorder.Event K}
    (ha : Allowed st s (.phone d e)) {tripId : String}
    (hs : Started (Recorder.step st.opts (s.phones d) e).log tripId) :
    Started (s.phones d).log tripId ∨ FreshId st s tripId := by
  refine (Recorder.step_started (h.ledger d) hs).imp_right fun ⟨env, he, hid⟩ => ?_
  subst he hid
  exact ha

omit [DecidableEq D] [IsStrictOrderedRing K] in
/-- **A write of a phone deletes what is settled.** -/
theorem Ok.deleteOk (h : Ok st s) {d : D} {e : Recorder.Event K}
    (ha : Allowed st s (.phone d e)) {mem : Mem K} (hmem : mem ∈ (s.phones d).mem) {out : Out K}
    (hworks : Works st.opts (s.phones d).disk mem e out) :
    ∀ e' ∈ out.2, ∀ key ∈ e'.deletes, DeleteOk st s.db (s.phones d).log e' key := by
  intro e' he' key hkey
  cases hworks with
  | op hmove => exact Or.inl (deletes_of_move hmove he' hkey)
  | drain env =>
    obtain ⟨item, token, status, hd, hreply, hfinal, rfl⟩ := deletes_of_drainStep he' hkey
    have hanswered := ha mem hmem item token hd status hreply hfinal
    obtain ⟨hq, hsettled⟩ := h.settled hmem hd hanswered hfinal
    exact Or.inr ⟨item, hq, rfl, hsettled⟩
  | timer =>
    rw [(timerStep_sends e' he').deletes] at hkey
    exact absurd hkey List.not_mem_nil

/-- **A phone goes on.** -/
theorem Ok.phone (h : Ok st s) {d : D} {e : Recorder.Event K} (ha : Allowed st s (.phone d e)) :
    Ok st (step st s (.phone d e)) := by
  have hstep : ∀ d', (step st s (.phone d e)).phones d' =
      if d' = d then Recorder.step st.opts (s.phones d) e else s.phones d' := by
    intro d'
    show Function.update s.phones d _ d' = _
    by_cases hd : d' = d
    · rw [hd, Function.update_self, if_pos rfl]
    · rw [Function.update_of_ne hd, if_neg hd]
  -- a property of every phone is kept if this phone keeps it
  have hforall : ∀ P : World K → Prop, (∀ d', P (s.phones d')) →
      P (Recorder.step st.opts (s.phones d) e) → ∀ d', P ((step st s (.phone d e)).phones d') := by
    intro P hP hnew d'
    rw [hstep]
    split_ifs
    · exact hnew
    · exact hP d'
  have hstarted : ∀ d' tripId, Started ((step st s (.phone d e)).phones d').log tripId →
      Started (s.phones d').log tripId ∨ d' = d ∧ FreshId st s tripId := by
    intro d' tripId hs
    rw [hstep] at hs
    split_ifs at hs with hd
    · subst hd
      exact (h.started ha hs).imp_right fun hfresh => ⟨rfl, hfresh⟩
    · exact Or.inl hs
  have hledger := hforall WorldLedger h.ledger (step_ledger (freshId_of_allowed ha) (h.ledger d))
  refine ⟨hledger, hforall _ h.world (Recorder.step_ok (h.world d)),
    hforall (fun w => Waiting w.log w.disk) h.waiting (step_waiting e (h.waiting d)),
    ⟨fun d' => (hledger d').log, ?_, ?_⟩, ?_, ?_, ?_⟩
  · exact hforall (fun w => ∀ e ∈ w.log, e.Sendable st.opts) h.phones.sendable
      (step_sendable (h.phones.sendable d))
  · intro d' tripId hs
    rcases hstarted d' tripId hs with hs | ⟨-, hfresh⟩
    · exact h.phones.uuid d' tripId hs
    · exact hfresh.uuid
  · intro d₁ d₂ tripId h₁ h₂
    rcases hstarted d₁ tripId h₁ with h₁ | ⟨rfl, hfresh⟩
    · rcases hstarted d₂ tripId h₂ with h₂ | ⟨-, hfresh⟩
      · exact h.apart d₁ d₂ tripId h₁ h₂
      · exact absurd h₁ (hfresh.phones d₁)
    · rcases hstarted d₂ tripId h₂ with h₂ | ⟨rfl, -⟩
      · exact absurd h₂ (hfresh.phones d₂)
      · rfl
  · refine h.provenance.grow (fun d' => ?_) fun d' tripId hs => ?_
    · show ∃ es, ((step st s (.phone d e)).phones d').log = (s.phones d').log ++ es
      rw [hstep]
      split_ifs with hd
      · subst hd
        exact log_grows _ e
      · exact ⟨[], (List.append_nil _).symm⟩
    · refine (hstarted d' tripId hs).imp_right fun ⟨_, hfresh⟩ => ?_
      exact ⟨hfresh.unseen.db, hfresh.unseen.calls, hfresh.unseen.answers⟩
  · refine hforall (fun w => ∀ e ∈ w.log, ∀ key ∈ e.deletes, DeleteOk st s.db w.log e key)
      h.deletes ?_
    rcases step_cases (s.phones d) e with ⟨-, hlog⟩ | ⟨mem, hmem, out, hworks, hout⟩
    · rw [hlog]
      exact h.deletes d
    · rw [hout]
      intro e' he' key hkey
      rcases List.mem_append.mp he' with he' | he'
      · exact (h.deletes d e' he' key hkey).mono
      · exact (h.deleteOk ha hmem hworks e' he' key hkey).mono

/-- **One event.** -/
theorem step_ok (hend : ∀ e : TripEnd K, (Body.tripEnd e).Valid st.encode →
      st.opts.byteLength (.tripEnd e) ≤ Commute.maxBodyBytes) {e : Event D K}
    (ha : Allowed st s e) (h : Ok st s) : Ok st (step st s e) := by
  have hp := h.provenance
  cases e with
  | phone d e => exact h.phone ha
  | arrive r =>
    obtain ⟨herror, hok⟩ := hp.arrive h.phones hend ha
    unfold step
    simp only
    split
    · rename_i response hadmit
      exact h.serve rfl (Commute.Kept.refl _) (herror response hadmit)
    · rename_i call hadmit
      exact h.serve rfl (Commute.Kept.refl _) (hok call hadmit)
  | write n claimedAt receivedAt =>
    unfold step
    simp only
    split
    · exact h
    · rename_i r call hn
      have hwrite := hp.write h.phones (hp.calls (r, call) (List.mem_of_getElem? hn)) claimedAt
        receivedAt
      refine h.serve rfl ?_ (hwrite.lose n)
      show Commute.Kept s.db (call.handle st.lib s.db claimedAt receivedAt).1
      rw [Commute.handle_fst]
      exact (Commute.step_kept hp.keys.wellFormed _).1
  | lose n => exact h.serve rfl (Commute.Kept.refl _) (hp.lose n)
  | operate op =>
    exact h.serve rfl (Commute.step_kept hp.keys.wellFormed op).1 (hp.operate ha)

/-- **Every run.** -/
theorem run_ok (st : Setting K) (hend : ∀ e : TripEnd K, (Body.tripEnd e).Valid st.encode →
      st.opts.byteLength (.tripEnd e) ≤ Commute.maxBodyBytes) {events : List (Event D K)}
    (h : Along (step st) (Allowed st) .init events) : Ok st (run st events) :=
  h.invariant (fun _ _ => step_ok hend) ok_init

end Steps

/-! ## A chunk that arrives twice -/

section Delivery

/-- The id of the trip below. -/
def tripUuid : String := "6f1c0d3e-58a2-4b0e-9c41-0d6a5b1f2e37"

/-- The id at hand elsewhere. -/
def otherUuid : String := "b1d6c7a0-02f4-4c7d-8a35-7e9f10c2d4b6"

/-- The text of the chunk below. -/
def chunkText : String :=
  "\x7b\"artifacts\":[],\"fixes\":[\x7b\"accuracy_m\":5.0,\"heading_deg\":null,\"lat\":0.005," ++
    "\"lon\":0.0,\"speed_mps\":null,\"t\":1600000060000\x7d]\x7d"

/-- `float.__repr__`, SHA-256, UUIDs and the lengths of bodies, on what is needed. -/
def phoneSetting : Setting ℚ where
  opts := { rideOpts with
    byteLength := fun
      | .chunk _ => 117
      | .tripEnd _ => 134 }
  encode _ := []
  lib :=
    { floatRepr := fun x => if x = 5 then "5.0" else if x = 0 then "0.0" else
        if x = 5 / 1000 then "0.005" else toString x
      sha256 := fun text => if text = "srt_a" then
          "8d5a1936d2ec4859c44cf0f7efa014fb764310495c06a17816772067247287f8"
        else if text = chunkText then
          "a6de44c984118021abf2b5707c4c3018d6ecc99466b9f3cb4e5fdf2d02fbe87a"
        else text }
  fw := ⟨fun s => if s = tripUuid ∨ s = otherUuid then some s else none, fun _ => []⟩

/-- A call of the first phone in the year 2020, and the steps it takes. -/
def phoneCall (op : Op ℚ) (steps : ℕ) (tripId : String) : List (Event Bool ℚ) :=
  .phone false (.call op) :: List.replicate steps
    (.phone false (.opStep { rideEnv with now := 1600000000000, tripId := tripId }))

/-- The upload pass of the first phone goes on. -/
def phoneDrain (reply : Option ℕ) : Event Bool ℚ :=
  .phone false (.drainStep ⟨true, 1600000130000, 0, reply, none⟩)

/-- A reading on the meridian. -/
def phoneFix (t : ℤ) (lat : ℚ) : RawFix ℚ := rideFix (1600000000000 + t) lat

/-- The request of the chunk that is sealed. -/
def chunkRequest : Commute.Request ℚ where
  tripId := tripUuid
  payload := .chunk 0 ⟨[⟨1600000060000, 5 / 1000, 0, none, 5, none⟩], []⟩
  bytes := 117
  credentials := some "srt_a"

/-- The first phone seals a chunk, which arrives twice, and ends the trip. -/
def delivery : List (Event Bool ℚ) :=
  .operate (.issue "a" "srt_a" 1590000000000) :: .phone false .launch ::
    phoneCall (.optIn "srt_a") 4 otherUuid ++
    phoneCall (.startTrip shortRoute none) 1 tripUuid ++
    [.phone false (.opStep { rideEnv with tripId := otherUuid })] ++
    phoneCall (.addFix (phoneFix 0 0)) 2 otherUuid ++
    phoneCall (.addFix (phoneFix 60000 (5 / 1000))) 2 otherUuid ++
    phoneCall (.addFix (phoneFix 125000 (9 / 1000))) 2 otherUuid ++
    [.arrive chunkRequest, .arrive chunkRequest, .write 0 1600000126000 1600000126000,
      .write 0 1600000127000 1600000127000, phoneDrain (some 201), phoneDrain none] ++
    phoneCall (.endTrip true) 1 otherUuid

theorem phoneSetting_end (e : TripEnd ℚ) (_ : (Body.tripEnd e).Valid phoneSetting.encode) :
    phoneSetting.opts.byteLength (.tripEnd e) ≤ Commute.maxBodyBytes :=
  show 134 ≤ Commute.maxBodyBytes by decide

end Delivery

/-! ## What every run promises -/

section Runs

variable [DecidableEq D] [IsStrictOrderedRing K] [FloorRing K]

/-- `forget` has deleted the item. -/
def Forgotten (L : List (Effect K)) (key : Key) : Prop :=
  ∃ ops, Effect.apply ops true ∈ L ∧ ops.settings = some none ∧ key ∈ ops.deleteOutbox

/-- **No update is lost.** An item that a phone has queued is still in its storage, or the service
holds it; unless the user has forgotten it, the body is not valid, or the trip was uploaded with two
tokens. -/
theorem no_lost_update (st : Setting K) (hend : ∀ e : TripEnd K, (Body.tripEnd e).Valid st.encode →
      st.opts.byteLength (.tripEnd e) ≤ Commute.maxBodyBytes) (events : List (Event D K))
    (h : Along (step st) (Allowed st) .init events) :
    ∀ d, ∀ i ∈ queuedItems ((run st events).phones d).log,
      i ∈ ((run st events).phones d).disk.outbox ∨ Held st (run st events).db i ∨
        Forgotten ((run st events).phones d).log i.key ∨ ¬ i.body.Valid st.encode ∨
        TwoTokens ((run st events).phones d).log i.key.tripId := by
  intro d i hi
  have hok := run_ok st hend h
  have hlog := hok.phones.ledger d
  rcases hok.waiting d i hi with ⟨j, hj, hkey⟩ | ⟨e, he, hkey⟩
  · have hqueued := (hok.ledger d).disk.outbox j hj
    exact Or.inl (hlog.eq_of_key hqueued hi hkey ▸ hj)
  · right
    rcases hok.deletes d e he i.key hkey with ⟨ops, rfl, hops⟩ | ⟨j, hj, hjkey, hsettled⟩
    · exact Or.inr (Or.inl ⟨ops, he, hops, hkey⟩)
    · obtain rfl := hlog.eq_of_key hj hi hjkey
      rcases hsettled with h | h | h
      · exact Or.inl h
      · exact Or.inr (Or.inr (Or.inr h))
      · exact Or.inr (Or.inr (Or.inl h))

/-- The chunk was queued, sent, stored and deleted; the end waits in the outbox. -/
theorem no_lost_update_delivery :
    (queuedItems ((run phoneSetting delivery).phones false).log).map (·.key) =
        [⟨tripUuid, .chunk 0⟩, ⟨tripUuid, .tripEnd⟩] ∧
      ∀ i ∈ queuedItems ((run phoneSetting delivery).phones false).log,
        i ∈ ((run phoneSetting delivery).phones false).disk.outbox ∨
          Held phoneSetting (run phoneSetting delivery).db i ∨
          Forgotten ((run phoneSetting delivery).phones false).log i.key ∨
          ¬ i.body.Valid phoneSetting.encode ∨
          TwoTokens ((run phoneSetting delivery).phones false).log i.key.tripId :=
  ⟨by decide +kernel,
    no_lost_update phoneSetting phoneSetting_end delivery (by decide +kernel) false⟩

/-- **How the service answers a phone.** A request for an item is answered 200 or 201 once the
service holds it, 401, 404 for a trip that was uploaded with two tokens, or 413 or 422 for a body
that is not valid. It is never told of a conflict, and nothing raises. -/
theorem answers_ok (st : Setting K) (hend : ∀ e : TripEnd K, (Body.tripEnd e).Valid st.encode →
      st.opts.byteLength (.tripEnd e) ≤ Commute.maxBodyBytes) (events : List (Event D K))
    (h : Along (step st) (Allowed st) .init events) :
    ∀ d item token, Effect.send item token ∈ ((run st events).phones d).log →
      ∀ p ∈ (run st events).answers, item.request? st.opts st.encode token = some p.1 →
        AnswerOk st (run st events).db ((run st events).phones d).log item p.2.status := by
  intro d item token hsend p hp hr
  have hok := run_ok st hend h
  have hlog := hok.phones.ledger d
  have hq := hlog.sent item token hsend
  have hstarted := hlog.queued item hq
  have hid : st.fw.uuid p.1.tripId = some item.key.tripId := by
    rw [(request?_eq_some hr).2.1]
    exact hok.phones.uuid d _ hstarted
  obtain ⟨item', token', hsend', hr', hanswer⟩ := hok.provenance.answers p hp d _ hid hstarted
  obtain rfl := hlog.eq_of_key (hlog.sent _ _ hsend') hq (key_of_request? hr' hr)
  exact hanswer

/-- The first request is answered 201, the second 200. -/
theorem answers_ok_delivery :
    (run phoneSetting delivery).answers.map (·.2.status) = [201, 200] ∧
      ∀ item token, Effect.send item token ∈ ((run phoneSetting delivery).phones false).log →
        ∀ p ∈ (run phoneSetting delivery).answers,
          item.request? phoneSetting.opts phoneSetting.encode token = some p.1 →
          AnswerOk phoneSetting (run phoneSetting delivery).db
            ((run phoneSetting delivery).phones false).log item p.2.status :=
  ⟨by decide +kernel,
    answers_ok phoneSetting phoneSetting_end delivery (by decide +kernel) false⟩

/-- What a run promises of the service's tables. -/
structure ServerAgrees [FloorRing K] (st : Setting K) (s : State D K) : Prop where
  /-- Nothing is stored twice. -/
  keys : s.db.KeysHold
  /-- A chunk of a phone's trip is one that the phone queued, under its number; its body is the
  text of that chunk, or purged. Every place in it is apart from what was private to the trip. -/
  chunks : ∀ row ∈ s.db.chunks, ∀ d, Started (s.phones d).log row.tripId →
    ∃ i ∈ queuedItems (s.phones d).log, ∃ n c, i.key = ⟨row.tripId, .chunk n⟩ ∧ row.seq = n ∧
      i.body = .chunk c ∧ row.fixCount = c.fixes.length ∧
      (row.body = some ((c.wire st.encode).text st.lib) ∨ row.body = none) ∧
      ∃ L t sealing L', (s.phones d).log = L ++ .sealed t sealing :: L' ∧
        t.tripId = row.tripId ∧ ChunkPrivate st.opts L t c
  /-- An end of a phone's trip is the one that the phone queued. -/
  ends : ∀ row ∈ s.db.ends, ∀ d, Started (s.phones d).log row.tripId →
    ∃ i ∈ queuedItems (s.phones d).log, ∃ e, i.key = ⟨row.tripId, .tripEnd⟩ ∧
      i.body = .tripEnd e ∧ row = Commute.endRow st.lib row.tripId e.wire row.receivedAt
  /-- The trip belongs to a tester whose token the phone has used for it. -/
  trips : ∀ row ∈ s.db.trips, ∀ d, Started (s.phones d).log row.tripId →
    ∃ item token, Effect.send item token ∈ (s.phones d).log ∧ item.key.tripId = row.tripId ∧
      Holder st.lib s.db token row.tokenId
  /-- No two phones share a trip. -/
  apart : ∀ d d' tripId, Started (s.phones d).log tripId → Started (s.phones d').log tripId → d = d'

/-- **What the service holds of a trip is what its phone queued**: once, as it was, and private. -/
theorem server_agrees (st : Setting K) (hend : ∀ e : TripEnd K, (Body.tripEnd e).Valid st.encode →
      st.opts.byteLength (.tripEnd e) ≤ Commute.maxBodyBytes) (events : List (Event D K))
    (h : Along (step st) (Allowed st) .init events) : ServerAgrees st (run st events) := by
  have hok := run_ok st hend h
  have hp := hok.provenance
  refine ⟨hp.keys, fun row hrow d hs => ?_, fun row hrow d hs => ?_, hp.trips, hok.apart⟩
  · obtain ⟨i, token, n, c, at', hsend, hkey, hbody, hkeeps⟩ := hp.chunks row hrow d hs
    have hq := (hok.phones.ledger d).sent i token hsend
    obtain ⟨L, t, sealing, L', hlog, hid, -, hprivate⟩ := (hok.world d).chunkPrivate hq hbody
    refine ⟨i, hq, n, c, hkey, hkeeps.seq, hbody, ?_, hkeeps.body, L, t, sealing, L', hlog, ?_,
      hprivate⟩
    · rw [hkeeps.fixCount]
      simp [Commute.chunkRow, TraceChunk.wire]
    · rw [hid, hkey]
  · obtain ⟨i, token, e, at', hsend, hkey, hbody, hrow'⟩ := hp.ends row hrow d hs
    refine ⟨i, (hok.phones.ledger d).sent i token hsend, e, hkey, hbody, ?_⟩
    have hat : row.receivedAt = at' := by rw [hrow']; rfl
    rw [hat]
    exact hrow'

/-- One row for the chunk that arrived twice. -/
theorem server_agrees_delivery :
    (run phoneSetting delivery).db.chunks.map (fun row => (row.tripId, row.seq)) =
        [(tripUuid, 0)] ∧
      ServerAgrees phoneSetting (run phoneSetting delivery) :=
  ⟨by decide +kernel,
    server_agrees phoneSetting phoneSetting_end delivery (by decide +kernel)⟩

end Runs

end RoutePlanner.Delivery
