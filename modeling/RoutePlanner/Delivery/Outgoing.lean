import RoutePlanner.Commute.Service
import RoutePlanner.Recorder.Wire

/-!
# What leaves a phone, and what its storage keeps

The items of an outbox as requests to the ingest, and how long an item stays in the storage. Nothing
here depends on what the server does.

* `step_cases`: what one event does to the storage and the log.
* `step_sendable`: an item that is put in the outbox is within the limits of its endpoint.
* `step_waiting`: an item that was queued is stored until a write deletes its key.
* `deletes_of_move`, `deletes_of_drainStep`: which writes delete keys.
* `step_started`: where the ids of the trips come from.
-/

namespace RoutePlanner.Recorder

open RoutePlanner.Lib

variable {K : Type} [Field K] [LinearOrder K]

/-! ## Requests -/

/-- The number in a chunk's path. -/
def Slot.number : Slot → Option ℤ
  | .chunk n => some n
  | .tripEnd => none

theorem Slot.number_injective : Function.Injective Slot.number := by
  intro a b h
  cases a <;> cases b <;> simp_all [Slot.number]

section Requests

variable (opts : RecorderOptions K) (encode : RouteAlternative K → List (String × Commute.Json K))

/-- The body of an item, as its endpoint reads it. -/
def OutboxItem.payload? (i : OutboxItem K) : Option (Commute.Payload K) :=
  match i.key.slot, i.body with
  | .chunk n, .chunk c => some (.chunk n (c.wire encode))
  | .tripEnd, .tripEnd e => some (.tripEnd e.wire)
  | _, _ => none

/-- The request of `send`. -/
def OutboxItem.request? (i : OutboxItem K) (token : String) : Option (Commute.Request K) :=
  (i.payload? encode).map fun payload =>
    { tripId := i.key.tripId, payload, bytes := opts.byteLength i.body, credentials := some token }

/-- The item is within the limits of its endpoint. -/
def OutboxItem.Sendable (i : OutboxItem K) : Prop :=
  match i.key.slot, i.body with
  | .chunk n, .chunk c => n ≤ maxSeq ∧ opts.byteLength (.chunk c) ≤ maxBodyBytes
  | .tripEnd, .tripEnd _ => True
  | _, _ => False

end Requests

section Payload

variable {opts : RecorderOptions K} {i : OutboxItem K}

/-- An item that is sendable has a request. -/
theorem OutboxItem.Sendable.payload (h : i.Sendable opts)
    (encode : RouteAlternative K → List (String × Commute.Json K)) :
    ∃ payload, i.payload? encode = some payload ∧ payload.slot = i.key.slot.number ∧
      (payload.Valid ↔ i.body.Valid encode) := by
  unfold Sendable at h
  unfold payload?
  split at h
  · rename_i n c hslot hbody
    refine ⟨.chunk n (c.wire encode), rfl, ?_, ?_⟩
    · rw [hslot]
      rfl
    · rw [hbody]
      have hseq : (n : ℤ) ≤ Commute.maxSeq := by
        have := h.1
        unfold maxSeq at this
        unfold Commute.maxSeq
        omega
      exact ⟨fun hv => hv.2, fun hv => ⟨⟨Int.natCast_nonneg n, hseq⟩, hv⟩⟩
  · rename_i e hslot hbody
    refine ⟨.tripEnd e.wire, rfl, ?_, ?_⟩
    · rw [hslot]
      rfl
    · rw [hbody]
      exact Iff.rfl
  · exact absurd h id

end Payload

/-! ## Limits -/

/-- What an effect puts in the outbox is sendable. -/
def Effect.Sendable (opts : RecorderOptions K) : Effect K → Prop
  | .apply ops _ => ∀ i ∈ ops.putOutbox, i.Sendable opts
  | _ => True

section Limits

variable {opts : RecorderOptions K} {now : ℕ → ℤ} {s : Sealing K} {env : Env K}

theorem sendable_sealChunk {c : TraceChunk K} (h : ∀ i ∈ s.into, i.Sendable opts) :
    ∀ i ∈ (sealChunk opts now s c).into, i.Sendable opts := by
  unfold sealChunk
  split_ifs with hseq hbytes
  · exact h
  · exact h
  · intro i hi
    rcases List.mem_append.mp hi with hi | hi
    · exact h i hi
    · rw [List.mem_singleton.mp hi]
      exact ⟨by omega, by omega⟩

variable [FloorRing K]

theorem sendable_sealArtifact {fa : FollowedArtifact K} (h : ∀ i ∈ s.into, i.Sendable opts) :
    ∀ i ∈ (sealArtifact opts now s fa).into, i.Sendable opts := by
  unfold sealArtifact
  split
  · exact h
  · exact sendable_sealChunk h

theorem sendable_sealFixes (t : TripRecord K) :
    ∀ i ∈ (sealFixes opts now t).into, i.Sendable opts := by
  have hnone : ∀ i ∈ ([] : List (OutboxItem K)), i.Sendable opts :=
    fun _ hi => absurd hi List.not_mem_nil
  have hslices : ∀ (l : List (List (TraceFix K))) (s : Sealing K),
      (∀ i ∈ s.into, i.Sendable opts) →
      ∀ i ∈ (l.foldl (fun s fixes => sealChunk opts now s ⟨fixes, []⟩) s).into, i.Sendable opts :=
    fun l s => foldl_invariant (I := fun s : Sealing K => ∀ i ∈ s.into, i.Sendable opts)
      fun _ _ _ => sendable_sealChunk
  unfold sealFixes
  simp only
  split_ifs
  · exact hnone
  · exact hslices _ _ hnone
  · refine hslices _ _ ?_
    exact foldl_invariant (I := fun s : Sealing K => ∀ i ∈ s.into, i.Sendable opts)
      (fun _ _ _ => sendable_sealArtifact) hnone

theorem sendable_finalItems {t : TripRecord K} {arrived : Bool} {endedAt : ℤ} :
    ∀ i ∈ finalItems opts env t arrived endedAt, i.Sendable opts := by
  intro i hi
  rcases List.mem_append.mp hi with hi | hi
  · exact sendable_sealFixes t i hi
  · rw [List.mem_singleton.mp hi]
    trivial

theorem Advance.sendable {t t' : TripRecord K} {e : Effect K} (h : Advance opts env t e t' s) :
    ∀ i ∈ s.into, i.Sendable opts := by
  cases h with
  | fixSeal => exact sendable_sealFixes _
  | routeSeal => exact sendable_sealArtifact fun _ hi => absurd hi List.not_mem_nil
  | fix => exact fun _ hi => absurd hi List.not_mem_nil
  | route => exact fun _ hi => absurd hi List.not_mem_nil

end Limits

/-! ## What one event does -/

/-- The keys an effect deletes from the outbox. -/
def Effect.deletes : Effect K → List Key
  | .apply ops true => ops.deleteOutbox
  | _ => []

/-- A request leaves, or nothing. -/
def Effect.Sends (e : Effect K) : Prop := ∃ item token, e = .send item token

/-- A step of an operation, of the upload pass or of the timer. -/
inductive Works [FloorRing K] (opts : RecorderOptions K) (disk : StoredState K) (mem : Mem K) :
    Event K → Out K → Prop
  | op {env out} (h : Move opts env disk mem out) : Works opts disk mem (.opStep env) out
  | drain (env) : Works opts disk mem (.drainStep env) (drainStep opts env mem)
  | timer : Works opts disk mem .timer (timerStep opts mem)

section Steps

variable {opts : RecorderOptions K} {mem : Mem K}

theorem drainLoop_sends : ∀ e ∈ (drainLoop opts mem).2, e.Sends := by
  unfold drainLoop
  split_ifs
  · exact fun _ he => absurd he List.not_mem_nil
  · split
    · intro e he
      exact ⟨_, _, List.mem_singleton.mp he⟩
    · exact fun _ he => absurd he List.not_mem_nil

theorem flush_sends : ∀ e ∈ (flush opts mem).2, e.Sends := by
  unfold flush
  split
  · exact drainLoop_sends
  · exact fun _ he => absurd he List.not_mem_nil

theorem timerStep_sends : ∀ e ∈ (timerStep opts mem).2, e.Sends := by
  unfold timerStep
  split_ifs
  · exact flush_sends
  · exact fun _ he => absurd he List.not_mem_nil

theorem mem_deletes_apply {ops : StorageOps K} {ok : Bool} {key : Key}
    (h : key ∈ (Effect.apply ops ok).deletes) : key ∈ ops.deleteOutbox := by
  cases ok
  · exact absurd h List.not_mem_nil
  · exact h

theorem Effect.Sends.deletes {e : Effect K} (h : e.Sends) : e.deletes = [] := by
  obtain ⟨item, token, rfl⟩ := h
  rfl

/-- **The upload pass deletes the item it has sent**, once a final answer is there. -/
theorem deletes_of_drainStep {env : DrainEnv K} {e : Effect K} {key : Key}
    (he : e ∈ (drainStep opts env mem).2) (hkey : key ∈ e.deletes) :
    ∃ item token status, mem.drain = .sending item token ∧ env.reply = some status ∧
      (classify status = .done ∨ classify status = .permanent) ∧ key = item.key := by
  have hsends : ∀ {out : Out K}, (∀ e ∈ out.2, e.Sends) → e ∈ out.2 → False := by
    intro out h hmem
    rw [(h e hmem).deletes] at hkey
    exact absurd hkey List.not_mem_nil
  unfold drainStep at he
  split at he
  · exact absurd he List.not_mem_nil
  · rename_i item token hd
    unfold drainAnswer at he
    split at he
    · exact absurd he List.not_mem_nil
    · rename_i status hreply
      split at he
      · rw [List.mem_singleton.mp he] at hkey
        exact absurd hkey List.not_mem_nil
      · split at he
        · rw [List.mem_singleton.mp he] at hkey
          exact absurd hkey List.not_mem_nil
        · -- the mark in the settings deletes nothing
          rcases List.mem_pair.mp he with rfl | rfl
          · exact absurd hkey List.not_mem_nil
          · exact absurd (mem_deletes_apply hkey) List.not_mem_nil
      · rename_i htransient hunauthorized
        refine ⟨item, token, status, hd, hreply, ?_, ?_⟩
        · cases hclass : classify status with
          | done => exact Or.inl rfl
          | permanent => exact Or.inr rfl
          | transient => exact absurd hclass htransient
          | unauthorized => exact absurd hclass hunauthorized
        · rcases List.mem_pair.mp he with rfl | rfl
          · exact absurd hkey List.not_mem_nil
          · exact List.mem_singleton.mp (mem_deletes_apply hkey)
  · exact (hsends drainLoop_sends he).elim
  · rw [List.mem_singleton.mp he] at hkey
    exact absurd hkey List.not_mem_nil
  · exact absurd he List.not_mem_nil
  · rw [List.mem_singleton.mp he] at hkey
    exact absurd hkey List.not_mem_nil

variable [FloorRing K] {env : Env K} {disk : StoredState K} {out : Out K}

theorem finalize_deletes {t : TripRecord K} {arrived : Bool} {endedAt : ℤ} {next : After K} :
    ∀ e ∈ (finalize opts env mem t arrived endedAt next).2, e.deletes = [] := by
  intro e he
  rcases List.mem_pair.mp he with rfl | rfl
  · rfl
  · exact List.eq_nil_iff_forall_not_mem.mpr fun _ hk =>
      absurd (mem_deletes_apply hk) List.not_mem_nil

/-- **Of the operations, only `forget` deletes items.** -/
theorem deletes_of_move (h : Move opts env disk mem out) {e : Effect K} {key : Key}
    (he : e ∈ out.2) (hkey : key ∈ e.deletes) :
    ∃ ops, e = .apply ops true ∧ ops.settings = some none := by
  have hnone : ∀ {e : Effect K}, e.deletes = [] → key ∉ e.deletes :=
    fun h hk => absurd (h ▸ hk) List.not_mem_nil
  have hnop : ∀ {ops : StorageOps K} {ok}, ops.deleteOutbox = [] →
      key ∉ (Effect.apply ops ok).deletes :=
    fun h hk => absurd (h ▸ mem_deletes_apply hk) List.not_mem_nil
  cases h with
  | rest hc => exact absurd he List.not_mem_nil
  | thrown hc =>
    rw [List.mem_singleton.mp he] at hkey
    exact absurd hkey List.not_mem_nil
  | wait hp hl hc => exact absurd he List.not_mem_nil
  | flush hp hl => exact absurd hkey (hnone (flush_sends e he).deletes)
  | closeOpen hp hl ht arrived hn hop => exact absurd hkey (hnone (finalize_deletes e he))
  | closeLoaded hp => exact absurd hkey (hnone (finalize_deletes e he))
  | startTrip hp hl hop =>
    rcases List.mem_pair.mp he with rfl | rfl
    · exact absurd hkey List.not_mem_nil
    · exact absurd hkey (hnop rfl)
  | advance hp hl hc hrec ht hop ha =>
    rcases List.mem_cons.mp he with rfl | he
    · cases ha <;> exact absurd hkey List.not_mem_nil
    · rcases List.mem_pair.mp he with rfl | rfl
      · exact absurd hkey List.not_mem_nil
      · exact absurd hkey (hnop rfl)
  | settings hp hl hs hc =>
    rw [List.mem_singleton.mp he] at hkey
    exact absurd hkey (hnop rfl)
  | forget hc =>
    obtain rfl := List.mem_singleton.mp he
    cases hok : env.ok with
    | true => exact ⟨_, rfl, rfl⟩
    | false =>
      rw [hok] at hkey
      exact absurd hkey List.not_mem_nil

/-- **What an operation queues is sendable.** -/
theorem sendable_of_move (h : Move opts env disk mem out) : ∀ e ∈ out.2, e.Sendable opts := by
  have hnop : ∀ {ops : StorageOps K} {ok}, ops.putOutbox = [] →
      (Effect.apply ops ok).Sendable opts :=
    fun h i hi => absurd (h ▸ hi) List.not_mem_nil
  intro e he
  cases h with
  | rest hc => exact absurd he List.not_mem_nil
  | thrown hc =>
    rw [List.mem_singleton.mp he]
    trivial
  | wait hp hl hc => exact absurd he List.not_mem_nil
  | flush hp hl =>
    obtain ⟨item, token, rfl⟩ := flush_sends e he
    trivial
  | closeOpen hp hl ht arrived hn hop =>
    rcases List.mem_pair.mp he with rfl | rfl
    · trivial
    · exact sendable_finalItems
  | closeLoaded hp =>
    rcases List.mem_pair.mp he with rfl | rfl
    · trivial
    · exact sendable_finalItems
  | startTrip hp hl hop =>
    rcases List.mem_pair.mp he with rfl | rfl
    · trivial
    · exact hnop rfl
  | advance hp hl hc hrec ht hop ha =>
    rcases List.mem_cons.mp he with rfl | he
    · cases ha <;> trivial
    · rcases List.mem_pair.mp he with rfl | rfl
      · trivial
      · exact ha.sendable
  | settings hp hl hs hc =>
    rw [List.mem_singleton.mp he]
    exact hnop rfl
  | forget hc =>
    rw [List.mem_singleton.mp he]
    exact hnop rfl

omit [FloorRing K] in
theorem sendable_of_upload (h : Upload mem out) : ∀ e ∈ out.2, e.Sendable opts := by
  have hnop : ∀ {ops : StorageOps K} {ok}, ops.putOutbox = [] →
      (Effect.apply ops ok).Sendable opts :=
    fun h i hi => absurd (h ▸ hi) List.not_mem_nil
  intro e he
  cases h with
  | quiet hb hs ho hd hdel hes =>
    rcases hes e he with rfl | ⟨token, status, rfl⟩ <;> trivial
  | send hb hs hs' ho hi hd =>
    rw [List.mem_singleton.mp he]
    trivial
  | delete hb hs ho hd hd' =>
    rcases List.mem_pair.mp he with rfl | rfl
    · trivial
    · exact hnop rfl
  | mark hb hd hs hs' ho hd' =>
    rcases List.mem_pair.mp he with rfl | rfl
    · trivial
    · exact hnop rfl
  | busy hb hs ho hd => exact absurd he List.not_mem_nil

/-- **What one event does to the storage and the log**: nothing, or what a step emits. -/
theorem step_cases (w : World K) (e : Event K) :
    ((step opts w e).disk = w.disk ∧ (step opts w e).log = w.log) ∨
    ∃ mem ∈ w.mem, ∃ out, Works opts w.disk mem e out ∧ step opts w e = w.emit out := by
  unfold step
  split
  · exact Or.inl ⟨rfl, rfl⟩
  · exact Or.inl ⟨rfl, rfl⟩
  · exact Or.inl ⟨rfl, rfl⟩
  · rename_i mem env hmem
    exact Or.inr ⟨mem, hmem, _, .op opStep_move, rfl⟩
  · rename_i mem env hmem
    exact Or.inr ⟨mem, hmem, _, .drain env, rfl⟩
  · rename_i mem hmem
    exact Or.inr ⟨mem, hmem, _, .timer, rfl⟩
  · exact Or.inl ⟨rfl, rfl⟩
  · exact Or.inl ⟨rfl, rfl⟩

theorem step_sendable {w : World K} {e : Event K} (h : ∀ e ∈ w.log, e.Sendable opts) :
    ∀ e' ∈ (step opts w e).log, e'.Sendable opts := by
  rcases step_cases w e with ⟨-, hlog⟩ | ⟨mem, hmem, out, hworks, hstep⟩
  · rw [hlog]
    exact h
  · rw [hstep]
    intro e' he'
    rcases List.mem_append.mp he' with he' | he'
    · exact h e' he'
    · cases hworks with
      | op hmove => exact sendable_of_move hmove e' he'
      | drain env => exact sendable_of_upload (drainStep_upload env) e' he'
      | timer => exact sendable_of_upload timerStep_upload e' he'

omit [FloorRing K] in
/-- An item that is queued is sendable. -/
theorem sendable_of_queued {L : List (Effect K)} (h : ∀ e ∈ L, e.Sendable opts)
    {i : OutboxItem K} (hi : i ∈ queuedItems L) : i.Sendable opts := by
  obtain ⟨ops, ok, happly, hi⟩ := put_of_mem_queuedItems hi
  exact h _ happly i hi

end Steps

/-! ## How long an item is stored -/

section Waiting

/-- A write has deleted the key. -/
def Deleted (L : List (Effect K)) (key : Key) : Prop := ∃ e ∈ L, key ∈ e.deletes

/-- What was queued is stored, or deleted. -/
def Waiting (L : List (Effect K)) (disk : StoredState K) : Prop :=
  ∀ i ∈ queuedItems L, (∃ j ∈ disk.outbox, j.key = i.key) ∨ Deleted L i.key

variable {L : List (Effect K)} {disk : StoredState K}

theorem waiting_nil (disk : StoredState K) : Waiting [] disk :=
  fun _ hi => absurd hi List.not_mem_nil

theorem Deleted.mono {L' : List (Effect K)} {key : Key} (h : Deleted L key) :
    Deleted (L ++ L') key :=
  have ⟨e, he, hk⟩ := h
  ⟨e, List.mem_append_left _ he, hk⟩

/-- One effect. -/
theorem Waiting.effect (h : Waiting L disk) (e : Effect K) :
    Waiting (L ++ [e]) (e.onDisk disk) := by
  intro i hi
  rw [queuedItems_append] at hi
  unfold Effect.onDisk
  split
  · rename_i ops
    have hput : (∃ j, (j ∈ ops.putOutbox ∨ j ∈ disk.outbox) ∧ j.key = i.key) ∨ Deleted L i.key := by
      rcases List.mem_append.mp hi with hi | hi
      · exact (h i hi).imp_left fun ⟨j, hj, hkey⟩ => ⟨j, Or.inr hj, hkey⟩
      · rw [show queuedItems [Effect.apply ops true] = ops.putOutbox from List.append_nil _] at hi
        exact Or.inl ⟨i, Or.inl hi, rfl⟩
    rcases hput with ⟨j, hj, hkey⟩ | hdel
    · by_cases hdel : i.key ∈ ops.deleteOutbox
      · exact Or.inr ⟨_, List.mem_append_right _ (List.mem_singleton_self _), hdel⟩
      · obtain ⟨c, hc, hckey⟩ := exists_mem_foldl_put OutboxItem.key hj
        have hkeep : c.key ∉ ops.deleteOutbox := fun hmem => hdel (hkey ▸ hckey ▸ hmem)
        exact Or.inl ⟨c, List.mem_filter.mpr ⟨hc, decide_eq_true hkeep⟩, hckey.trans hkey⟩
    · exact Or.inr hdel.mono
  · rename_i hother
    have hnone : queuedItems [e] = [] := by
      unfold queuedItems Effect.queued
      rw [List.flatMap_singleton]
      split
      · exact absurd rfl (hother _)
      · rfl
    rw [hnone, List.append_nil] at hi
    exact (h i hi).imp_right Deleted.mono

/-- **An item that was queued is stored until a write deletes its key.** -/
theorem step_waiting [FloorRing K] {opts : RecorderOptions K} {w : World K} (e : Event K)
    (h : Waiting w.log w.disk) : Waiting (step opts w e).log (step opts w e).disk := by
  have hfold : ∀ (es L : List (Effect K)) (disk : StoredState K), Waiting L disk →
      Waiting (L ++ es) (es.foldl Effect.onDisk disk) := by
    intro es
    induction es with
    | nil => exact fun L disk h => (List.append_nil L).symm ▸ h
    | cons e es ih =>
      intro L disk h
      have htail := ih (L ++ [e]) (e.onDisk disk) (h.effect e)
      rwa [List.append_assoc] at htail
  rcases step_cases w e with ⟨hdisk, hlog⟩ | ⟨mem, hmem, out, -, hstep⟩
  · rw [hdisk, hlog]
    exact h
  · rw [hstep]
    exact hfold out.2 w.log w.disk h

end Waiting

/-! ## Where trip ids come from -/

section Started

variable {opts : RecorderOptions K} {mem : Mem K} {disk : StoredState K} {out : Out K}
  {L : List (Effect K)}

/-- The trips an effect starts or goes on. -/
theorem started_append {es : List (Effect K)} {tripId : String} :
    Started (L ++ es) tripId ↔ Started L tripId ∨ Started es tripId := by
  unfold Started
  simp only [List.mem_append, exists_or]

theorem not_started {es : List (Effect K)} {tripId : String}
    (h : ∀ e ∈ es, ∀ id route, e ≠ .follow id route) : ¬ Started es tripId :=
  fun ⟨_, hroute⟩ => h _ hroute _ _ rfl

theorem Upload.not_started (h : Upload mem out) (tripId : String) : ¬ Started out.2 tripId := by
  refine Recorder.not_started fun e he id route heq => ?_
  subst heq
  cases h with
  | quiet hb hs ho hd hdel hes => rcases hes _ he with h | ⟨_, _, h⟩ <;> cases h
  | send hb hs hs' ho hi hd => cases List.mem_singleton.mp he
  | delete hb hs ho hd hd' => rcases List.mem_pair.mp he with h | h <;> cases h
  | mark hb hd hs hs' ho hd' => rcases List.mem_pair.mp he with h | h <;> cases h
  | busy hb hs ho hd => exact absurd he List.not_mem_nil

/-- **A trip that goes on was started before, or with the id at hand.** -/
theorem Move.started [FloorRing K] {env : Env K} (h : Move opts env disk mem out)
    (hmem : MemLedger L mem) {tripId : String} (hs : Started out.2 tripId) :
    Started L tripId ∨ tripId = env.tripId := by
  have hnone : ∀ {es : List (Effect K)}, (∀ e ∈ es, ∀ id route, e ≠ .follow id route) →
      ¬ Started es tripId := Recorder.not_started
  cases h with
  | rest hc => exact absurd hs (hnone fun e he => absurd he List.not_mem_nil)
  | thrown hc =>
    refine absurd hs (hnone fun e he id route heq => ?_)
    rw [List.mem_singleton.mp he] at heq
    cases heq
  | wait hp hl hc => exact absurd hs (hnone fun e he => absurd he List.not_mem_nil)
  | flush hp hl =>
    refine absurd hs (hnone fun e he id route heq => ?_)
    obtain ⟨item, token, rfl⟩ := flush_sends e he
    cases heq
  | closeOpen hp hl ht arrived hn hop =>
    refine absurd hs (hnone fun e he id route heq => ?_)
    rcases List.mem_pair.mp he with rfl | rfl <;> cases heq
  | closeLoaded hp =>
    refine absurd hs (hnone fun e he id route heq => ?_)
    rcases List.mem_pair.mp he with rfl | rfl <;> cases heq
  | startTrip hp hl hop =>
    obtain ⟨_, hroute⟩ := hs
    rcases List.mem_pair.mp hroute with h | h
    · exact Or.inr (Effect.follow.inj h).1
    · cases h
  | advance hp hl hc hrec ht hop ha =>
    obtain ⟨_, hroute⟩ := hs
    rcases List.mem_cons.mp hroute with h | h
    · left
      have hstarted := ((hmem.prep hp).trip _ ht).trip.started
      cases ha with
      | fixSeal => cases h
      | fix => cases h
      | routeSeal => exact (Effect.follow.inj h).1 ▸ hstarted
      | route => exact (Effect.follow.inj h).1 ▸ hstarted
    · rcases List.mem_pair.mp h with h | h <;> cases h
  | settings hp hl hs' hc =>
    refine absurd hs (hnone fun e he id route heq => ?_)
    rw [List.mem_singleton.mp he] at heq
    cases heq
  | forget hc =>
    refine absurd hs (hnone fun e he id route heq => ?_)
    rw [List.mem_singleton.mp he] at heq
    cases heq

/-- One event of a phone. -/
theorem step_started [FloorRing K] {w : World K} {e : Event K} (h : WorldLedger w)
    {tripId : String} (hs : Started (step opts w e).log tripId) :
    Started w.log tripId ∨ ∃ env, e = .opStep env ∧ tripId = env.tripId := by
  rcases step_cases w e with ⟨-, hlog⟩ | ⟨mem, hmem, out, hworks, hstep⟩
  · rw [hlog] at hs
    exact Or.inl hs
  · rw [hstep] at hs
    rcases started_append.mp hs with hs | hs
    · exact Or.inl hs
    · cases hworks with
      | op hmove => exact (hmove.started (h.mem mem hmem) hs).imp_right fun hid => ⟨_, rfl, hid⟩
      | drain env => exact absurd hs ((drainStep_upload env).not_started tripId)
      | timer => exact absurd hs (timerStep_upload.not_started tripId)

end Started

/-! ## What a queued chunk holds -/

/-- Every place of a queued chunk is apart from what was private to its trip when it was sealed. -/
theorem WorldOk.chunkPrivate [FloorRing K] {opts : RecorderOptions K} {w : World K}
    (h : WorldOk opts w) {i : OutboxItem K} (hi : i ∈ queuedItems w.log) {c : TraceChunk K}
    (hc : i.body = .chunk c) :
    ∃ L t s L', w.log = L ++ .sealed t s :: L' ∧ t.tripId = i.key.tripId ∧ i ∈ s.into ∧
      ChunkPrivate opts L t c := by
  obtain ⟨ops, ok, happly, hput⟩ := put_of_mem_queuedItems hi
  obtain ⟨A, B, hAB⟩ := List.append_of_mem happly
  have hlog := h.log
  rw [hAB] at hlog
  obtain ⟨t, s, hsealed, hid, hinto⟩ := hlog.split.2.1 i hput c hc
  obtain ⟨L, L', hL⟩ := List.append_of_mem (hsealed : Effect.sealed t s ∈ A)
  subst hL
  rw [List.append_assoc] at hAB hlog
  obtain ⟨-, c', hc', hprivate⟩ := EachAfter.split hlog i hinto
  obtain rfl : c = c' := Body.chunk.inj (hc.symm.trans hc')
  exact ⟨L, t, s, L' ++ .apply ops ok :: B, hAB, hid, hinto, hprivate⟩

end RoutePlanner.Recorder
